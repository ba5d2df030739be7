import ComponentAtlas.Text.Blank
import ComponentAtlas.Text.Occurrence
import ComponentAtlas.Unicode.Word

/-!
# Names of types

How the text of a type is taken apart: its simple name, whether it is an awaitable task, and
whether it is an event callback, with or without a type argument.
-/

namespace ComponentAtlas.TypeName

open Text

/-- The name of a type without type arguments, nullable mark and qualification. -/
def simple (type : List Char) : List Char :=
  afterLast '.' (dropEndWhile (· == '?') (trim (upTo '<' type)))

/-- Whether a name is spelled like an interface's: an I and another capital. -/
def looksLikeInterface : List Char → Bool
  | 'I' :: c :: _ => c.isUpper
  | _ => false

/-- What follows a possibly qualified name in the text of a type, when that name is `word`. -/
def behindName? (word : String) (type : List Char) : Option (List Char) :=
  let name := type.takeWhile fun c => Unicode.isWord c || c == '.'
  let behind := type.drop name.length
  match beforeEnd? word.toList name with
  | some [] => some behind
  | some qualifier =>
    if decide (2 ≤ qualifier.length) && qualifier.getLast? == some '.' then some behind else none
  | none => none

/-- The text between angle brackets that are all of a text. -/
def angleArgument? (cs : List Char) : Option (List Char) :=
  (after? ['<'] cs).bind fun rest =>
    (beforeEnd? ['>'] rest).bind fun argument =>
      if argument.isEmpty || argument.contains '\n' then none else some argument

/-- Whether a type is an awaitable task, with or without a result. -/
def isAwaitable (type : List Char) : Bool :=
  ["Task", "ValueTask"].any fun word =>
    match behindName? word type with
    | some behind => behind.isEmpty || (angleArgument? behind).isSome
    | none => false

/-- The type argument of an event callback, if the type is one; it may be nullable. -/
def callbackArgument? (type : List Char) : Option (Option (List Char)) :=
  (behindName? "EventCallback" type).bind fun behind =>
    if behind.isEmpty || behind == ['?'] then some none
    else
      ((angleArgument? behind).or
        ((beforeEnd? ['?'] behind).bind angleArgument?)).map fun argument => some (trim argument)

end ComponentAtlas.TypeName
