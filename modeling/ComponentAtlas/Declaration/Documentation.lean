import ComponentAtlas.Text.Tag

/-!
# Documentation comments

The lines of a declaration's documentation comment form a piece of markup.  Four elements of it
are kept as plain text: the summary, the remarks, the return value and the parameters.  Lines
without any markup are a summary by themselves.
-/

namespace ComponentAtlas

open Text

structure Documentation where
  summary : Option String
  remarks : Option String
  returns : Option String
  /-- The text on each parameter, the last one written first. -/
  parameters : List (String × String)
  deriving DecidableEq, Repr

namespace Documentation

def empty : Documentation := ⟨none, none, none, []⟩

def parameter? (d : Documentation) (name : String) : Option String :=
  (d.parameters.find? fun entry => entry.1 == name).map Prod.snd

/-! ## References and plain text -/

/-- What follows one of some words. -/
def afterOneOf? (ws : List String) (s : List Char) : List (List Char) :=
  ws.filterMap fun w => after? w.toList s

/-- What follows blanks, of which there is at least one. -/
def afterBlanks? (s : List Char) : Option (List Char) :=
  match s with
  | c :: rest => if isBlank c then some (rest.dropWhile isBlank) else none
  | [] => none

/-- The target of a reference without its kind letter. -/
def withoutKind (target : List Char) : List Char :=
  match target with
  | c :: ':' :: rest => if c.isUpper then rest else target
  | _ => target

/-- An empty element that refers to something: the target, and the text behind it. -/
def reference? (s : List Char) : Option (List Char × List Char) :=
  (after? ['<'] s).bind fun element =>
    (afterOneOf? ["see", "seealso", "paramref", "typeparamref"] element).findSome? fun rest =>
      (afterBlanks? rest).bind fun named =>
        (afterOneOf? ["cref", "name", "langword", "href"] named).findSome? fun rest =>
          (after? ['=', '"'] rest).bind fun quoted =>
            let target := upTo '"' quoted
            (after? ['"'] (quoted.drop target.length)).bind fun rest =>
              (after? ['/', '>'] (rest.dropWhile isBlank)).map fun behind =>
                (withoutKind target, behind)

def reference : Recogniser (List Char) :=
  .ofReading reference?

/-- Prose without its markup: a reference stands for its target, any other tag for a space, an
entity for its character; the words are then written with single spaces. -/
def plainText? (cs : List Char) : Option String :=
  nonEmpty? (collapse (unescape (blankTags (reference.replace id cs))))

/-! ## Elements -/

/-- The elements that are kept. -/
inductive Element
  | summary
  | remarks
  | returns
  | param
  deriving DecidableEq, Repr

def elementWords : List (String × Element) :=
  [("summary", .summary), ("remarks", .remarks), ("returns", .returns), ("param", .param)]

/-- The closing tags; any of them closes any element. -/
def closingTags : List String :=
  ["</summary>", "</remarks>", "</returns>", "</param>"]

/-- The text up to the nearest closing tag, and the text behind that. -/
def body? : List Char → Option (List Char × List Char)
  | [] => none
  | c :: rest =>
    match (afterOneOf? closingTags (c :: rest)).head? with
    | some behind => some ([], behind)
    | none => (body? rest).map fun (body, behind) => (c :: body, behind)

/-- The name attribute at the start of a text, and the text behind it. -/
def nameAttribute? (s : List Char) : Option (List Char × List Char) :=
  (afterBlanks? s).bind fun rest =>
    (after? "name=\"".toList rest).bind fun quoted =>
      let name := upTo '"' quoted
      (after? ['"'] (quoted.drop name.length)).map fun behind => (name, behind)

/-- The end of an opening tag, and the element's text. -/
def openedBody? (s : List Char) : Option (List Char × List Char) :=
  (after? ['>'] (s.dropWhile isBlank)).bind body?

structure ElementText where
  element : Element
  name : Option (List Char)
  body : List Char

/-- An element at the start of a text, and the text behind it. -/
def element? (s : List Char) : Option (ElementText × List Char) :=
  (after? ['<'] s).bind fun tag =>
    elementWords.findSome? fun (word, element) =>
      (after? word.toList tag).bind fun rest =>
        let named := (nameAttribute? rest).bind fun (name, behind) =>
          (openedBody? behind).map fun (body, left) => (⟨element, some name, body⟩, left)
        named.or ((openedBody? rest).map fun (body, left) => (⟨element, none, body⟩, left))

/-- What one more element adds; a blank one adds nothing, a later one replaces an earlier. -/
def add (d : Documentation) (e : ElementText) : Documentation :=
  match plainText? e.body with
  | none => d
  | some text =>
    match e.element with
    | .summary => { d with summary := some text }
    | .remarks => { d with remarks := some text }
    | .returns => { d with returns := some text }
    | .param =>
      match e.name with
      | some name => { d with parameters := (String.ofList name, text) :: d.parameters }
      | none => d

/-- The documentation that the lines of a comment hold. -/
def ofLines (lines : List (List Char)) : Documentation :=
  let markup := ['\n'].intercalate lines
  let d := ((Recogniser.ofReading element?).findAll markup).foldl add empty
  if d.summary.isNone && !markup.contains '<' then { d with summary := plainText? markup } else d

end Documentation
end ComponentAtlas
