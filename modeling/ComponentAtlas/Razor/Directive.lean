import ComponentAtlas.Text.Blank
import ComponentAtlas.Text.Lines
import ComponentAtlas.Text.Recogniser
import ComponentAtlas.Unicode.Word

/-!
# Directive lines of a Razor file

A directive is an at sign and a word at the start of a line.  Some directives carry no content
of an example and are stripped from it; three of them say something about the component that the
file declares.
-/

namespace ComponentAtlas.Razor

open ComponentAtlas.Text

/-! ## Lines without content -/

/-- The words of the directives that are stripped from examples. -/
def strippedWords : List String :=
  ["page", "using", "namespace", "inject", "implements", "inherits", "attribute", "layout",
    "typeparam", "rendermode", "preservewhitespace"]

/-- Whether a line is a directive without content: blanks, an at sign, and one of the words, all
of it. -/
def isDirectiveLine (line : List Char) : Bool :=
  match line.dropWhile isBlank with
  | '@' :: rest => strippedWords.any fun w => w.toList == rest.takeWhile Unicode.isWord
  | _ => false

/-- The lines of a text that are no directives, trimmed as a whole. -/
def stripDirectives (markup : List Char) : List Char :=
  trim (unlines ((lines markup).filter fun l => !isDirectiveLine l))

/-! ## Directives about the component -/

/-- The directives that tell about the declared class. -/
inductive DirectiveKind
  | inheritsFrom
  | inNamespace
  | typeParameter
  deriving DecidableEq, Repr

def directiveWords : List (String × DirectiveKind) :=
  [("inherits", .inheritsFrom), ("namespace", .inNamespace), ("typeparam", .typeParameter)]

/-- Whether nothing but blanks is left on the line, which may be the last one. -/
def endsLine (s : List Char) : Bool :=
  (s.takeWhile isBlank).contains '\n' || (s.dropWhile isBlank).isEmpty

/-- What a search goes on with behind a line that has ended: the last line end of the blanks
here, or nothing. -/
def fromLineEnd (s : List Char) : List Char :=
  if (s.dropWhile isBlank).isEmpty then []
  else
    let blanks := s.takeWhile isBlank
    s.drop (blanks.length - 1 - (blanks.reverse.takeWhile (· ≠ '\n')).length)

/-- The value at the start of a text: the shortest part of a line behind which the line ends. -/
def directiveValue? : List Char → Option (List Char × List Char)
  | [] => none
  | c :: rest =>
    if c = '\n' ∨ c = '\r' then none
    else if endsLine rest then some ([c], fromLineEnd rest)
    else (directiveValue? rest).map fun (value, behind) => (c :: value, behind)

/-- The value behind a directive's word, after all blanks, or after fewer where that gives
none. -/
def valueBehind? (s : List Char) : Nat → Option (List Char × List Char)
  | 0 => none
  | n + 1 => (directiveValue? (s.drop (n + 1))).or (valueBehind? s n)

/-- A directive behind a line end: its kind and its trimmed value. -/
def directiveBehind? (s : List Char) : Option ((DirectiveKind × List Char) × List Char) :=
  (after? ['@'] (s.dropWhile isBlank)).bind fun named =>
    directiveWords.findSome? fun (word, kind) =>
      (after? word.toList named).bind fun rest =>
        (valueBehind? rest (rest.takeWhile isBlank).length).map fun (value, behind) =>
          ((kind, trim value), behind)

def directive : Recogniser (DirectiveKind × List Char) :=
  .ofReading fun s => (after? ['\n'] s).bind directiveBehind?

/-- All directives about the component, in order. -/
def directives (source : List Char) : List (DirectiveKind × List Char) :=
  directive.findAll ('\n' :: source)

end ComponentAtlas.Razor
