import ComponentAtlas.Text.Tag
import ComponentAtlas.Unicode.Word

/-!
# The markup of documentation pages

Pages are written by hand, so every construct is optional and is recognised wherever it stands:
opening tags with their attributes, elements with their text, and a few expressions.
-/

namespace ComponentAtlas.Markup

open Text

/-! ## Tags with attributes -/

structure OpenTag where
  attributes : List Char
  selfClosing : Bool
  deriving DecidableEq, Repr

/-- The attribute text of an opening tag up to its end, whether the tag closes itself, and the
text behind it.  A quoted value may hold the characters that end a tag. -/
def tagEnd? (quoted : Bool) : List Char → Option (OpenTag × List Char)
  | [] => none
  | c :: rest =>
    if quoted then
      (tagEnd? (c != '"') rest).map fun (t, behind) => ({ t with attributes := c :: t.attributes },
        behind)
    else if c = '>' then some (⟨[], false⟩, rest)
    else match (if c = '/' then after? ['>'] rest else none) with
      | some behind => some (⟨[], true⟩, behind)
      | none =>
        (tagEnd? (c == '"') rest).map fun (t, behind) =>
          ({ t with attributes := c :: t.attributes }, behind)

/-- Whether a text does not go on with a word character. -/
def endsWord : List Char → Bool
  | [] => true
  | c :: _ => !Unicode.isWord c

/-- An opening tag with a given name. -/
def openTag (name : String) : Recogniser OpenTag :=
  .ofReading fun s =>
    (after? ('<' :: name.toList) s).bind fun rest =>
      if endsWord rest then tagEnd? false rest else none

def isNameCharacter (c : Char) : Bool :=
  Unicode.isWord c || c == '-'

/-- A quoted text behind an equals sign, and the text after it. -/
def assignedText? (s : List Char) : Option (List Char × List Char) :=
  (after? ['='] (s.dropWhile isBlank)).bind fun rest =>
    (after? ['"'] (rest.dropWhile isBlank)).bind fun quoted =>
      let value := upTo '"' quoted
      (after? ['"'] (quoted.drop value.length)).map fun behind => (value, behind)

/-- An attribute with a quoted value. -/
def assignment : Recogniser (List Char × List Char) :=
  .ofReading fun s =>
    match s with
    | c :: rest =>
      if isAsciiLetter c then
        let more := rest.takeWhile isNameCharacter
        (assignedText? (rest.drop more.length)).map fun (value, behind) =>
          ((c :: more, value), behind)
      else none
    | [] => none

/-- The value of the first attribute with a given name, whatever the case of its letters. -/
def attribute? (attributes : List Char) (name : String) : Option (List Char) :=
  ((assignment.findAll attributes).find? fun entry =>
    sameIgnoringCase (String.ofList entry.1) name).map Prod.snd

/-! ## Elements -/

/-- The text behind a tag that consists of `start`, blanks and a closing bracket. -/
def afterBareTag? (start : List Char) (s : List Char) : Option (List Char) :=
  (after? start s).bind fun rest => after? ['>'] (rest.dropWhile isBlank)

/-- The text up to the first place where `end?` finds an end, and the text behind that end. -/
def textUntil? (end? : List Char → Option (List Char)) :
    List Char → Option (List Char × List Char)
  | [] => none
  | c :: rest =>
    match end? (c :: rest) with
    | some behind => some ([], behind)
    | none => (textUntil? end? rest).map fun (text, behind) => (c :: text, behind)

/-- An element without attributes: the text between its tags. -/
def element (name : String) : Recogniser (List Char) :=
  .ofReading fun s =>
    (afterBareTag? ('<' :: name.toList) s).bind
      (textUntil? (afterBareTag? ('<' :: '/' :: name.toList)))

/-! ## Expressions -/

/-- The words of a dotted expression behind its first one, and the text behind them. -/
def dottedWords : Nat → List Char → List (List Char) × List Char
  | 0, s => ([], s)
  | fuel + 1, s =>
    match after? ['.'] s with
    | some rest =>
      let word := rest.takeWhile Unicode.isWord
      if word.isEmpty then ([], s)
      else
        let (more, behind) := dottedWords fuel (rest.drop word.length)
        (word :: more, behind)
    | none => ([], s)

/-- An expression in running text: an at sign and a dotted name, which may stand in parentheses.
Its value is its last word. -/
def expression : Recogniser (List Char) :=
  .ofReading fun s =>
    (after? ['@'] s).bind fun rest =>
      let inner := (after? ['('] rest).getD rest
      let word := inner.takeWhile Unicode.isWord
      if word.isEmpty then none
      else
        let (more, behind) := dottedWords s.length (inner.drop word.length)
        some ((more.getLast?).getD word, (after? [')'] behind).getD behind)

/-- Prose without its markup: a tag stands for a space, an expression for its last word, an entity
for its character; the words are then written with single spaces. -/
def plainText? (cs : List Char) : Option String :=
  let text := expression.replace id (blankTags cs)
  nonEmpty? (collapse (unescape (replaceAll "&nbsp;".toList [' '] text)))

end ComponentAtlas.Markup
