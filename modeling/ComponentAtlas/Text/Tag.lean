import ComponentAtlas.Text.Blank
import ComponentAtlas.Text.Occurrence
import ComponentAtlas.Text.Recogniser

/-!
# Tags and entities

Running text inside markup carries tags, which stand for nothing but a gap between words, and
entities, which stand for a character.
-/

namespace ComponentAtlas.Text

def isAsciiLetter (c : Char) : Bool :=
  c.isAlpha

/-- The text after the tag at the start of a text: a tag's name begins with a letter, and the tag
runs to the next `>`. -/
def afterTag? : List Char → Option (List Char)
  | '<' :: inner =>
    match (after? ['/'] inner).getD inner with
    | c :: more => if isAsciiLetter c then (more.dropWhile (· ≠ '>')).tail? else none
    | [] => none
  | _ => none

/-- An opening or closing tag. -/
def tag : Recogniser Unit :=
  .ofReading fun s => (afterTag? s).map fun rest => ((), rest)

/-- Every tag written as a space. -/
def blankTags (cs : List Char) : List Char :=
  tag.replace (fun _ => [' ']) cs

/-- The entities for the angle brackets and the ampersand, each replaced by its character.  The
ampersand comes last, so that the text it uncovers is not read again. -/
def unescape (cs : List Char) : List Char :=
  let cs := replaceAll "&lt;".toList ['<'] cs
  let cs := replaceAll "&gt;".toList ['>'] cs
  replaceAll "&amp;".toList ['&'] cs

end ComponentAtlas.Text
