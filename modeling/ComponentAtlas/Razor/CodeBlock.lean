import ComponentAtlas.Text.Blank
import ComponentAtlas.Text.Lines
import ComponentAtlas.Text.Recogniser

/-!
# The code block of a Razor file

A Razor file is markup with at most one block `@code { … }` that counts.  The block ends at the
brace that balances its opening one, braces in double quotes not counted; a block that is never
closed runs to the end of the file.  What follows the block is markup again.
-/

namespace ComponentAtlas.Razor

open ComponentAtlas.Text

/-- The text behind the opener of a code block at the start of a text. -/
def afterOpener? (s : List Char) : Option (List Char) :=
  (after? "@code".toList s).bind fun rest =>
    match rest.dropWhile isBlank with
    | '{' :: body => some body
    | _ => none

/-- The opener of a code block: the word, blanks, and a brace. -/
def opener : Recogniser Unit :=
  .ofReading fun s => (afterOpener? s).map fun body => ((), body)

/-- Where a scan of a code block stands: in code or in a string literal, at some depth of
braces. -/
inductive BlockPlace
  | code (depth : Nat)
  | quoted (depth : Nat) (escaped : Bool)
  deriving DecidableEq, Repr

namespace BlockPlace

/-- Where the scan stands after one more character; `none` when that closes the block. -/
def next? : BlockPlace → Char → Option BlockPlace
  | .quoted d true, _ => some (.quoted d false)
  | .quoted d false, c =>
    some (if c = '\\' then .quoted d true else if c = '"' then .code d else .quoted d false)
  | .code d, c =>
    if c = '"' then some (.quoted d false)
    else if c = '{' then some (.code (d + 1))
    else if c = '}' then
      match d with
      | 0 => none
      | d + 1 => some (.code d)
    else some (.code d)

end BlockPlace

/-- The text of a block up to its closing brace, and what follows the brace; all of the text
when the block is never closed. -/
def blockFrom (place : BlockPlace) : List Char → List Char × List Char
  | [] => ([], [])
  | c :: rest =>
    match place.next? c with
    | none => ([], rest)
    | some place' =>
      let (block, after) := blockFrom place' rest
      (c :: block, after)

/-- The text after its first `n` bytes, where a character ends there. -/
def dropBytes? : Nat → List Char → Option (List Char)
  | 0, cs => some cs
  | _ + 1, [] => none
  | n + 1, c :: cs => if c.utf8Size ≤ n + 1 then dropBytes? (n + 1 - c.utf8Size) cs else none
  termination_by _ cs => cs.length

def byteLength (cs : List Char) : Nat :=
  cs.foldl (fun n c => n + c.utf8Size) 0

/-- The width of a line's leading blanks, in bytes. -/
def indentation (line : List Char) : Nat :=
  byteLength (line.takeWhile isBlank)

/-- The smallest indentation among the lines that are not blank. -/
def commonIndentation (ls : List (List Char)) : Nat :=
  ((ls.filter fun l => !allBlank l).map indentation).min?.getD 0

/-- The text with the indentation common to its lines removed, trimmed. -/
def dedent (cs : List Char) : List Char :=
  let ls := lines cs
  let width := commonIndentation ls
  trim (unlines (ls.map fun l => (dropBytes? width l).getD (trimStart l)))

/-- A Razor file cut at its code block. -/
structure Parts where
  markup : List Char
  code : Option (List Char)
  deriving DecidableEq, Repr

/-- The markup of a Razor file and the dedented body of its code block. -/
def split (source : List Char) : Parts :=
  match opener.pieces source, opener.findFirst? source with
  | (before, _), some (_, body) =>
    let (block, after) := blockFrom (.code 0) body
    ⟨if allBlank after then before else before ++ '\n' :: after, some (dedent block)⟩
  | _, none => ⟨source, none⟩

end ComponentAtlas.Razor
