import ComponentAtlas.Text.Occurrence

/-!
# Lines

A line ends with a line feed, which may follow a carriage return; neither belongs to the line.
The text after the last line feed is a line of its own unless it is empty.
-/

namespace ComponentAtlas.Text

/-- A line without the carriage return that stood before its line feed. -/
def dropReturn (line : List Char) : List Char :=
  (beforeEnd? ['\r'] line).getD line

/-- The parts between line feeds, of which all but the last were ended by one. -/
def linesOfParts : List (List Char) → List (List Char)
  | [] => []
  | [last] => if last.isEmpty then [] else [last]
  | part :: next :: parts => dropReturn part :: linesOfParts (next :: parts)

/-- The lines of a text, without their ends. -/
def lines (cs : List Char) : List (List Char) :=
  linesOfParts (splitAtChar '\n' cs)

/-- Lines joined by line feeds. -/
def unlines (ls : List (List Char)) : List Char :=
  ['\n'].intercalate ls

end ComponentAtlas.Text
