import ComponentAtlas.Text.Blank

/-!
# Commas at the top level

An argument list is cut at the commas that stand outside every bracket pair and outside every
string literal.  Brackets of all four kinds count alike, angle brackets included, and a closing
bracket without an opening one makes the depth negative, where commas still cut.
-/

namespace ComponentAtlas.Text

/-- Where a scan of an argument list stands: inside a string literal (perhaps just behind a
backslash), or outside at some bracket depth. -/
inductive Nesting
  | outside (depth : Int)
  | quoted (depth : Int) (escaped : Bool)
  deriving DecidableEq, Repr

namespace Nesting

def start : Nesting := .outside 0

/-- Where the scan stands after one more character. -/
def next : Nesting → Char → Nesting
  | .quoted d true, _ => .quoted d false
  | .quoted d false, c =>
    if c = '\\' then .quoted d true else if c = '"' then .outside d else .quoted d false
  | .outside d, c =>
    if c = '"' then .quoted d false
    else if c = '<' ∨ c = '(' ∨ c = '[' ∨ c = '{' then .outside (d + 1)
    else if c = '>' ∨ c = ')' ∨ c = ']' ∨ c = '}' then .outside (d - 1)
    else .outside d

/-- Whether a comma met here separates two arguments. -/
def separates : Nesting → Bool
  | .outside d => decide (d ≤ 0)
  | .quoted _ _ => false

end Nesting

/-- The raw parts of an argument list scanned from `n`; always at least one. -/
def partsFrom (n : Nesting) : List Char → List (List Char)
  | [] => [[]]
  | c :: rest =>
    if c = ',' ∧ n.separates then [] :: partsFrom n rest
    else match partsFrom (n.next c) rest with
      | [] => [[c]]
      | part :: parts => (c :: part) :: parts

/-- The arguments between the top-level commas, trimmed; blank ones are left out. -/
def splitTopLevel (cs : List Char) : List (List Char) :=
  ((partsFrom .start cs).map trim).filter (fun part => !part.isEmpty)

end ComponentAtlas.Text
