import ComponentAtlas.Text.Blank
import ComponentAtlas.Text.Occurrence

/-!
# Fields to search

A search looks at some of four fields of a component.  A selection of fields is spelled as words
between commas, or as a number with one bit for each field.
-/

namespace ComponentAtlas

inductive SearchField
  | name
  | description
  | parameters
  | examples
  deriving DecidableEq, Repr

/-- A selection of fields. -/
structure SearchFields where
  name : Bool
  description : Bool
  parameters : Bool
  examples : Bool
  deriving DecidableEq, Repr

/-- What is wrong with a text that spells no selection. -/
inductive SearchFieldsError
  | unknownField (word : String)
  | noField
  deriving DecidableEq, Repr

namespace SearchField

def all : List SearchField := [.name, .description, .parameters, .examples]

/-- The number that stands for a field in a selection. -/
def bit : SearchField → Nat
  | .name => 1
  | .description => 2
  | .parameters => 4
  | .examples => 8

end SearchField

namespace SearchFields

def empty : SearchFields := ⟨false, false, false, false⟩

def full : SearchFields := ⟨true, true, true, true⟩

def selects (fs : SearchFields) : SearchField → Bool
  | .name => fs.name
  | .description => fs.description
  | .parameters => fs.parameters
  | .examples => fs.examples

def isEmpty (fs : SearchFields) : Bool :=
  !SearchField.all.any fs.selects

def union (fs gs : SearchFields) : SearchFields :=
  ⟨fs.name || gs.name, fs.description || gs.description, fs.parameters || gs.parameters,
    fs.examples || gs.examples⟩

/-- The number of a selection: the sum of the numbers of its fields. -/
def toBits (fs : SearchFields) : Nat :=
  (SearchField.all.filter fs.selects).foldl (fun n field => n + field.bit) 0

/-- The selection with a number; bits that stand for no field do not count. -/
def ofBits (n : Nat) : SearchFields :=
  ⟨n.testBit 0, n.testBit 1, n.testBit 2, n.testBit 3⟩

/-- The fields that a word in lower case stands for. -/
def ofWord? (word : String) : Option SearchFields :=
  if word = "name" ∨ word = "names" then some { empty with name := true }
  else if word = "description" ∨ word = "descriptions" then
    some { empty with description := true }
  else if word = "parameter" ∨ word = "parameters" then some { empty with parameters := true }
  else if word = "example" ∨ word = "examples" then some { empty with examples := true }
  else if word = "all" then some full
  else none

/-- The words of a selection in lower case: the parts between commas that are not blank. -/
def wordsOf (text : String) : List String :=
  (((Text.splitAtChar ',' text.toList).map Text.trim).filter (!·.isEmpty)).map fun part =>
    String.ofList (part.map Char.toLower)

/-- The fields that any of some words stands for, together with `fs`. -/
def addWords (fs : SearchFields) : List String → Except SearchFieldsError SearchFields
  | [] => .ok fs
  | word :: rest =>
    match ofWord? word with
    | some gs => addWords (fs.union gs) rest
    | none => .error (.unknownField word)

/-- The selection that a text spells.  It is never empty. -/
def ofText (text : String) : Except SearchFieldsError SearchFields :=
  match addWords empty (wordsOf text) with
  | .error e => .error e
  | .ok fs => if fs.isEmpty then .error .noField else .ok fs

end SearchFields

namespace SearchFieldsError

def message : SearchFieldsError → String
  | .unknownField word =>
    "unknown field '" ++ word ++ "' (expected name, description, parameters, examples or all)"
  | .noField => "no fields selected"

end SearchFieldsError
end ComponentAtlas
