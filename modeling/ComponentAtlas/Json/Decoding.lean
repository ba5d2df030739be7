import ComponentAtlas.Json

/-!
# Reading records from JSON

A record is read from an object, whose entries are found by name, or from a list, whose elements
are the record's fields in order.  A field may not be given twice.  Entries of unknown names are
passed over; a list may not hold more than the fields.
-/

namespace ComponentAtlas

abbrev Decoder (α : Type) := Json → Option α

namespace Decoder

def string : Decoder String
  | .string s => some s
  | _ => none

def bool : Decoder Bool
  | .bool b => some b
  | _ => none

/-- A whole number that is not negative. -/
def nat : Decoder Nat
  | .int n => if 0 ≤ n then some n.toNat else none
  | _ => none

/-- `null` stands for an absent value. -/
def option {α : Type} (d : Decoder α) : Decoder (Option α)
  | .null => some none
  | v => (d v).map some

def list {α : Type} (d : Decoder α) : Decoder (List α)
  | .array items => items.mapM d
  | _ => none

/-- A word, alone or as the name of an entry without contents. -/
def word : Decoder String
  | .string s => some s
  | .object [(s, .null)] => some s
  | _ => none

end Decoder

/-- The fields of a record as they are given: by name, or by position. -/
inductive Fields
  | named (entries : List (String × Json))
  | listed (items : List Json)

namespace Fields

/-- The fields in a value that holds a record of `count` fields. -/
def of? (count : Nat) : Json → Option Fields
  | .object entries => some (.named entries)
  | .array items => if items.length ≤ count then some (.listed items) else none
  | _ => none

/-- The values given for the field with some position and name. -/
def values (f : Fields) (position : Nat) (name : String) : List Json :=
  match f with
  | .named entries => (entries.filter fun e => e.1 == name).map Prod.snd
  | .listed items => items[position]?.toList

/-- A field that has to be given. -/
def required {α : Type} (f : Fields) (position : Nat) (name : String) (d : Decoder α) :
    Option α :=
  match f.values position name with
  | [v] => d v
  | _ => none

/-- A field with a value to take when it is not given. -/
def defaulted {α : Type} (f : Fields) (position : Nat) (name : String) (default : α)
    (d : Decoder α) : Option α :=
  match f.values position name with
  | [v] => d v
  | [] => some default
  | _ => none

/-- A field that may be absent: left out of an object, or `null`. -/
def optional {α : Type} (f : Fields) (position : Nat) (name : String) (d : Decoder α) :
    Option (Option α) :=
  match f, f.values position name with
  | _, [v] => d.option v
  | .named _, [] => some none
  | _, _ => none

end Fields
end ComponentAtlas
