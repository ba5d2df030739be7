/-!
# Lists of keyed values

A list of values under keys, where the first value of a key counts.
-/

namespace ComponentAtlas

abbrev Keyed (α : Type) := List (String × α)

namespace Keyed

variable {α : Type}

/-- The value under a key. -/
def get? (t : Keyed α) (key : String) : Option α :=
  (t.find? fun e => e.1 == key).map Prod.snd

/-- Without the values under a key. -/
def erase (t : Keyed α) (key : String) : Keyed α :=
  t.filter fun e => e.1 != key

/-- With a value under a key, in place of any other. -/
def put (t : Keyed α) (key : String) (value : α) : Keyed α :=
  (key, value) :: t.erase key

end Keyed
end ComponentAtlas
