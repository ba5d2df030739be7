/-!
# Sets of characters given by their boundaries

A property of the Unicode standard holds on some hundreds of ranges of code points.  Such a set
is written down as the increasing list of the points at which membership changes: the first
boundary opens a range, the second closes it, and so on.  A character is inside exactly when an
odd number of boundaries lie at or below it.
-/

namespace ComponentAtlas.Unicode

/-- A set of characters, as the increasing list of code points at which membership flips. -/
structure CharSet where
  boundaries : List Nat

namespace CharSet

/-- Whether the code point `n` is inside: an odd number of boundaries are at or below it. -/
def containsCode (s : CharSet) (n : Nat) : Bool :=
  (s.boundaries.takeWhile (fun b => decide (b ≤ n))).length % 2 == 1

def contains (s : CharSet) (c : Char) : Bool :=
  s.containsCode c.toNat

@[simp] theorem containsCode_empty (n : Nat) : (CharSet.mk []).containsCode n = false := rfl

end CharSet

end ComponentAtlas.Unicode
