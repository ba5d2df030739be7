/-!
# Keeping the first of each

A list without those elements for which an equivalent one stands earlier.
-/

namespace ComponentAtlas

/-- The elements of a list that are the first of their kind, where `seen` are the firsts met
already. -/
def firstsAfter {α : Type} (same : α → α → Bool) (seen : List α) : List α → List α
  | [] => []
  | x :: xs =>
    if seen.any fun y => same y x then firstsAfter same seen xs
    else x :: firstsAfter same (seen ++ [x]) xs

/-- The elements of a list that are the first of their kind, in order. -/
def firsts {α : Type} (same : α → α → Bool) (xs : List α) : List α :=
  firstsAfter same [] xs

/-- What is new in `ys` against `xs`, appended to `xs`. -/
def appendNew {α : Type} (same : α → α → Bool) (xs ys : List α) : List α :=
  xs ++ firstsAfter same xs ys

end ComponentAtlas
