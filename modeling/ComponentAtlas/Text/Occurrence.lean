/-!
# Occurrences of one text in another

Where a text begins with another one, contains it, or ends with it; the text around the first
occurrence; and the replacement of all occurrences from left to right.
-/

namespace ComponentAtlas.Text

/-- What follows `p` in a text that begins with `p`. -/
def after? : List Char → List Char → Option (List Char)
  | [], cs => some cs
  | _ :: _, [] => none
  | p :: ps, c :: cs => if p = c then after? ps cs else none

/-- What precedes `e` in a text that ends with `e`. -/
def beforeEnd? (e cs : List Char) : Option (List Char) :=
  (after? e.reverse cs.reverse).map List.reverse

def endsWith (e cs : List Char) : Bool :=
  (beforeEnd? e cs).isSome

theorem length_after? {p cs rest : List Char} (h : after? p cs = some rest) :
    cs.length = p.length + rest.length := by
  induction p generalizing cs with
  | nil => simp_all [after?]
  | cons a p ih =>
    cases cs with
    | nil => simp [after?] at h
    | cons c cs =>
      by_cases hac : a = c
      · simp only [after?, if_pos hac] at h
        have := ih h
        simp only [List.length_cons]
        omega
      · simp [after?, hac] at h

/-- The text before and after the first occurrence of `p`. -/
def cut? (p : List Char) : List Char → Option (List Char × List Char)
  | [] => if p.isEmpty then some ([], []) else none
  | c :: cs =>
    match after? p (c :: cs) with
    | some rest => some ([], rest)
    | none => (cut? p cs).map fun (before, rest) => (c :: before, rest)

/-- Whether `p` occurs anywhere in a text. -/
def contains (p cs : List Char) : Bool :=
  (cut? p cs).isSome

/-- The text up to the first occurrence of a character, or all of it. -/
def upTo (c : Char) (cs : List Char) : List Char :=
  cs.takeWhile (· ≠ c)

/-- The text after the last occurrence of a character, or all of it. -/
def afterLast (c : Char) (cs : List Char) : List Char :=
  (cs.reverse.takeWhile (· ≠ c)).reverse

/-- The parts of a text between the occurrences of a character; always at least one. -/
def splitAtChar (c : Char) : List Char → List (List Char)
  | [] => [[]]
  | d :: rest =>
    match splitAtChar c rest with
    | [] => [[]]
    | part :: parts => if d = c then [] :: part :: parts else (d :: part) :: parts

/-- A text with every occurrence of `p`, from left to right, written as `r`; nothing is replaced
when `p` is empty. -/
def replaceAll (p r : List Char) : List Char → List Char
  | [] => []
  | c :: cs =>
    match _found : after? p (c :: cs) with
    | some rest =>
      if p.isEmpty then c :: replaceAll p r cs
      else r ++ replaceAll p r rest
    | none => c :: replaceAll p r cs
  termination_by cs => cs.length
  decreasing_by
    · simp
    · rename_i hp
      have := length_after? _found
      have hne : p.length ≠ 0 := by
        intro h0
        exact hp (by simp [List.length_eq_zero_iff.mp h0])
      omega
    · simp

/-- Equality of texts when the case of ASCII letters does not count. -/
def sameIgnoringCase (a b : String) : Bool :=
  a.toList.map Char.toLower == b.toList.map Char.toLower

end ComponentAtlas.Text
