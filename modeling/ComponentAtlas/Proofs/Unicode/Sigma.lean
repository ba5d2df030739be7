import ComponentAtlas.Proofs.Unicode.LowerCase
import Mathlib.Data.List.TakeWhile

/-!
# Sigmas at the end of a word

Lower case is taken character by character but for the capital sigma, whose form says whether it
ends a word.  So a text keeps its lower-case form inside another one just when each of its capital
sigmas ends a word there exactly if it does so in the text alone (`SigmasKept`,
`lowerBetween_eq_lowerChars_iff`), and the form of two texts put together is that of the one and
then that of the other under the same condition on both (`toLower_append_iff`).

What decides whether a sigma ends a word are the nearest characters on either side that are not
passed over.  When the text itself has such a character, nothing outside of the text counts; so only
the first and the last capital sigma of a text can change, and `sigmasKept_everywhere_iff` says when
these do not either.
-/

namespace ComponentAtlas.Unicode

/-- Whether a letter between two texts ends a word there: a cased letter stands before it and none
behind it.  The text before it is read backwards. -/
def endsWord (before behind : List Char) : Bool :=
  startsCased before && !startsCased behind

/-- The lower-case form of a character between two texts. -/
def lowerAt (before : List Char) (c : Char) (behind : List Char) : List Char :=
  if c.toNat = 931 then [if endsWord before behind then 'ς' else 'σ'] else lowerChar c

/-- The lower-case form of a text between two others. -/
def lowerBetween (before : List Char) : List Char → List Char → List Char
  | [], _ => []
  | c :: cs, behind => lowerAt before c (cs ++ behind) ++ lowerBetween (c :: before) cs behind

/-- Each capital sigma of a text ends a word between two others just when it does so in the text
alone. -/
def SigmasKept (left cs right : List Char) : Prop :=
  ∀ front back, cs = front ++ 'Σ' :: back →
    endsWord (front.reverse ++ left.reverse) (back ++ right) = endsWord front.reverse back

/-! ## Lower case of a part -/

section

variable {before before' behind behind' cs ds : List Char} {c : Char}

theorem eq_sigma_iff : c.toNat = 931 ↔ c = 'Σ' :=
  ⟨fun h => Char.toNat_inj.mp h, fun h => h ▸ rfl⟩

theorem lowerBetween_append (before cs ds behind : List Char) :
    lowerBetween before (cs ++ ds) behind =
      lowerBetween before cs (ds ++ behind) ++ lowerBetween (cs.reverse ++ before) ds behind := by
  induction cs generalizing before with
  | nil => rfl
  | cons c cs ih =>
      rw [List.cons_append, lowerBetween, lowerBetween, ih, List.append_assoc cs ds behind,
        List.append_assoc, List.reverse_cons, List.append_assoc cs.reverse, List.singleton_append]

theorem lowerBetween_nil (before cs : List Char) :
    lowerBetween before cs [] = lowerAfter before cs := by
  induction cs generalizing before with
  | nil => rfl
  | cons c cs ih =>
      rw [lowerBetween, lowerAfter, ih, List.append_nil]
      rfl

theorem lowerChars_eq (cs : List Char) : lowerChars cs = lowerBetween [] cs [] :=
  (lowerBetween_nil [] cs).symm

theorem length_lowerAt (before before' behind behind' : List Char) (c : Char) :
    (lowerAt before c behind).length = (lowerAt before' c behind').length := by
  unfold lowerAt
  split <;> rfl

theorem length_lowerBetween (before before' behind behind' cs : List Char) :
    (lowerBetween before cs behind).length = (lowerBetween before' cs behind').length := by
  induction cs generalizing before before' with
  | nil => rfl
  | cons c cs ih =>
      rw [lowerBetween, lowerBetween, List.length_append, List.length_append,
        length_lowerAt before before' (cs ++ behind) (cs ++ behind'), ih]

theorem lowerAt_eq_iff : lowerAt before c behind = lowerAt before' c behind' ↔
    (c = 'Σ' → endsWord before behind = endsWord before' behind') := by
  unfold lowerAt
  by_cases h : c.toNat = 931
  · rw [if_pos h, if_pos h]
    cases endsWord before behind <;> cases endsWord before' behind' <;> simp [eq_sigma_iff.mp h]
  · rw [if_neg h, if_neg h]
    exact iff_of_true rfl fun hc => absurd (eq_sigma_iff.mpr hc) h

/-- A text has the same form in two places just when its sigmas end words in both alike. -/
theorem lowerBetween_eq_iff :
    lowerBetween before cs behind = lowerBetween before' cs behind' ↔
      ∀ front back, cs = front ++ 'Σ' :: back →
        endsWord (front.reverse ++ before) (back ++ behind) =
          endsWord (front.reverse ++ before') (back ++ behind') := by
  induction cs generalizing before before' with
  | nil => exact iff_of_true rfl fun front back h => by simp at h
  | cons c cs ih =>
      have hparts : lowerBetween before (c :: cs) behind = lowerBetween before' (c :: cs) behind' ↔
          lowerAt before c (cs ++ behind) = lowerAt before' c (cs ++ behind') ∧
            lowerBetween (c :: before) cs behind = lowerBetween (c :: before') cs behind' :=
        List.append_eq_append_iff_of_size_eq_left (length_lowerAt ..)
      rw [hparts, lowerAt_eq_iff, ih]
      constructor
      · rintro ⟨hhere, hrest⟩ front back h
        cases front with
        | nil =>
            obtain ⟨rfl, rfl⟩ := List.cons.inj h
            exact hhere rfl
        | cons d front =>
            obtain ⟨rfl, hcs⟩ := List.cons.inj h
            rw [List.reverse_cons, List.append_assoc, List.append_assoc]
            exact hrest front back hcs
      · intro h
        refine ⟨fun hc => h [] cs (by rw [hc]; rfl), fun front back hcs => ?_⟩
        have hfront := h (c :: front) back (by rw [hcs]; rfl)
        rwa [List.reverse_cons, List.append_assoc, List.append_assoc] at hfront

theorem lowerBetween_eq_lowerChars_iff {left right : List Char} :
    lowerBetween left.reverse cs right = lowerChars cs ↔ SigmasKept left cs right := by
  rw [lowerChars_eq, lowerBetween_eq_iff]
  simp only [List.append_nil]
  rfl

/-- The lower-case form of three texts put together. -/
theorem lowerChars_append_append (left cs right : List Char) :
    lowerChars (left ++ (cs ++ right)) = lowerBetween [] left (cs ++ right) ++
      (lowerBetween left.reverse cs right ++ lowerBetween (cs.reverse ++ left.reverse) right []) := by
  rw [lowerChars_eq, lowerBetween_append, lowerBetween_append]
  simp only [List.append_nil]

/-- Two texts put together keep their forms just when the sigmas of both do. -/
theorem toLower_append_iff {a b : String} :
    toLower (a ++ b) = toLower a ++ toLower b ↔
      SigmasKept [] a.toList b.toList ∧ SigmasKept a.toList b.toList [] := by
  have hlist : toLower (a ++ b) = toLower a ++ toLower b ↔
      lowerChars (a.toList ++ b.toList) = lowerChars a.toList ++ lowerChars b.toList := by
    unfold toLower
    rw [← String.ofList_append, String.ofList_inj, String.toList_append]
  rw [hlist, ← lowerBetween_eq_lowerChars_iff, ← lowerBetween_eq_lowerChars_iff, lowerChars_eq,
    lowerBetween_append, List.append_nil, List.append_nil, List.reverse_nil]
  exact List.append_eq_append_iff_of_size_eq_left (by rw [lowerChars_eq]; exact length_lowerBetween ..)

end

/-! ## Sigmas that are the same everywhere -/

/-- Whether the search for a cased letter passes over all of a text. -/
def isPassedOver (cs : List Char) : Bool :=
  cs.all caseIgnorable.contains

section

variable {before before' behind behind' cs ds : List Char}

theorem startsCased_append (cs ds : List Char) :
    startsCased (cs ++ ds) = if isPassedOver cs then startsCased ds else startsCased cs := by
  have hempty : (cs.dropWhile caseIgnorable.contains).isEmpty = isPassedOver cs := by
    rw [Bool.eq_iff_iff, List.isEmpty_iff, List.dropWhile_eq_nil_iff, isPassedOver,
      List.all_eq_true]
  unfold startsCased
  rw [List.dropWhile_append, hempty]
  cases hdrop : cs.dropWhile caseIgnorable.contains with
  | nil =>
      rw [hdrop] at hempty
      rw [← hempty]
      rfl
  | cons d rest =>
      rw [hdrop] at hempty
      rw [← hempty]
      rfl

theorem startsCased_of_passedOver (h : isPassedOver cs = true) : startsCased cs = false := by
  have happend := startsCased_append cs []
  rw [List.append_nil, h] at happend
  exact happend

theorem isPassedOver_reverse (cs : List Char) : isPassedOver cs.reverse = isPassedOver cs :=
  List.all_reverse

theorem startsCased_append_sigma (cs ds ds' : List Char) :
    startsCased (cs ++ 'Σ' :: ds) = startsCased (cs ++ 'Σ' :: ds') := by
  have hsigma : ∀ ds, startsCased ('Σ' :: ds) = true := fun _ => by
    have hnot : caseIgnorable.contains 'Σ' = false := by decide
    unfold startsCased
    rw [List.dropWhile_cons_of_neg (by simp [hnot])]
    exact (by decide : cased.contains 'Σ' = true)
  rw [startsCased_append, startsCased_append, hsigma, hsigma]

theorem notMem_of_passedOver (h : isPassedOver cs = true) : 'Σ' ∉ cs := by
  intro hmem
  have hnot : caseIgnorable.contains 'Σ' = true := List.all_eq_true.mp h 'Σ' hmem
  exact absurd hnot (by decide)

theorem startsCased_letter : startsCased ['A'] = true := by decide

/-- The form of every capital sigma in a text is the same wherever the text stands, unless the
first one follows on characters that are passed over and has no cased letter behind it, or the last
one is followed by such characters only and ends a word in the text. -/
theorem sigmasKept_everywhere_iff : (∀ left right, SigmasKept left cs right) ↔
    ∀ front back, cs = front ++ 'Σ' :: back →
      (isPassedOver front = true → startsCased back = true) ∧
        (isPassedOver back = true → startsCased front.reverse = false) := by
  constructor
  · intro h front back hcs
    constructor
    · intro hfront
      have hkept := h ['A'] [] front back hcs
      rw [← isPassedOver_reverse] at hfront
      simpa [endsWord, startsCased_append, hfront, startsCased_letter,
        startsCased_of_passedOver hfront] using hkept
    · intro hback
      have hkept := h [] ['A'] front back hcs
      simpa [endsWord, startsCased_append, hback, startsCased_letter,
        startsCased_of_passedOver hback] using hkept.symm
  · intro h left right front back hcs
    obtain ⟨hfirst, hlast⟩ := h front back hcs
    unfold endsWord
    rw [startsCased_append, startsCased_append, isPassedOver_reverse]
    cases hfront : isPassedOver front with
    | true =>
        have hback : isPassedOver back = false := by
          cases hback : isPassedOver back with
          | false => rfl
          | true =>
              have hcased := hfirst hfront
              rw [startsCased_of_passedOver hback] at hcased
              cases hcased
        simp [hback, hfirst hfront]
    | false =>
        cases hback : isPassedOver back with
        | true => simp [hlast hback]
        | false => simp

/-- A text with a capital sigma in it: what stands outside counts for the sigma, and what stands on
its one side does not count on the other. -/
theorem lowerBetween_sigma (before front back behind : List Char) :
    lowerBetween before (front ++ 'Σ' :: back) behind =
      lowerBetween before front ('Σ' :: []) ++
        ((if endsWord (front.reverse ++ before) (back ++ behind) then 'ς' else 'σ') ::
          lowerBetween ['Σ'] back behind) := by
  have hfront : lowerBetween before front ('Σ' :: back ++ behind) =
      lowerBetween before front ('Σ' :: []) := by
    refine lowerBetween_eq_iff.mpr fun x y _ => ?_
    unfold endsWord
    rw [List.cons_append, startsCased_append_sigma y (back ++ behind) []]
  have hback : lowerBetween ('Σ' :: (front.reverse ++ before)) back behind =
      lowerBetween ['Σ'] back behind := by
    refine lowerBetween_eq_iff.mpr fun x y _ => ?_
    unfold endsWord
    rw [startsCased_append_sigma x.reverse (front.reverse ++ before) []]
  rw [lowerBetween_append, lowerBetween, hfront, hback]
  rfl

/-- Where there are no letters, nothing outside counts. -/
theorem lowerBetween_of_passedOver (h : isPassedOver cs = true) :
    lowerBetween before cs behind = lowerBetween before' cs behind' :=
  lowerBetween_eq_iff.mpr fun front back hcs => by
    rw [hcs] at h
    exact absurd (List.mem_append_right _ List.mem_cons_self) (notMem_of_passedOver h)

end

end ComponentAtlas.Unicode
