import ComponentAtlas.Text.Occurrence
import ComponentAtlas.Unicode.LowerCase

/-!
# Lower case and ASCII case

Two texts that are the same when the case of ASCII letters does not count have one lower-case form.
This is clear for each character, but the form of a capital sigma depends on what stands around it;
so it is shown that ASCII letters of either case are cased and none is passed over.
-/

namespace ComponentAtlas

/-- Only ASCII characters have another form in ASCII lower case. -/
theorem toLower_eq_self {c : Char} (h : 128 ≤ c.toNat) : c.toLower = c := by
  unfold Char.toLower
  rw [dif_neg]
  rintro ⟨-, hz⟩
  have : c.toNat ≤ 90 := hz
  omega

/-- What holds of all ASCII characters and of all characters without another form in ASCII lower
case, holds of all. -/
theorem forall_toLower {p : Char → Char → Prop} (hsame : ∀ c, p c c)
    (hascii : ∀ n : Fin 128, p (Char.ofNat n) (Char.ofNat n).toLower) (c : Char) :
    p c c.toLower := by
  by_cases h : 128 ≤ c.toNat
  · rw [toLower_eq_self h]
    exact hsame c
  · have hc := hascii ⟨c.toNat, by omega⟩
    rwa [Char.ofNat_toNat] at hc

namespace Unicode

theorem cased_toLower (c : Char) : cased.contains c.toLower = cased.contains c :=
  forall_toLower (p := fun c d => cased.contains d = cased.contains c) (fun _ => rfl)
    (by decide +kernel) c

theorem caseIgnorable_toLower (c : Char) :
    caseIgnorable.contains c.toLower = caseIgnorable.contains c :=
  forall_toLower (p := fun c d => caseIgnorable.contains d = caseIgnorable.contains c)
    (fun _ => rfl) (by decide +kernel) c

theorem sigma_toLower (c : Char) : c.toLower.toNat = 931 ↔ c.toNat = 931 :=
  forall_toLower (p := fun c d => d.toNat = 931 ↔ c.toNat = 931) (fun _ => Iff.rfl)
    (by decide +kernel) c

theorem lowerChar_toLower (c : Char) : lowerChar c.toLower = lowerChar c :=
  forall_toLower (p := fun c d => lowerChar d = lowerChar c) (fun _ => rfl) (by decide +kernel) c

theorem startsCased_map_toLower (cs : List Char) :
    startsCased (cs.map Char.toLower) = startsCased cs := by
  have hignored : caseIgnorable.contains ∘ Char.toLower = caseIgnorable.contains :=
    funext caseIgnorable_toLower
  unfold startsCased
  rw [List.dropWhile_map, hignored]
  cases cs.dropWhile caseIgnorable.contains with
  | nil => rfl
  | cons c rest => exact cased_toLower c

/-- ASCII lower case first makes no difference to lower case, neither in the text nor in what was
passed already. -/
theorem lowerAfter_map_toLower (before cs : List Char) :
    lowerAfter (before.map Char.toLower) (cs.map Char.toLower) = lowerAfter before cs := by
  induction cs generalizing before with
  | nil => rfl
  | cons c rest ih =>
      have hrest := ih (c :: before)
      rw [List.map_cons] at hrest
      simp only [List.map_cons, lowerAfter, hrest, startsCased_map_toLower, sigma_toLower,
        lowerChar_toLower]

/-- Texts that differ in the case of ASCII letters alone have one lower-case form. -/
theorem toLower_congr {a b : String} (h : Text.sameIgnoringCase a b = true) :
    toLower a = toLower b := by
  have hmap : a.toList.map Char.toLower = b.toList.map Char.toLower := beq_iff_eq.mp h
  unfold toLower lowerChars
  rw [← lowerAfter_map_toLower [] a.toList, hmap, lowerAfter_map_toLower [] b.toList]

theorem lowerChar_ne_nil (c : Char) : lowerChar c ≠ [] := by
  unfold lowerChar
  split
  · simp
  · split
    · simp
    · split <;> simp

/-- No character is lost in lower case. -/
theorem length_le_lowerAfter (before cs : List Char) :
    cs.length ≤ (lowerAfter before cs).length := by
  induction cs generalizing before with
  | nil => exact Nat.zero_le _
  | cons c cs ih =>
      have hrest := ih (c :: before)
      have hhere := List.length_pos_iff.mpr (lowerChar_ne_nil c)
      rw [lowerAfter, List.length_append, List.length_cons]
      split
      · rw [List.length_singleton]
        omega
      · omega

theorem isEmpty_toLower {name : String} (h : name.toList ≠ []) :
    (toLower name).isEmpty = false := by
  cases hempty : (toLower name).isEmpty with
  | false => rfl
  | true =>
      have hnil := congrArg String.toList (String.isEmpty_iff.mp hempty)
      rw [toLower, String.toList_ofList] at hnil
      have hlength := length_le_lowerAfter [] name.toList
      rw [show lowerAfter [] name.toList = [] from hnil] at hlength
      exact absurd (List.length_eq_zero_iff.mp (Nat.le_zero.mp hlength)) h

/-- In ASCII lower case is ASCII lower case. -/
theorem lowerAfter_of_ascii {before cs : List Char} (h : ∀ c ∈ cs, c.toNat < 128) :
    lowerAfter before cs = cs.map Char.toLower := by
  induction cs generalizing before with
  | nil => rfl
  | cons c cs ih =>
      obtain ⟨hc, hcs⟩ := List.forall_mem_cons.mp h
      have hsigma : c.toNat ≠ 931 := by omega
      rw [lowerAfter, if_neg hsigma, ih hcs, lowerChar, if_pos hc]
      rfl

end Unicode
end ComponentAtlas
