import ComponentAtlas.Cache.Gate
import ComponentAtlas.Proofs.Keyed

/-!
# What a cache holds

`Holds c key v` says that an entry with the value `v` stands under `key`, live or expired.  Nothing
that is done to a cache brings in a value except `set`, and what a look gives is held: so a property
of all that a cache holds has to be checked where something is stored, and nowhere else.  Time does
not occur here, and neither do hits and misses; and gates are entered and left beside the entries.
-/

namespace ComponentAtlas

namespace Cache

variable {α : Type}

/-- An entry with a value stands under a key, live or expired. -/
def Holds (c : Cache α) (key : String) (v : α) : Prop :=
  ∃ e : CacheEntry α, (key, e) ∈ c.entries ∧ e.value = v

/-- A cache holds nothing but what another one does. -/
def HoldsLess (c d : Cache α) : Prop :=
  ∀ key v, c.Holds key v → d.Holds key v

theorem HoldsLess.of_subset {c d : Cache α} (h : ∀ e ∈ c.entries, e ∈ d.entries) :
    c.HoldsLess d := by
  rintro key v ⟨e, he, rfl⟩
  exact ⟨e, h _ he, rfl⟩

theorem HoldsLess.of_entries {c d : Cache α} (h : c.entries = d.entries) : c.HoldsLess d :=
  .of_subset fun _ he => h ▸ he

theorem HoldsLess.refl (c : Cache α) : c.HoldsLess c := fun _ _ h => h

/-! ## Looking -/

/-- A look only removes an expired entry, or begins the sliding window of a live one anew, and what
it gives was held. -/
theorem lookup_spec (c : Cache α) (key : String) :
    (c.lookup key).2.HoldsLess c ∧ (c.lookup key).2.isDisposed = c.isDisposed ∧
      ∀ v, (c.lookup key).1 = some v → c.Holds key v := by
  simp only [lookup]
  cases hget : c.tick.entries.get? key with
  | none => exact ⟨.of_subset fun e he => he, rfl, by simp⟩
  | some e =>
      have hmem : (key, e) ∈ c.entries := Keyed.mem_of_get? hget
      by_cases hlive : c.tick.isLive e = true
      · simp only [hlive, if_true]
        refine ⟨?_, rfl, ?_⟩
        · rintro k v ⟨e', he', rfl⟩
          rcases Keyed.mem_put.mp he' with heq | ⟨hin, -⟩
          · obtain ⟨rfl, rfl⟩ := Prod.mk.inj heq
            exact ⟨e, hmem, rfl⟩
          · exact ⟨e', hin, rfl⟩
        · intro v hv
          exact ⟨e, hmem, Option.some.inj hv⟩
      · simp only [hlive]
        exact ⟨.of_subset fun e' he' => (Keyed.mem_erase.mp he').1, rfl, by simp⟩

/-- A counted look is refused and changes nothing, or it gives what was held. -/
theorem get_cases (c : Cache α) (key : String) :
    (∃ err, c.refusal? key = some err ∧ c.get key = (.error err, c)) ∨
      ∃ found d, c.refusal? key = none ∧ c.get key = (.ok found, d) ∧ d.HoldsLess c ∧
        d.isDisposed = c.isDisposed ∧ ∀ v, found = some v → c.Holds key v := by
  unfold get
  cases hr : c.refusal? key with
  | some err => exact Or.inl ⟨err, rfl, rfl⟩
  | none =>
      obtain ⟨hless, hdisp, hfound⟩ := lookup_spec c key
      refine Or.inr ?_
      rcases hl : c.lookup key with ⟨found, d⟩
      rw [hl] at hless hdisp hfound
      cases found with
      | none => exact ⟨none, d.countMiss, rfl, rfl, hless, hdisp, by simp⟩
      | some v => exact ⟨some v, d.countHit, rfl, rfl, hless, hdisp, hfound⟩

/-! ## Storing and removing -/

/-- Storing is refused and changes nothing, or the stored value is all that is new. -/
theorem set_cases (c : Cache α) (key : String) (value : α) :
    (∃ err, c.refusal? key = some err ∧ c.set key value = (.error err, c)) ∨
      ∃ d, c.refusal? key = none ∧ c.set key value = (.ok (), d) ∧
        d.isDisposed = c.isDisposed ∧
        ∀ k v, d.Holds k v → (k = key ∧ v = value) ∨ c.Holds k v := by
  unfold set
  cases hr : c.refusal? key with
  | some err => exact Or.inl ⟨err, rfl, rfl⟩
  | none =>
      refine Or.inr ⟨_, rfl, rfl, rfl, ?_⟩
      rintro k v ⟨e, he, rfl⟩
      rcases Keyed.mem_put.mp he with heq | ⟨hin, -⟩
      · obtain ⟨rfl, rfl⟩ := Prod.mk.inj heq
        exact Or.inl ⟨rfl, rfl⟩
      · exact Or.inr ⟨e, (List.mem_filter.mp hin).1, rfl⟩

theorem removeWhere_holdsLess (c : Cache α) (p : String → Bool) :
    (c.removeWhere p).2.HoldsLess c := by
  unfold removeWhere
  split
  · exact .refl c
  · exact .of_subset fun e he => (List.mem_filter.mp he).1

theorem dispose_holdsLess (c : Cache α) : c.dispose.HoldsLess c := by
  unfold dispose
  split
  · exact .refl c
  · exact .of_subset fun e he => by simp at he

theorem ofWindows_holds_nothing (windows : Windows) (key : String) (v : α) :
    ¬ (ofWindows windows : Cache α).Holds key v := by
  rintro ⟨e, he, -⟩
  simp [ofWindows] at he

/-! ## Gates -/

/-- The look behind a gate removes and gives what any look does. -/
theorem lookAgain_spec (c : Cache α) (key : String) :
    (c.lookAgain key).2.HoldsLess c ∧ (c.lookAgain key).2.isDisposed = c.isDisposed ∧
      ∀ v, (c.lookAgain key).1 = some v → c.Holds key v := by
  have hlook := lookup_spec c key
  unfold lookAgain
  generalize c.lookup key = looked at hlook
  obtain ⟨_ | v, d⟩ := looked <;> exact hlook

theorem passGate_holds (c : Cache α) (key : String) :
    (c.passGate key).2.HoldsLess c ∧ ∀ v, (c.passGate key).1 = .ok (some v) → c.Holds key v := by
  unfold passGate
  cases c.refusal? key with
  | some err => exact ⟨.refl c, fun v hv => by cases hv⟩
  | none =>
      obtain ⟨hless, -, hfound⟩ := lookAgain_spec c key
      exact ⟨hless, fun v hv => hfound v (Except.ok.inj hv)⟩

theorem get_holds (c : Cache α) (key : String) :
    (c.get key).2.HoldsLess c ∧ ∀ v, (c.get key).1 = .ok (some v) → c.Holds key v := by
  rcases get_cases c key with ⟨err, -, hget⟩ | ⟨found, d, -, hget, hless, -, hfound⟩
  · rw [hget]
    exact ⟨.refl c, fun v hv => by cases hv⟩
  · rw [hget]
    exact ⟨hless, fun v hv => hfound v (Except.ok.inj hv)⟩

theorem enterGate_entries (c : Cache α) (key : String) :
    (c.enterGate key).2.entries = c.entries := by
  unfold enterGate
  split <;> rfl

theorem leaveGate_entries (c : Cache α) (key : String) :
    (c.leaveGate key).entries = c.entries := by
  unfold leaveGate
  split
  · split <;> rfl
  · rfl

theorem enterGate_holdsLess (c : Cache α) (key : String) : (c.enterGate key).2.HoldsLess c :=
  .of_entries (c.enterGate_entries key)

theorem leaveGate_holdsLess (c : Cache α) (key : String) : (c.leaveGate key).HoldsLess c :=
  .of_entries (c.leaveGate_entries key)

/-! ## Disposal -/

@[simp] theorem dispose_isDisposed (c : Cache α) : c.dispose.isDisposed = true := by
  unfold dispose
  split <;> simp_all

@[simp] theorem removeWhere_isDisposed (c : Cache α) (p : String → Bool) :
    (c.removeWhere p).2.isDisposed = c.isDisposed := by
  unfold removeWhere
  split <;> rfl

@[simp] theorem enterGate_isDisposed (c : Cache α) (key : String) :
    (c.enterGate key).2.isDisposed = c.isDisposed := by
  unfold enterGate
  split <;> rfl

@[simp] theorem leaveGate_isDisposed (c : Cache α) (key : String) :
    (c.leaveGate key).isDisposed = c.isDisposed := by
  unfold leaveGate
  split
  · split <;> rfl
  · rfl

@[simp] theorem get_isDisposed (c : Cache α) (key : String) :
    (c.get key).2.isDisposed = c.isDisposed := by
  rcases get_cases c key with ⟨err, -, h⟩ | ⟨found, d, -, h, -, hd, -⟩ <;> rw [h]
  exact hd

@[simp] theorem set_isDisposed (c : Cache α) (key : String) (value : α) :
    (c.set key value).2.isDisposed = c.isDisposed := by
  rcases set_cases c key value with ⟨err, -, h⟩ | ⟨d, -, h, hd, -⟩ <;> rw [h]
  exact hd

@[simp] theorem passGate_isDisposed (c : Cache α) (key : String) :
    (c.passGate key).2.isDisposed = c.isDisposed := by
  unfold passGate
  cases c.refusal? key with
  | some err => rfl
  | none => exact (lookAgain_spec c key).2.1

/-! ## Refusals -/

/-- A key that is not blank is refused by a disposed cache alone. -/
theorem isDisposed_of_refused {c : Cache α} {key : String} {err : CacheError}
    (hkey : Text.allBlank key.toList = false) (h : c.refusal? key = some err) :
    err = .disposed ∧ c.isDisposed = true := by
  unfold refusal? at h
  rw [hkey, if_neg (by simp)] at h
  split at h
  · rename_i hd
    exact ⟨(Option.some.inj h).symm, hd⟩
  · cases h

theorem isDisposed_of_not_refused {c : Cache α} {key : String} (h : c.refusal? key = none) :
    c.isDisposed = false := by
  unfold refusal? at h
  split at h
  · cases h
  · split at h
    · cases h
    · rename_i hd
      exact (Bool.not_eq_true _).mp hd

theorem refusal?_congr {c d : Cache α} (h : d.isDisposed = c.isDisposed) (key : String) :
    d.refusal? key = c.refusal? key := by
  simp only [refusal?, h]

/-! ## Making a missing value -/

/-- What was made is stored, unless the cache was disposed of meanwhile. -/
theorem keep_ok {ε : Type} {ofCacheError : CacheError → ε} {c : Cache α} {key : String} {v : α}
    (hkey : Text.allBlank key.toList = false) (hd : c.isDisposed = false) :
    (c.keep ofCacheError key (.ok v)).1 = .ok v := by
  unfold keep
  rcases set_cases c key v with ⟨err, hr, -⟩ | ⟨d, -, hset, -, -⟩
  · rw [(isDisposed_of_refused hkey hr).2] at hd
    cases hd
  · simp only [hset]

end Cache
end ComponentAtlas
