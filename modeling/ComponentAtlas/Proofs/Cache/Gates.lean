import ComponentAtlas.Proofs.Cache.Keeping

/-!
# The gates of all keys

A caller who enters or leaves the gate of one key changes no other gate, and looking and storing
change none at all.
-/

namespace ComponentAtlas

namespace Cache

variable {ε α : Type} {c d : Cache α} {key k : String}

/-! ## Entering and leaving -/

/-- No gate is kept that counts nobody. -/
def GatesUsed (c : Cache α) : Prop :=
  ∀ k g, c.gates.get? k = some g → 0 < g.users

theorem usersAt_of_gate {g : Gate} (h : c.gates.get? k = some g) : c.usersAt k = g.users := by
  rw [usersAt, h]
  rfl

theorem users?_eq (h : c.GatesUsed) (k : String) :
    (c.gates.get? k).map Gate.users = if c.usersAt k = 0 then none else some (c.usersAt k) := by
  unfold usersAt
  cases hgate : c.gates.get? k with
  | none => rfl
  | some g => simp [Nat.ne_of_gt (h k g hgate)]

theorem gates_eq_nil (h : c.GatesUsed) (hnone : ∀ k, c.usersAt k = 0) : c.gates = [] := by
  refine List.eq_nil_iff_forall_not_mem.mpr fun e he => ?_
  obtain ⟨g, hg⟩ := Option.isSome_iff_exists.mp (Keyed.isSome_get?_of_mem he)
  exact Nat.ne_of_gt (h e.1 g hg) ((usersAt_of_gate hg).symm.trans (hnone e.1))

theorem get?_enterGate_of_ne (c : Cache α) (hk : k ≠ key) :
    (c.enterGate key).2.gates.get? k = c.gates.get? k := by
  unfold enterGate
  split <;> simp [Keyed.get?_put, hk]

theorem get?_leaveGate_of_ne (c : Cache α) (hk : k ≠ key) :
    (c.leaveGate key).gates.get? k = c.gates.get? k := by
  unfold leaveGate
  split
  · split
    · simp [Keyed.get?_erase, hk]
    · simp [Keyed.get?_put, hk]
  · rfl

theorem usersAt_enterGate (c : Cache α) (key k : String) :
    (c.enterGate key).2.usersAt k = c.usersAt k + (key == k).toNat := by
  by_cases hk : k = key
  · subst hk
    simpa using (c.enterGate_enters k).users_eq
  · rw [usersAt, c.get?_enterGate_of_ne hk]
    simp [usersAt, Ne.symm hk]

theorem usersAt_leaveGate_eq (c : Cache α) (key k : String) :
    (c.leaveGate key).usersAt k = c.usersAt k - (key == k).toNat := by
  by_cases hk : k = key
  · subst hk
    rw [usersAt_leaveGate, beq_self_eq_true, Bool.toNat_true]
  · rw [usersAt, c.get?_leaveGate_of_ne hk, ← usersAt, beq_false_of_ne (Ne.symm hk),
      Bool.toNat_false, Nat.sub_zero]

theorem GatesUsed.enterGate (h : c.GatesUsed) (key : String) : (c.enterGate key).2.GatesUsed := by
  intro k g hg
  by_cases hk : k = key
  · subst hk
    have husers := (c.enterGate_enters k).users_eq
    rw [usersAt_of_gate hg] at husers
    omega
  · rw [get?_enterGate_of_ne c hk] at hg
    exact h k g hg

theorem GatesUsed.leaveGate (h : c.GatesUsed) (key : String) : (c.leaveGate key).GatesUsed := by
  intro k g hg
  by_cases hk : k = key
  · subst hk
    unfold Cache.leaveGate at hg
    split at hg
    · split at hg
      · simp [Keyed.get?_erase] at hg
      · rename_i hmany
        simp only [Keyed.get?_put, if_true, Option.some.injEq] at hg
        subst hg
        simp only
        omega
    · exact h k g hg
  · rw [get?_leaveGate_of_ne c hk] at hg
    exact h k g hg

theorem gates_dispose (c : Cache α) : c.dispose.gates = [] ∨ c.dispose = c := by
  unfold dispose
  split
  · exact Or.inr rfl
  · exact Or.inl rfl

theorem GatesUsed.dispose (h : c.GatesUsed) : c.dispose.GatesUsed := by
  rcases c.gates_dispose with hnone | hsame
  · intro k g hg
    rw [hnone] at hg
    cases hg
  · rwa [hsame]

theorem usersAt_dispose_le (c : Cache α) (k : String) : c.dispose.usersAt k ≤ c.usersAt k := by
  rcases c.gates_dispose with hnone | hsame
  · rw [usersAt, hnone]
    exact Nat.zero_le _
  · exact Nat.le_of_eq (congrArg (usersAt · k) hsame)

/-! ## What leaves the gates alone -/

/-- Two caches with the same gates and the same number for the next one, both disposed of or
neither. -/
structure SameGates (c d : Cache α) : Prop where
  gates : d.gates = c.gates
  isDisposed : d.isDisposed = c.isDisposed
  nextGate : d.nextGate = c.nextGate

theorem SameGates.refl (c : Cache α) : c.SameGates c :=
  ⟨rfl, rfl, rfl⟩

theorem SameGates.usersAt (h : c.SameGates d) (k : String) : d.usersAt k = c.usersAt k :=
  usersAt_congr h.gates

theorem SameGates.used (h : c.SameGates d) (hused : c.GatesUsed) : d.GatesUsed := by
  intro k g hg
  rw [h.gates] at hg
  exact hused k g hg

theorem lookup_sameGates (c : Cache α) (key : String) : c.SameGates (c.lookup key).2 := by
  unfold lookup
  simp only
  split
  · exact ⟨rfl, rfl, rfl⟩
  · split <;> exact ⟨rfl, rfl, rfl⟩

theorem get_sameGates (c : Cache α) (key : String) : c.SameGates (c.get key).2 := by
  have hlook := c.lookup_sameGates key
  unfold get
  generalize c.lookup key = looked at hlook
  obtain ⟨found, d⟩ := looked
  split
  · exact .refl c
  · cases found <;> exact ⟨hlook.gates, hlook.isDisposed, hlook.nextGate⟩

theorem lookAgain_sameGates (c : Cache α) (key : String) : c.SameGates (c.lookAgain key).2 := by
  have hlook := c.lookup_sameGates key
  unfold lookAgain
  generalize c.lookup key = looked at hlook
  obtain ⟨_ | _, d⟩ := looked <;> exact ⟨hlook.gates, hlook.isDisposed, hlook.nextGate⟩

theorem keep_sameGates (ofCacheError : CacheError → ε) (c : Cache α) (key : String)
    (made : Except ε α) : c.SameGates (c.keep ofCacheError key made).2 := by
  cases made with
  | error e => exact .refl c
  | ok v =>
      unfold keep set
      cases c.refusal? key <;> exact ⟨rfl, rfl, rfl⟩

end Cache
end ComponentAtlas
