import ComponentAtlas.Proofs.Cache.Contents

/-!
# What the next look finds

Each look at a cache is later than the one before, so what it finds under a key is told by the
entry that is still live one moment later: `live?`.  A call for a missing value looks twice, at
first and behind the gate; when the first look finds nothing it leaves no entry under the key, and
so the second finds nothing either.  A call that nobody gets in the way of therefore lets its
factory run exactly when there is no live entry.
-/

namespace ComponentAtlas

namespace Cache

variable {α : Type} {c : Cache α} {key : String}

/-- The value of the entry under a key that the next look finds live. -/
def live? (c : Cache α) (key : String) : Option α :=
  ((c.entries.get? key).filter c.tick.isLive).map CacheEntry.value

theorem lookup_fst (c : Cache α) (key : String) : (c.lookup key).1 = c.live? key := by
  have hsame : c.tick.entries.get? key = c.entries.get? key := rfl
  unfold lookup live?
  cases hget : c.entries.get? key with
  | none => simp [hsame, hget]
  | some e => cases hlive : c.tick.isLive e <;> simp [hsame, hget, hlive, Option.filter]

theorem holds_of_live? {v : α} (h : c.live? key = some v) : c.Holds key v := by
  refine (lookup_spec c key).2.2 v ?_
  rw [lookup_fst, h]

/-- A look that finds nothing leaves nothing. -/
theorem get?_of_lookup_none (h : (c.lookup key).1 = none) :
    (c.lookup key).2.entries.get? key = none := by
  unfold lookup at h ⊢
  cases hget : c.tick.entries.get? key with
  | none => simp [hget]
  | some e =>
      simp only [hget] at h ⊢
      cases hlive : c.tick.isLive e with
      | true => simp [hlive] at h
      | false => simp [Keyed.get?_erase]

/-- A counted look finds what is live. -/
theorem get_fst (hopen : c.refusal? key = none) : (c.get key).1 = .ok (c.live? key) := by
  have hfound := lookup_fst c key
  rcases hl : c.lookup key with ⟨found, d⟩
  rw [hl] at hfound
  unfold get
  rw [hopen, hl, ← hfound]
  cases found <;> rfl

/-- Where there is no entry, the look behind a gate finds none. -/
theorem passGate_of_absent (hopen : c.refusal? key = none) (h : c.entries.get? key = none) :
    c.passGate key = (.ok none, c.tick) := by
  have habsent : c.tick.entries.get? key = none := h
  have hl : c.lookup key = (none, c.tick) := by simp only [lookup, habsent]
  simp only [passGate, hopen, lookAgain, hl]

/-- A result is stored under its key, and only a result that was made. -/
theorem keep_spec {ε : Type} (ofCacheError : CacheError → ε) (c : Cache α) (key : String)
    (made : Except ε α) :
    (c.keep ofCacheError key made).2.isDisposed = c.isDisposed ∧
      (∀ k v, (c.keep ofCacheError key made).2.Holds k v →
        c.Holds k v ∨ (c.isDisposed = false ∧ k = key ∧ made = .ok v)) ∧
      ∀ v, (c.keep ofCacheError key made).1 = .ok v → made = .ok v := by
  cases made with
  | error err => exact ⟨rfl, fun _ _ h => Or.inl h, fun _ h => h⟩
  | ok v =>
      rcases set_cases c key v with ⟨err, -, hset⟩ | ⟨d, hopen, hset, hsame, hheld⟩
      · have hkeep : c.keep ofCacheError key (.ok v) = (.error (ofCacheError err), c) := by
          simp only [keep, hset]
        rw [hkeep]
        exact ⟨rfl, fun _ _ h => Or.inl h, fun _ h => by cases h⟩
      · have hkeep : c.keep ofCacheError key (.ok v) = (.ok v, d) := by simp only [keep, hset]
        rw [hkeep]
        refine ⟨hsame, fun k w hw => ?_, fun _ h => h⟩
        rcases hheld k w hw with ⟨rfl, rfl⟩ | hold
        · exact Or.inr ⟨isDisposed_of_not_refused hopen, rfl, rfl⟩
        · exact Or.inl hold

section

variable {ε σ : Type} (ofCacheError : CacheError → ε) (world : σ)
  (factory : σ → Cache α → Except ε α × σ × Cache α)

theorem getOrCreateWith_of_refused {err : CacheError} (hrefused : c.refusal? key = some err) :
    c.getOrCreateWith ofCacheError key world factory =
      (⟨.error (ofCacheError err), false⟩, world, c) := by
  have hget : c.get key = (.error err, c) := by rw [get, hrefused]
  rw [getOrCreateWith, hget]

theorem getOrCreateWith_of_live {v : α} (hopen : c.refusal? key = none)
    (hlive : c.live? key = some v) :
    c.getOrCreateWith ofCacheError key world factory =
      (⟨.ok v, false⟩, world, (c.get key).2) := by
  have hfst := get_fst hopen
  rw [hlive] at hfst
  have hget : c.get key = (.ok (some v), (c.get key).2) := Prod.ext_iff.mpr ⟨hfst, rfl⟩
  rw [getOrCreateWith, hget]

/-- The cache that the factory of a missing value gets. -/
def looked (c : Cache α) (key : String) : Cache α :=
  ((c.get key).2.enterGate key).2.tick

/-- When there is no live entry, neither look finds one, and the factory runs. -/
theorem getOrCreateWith_of_missing (hopen : c.refusal? key = none)
    (hmissing : c.live? key = none) :
    c.getOrCreateWith ofCacheError key world factory =
      let (made, world, d) := factory world (c.looked key)
      (⟨(d.keep ofCacheError key made).1, true⟩, world,
        (d.keep ofCacheError key made).2.leaveGate key) := by
  have hfst := get_fst hopen
  rw [hmissing] at hfst
  have hget : c.get key = (.ok none, (c.get key).2) := Prod.ext_iff.mpr ⟨hfst, rfl⟩
  -- the first look has left no entry, and the gate brings none
  have habsent : (c.get key).2.entries.get? key = none := by
    have hgone := get?_of_lookup_none ((lookup_fst c key).trans hmissing)
    unfold get
    rw [hopen]
    rcases hl : c.lookup key with ⟨found, d⟩
    rw [hl] at hgone
    cases found <;> exact hgone
  have hpass := passGate_of_absent (c := ((c.get key).2.enterGate key).2)
    ((refusal?_congr (by simp) key).trans hopen) (by rw [enterGate_entries]; exact habsent)
  rw [getOrCreateWith, hget]
  simp only [hpass]
  rfl

theorem looked_spec (c : Cache α) (key : String) :
    (c.looked key).HoldsLess c ∧ (c.looked key).isDisposed = c.isDisposed := by
  refine ⟨fun k v hheld => ?_, ?_⟩
  · exact (c.get_holds key).1 k v ((c.get key).2.enterGate_holdsLess key k v hheld)
  · exact (enterGate_isDisposed _ key).trans (get_isDisposed c key)

/-- A call for a missing value is refused, finds the value, or lets its factory make it. -/
theorem getOrCreateWith_cases (c : Cache α) (key : String) :
    (∃ err, c.refusal? key = some err ∧
        c.getOrCreateWith ofCacheError key world factory =
          (⟨.error (ofCacheError err), false⟩, world, c)) ∨
      (∃ v d, c.refusal? key = none ∧
        c.getOrCreateWith ofCacheError key world factory = (⟨.ok v, false⟩, world, d)) ∨
      ∃ d made world' d', c.refusal? key = none ∧ d.isDisposed = c.isDisposed ∧
        factory world d = (made, world', d') ∧
        c.getOrCreateWith ofCacheError key world factory =
          (⟨(d'.keep ofCacheError key made).1, true⟩, world',
            (d'.keep ofCacheError key made).2.leaveGate key) := by
  cases hr : c.refusal? key with
  | some err =>
      exact Or.inl ⟨err, rfl, getOrCreateWith_of_refused ofCacheError world factory hr⟩
  | none =>
      cases hlive : c.live? key with
      | some v =>
          exact Or.inr (Or.inl
            ⟨v, _, rfl, getOrCreateWith_of_live ofCacheError world factory hr hlive⟩)
      | none =>
          exact Or.inr (Or.inr ⟨c.looked key, _, _, _, rfl, (looked_spec c key).2, rfl,
            getOrCreateWith_of_missing ofCacheError world factory hr hlive⟩)

end

end Cache
end ComponentAtlas
