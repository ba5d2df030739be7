import ComponentAtlas.Proofs.Cache.Contents

/-!
# Caches that keep what they hold

Without windows nothing expires, and as long as such a cache is not disposed of, no key but a blank
one is refused.  What the cache holds under a key is then all that a look can tell, and each
operation is described by what it does to that value, to the gate of the key and to the counts of
hits and misses.
-/

namespace ComponentAtlas

namespace Cache

variable {α ε : Type} {c : Cache α} {key : String}

/-- The value that a cache holds under a key, live or expired. -/
def value? (c : Cache α) (key : String) : Option α :=
  (c.entries.get? key).map CacheEntry.value

/-- A cache that refuses nothing under a key, and in which nothing expires. -/
structure Keeps (c : Cache α) (key : String) : Prop where
  notBlank : Text.allBlank key.toList = false
  isOpen : c.isDisposed = false
  windows : c.windows = ⟨none, none⟩

namespace Keeps

theorem refusal?_eq_none (h : c.Keeps key) : c.refusal? key = none := by
  simp [refusal?, h.notBlank, h.isOpen]

theorem isLive (h : c.Keeps key) (e : CacheEntry α) : c.isLive e = true := by
  simp [Cache.isLive, Windows.isOver, Windows.passed, h.windows]

theorem tick (h : c.Keeps key) : c.tick.Keeps key :=
  ⟨h.notBlank, h.isOpen, h.windows⟩

theorem countHit (h : c.Keeps key) : c.countHit.Keeps key :=
  ⟨h.notBlank, h.isOpen, h.windows⟩

theorem countMiss (h : c.Keeps key) : c.countMiss.Keeps key :=
  ⟨h.notBlank, h.isOpen, h.windows⟩

end Keeps

/-- Two caches that differ in nothing but gates and times, as far as a key goes. -/
structure AlikeButGates (key : String) (c d : Cache α) : Prop where
  value : d.value? key = c.value? key
  hits : d.hits = c.hits
  misses : d.misses = c.misses
  keeps : c.Keeps key → d.Keeps key

/-- Two caches that differ in nothing but times, as far as a key goes. -/
structure Alike (key : String) (c d : Cache α) : Prop extends AlikeButGates key c d where
  gates : d.gates = c.gates

/-! ## Looking -/

theorem Keeps.lookup (h : c.Keeps key) :
    ∃ d, c.lookup key = (c.value? key, d) ∧ c.Alike key d := by
  have htick (e : CacheEntry α) : c.tick.isLive e = true := h.tick.isLive e
  unfold Cache.lookup value?
  simp only
  cases hget : c.tick.entries.get? key with
  | none =>
      refine ⟨c.tick, ?_, ⟨rfl, rfl, rfl, Keeps.tick⟩, rfl⟩
      rw [show c.entries.get? key = none from hget]
      rfl
  | some e =>
      have hheld : c.entries.get? key = some e := hget
      rw [hheld]
      simp only [htick, if_true]
      refine ⟨_, rfl, ⟨?_, rfl, rfl, fun h => ⟨h.notBlank, h.isOpen, h.windows⟩⟩, rfl⟩
      simp only [value?, Keyed.get?_put_self, hheld, Option.map_some]

/-- The first look of a call for a missing value. -/
theorem Keeps.get_missing (h : c.Keeps key) (hmissing : c.value? key = none) :
    ∃ d, c.get key = (.ok none, d.countMiss) ∧ c.Alike key d := by
  obtain ⟨d, hlookup, halike⟩ := h.lookup
  rw [hmissing] at hlookup
  refine ⟨d, ?_, halike⟩
  rw [get, h.refusal?_eq_none, hlookup]

/-- A look gives what the cache holds. -/
theorem Keeps.get_fst (h : c.Keeps key) : (c.get key).1 = .ok (c.value? key) := by
  obtain ⟨d, hlookup, -⟩ := h.lookup
  rw [get, h.refusal?_eq_none, hlookup]
  cases c.value? key with
  | none => rfl
  | some v => rfl

theorem Keeps.lookAgain_missing (h : c.Keeps key) (hmissing : c.value? key = none) :
    ∃ d, c.lookAgain key = (none, d) ∧ c.Alike key d := by
  obtain ⟨d, hlookup, halike⟩ := h.lookup
  rw [hmissing] at hlookup
  exact ⟨d, by rw [lookAgain, hlookup], halike⟩

theorem Keeps.lookAgain_held (h : c.Keeps key) {v : α} (hheld : c.value? key = some v) :
    ∃ d, c.lookAgain key = (some v, d.countHit) ∧ c.Alike key d := by
  obtain ⟨d, hlookup, halike⟩ := h.lookup
  rw [hheld] at hlookup
  exact ⟨d, by rw [lookAgain, hlookup], halike⟩

/-! ## Storing -/

/-- A cache and what it is when the result of a factory was stored: nothing but the value of the key
has changed, and that only if the factory made one. -/
structure Stores (key : String) (made : Except ε α) (c d : Cache α) : Prop where
  value : d.value? key = made.toOption.or (c.value? key)
  gates : d.gates = c.gates
  hits : d.hits = c.hits
  misses : d.misses = c.misses
  keeps : d.Keeps key

theorem Keeps.keep (h : c.Keeps key) (ofCacheError : CacheError → ε) (made : Except ε α) :
    ∃ d, c.keep ofCacheError key made = (made, d) ∧ Stores key made c d := by
  cases made with
  | error e => exact ⟨c, rfl, rfl, rfl, rfl, rfl, h⟩
  | ok v =>
      unfold Cache.keep set
      rw [h.refusal?_eq_none]
      refine ⟨_, rfl, ?_, rfl, rfl, rfl, h.notBlank, h.isOpen, h.windows⟩
      simp [value?, Keyed.get?_put_self, Except.toOption]

/-! ## Gates -/

/-- The number of the gate of a key, if there is one. -/
def gateAt? (c : Cache α) (key : String) : Option Nat :=
  (c.gates.get? key).map Gate.number

/-- How many callers the gate of a key counts. -/
def usersAt (c : Cache α) (key : String) : Nat :=
  ((c.gates.get? key).map Gate.users).getD 0

theorem gateAt?_congr {d : Cache α} (h : d.gates = c.gates) : d.gateAt? key = c.gateAt? key := by
  rw [gateAt?, h, gateAt?]

theorem usersAt_congr {d : Cache α} (h : d.gates = c.gates) : d.usersAt key = c.usersAt key := by
  rw [usersAt, h, usersAt]

/-- A caller more at the gate of a key, which has the number that it had, if it was there. -/
structure Enters (key : String) (c : Cache α) (number : Nat) (d : Cache α) : Prop
    extends AlikeButGates key c d where
  number_eq : d.gateAt? key = some number
  users_eq : d.usersAt key = c.usersAt key + 1
  same_gate : ∀ g, c.gateAt? key = some g → g = number

theorem enterGate_enters (c : Cache α) (key : String) :
    Enters key c (c.enterGate key).1 (c.enterGate key).2 := by
  unfold enterGate
  cases hgate : c.gates.get? key with
  | none =>
      refine ⟨⟨rfl, rfl, rfl, fun h => ⟨h.notBlank, h.isOpen, h.windows⟩⟩, ?_, ?_, ?_⟩
      · simp [gateAt?, Keyed.get?_put_self]
      · simp [usersAt, Keyed.get?_put_self, hgate]
      · simp [gateAt?, hgate]
  | some g =>
      refine ⟨⟨rfl, rfl, rfl, fun h => ⟨h.notBlank, h.isOpen, h.windows⟩⟩, ?_, ?_, ?_⟩
      · simp [gateAt?, Keyed.get?_put_self]
      · simp [usersAt, Keyed.get?_put_self, hgate]
      · simp [gateAt?, hgate]

theorem leaveGate_alike (c : Cache α) (key : String) : c.AlikeButGates key (c.leaveGate key) := by
  unfold leaveGate
  split
  · split <;> exact ⟨rfl, rfl, rfl, fun h => ⟨h.notBlank, h.isOpen, h.windows⟩⟩
  · exact ⟨rfl, rfl, rfl, id⟩

theorem usersAt_leaveGate (c : Cache α) (key : String) :
    (c.leaveGate key).usersAt key = c.usersAt key - 1 := by
  unfold leaveGate
  cases hgate : c.gates.get? key with
  | none => simp [usersAt, hgate]
  | some g =>
      by_cases hlast : g.users ≤ 1
      · simp [usersAt, hlast, hgate, Keyed.get?_erase_self]
      · simp [usersAt, hlast, hgate, Keyed.get?_put_self]

/-- The gate stays as long as others are at it. -/
theorem gateAt?_leaveGate (h : 1 < c.usersAt key) :
    (c.leaveGate key).gateAt? key = c.gateAt? key := by
  unfold leaveGate
  cases hgate : c.gates.get? key with
  | none => rfl
  | some g =>
      have husers : ¬ g.users ≤ 1 := by
        simp only [usersAt, hgate, Option.map_some, Option.getD_some] at h
        omega
      simp [gateAt?, husers, hgate, Keyed.get?_put_self]

end Cache
end ComponentAtlas
