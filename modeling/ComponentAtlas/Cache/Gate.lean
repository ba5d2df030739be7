import ComponentAtlas.Cache.Basic

/-!
# Making a missing value once

When several callers miss the same key, one of them makes the value and the others take it.  Each
key has a gate for that.  A caller that misses goes to the gate, passes it when nobody is inside,
looks again, and only if the value is still missing makes it, by its factory.  What the factory
fails to make is not stored.
-/

namespace ComponentAtlas

/-- What became of a call: its result, and whether its factory ran. -/
structure Creation (ε α : Type) where
  result : Except ε α
  factoryRan : Bool
  deriving Repr

namespace Cache

variable {α ε : Type}

/-- One more caller at the gate of a key, which is made when it is missing; the gate's number. -/
def enterGate (c : Cache α) (key : String) : Nat × Cache α :=
  match c.gates.get? key with
  | some g => (g.number, { c with gates := c.gates.put key { g with users := g.users + 1 } })
  | none => (c.nextGate,
      { c with gates := c.gates.put key ⟨c.nextGate, 1⟩, nextGate := c.nextGate + 1 })

/-- One caller less at the gate of a key, which the last one takes away. -/
def leaveGate (c : Cache α) (key : String) : Cache α :=
  match c.gates.get? key with
  | some g =>
    if g.users ≤ 1 then { c with gates := c.gates.erase key }
    else { c with gates := c.gates.put key { g with users := g.users - 1 } }
  | none => c

/-- The second look, behind the gate.  A hit counts; the miss was counted at the first look. -/
def lookAgain (c : Cache α) (key : String) : Option α × Cache α :=
  match c.lookup key with
  | (some v, c) => (some v, c.countHit)
  | (none, c) => (none, c)

/-- The second look of a caller who is refused nothing. -/
def passGate (c : Cache α) (key : String) : Except CacheError (Option α) × Cache α :=
  match c.refusal? key with
  | some e => (.error e, c)
  | none => (.ok (c.lookAgain key).1, (c.lookAgain key).2)

/-- Stores what a factory made. -/
def keep (ofCacheError : CacheError → ε) (c : Cache α) (key : String) :
    Except ε α → Except ε α × Cache α
  | .error e => (.error e, c)
  | .ok v =>
    match c.set key v with
    | (.error e, c) => (.error (ofCacheError e), c)
    | (.ok (), c) => (.ok v, c)

/-- The value under a key, made by the factory when it is missing.  The factory may itself use the
cache, and it may change something else besides, the `world`. -/
def getOrCreateWith {σ : Type} (ofCacheError : CacheError → ε) (c : Cache α) (key : String)
    (world : σ) (factory : σ → Cache α → Except ε α × σ × Cache α) :
    Creation ε α × σ × Cache α :=
  match c.get key with
  | (.error e, c) => (⟨.error (ofCacheError e), false⟩, world, c)
  | (.ok (some v), c) => (⟨.ok v, false⟩, world, c)
  | (.ok none, c) =>
    let (_, c) := c.enterGate key
    match c.passGate key with
    | (.error e, c) => (⟨.error (ofCacheError e), false⟩, world, c.leaveGate key)
    | (.ok (some v), c) => (⟨.ok v, false⟩, world, c.leaveGate key)
    | (.ok none, c) =>
      let (made, world, c) := factory world c
      let (result, c) := c.keep ofCacheError key made
      (⟨result, true⟩, world, c.leaveGate key)

/-- The value under a key, made by the factory when it is missing.  The factory may itself use the
cache. -/
def getOrCreate (ofCacheError : CacheError → ε) (c : Cache α) (key : String)
    (factory : Cache α → Except ε α × Cache α) : Creation ε α × Cache α :=
  let (creation, _, c) := c.getOrCreateWith ofCacheError key () fun _ c =>
    let (made, c) := factory c
    (made, (), c)
  (creation, c)

end Cache
end ComponentAtlas
