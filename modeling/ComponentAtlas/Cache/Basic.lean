import ComponentAtlas.Keyed
import ComponentAtlas.Text.Blank

/-!
# Caches

A cache keeps values under keys for a time.  An entry expires when it was not read for the sliding
window, or when it was stored longer ago than the absolute window.  Time is counted in
milliseconds, and each look at the cache is later than the one before, so that an entry with an
empty window is expired whenever it is looked at again.

A disposed cache refuses everything, and so does any cache for a blank key.
-/

namespace ComponentAtlas

/-- After how many milliseconds an entry expires; without a window it never does. -/
structure Windows where
  sliding : Option Nat
  absolute : Option Nat
  deriving DecidableEq, Repr

inductive CacheError
  | disposed
  | invalidKey
  deriving DecidableEq, Repr

structure CacheEntry (α : Type) where
  value : α
  storedAt : Nat
  readAt : Nat
  deriving DecidableEq, Repr

/-- A gate that the callers of a missing key pass one at a time. -/
structure Gate where
  number : Nat
  /-- How many callers stand at the gate or are inside. -/
  users : Nat
  deriving DecidableEq, Repr

structure Cache (α : Type) where
  windows : Windows
  entries : Keyed (CacheEntry α)
  gates : Keyed Gate
  hits : Nat
  misses : Nat
  /-- Whether the cache was ever cleared. -/
  wasCleared : Bool
  isDisposed : Bool
  /-- The time of the last look. -/
  now : Nat
  /-- The number of the next new gate. -/
  nextGate : Nat
  deriving DecidableEq, Repr

/-- What a cache says about itself. -/
structure CacheStatistics where
  items : Nat
  hits : Nat
  misses : Nat
  /-- The bytes of all keys together. -/
  keyBytes : Nat
  wasCleared : Bool
  deriving DecidableEq, Repr

namespace CacheError

def message : CacheError → String
  | .disposed => "cache has been disposed"
  | .invalidKey => "cache key must not be empty"

end CacheError

namespace Windows

def standard : Windows := ⟨some 1800000, some 7200000⟩

/-- Whether a window that began at some time has passed. -/
def passed (window : Option Nat) (since now : Nat) : Bool :=
  window.any fun length => decide (length < now - since)

/-- Whether an entry has expired. -/
def isOver {α : Type} (w : Windows) (now : Nat) (e : CacheEntry α) : Bool :=
  passed w.sliding e.readAt now || passed w.absolute e.storedAt now

end Windows

namespace Cache

variable {α : Type}

def ofWindows (windows : Windows) : Cache α where
  windows := windows
  entries := []
  gates := []
  hits := 0
  misses := 0
  wasCleared := false
  isDisposed := false
  now := 0
  nextGate := 0

/-- Why an operation on a key is refused, if it is. -/
def refusal? (c : Cache α) (key : String) : Option CacheError :=
  if Text.allBlank key.toList then some .invalidKey
  else if c.isDisposed then some .disposed
  else none

/-- The cache at its next look. -/
def tick (c : Cache α) : Cache α :=
  { c with now := c.now + 1 }

/-- Whether an entry has not expired. -/
def isLive (c : Cache α) (e : CacheEntry α) : Bool :=
  !c.windows.isOver c.now e

/-- The value of a live entry, whose sliding window begins anew.  An expired entry is removed. -/
def lookup (c : Cache α) (key : String) : Option α × Cache α :=
  let c := c.tick
  match c.entries.get? key with
  | none => (none, c)
  | some e =>
    if c.isLive e then
      (some e.value, { c with entries := c.entries.put key { e with readAt := c.now } })
    else (none, { c with entries := c.entries.erase key })

def countHit (c : Cache α) : Cache α := { c with hits := c.hits + 1 }

def countMiss (c : Cache α) : Cache α := { c with misses := c.misses + 1 }

/-- The value under a key, counted as a hit or a miss. -/
def get (c : Cache α) (key : String) : Except CacheError (Option α) × Cache α :=
  match c.refusal? key with
  | some e => (.error e, c)
  | none =>
    match c.lookup key with
    | (some v, c) => (.ok (some v), c.countHit)
    | (none, c) => (.ok none, c.countMiss)

/-- Stores a value under a key.  Whatever has expired is removed. -/
def set (c : Cache α) (key : String) (value : α) : Except CacheError Unit × Cache α :=
  match c.refusal? key with
  | some e => (.error e, c)
  | none =>
    let c := c.tick
    let live := c.entries.filter fun e => c.isLive e.2
    (.ok (), { c with entries := Keyed.put live key ⟨value, c.now, c.now⟩ })

/-- Removes the entry under a key, live or expired, and says whether there was one. -/
def remove (c : Cache α) (key : String) : Except CacheError Bool × Cache α :=
  match c.refusal? key with
  | some e => (.error e, c)
  | none => (.ok (c.entries.get? key).isSome, { c with entries := c.entries.erase key })

/-- Removes the entries whose keys satisfy `p`, live or expired, and says how many there were. -/
def removeWhere (c : Cache α) (p : String → Bool) : Except CacheError Nat × Cache α :=
  if c.isDisposed then (.error .disposed, c)
  else (.ok (c.entries.countP fun e => p e.1),
    { c with entries := c.entries.filter fun e => !p e.1 })

/-- Removes all entries and counts anew. -/
def clear (c : Cache α) : Except CacheError Unit × Cache α :=
  if c.isDisposed then (.error .disposed, c)
  else (.ok (), { c with entries := [], hits := 0, misses := 0, wasCleared := true })

def statistics (c : Cache α) : Except CacheError CacheStatistics × Cache α :=
  if c.isDisposed then (.error .disposed, c)
  else
    let c := c.tick
    let live := c.entries.filter fun e => c.isLive e.2
    let keyBytes := live.foldl (fun n e => n + e.1.utf8ByteSize) 0
    (.ok ⟨live.length, c.hits, c.misses, keyBytes, c.wasCleared⟩, c)

/-- Gives up everything.  Nothing can be done with the cache afterwards. -/
def dispose (c : Cache α) : Cache α :=
  if c.isDisposed then c else { c with entries := [], gates := [], isDisposed := true }

end Cache
end ComponentAtlas
