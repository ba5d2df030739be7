import ComponentAtlas.Cache.Gate

/-!
# Calls in flight

Several calls for missing values at once.  A call looks and goes to the gate.  Once it has the gate
to itself it asks whether the cache was disposed of, looks again, begins its factory, and stores
what that makes; then the next one is let in, and it takes itself off the gate.  Each of these is
one step.  The steps of different calls may come in any order that the gates allow: nobody is let in
while somebody is inside.  The cache may be disposed of between any two of them, so also between the
question of a call and the beginning of its factory.
-/

namespace ComponentAtlas

/-- How far a call is. -/
inductive CallPhase (ε α : Type)
  /-- It missed and is not at the gate yet. -/
  | missed
  /-- It waits at the gate with a number. -/
  | waiting (gate : Nat)
  /-- It is inside the gate with a number and has not asked whether the cache was disposed of. -/
  | inside (gate : Nat)
  /-- It is inside and was not refused. -/
  | admitted (gate : Nat)
  /-- It is inside and has missed again. -/
  | missedAgain (gate : Nat)
  /-- It is inside, and its factory runs. -/
  | running (gate : Nat)
  /-- It has its outcome, and the next one may go inside; the gate still counts it. -/
  | leaving (gate : Nat) (outcome : Creation ε α)
  /-- It is being given up, and the next one may go inside; the gate still counts it. -/
  | dropping (gate : Nat) (factoryRan : Bool)
  /-- It has ended, and its factory ran or not. -/
  | ended (outcome : Creation ε α)
  /-- It was given up, and its factory ran or not. -/
  | givenUp (factoryRan : Bool)

structure Call (ε α : Type) where
  key : String
  phase : CallPhase ε α

/-- A cache and the calls on it, in the order in which they began. -/
structure Flight (ε α : Type) where
  cache : Cache α
  calls : List (Call ε α)

/-- What may happen next.  Calls are told by their positions. -/
inductive FlightStep (ε α : Type)
  /-- A new call looks. -/
  | start (key : String)
  /-- A call goes to the gate. -/
  | enter (call : Nat)
  /-- A call gets the gate to itself. -/
  | lock (call : Nat)
  /-- A call inside asks whether the cache was disposed of. -/
  | check (call : Nat)
  /-- A call inside looks again. -/
  | look (call : Nat)
  /-- The factory of a call begins. -/
  | begin (call : Nat)
  /-- The factory of a call ends, and what it made is stored. -/
  | store (call : Nat) (made : Except ε α)
  /-- A call is given up where it waits, at the gate or for its factory. -/
  | drop (call : Nat)
  /-- A call takes itself off the gate. -/
  | leave (call : Nat)
  | dispose

namespace CallPhase

variable {ε α : Type}

/-- The gate that a call has to itself. -/
def inside? : CallPhase ε α → Option Nat
  | .inside gate | .admitted gate | .missedAgain gate | .running gate => some gate
  | .missed | .waiting _ | .leaving _ _ | .dropping _ _ | .ended _ | .givenUp _ => none

/-- Whether the factory of a call has begun. -/
def hasBegun : CallPhase ε α → Bool
  | .running _ => true
  | .leaving _ outcome | .ended outcome => outcome.factoryRan
  | .dropping _ factoryRan | .givenUp factoryRan => factoryRan
  | .missed | .waiting _ | .inside _ | .admitted _ | .missedAgain _ => false

/-- Where a call is after its first look. -/
def ofFirstLook (ofCacheError : CacheError → ε) : Except CacheError (Option α) → CallPhase ε α
  | .error e => .ended ⟨.error (ofCacheError e), false⟩
  | .ok (some v) => .ended ⟨.ok v, false⟩
  | .ok none => .missed

/-- Where a call is when it was refused inside, or not. -/
def ofRefusal (ofCacheError : CacheError → ε) (gate : Nat) : Option CacheError → CallPhase ε α
  | some e => .leaving gate ⟨.error (ofCacheError e), false⟩
  | none => .admitted gate

/-- Where a call is after its second look. -/
def ofSecondLook (gate : Nat) : Option α → CallPhase ε α
  | some v => .leaving gate ⟨.ok v, false⟩
  | none => .missedAgain gate

end CallPhase

namespace Flight

variable {ε α : Type}

/-- The flight with another cache and another phase of one call. -/
def move (f : Flight ε α) (cache : Cache α) (call : Nat) (key : String)
    (phase : CallPhase ε α) : Flight ε α :=
  ⟨cache, f.calls.set call ⟨key, phase⟩⟩

/-- Whether nobody is inside the gate with a number. -/
def isFree (f : Flight ε α) (gate : Nat) : Bool :=
  !f.calls.any fun c => c.phase.inside? == some gate

/-- A new call: its first look. -/
def start (ofCacheError : CacheError → ε) (f : Flight ε α) (key : String) : Flight ε α :=
  let (found, cache) := f.cache.get key
  { cache, calls := f.calls ++ [⟨key, .ofFirstLook ofCacheError found⟩] }

/-- A call goes to the gate. -/
def enter (f : Flight ε α) (call : Nat) : Flight ε α :=
  match f.calls[call]? with
  | some ⟨key, .missed⟩ =>
    let (gate, cache) := f.cache.enterGate key
    f.move cache call key (.waiting gate)
  | _ => f

/-- A call gets the gate to itself, if nobody is inside. -/
def lock (f : Flight ε α) (call : Nat) : Flight ε α :=
  match f.calls[call]? with
  | some ⟨key, .waiting gate⟩ =>
    if f.isFree gate then f.move f.cache call key (.inside gate) else f
  | _ => f

/-- A call inside is refused, or not. -/
def check (ofCacheError : CacheError → ε) (f : Flight ε α) (call : Nat) : Flight ε α :=
  match f.calls[call]? with
  | some ⟨key, .inside gate⟩ =>
    f.move f.cache call key (.ofRefusal ofCacheError gate (f.cache.refusal? key))
  | _ => f

/-- A call inside looks again. -/
def look (f : Flight ε α) (call : Nat) : Flight ε α :=
  match f.calls[call]? with
  | some ⟨key, .admitted gate⟩ =>
    let (found, cache) := f.cache.lookAgain key
    f.move cache call key (.ofSecondLook gate found)
  | _ => f

/-- The factory of a call begins. -/
def begin (f : Flight ε α) (call : Nat) : Flight ε α :=
  match f.calls[call]? with
  | some ⟨key, .missedAgain gate⟩ => f.move f.cache call key (.running gate)
  | _ => f

/-- The factory of a call ends, and what it made is stored. -/
def store (ofCacheError : CacheError → ε) (f : Flight ε α) (call : Nat) (made : Except ε α) :
    Flight ε α :=
  match f.calls[call]? with
  | some ⟨key, .running gate⟩ =>
    let (result, cache) := f.cache.keep ofCacheError key made
    f.move cache call key (.leaving gate ⟨result, true⟩)
  | _ => f

/-- A call is given up, at the gate or while its factory runs. -/
def drop (f : Flight ε α) (call : Nat) : Flight ε α :=
  match f.calls[call]? with
  | some ⟨key, .waiting gate⟩ => f.move f.cache call key (.dropping gate false)
  | some ⟨key, .running gate⟩ => f.move f.cache call key (.dropping gate true)
  | _ => f

/-- A call takes itself off the gate. -/
def leave (f : Flight ε α) (call : Nat) : Flight ε α :=
  match f.calls[call]? with
  | some ⟨key, .leaving _ outcome⟩ =>
    f.move (f.cache.leaveGate key) call key (.ended outcome)
  | some ⟨key, .dropping _ factoryRan⟩ =>
    f.move (f.cache.leaveGate key) call key (.givenUp factoryRan)
  | _ => f

def step (ofCacheError : CacheError → ε) (f : Flight ε α) : FlightStep ε α → Flight ε α
  | .start key => f.start ofCacheError key
  | .enter call => f.enter call
  | .lock call => f.lock call
  | .check call => f.check ofCacheError call
  | .look call => f.look call
  | .begin call => f.begin call
  | .store call made => f.store ofCacheError call made
  | .drop call => f.drop call
  | .leave call => f.leave call
  | .dispose => { f with cache := f.cache.dispose }

def run (ofCacheError : CacheError → ε) (f : Flight ε α) (steps : List (FlightStep ε α)) :
    Flight ε α :=
  steps.foldl (step ofCacheError) f

/-- How many factories have begun. -/
def factoryRuns (f : Flight ε α) : Nat :=
  f.calls.countP fun c => c.phase.hasBegun

/-! ## Some steps of one call with nothing in between -/

/-- A call passes the gate and goes on until its factory runs or it has ended. -/
def pass (ofCacheError : CacheError → ε) (f : Flight ε α) (call : Nat) : Flight ε α :=
  f.run ofCacheError [.lock call, .check call, .look call, .begin call, .leave call]

/-- The factory of a call ends, and so does the call. -/
def finish (ofCacheError : CacheError → ε) (f : Flight ε α) (call : Nat) (made : Except ε α) :
    Flight ε α :=
  f.run ofCacheError [.store call made, .leave call]

/-- A call is given up and leaves. -/
def giveUp (f : Flight ε α) (call : Nat) : Flight ε α :=
  (f.drop call).leave call

/-- Calls pass the gate one after the other and end at once; the factory that runs as number `n`
makes `factory n`. -/
def passInTurn (ofCacheError : CacheError → ε) (factory : Nat → Except ε α) (f : Flight ε α)
    (calls : List Nat) : Flight ε α :=
  calls.foldl (fun f call =>
    (f.pass ofCacheError call).finish ofCacheError call (factory f.factoryRuns)) f

end Flight

namespace Cache

variable {ε α : Type}

/-- Some calls for one key that all look before any of them passes the gate; then they pass it in
order. -/
def createTogether (ofCacheError : CacheError → ε) (c : Cache α) (key : String) (count : Nat)
    (factory : Nat → Except ε α) : Flight ε α :=
  let calls := List.range count
  let looked := (Flight.mk c []).run ofCacheError (calls.map fun _ => .start key)
  let waiting := looked.run ofCacheError (calls.map .enter)
  waiting.passInTurn ofCacheError factory calls

/-- A call that is given up while its factory runs. -/
def createAndGiveUp (ofCacheError : CacheError → ε) (c : Cache α) (key : String) : Flight ε α :=
  (((Flight.mk c []).run ofCacheError [.start key, .enter 0]).pass ofCacheError 0).giveUp 0

end Cache
end ComponentAtlas
