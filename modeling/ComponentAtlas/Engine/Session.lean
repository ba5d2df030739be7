import ComponentAtlas.Engine.Task

/-!
# Sessions

All that may happen to one engine: requests to build and searches, each going on in steps, in any
order.  A search takes the published snapshot and its faults are found; then it looks for kept
results; and if there are none it searches the snapshot and keeps what it found.  Between two
steps of a search anything else may happen, a publication or another search for the same text
included.

A request to build may also be given up while it waits.  Time passes between steps, and the engine
may be disposed of, first the results that it keeps and then the snapshot.
-/

namespace ComponentAtlas

/-- How far a search is. -/
inductive SearchStage
  | start
  /-- It has taken a snapshot and nothing is wrong with what it asks for. -/
  | looking (s : Snapshot)
  /-- No results were kept for it. -/
  | missed (s : Snapshot)
  /-- It took a snapshot and has its result. -/
  | answered (s : Snapshot) (result : Except IndexError (List Component))
  /-- There was no snapshot to take. -/
  | refused

structure SearchCall where
  query : String
  fields : SearchFields
  limit : Nat
  stage : SearchStage

namespace SearchStage

/-- The snapshot that a search has taken. -/
def snapshot? : SearchStage → Option Snapshot
  | .start | .refused => none
  | .looking s | .missed s | .answered s _ => some s

/-- What a search has come to. -/
def result? : SearchStage → Option (Except IndexError (List Component))
  | .answered _ r => some r
  | .refused => some (.error .notIndexed)
  | _ => none

/-- How many steps a search has still to take, at most. -/
def stepsLeft : SearchStage → Nat
  | .start => 3
  | .looking _ => 2
  | .missed _ => 1
  | .answered _ _ | .refused => 0

end SearchStage

namespace SearchCall

/-- The key of the results that a search asks of a snapshot. -/
def keyFor (c : SearchCall) (s : Snapshot) : String :=
  Engine.searchKey s.generation c.fields c.limit (Snapshot.needleOf c.query)

/-- The next step of a search on the engine. -/
def advance (e : Engine) (c : SearchCall) : Engine × SearchCall :=
  match c.stage with
  | .start =>
    match e.snapshot with
    | none => (e, { c with stage := .refused })
    | some s =>
      match Engine.searchFault? c.query c.fields c.limit with
      | some err => (e, { c with stage := .answered s (.error err) })
      | none => (e, { c with stage := .looking s })
  | .looking s =>
    match e.searchCache.get (c.keyFor s) with
    | (.error err, cache) =>
      ({ e with searchCache := cache }, { c with stage := .answered s (.error (.cache err)) })
    | (.ok (some results), cache) =>
      ({ e with searchCache := cache }, { c with stage := .answered s (.ok results) })
    | (.ok none, cache) => ({ e with searchCache := cache }, { c with stage := .missed s })
  | .missed s =>
    let results := s.search c.query c.fields c.limit
    match e.searchCache.set (c.keyFor s) results with
    | (.error err, cache) =>
      ({ e with searchCache := cache }, { c with stage := .answered s (.error (.cache err)) })
    | (.ok (), cache) =>
      ({ e with searchCache := cache }, { c with stage := .answered s (.ok results) })
  | .answered _ _ | .refused => (e, c)

end SearchCall

namespace Cache

variable {α : Type}

/-- The cache some milliseconds later. -/
def wait (c : Cache α) (milliseconds : Nat) : Cache α :=
  { c with now := c.now + milliseconds }

end Cache

namespace Crowd

/-- A task that is given up where it waits: at the gate, for the right to build, or for the source
tree.  What it holds is given back, and nobody takes its result. -/
def abandon (e : Engine) (t : Task) : Engine × Task :=
  let gone : Task := { t with stage := .done (.error .cancelled) }
  let leave (e : Engine) : Engine :=
    { e with snapshotCache := e.snapshotCache.leaveGate Engine.snapshotKey }
  match t.stage with
  | .start => (e, gone)
  | .atGate | .waiting _ => (leave e, gone)
  | .reading =>
    let e := { e with isBuilding := false, isLocked := false }
    match t.kind with
    | .build => (e, gone)
    | .ensure => (leave e, gone)
  | _ => (e, t)

/-- The task at a position is given up, if it waits. -/
def giveUp (c : Crowd) (task : Nat) : Crowd :=
  match c.tasks[task]? with
  | none => c
  | some t =>
    let (engine, t) := abandon c.engine t
    { engine, tasks := c.tasks.set task t }

end Crowd

/-- The engine with the requests to build, and the searches, each in the order in which they
began. -/
structure Session where
  crowd : Crowd
  searches : List SearchCall

/-- What may happen next.  Requests and searches are told by their positions. -/
inductive SessionStep
  | begin (kind : TaskKind)
  /-- `built` is what the request's build gives if it reads the source tree now. -/
  | advance (task : Nat) (built : Except IndexError Snapshot)
  | giveUp (task : Nat)
  | ask (query : String) (fields : SearchFields) (limit : Nat)
  | search (call : Nat)
  | wait (milliseconds : Nat)
  | disposeResults
  | disposeSnapshot

namespace Session

def engine (σ : Session) : Engine := σ.crowd.engine

/-- A session with a new engine. -/
def ofSettings (settings : Settings) (windows : Windows) : Session :=
  ⟨⟨.ofSettings settings windows, []⟩, []⟩

/-- The session with a change to the engine alone. -/
def modifyEngine (σ : Session) (change : Engine → Engine) : Session :=
  { σ with crowd := { σ.crowd with engine := change σ.crowd.engine } }

/-- The next step of the search at a position. -/
def advanceSearch (σ : Session) (call : Nat) : Session :=
  match σ.searches[call]? with
  | none => σ
  | some c =>
    let (engine, c) := c.advance σ.engine
    { crowd := { σ.crowd with engine }, searches := σ.searches.set call c }

def step (σ : Session) : SessionStep → Session
  | .begin kind => { σ with crowd := σ.crowd.begin kind }
  | .advance task built => { σ with crowd := σ.crowd.step built task }
  | .giveUp task => { σ with crowd := σ.crowd.giveUp task }
  | .ask query fields limit =>
    { σ with searches := σ.searches ++ [⟨query, fields, limit, .start⟩] }
  | .search call => σ.advanceSearch call
  | .wait milliseconds => σ.modifyEngine fun e =>
      { e with
        snapshotCache := e.snapshotCache.wait milliseconds
        searchCache := e.searchCache.wait milliseconds }
  | .disposeResults => σ.modifyEngine fun e => { e with searchCache := e.searchCache.dispose }
  | .disposeSnapshot => σ.modifyEngine fun e =>
      { e with snapshotCache := e.snapshotCache.dispose }

def run (σ : Session) (steps : List SessionStep) : Session :=
  steps.foldl step σ

end Session
end ComponentAtlas
