import ComponentAtlas.Engine.Basic

/-!
# Builds at the same time

Several requests to build, or to have something built, at once.  A request is a task that goes on
in steps; each step touches one thing that the tasks share: a cache, the gate of the snapshot, the
right to build, the generation or the published snapshot.  Only the end of a build touches two: it
takes down the flag that a build is running and gives back the right to build.  A task that finds
the gate occupied or the right to build taken waits, and its step changes nothing.  The steps of
different tasks may come in any order.
-/

namespace ComponentAtlas

inductive TaskKind
  /-- Builds, unless somebody else is about to. -/
  | build
  /-- Has a snapshot built when there is none or it has expired. -/
  | ensure
  deriving DecidableEq, Repr

/-- How far a task is. -/
inductive TaskStage
  | start
  /-- It missed the snapshot in the cache and is not at the gate yet. -/
  | missed
  /-- It waits at the gate. -/
  | atGate
  /-- It is behind the gate and has not looked again. -/
  | inside
  /-- It missed the snapshot again. -/
  | missedAgain
  /-- It waits for the right to build; it has seen a generation. -/
  | waiting (seen : Nat)
  /-- It has the right to build and compares generations. -/
  | comparing (seen : Nat)
  /-- It takes the snapshot that was published while it waited. -/
  | taking
  /-- It has the right to build and is about to. -/
  | ready
  /-- It reads the source tree. -/
  | reading
  /-- It has built a snapshot. -/
  | built (s : Snapshot)
  /-- Its snapshot has a number. -/
  | numbered (s : Snapshot)
  /-- Its snapshot is published. -/
  | published (s : Snapshot)
  /-- Its snapshot is in the cache. -/
  | cached (s : Snapshot)
  /-- It gives back the right to build. -/
  | finishing (result : Except IndexError Snapshot)
  /-- It puts the snapshot that it will return into the cache. -/
  | keeping (s : Snapshot)
  /-- It leaves the gate. -/
  | leaving (result : Except IndexError Snapshot)
  | done (result : Except IndexError Snapshot)

structure Task where
  kind : TaskKind
  /-- The number of the gate that it came to. -/
  gate : Option Nat
  stage : TaskStage

namespace TaskStage

/-- Whether a task at this stage stands behind the gate. -/
def isInside : TaskStage → Bool
  | .start | .missed | .atGate | .done _ => false
  | _ => true

end TaskStage

/-- The engine and the tasks on it, in the order in which they began. -/
structure Crowd where
  engine : Engine
  tasks : List Task

namespace Crowd

def begin (c : Crowd) (kind : TaskKind) : Crowd :=
  { c with tasks := c.tasks ++ [⟨kind, none, .start⟩] }

/-- Whether nobody stands behind the gate with a number. -/
def isFree (c : Crowd) (gate : Nat) : Bool :=
  !c.tasks.any fun t => t.gate == some gate && t.stage.isInside

/-- What a task with the right to build does when it is done with it. -/
def afterBuild (kind : TaskKind) (result : Except IndexError Snapshot) : TaskStage :=
  match kind, result with
  | .build, r => .done r
  | .ensure, .ok s => .keeping s
  | .ensure, .error e => .leaving (.error e)

/-- The next step of a task on the engine; `built` is what its build gives if it reads the source
tree, and `isFree` tells whether nobody stands behind the gate with a number. -/
def advance (built : Except IndexError Snapshot) (isFree : Nat → Bool) (e : Engine) (t : Task) :
    Engine × Task :=
  match t.stage with
  | .start =>
    match t.kind with
    | .build =>
      if e.isLocked then (e, { t with stage := .done (.error .buildInProgress) })
      else ({ e with isLocked := true }, { t with stage := .ready })
    | .ensure =>
      match e.snapshotCache.get Engine.snapshotKey with
      | (.error err, cache) =>
        ({ e with snapshotCache := cache }, { t with stage := .done (.error (.cache err)) })
      | (.ok (some s), cache) =>
        ({ e with snapshotCache := cache }, { t with stage := .done (.ok s) })
      | (.ok none, cache) => ({ e with snapshotCache := cache }, { t with stage := .missed })
  | .missed =>
    let (gate, cache) := e.snapshotCache.enterGate Engine.snapshotKey
    ({ e with snapshotCache := cache }, { t with gate := some gate, stage := .atGate })
  | .atGate =>
    if t.gate.all isFree then (e, { t with stage := .inside }) else (e, t)
  | .inside =>
    match e.snapshotCache.passGate Engine.snapshotKey with
    | (.error err, cache) =>
      ({ e with snapshotCache := cache }, { t with stage := .leaving (.error (.cache err)) })
    | (.ok (some s), cache) =>
      ({ e with snapshotCache := cache }, { t with stage := .leaving (.ok s) })
    | (.ok none, cache) => ({ e with snapshotCache := cache }, { t with stage := .missedAgain })
  | .missedAgain => (e, { t with stage := .waiting e.generation })
  | .waiting seen =>
    if e.isLocked then (e, t)
    else ({ e with isLocked := true }, { t with stage := .comparing seen })
  | .comparing seen =>
    (e, { t with stage := if e.generation = seen then .ready else .taking })
  | .taking =>
    match e.snapshot with
    | some s => (e, { t with stage := .finishing (.ok s) })
    | none => (e, { t with stage := .ready })
  | .ready => ({ e with isBuilding := true }, { t with stage := .reading })
  | .reading =>
    match built with
    | .error err => (e, { t with stage := .finishing (.error err) })
    | .ok s => (e, { t with stage := .built s })
  | .built s =>
    let e := e.number
    (e, { t with stage := .numbered { s with generation := e.generation } })
  | .numbered s => (e.setSnapshot s, { t with stage := .published s })
  | .published s =>
    match e.cacheSnapshot s with
    | (.error err, e) => (e, { t with stage := .finishing (.error err) })
    | (.ok (), e) => (e, { t with stage := .cached s })
  | .cached s =>
    match e.dropStaleResults s.generation with
    | (.error err, e) => (e, { t with stage := .finishing (.error err) })
    | (.ok (), e) => (e, { t with stage := .finishing (.ok s) })
  | .finishing result =>
    ({ e with isBuilding := false, isLocked := false },
      { t with stage := afterBuild t.kind result })
  | .keeping s =>
    match e.cacheSnapshot s with
    | (.error err, e) => (e, { t with stage := .leaving (.error err) })
    | (.ok (), e) => (e, { t with stage := .leaving (.ok s) })
  | .leaving result =>
    ({ e with snapshotCache := e.snapshotCache.leaveGate Engine.snapshotKey },
      { t with stage := .done result })
  | .done result => (e, { t with stage := .done result })

/-- The next step of the task at a position. -/
def step (built : Except IndexError Snapshot) (c : Crowd) (task : Nat) : Crowd :=
  match c.tasks[task]? with
  | none => c
  | some t =>
    let (engine, t) := advance built c.isFree c.engine t
    { engine, tasks := c.tasks.set task t }

/-- Some steps of one task. -/
def steps (built : Except IndexError Snapshot) (c : Crowd) (task : Nat) : Nat → Crowd
  | 0 => c
  | n + 1 => (c.step built task).steps built task n

/-- More steps than a task can take. -/
def allSteps : Nat := 24

/-- A task goes on until it waits or is done. -/
def proceed (built : Except IndexError Snapshot) (c : Crowd) (task : Nat) : Crowd :=
  c.steps built task allSteps

/-- The result of the task at a position, when it is done. -/
def result? (c : Crowd) (task : Nat) : Option (Except IndexError Snapshot) :=
  match (c.tasks[task]?).map Task.stage with
  | some (.done r) => some r
  | _ => none

end Crowd

/-- What was seen while a build was held up, and what came of it. -/
structure HeldBuild where
  /-- The state while the build was held up. -/
  state : IndexState
  /-- The components listed meanwhile. -/
  listed : Except IndexError (List String)
  /-- What a second build gave meanwhile. -/
  second : Option (Except IndexError Snapshot)
  /-- What the build gave in the end. -/
  first : Option (Except IndexError Snapshot)
  /-- What those gave who asked for a snapshot meanwhile. -/
  ensured : List (Option (Except IndexError Snapshot))

namespace Engine

/-- Holds up a build while it reads the source tree.  Meanwhile a second build is tried and some
callers ask for a snapshot; then the engine may be disposed, the build goes on with `first`, and
the callers follow in order, whose own builds give `others`. -/
def holdBuild (e : Engine) (first others : Except IndexError Snapshot) (callers : Nat)
    (disposed : Bool) : HeldBuild × Engine :=
  let held := ((Crowd.mk e []).begin .build).steps first 0 2
  let tried := (held.begin .build).proceed others 1
  let positions := (List.range callers).map (· + 2)
  let waiting := positions.foldl (fun c i => (c.begin .ensure).proceed others i) tried
  let disposedOf := if disposed then { waiting with engine := waiting.engine.dispose } else waiting
  let released := disposedOf.proceed first 0
  let settled := positions.foldl (fun c i => c.proceed others i) released
  ({ state := held.engine.state
     listed := held.engine.componentNames none
     second := tried.result? 1
     first := settled.result? 0
     ensured := positions.map settled.result? }, settled.engine)

end Engine
end ComponentAtlas
