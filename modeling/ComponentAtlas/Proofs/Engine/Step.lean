import ComponentAtlas.Engine.Session
import ComponentAtlas.Proofs.Cache.Contents

/-!
# What a step does to the engine

A task has eighteen stages, but only three of its steps touch what a question is answered from: one
takes a number, one puts the published snapshot in place, and one drops results of other
generations.  `Effect` says this once, with one constructor for each of them and one for all other
steps; whatever is proved about publications goes by its four cases and opens no stage again.

`Change` does the same for a whole session: it says what a step does when the task or the search
that it is a step of is there, and that it does nothing when it is not.
-/

namespace ComponentAtlas

namespace Crowd

/-- What a step from one stage to another may do to an engine. -/
inductive Effect (e : Engine) : TaskStage → Engine → TaskStage → Prop
  | quiet {before after : TaskStage} {e' : Engine} (snapshot : e'.snapshot = e.snapshot)
      (generation : e'.generation = e.generation) (results : e'.searchCache = e.searchCache)
      (disposed : e'.snapshotCache.isDisposed = e.snapshotCache.isDisposed)
      (numbered : ∀ s, after = .numbered s → before = .numbered s) : Effect e before e' after
  | number (s : Snapshot) :
      Effect e (.built s) e.number (.numbered { s with generation := e.generation + 1 })
  | publish (s : Snapshot) : Effect e (.numbered s) (e.setSnapshot s) (.published s)
  | drop (s : Snapshot) {after : TaskStage} (after_ne : ∀ s, after ≠ .numbered s) :
      Effect e (.cached s) (e.dropStaleResults s.generation).2 after

/-- Putting a snapshot into the cache leaves the rest of the engine alone. -/
theorem cacheSnapshot_snd (e : Engine) (s : Snapshot) :
    (e.cacheSnapshot s).2 =
      { e with snapshotCache := (e.snapshotCache.set Engine.snapshotKey s).2 } := by
  unfold Engine.cacheSnapshot
  split <;> simp_all

theorem dropStaleResults_snd (e : Engine) (generation : Nat) :
    (e.dropStaleResults generation).2 =
      { e with
        searchCache := (e.searchCache.removeWhere fun key =>
          (Text.after? (Engine.searchKeyStart generation).toList key.toList).isNone).2 } := by
  simp only [Engine.dropStaleResults]
  split <;> simp_all

theorem afterBuild_ne_numbered (kind : TaskKind) (result : Except IndexError Snapshot)
    (s : Snapshot) : afterBuild kind result ≠ .numbered s := by
  cases kind <;> cases result <;> simp [afterBuild]

theorem advance_effect (built : Except IndexError Snapshot) (isFree : Nat → Bool) (e : Engine)
    (t : Task) :
    Effect e t.stage (advance built isFree e t).1 (advance built isFree e t).2.stage := by
  obtain ⟨kind, gate, stage⟩ := t
  cases stage with
  | start =>
      cases kind with
      | build =>
          by_cases hl : e.isLocked = true <;> simp only [advance, hl] <;>
            exact .quiet rfl rfl rfl rfl (by simp)
      | ensure =>
          have hsame := Cache.get_isDisposed e.snapshotCache Engine.snapshotKey
          simp only [advance]
          split <;> exact .quiet rfl rfl rfl (by simp_all only) (by simp)
  | missed => exact .quiet rfl rfl rfl (Cache.enterGate_isDisposed ..) (by simp [advance])
  | atGate =>
      simp only [advance]
      split <;> exact .quiet rfl rfl rfl rfl (by simp)
  | inside =>
      have hsame := Cache.passGate_isDisposed e.snapshotCache Engine.snapshotKey
      simp only [advance]
      split <;> exact .quiet rfl rfl rfl (by simp_all only) (by simp)
  | missedAgain => exact .quiet rfl rfl rfl rfl (by simp [advance])
  | waiting seen =>
      simp only [advance]
      split <;> exact .quiet rfl rfl rfl rfl (by simp)
  | comparing seen =>
      refine .quiet rfl rfl rfl rfl fun s => ?_
      simp only [advance]
      split <;> simp
  | taking =>
      simp only [advance]
      split <;> exact .quiet rfl rfl rfl rfl (by simp)
  | ready => exact .quiet rfl rfl rfl rfl (by simp [advance])
  | reading =>
      cases built <;> exact .quiet rfl rfl rfl rfl (by simp [advance])
  | built s => exact .number s
  | numbered s => exact .publish s
  | published s =>
      have hsnd := cacheSnapshot_snd e s
      simp only [advance]
      split <;> simp_all only <;> exact .quiet rfl rfl rfl (Cache.set_isDisposed ..) (by simp)
  | cached s =>
      simp only [advance]
      split
      · rename_i err e' h
        rw [show e' = (e.dropStaleResults s.generation).2 by rw [h]]
        exact .drop s (by simp)
      · rename_i e' h
        rw [show e' = (e.dropStaleResults s.generation).2 by rw [h]]
        exact .drop s (by simp)
  | finishing result =>
      exact .quiet rfl rfl rfl rfl fun s hs => absurd hs (afterBuild_ne_numbered kind result s)
  | keeping s =>
      have hsnd := cacheSnapshot_snd e s
      simp only [advance]
      split <;> simp_all only <;> exact .quiet rfl rfl rfl (Cache.set_isDisposed ..) (by simp)
  | leaving result => exact .quiet rfl rfl rfl (Cache.leaveGate_isDisposed ..) (by simp [advance])
  | done result => exact .quiet rfl rfl rfl rfl (by simp [advance])

/-- A task that is given up has touched nothing that a question is answered from. -/
theorem abandon_effect (e : Engine) (t : Task) :
    Effect e t.stage (abandon e t).1 (abandon e t).2.stage := by
  unfold abandon
  split
  · exact .quiet rfl rfl rfl rfl (by simp)
  · exact .quiet rfl rfl rfl (Cache.leaveGate_isDisposed ..) (by simp)
  · exact .quiet rfl rfl rfl (Cache.leaveGate_isDisposed ..) (by simp)
  · split
    · exact .quiet rfl rfl rfl rfl (by simp)
    · exact .quiet rfl rfl rfl (Cache.leaveGate_isDisposed ..) (by simp)
  · exact .quiet rfl rfl rfl rfl fun _ h => h

namespace Effect

variable {e e' : Engine} {before after : TaskStage}

theorem results_holdsLess (h : Effect e before e' after) :
    e'.searchCache.HoldsLess e.searchCache := by
  cases h with
  | quiet _ _ results _ _ =>
      rw [results]
      exact .refl _
  | number _ | publish _ => exact .refl _
  | drop s _ =>
      rw [dropStaleResults_snd]
      exact Cache.removeWhere_holdsLess _ _

theorem results_isDisposed (h : Effect e before e' after) :
    e'.searchCache.isDisposed = e.searchCache.isDisposed := by
  cases h with
  | quiet _ _ results _ _ => rw [results]
  | number _ | publish _ => rfl
  | drop s _ => simp [dropStaleResults_snd]

/-- No task disposes of a cache. -/
theorem snapshots_isDisposed (h : Effect e before e' after) :
    e'.snapshotCache.isDisposed = e.snapshotCache.isDisposed := by
  cases h with
  | quiet _ _ _ disposed _ => exact disposed
  | number _ | publish _ => rfl
  | drop s _ => rw [dropStaleResults_snd]

/-- Whatever is published, something stays published. -/
theorem isIndexed (h : Effect e before e' after) (hi : e.isIndexed = true) :
    e'.isIndexed = true := by
  cases h with
  | quiet snapshot _ _ _ _ => rwa [Engine.isIndexed, snapshot]
  | number _ => exact hi
  | publish _ => rfl
  | drop s _ =>
      rw [dropStaleResults_snd]
      exact hi

end Effect

end Crowd

namespace SessionStep

/-- The steps of a request that builds and publishes a snapshot. -/
def publication (task : Nat) (s : Snapshot) : List SessionStep :=
  .begin .build :: List.replicate 8 (.advance task (.ok s))

/-- Whether a step is one of the task at a position. -/
def isOfTask (task : Nat) : SessionStep → Bool
  | .advance i _ | .giveUp i => i == task
  | _ => false

/-- Whether a step is one of the search at a position. -/
def isOfSearch (call : Nat) : SessionStep → Bool
  | .search i => i == call
  | _ => false

theorem isOfSearch_search (i call : Nat) : (search i).isOfSearch call = (i == call) := rfl

theorem eq_search_of_isOfSearch {call : Nat} {st : SessionStep} (h : st.isOfSearch call = true) :
    st = .search call := by
  cases st with
  | search i => rw [beq_iff_eq.mp h]
  | begin _ | advance _ _ | giveUp _ | ask _ _ _ | wait _ | disposeResults | disposeSnapshot =>
      cases h

end SessionStep

/-- What becomes of an engine when time passes or a cache is disposed of. -/
structure Engine.Ages (e e' : Engine) : Prop where
  snapshot : e'.snapshot = e.snapshot
  generation : e'.generation = e.generation
  isLocked : e'.isLocked = e.isLocked
  isBuilding : e'.isBuilding = e.isBuilding
  results : e'.searchCache.HoldsLess e.searchCache
  snapshots : e'.snapshotCache.HoldsLess e.snapshotCache
  snapshots_gone : e.snapshotCache.isDisposed = true → e'.snapshotCache.isDisposed = true
  results_gone : e.searchCache.isDisposed = true → e'.searchCache.isDisposed = true

namespace Session

/-- What a step does to a session.  A step of a task or of a search that is not there does
nothing. -/
inductive Change (σ : Session) : SessionStep → Session → Prop
  | begin (kind : TaskKind) : Change σ (.begin kind) { σ with crowd := σ.crowd.begin kind }
  | advance {i : Nat} {t : Task} (built : Except IndexError Snapshot)
      (there : σ.crowd.tasks[i]? = some t) :
      Change σ (.advance i built)
        ⟨⟨(Crowd.advance built σ.crowd.isFree σ.engine t).1,
          σ.crowd.tasks.set i (Crowd.advance built σ.crowd.isFree σ.engine t).2⟩, σ.searches⟩
  | giveUp {i : Nat} {t : Task} (there : σ.crowd.tasks[i]? = some t) :
      Change σ (.giveUp i)
        ⟨⟨(Crowd.abandon σ.engine t).1, σ.crowd.tasks.set i (Crowd.abandon σ.engine t).2⟩,
          σ.searches⟩
  | ask (query : String) (fields : SearchFields) (limit : Nat) :
      Change σ (.ask query fields limit)
        { σ with searches := σ.searches ++ [⟨query, fields, limit, .start⟩] }
  | search {i : Nat} {c : SearchCall} (there : σ.searches[i]? = some c) :
      Change σ (.search i)
        ⟨{ σ.crowd with engine := (c.advance σ.engine).1 },
          σ.searches.set i (c.advance σ.engine).2⟩
  | age {st : SessionStep} {e' : Engine} (apart : ∀ i, st.isOfTask i = false)
      (ages : σ.engine.Ages e') : Change σ st { σ with crowd := { σ.crowd with engine := e' } }
  | idle {st : SessionStep}
      (absent : ∀ i, st.isOfTask i = true → σ.crowd.tasks[i]? = none) : Change σ st σ

theorem step_search_eq {σ : Session} {i : Nat} {c : SearchCall} (hc : σ.searches[i]? = some c) :
    σ.step (.search i) =
      ⟨{ σ.crowd with engine := (c.advance σ.engine).1 },
        σ.searches.set i (c.advance σ.engine).2⟩ := by
  simp only [step, advanceSearch, hc]

theorem step_change (σ : Session) (st : SessionStep) : σ.Change st (σ.step st) := by
  cases st with
  | begin kind => exact .begin kind
  | advance task built =>
      cases ht : σ.crowd.tasks[task]? with
      | none =>
          rw [step, Crowd.step, ht]
          refine .idle fun i hi => ?_
          obtain rfl : task = i := beq_iff_eq.mp hi
          exact ht
      | some t =>
          rw [step, Crowd.step, ht]
          exact .advance built ht
  | giveUp task =>
      cases ht : σ.crowd.tasks[task]? with
      | none =>
          rw [step, Crowd.giveUp, ht]
          refine .idle fun i hi => ?_
          obtain rfl : task = i := beq_iff_eq.mp hi
          exact ht
      | some t =>
          rw [step, Crowd.giveUp, ht]
          exact .giveUp ht
  | ask query fields limit => exact .ask query fields limit
  | search call =>
      cases hc : σ.searches[call]? with
      | none =>
          rw [step, advanceSearch, hc]
          exact .idle fun i hi => by cases hi
      | some c =>
          rw [step_search_eq hc]
          exact .search hc
  | wait milliseconds =>
      exact .age (fun i => rfl) ⟨rfl, rfl, rfl, rfl, .of_subset fun e he => he,
        .of_subset fun e he => he, id, id⟩
  | disposeResults =>
      exact .age (fun i => rfl) ⟨rfl, rfl, rfl, rfl, Cache.dispose_holdsLess _, .refl _, id,
        fun _ => Cache.dispose_isDisposed _⟩
  | disposeSnapshot =>
      exact .age (fun i => rfl) ⟨rfl, rfl, rfl, rfl, .refl _, Cache.dispose_holdsLess _,
        fun _ => Cache.dispose_isDisposed _, id⟩

theorem run_cons (σ : Session) (st : SessionStep) (steps : List SessionStep) :
    σ.run (st :: steps) = (σ.step st).run steps := rfl

theorem run_append (σ : Session) (steps more : List SessionStep) :
    σ.run (steps ++ more) = (σ.run steps).run more := by
  simp [run, List.foldl_append]

end Session
end ComponentAtlas
