import ComponentAtlas.Proofs.Cache.Live
import ComponentAtlas.Proofs.Engine.RightToBuild

/-!
# Builds that fail

A request to build may fail at many places, and at all of them but one it has published nothing.
The one is a publication that a disposed cache refuses: by then the generation has gone up and the
snapshot is in place.  So a failed request leaves every answer as it was, unless the engine was
disposed of.
-/

namespace ComponentAtlas

namespace Engine

/-- Two engines have published the same, and answer all questions alike that need no kept
results. -/
structure SameAnswers (e e' : Engine) : Prop where
  snapshot : e'.snapshot = e.snapshot
  generation : e'.generation = e.generation
  state : e'.state = e.state
  component? : ∀ name, e'.component? name = e.component? name
  categories : e'.categories = e.categories
  category : ∀ name, e'.category name = e.category name
  componentsIn : ∀ name, e'.componentsIn name = e.componentsIn name
  related : ∀ name kind, e'.related name kind = e.related name kind
  relatedText : ∀ name kind, e'.relatedText name kind = e.relatedText name kind
  type? : ∀ name, e'.type? name = e.type? name
  componentNames : ∀ category, e'.componentNames category = e.componentNames category
  typeNames : e'.typeNames = e.typeNames
  statistics : e'.statistics = e.statistics

/-- Every question is answered from the published snapshot. -/
theorem SameAnswers.of_eq {e e' : Engine} (hs : e'.snapshot = e.snapshot)
    (hg : e'.generation = e.generation) (hb : e'.isBuilding = e.isBuilding) :
    e.SameAnswers e' := by
  have hcurrent : e'.current = e.current := by simp only [current, hs]
  have hcategory (name : String) : e'.category name = e.category name := by
    simp only [Engine.category, hcurrent]
  have hrelated (name : String) (kind : Relationship) :
      e'.related name kind = e.related name kind := by
    simp only [Engine.related, hcurrent]
  refine ⟨hs, hg, ?_, fun name => ?_, ?_, hcategory, fun name => ?_, hrelated,
    fun name kind => ?_, fun name => ?_, fun category => ?_, ?_, ?_⟩
  · rw [Engine.state, Engine.state, isIndexed, isIndexed, hs, hb]
  · simp only [Engine.component?, hcurrent]
  · simp only [Engine.categories, hcurrent]
  · simp only [Engine.componentsIn, hcurrent]
  · simp only [Engine.relatedText, hrelated]
  · simp only [Engine.type?, hcurrent]
  · cases category <;> simp only [Engine.componentNames, hcurrent, hcategory]
  · simp only [Engine.typeNames, hcurrent]
  · simp only [Engine.statistics, hcurrent]

/-- Neither cache was disposed of. -/
def isAlive (e : Engine) : Bool :=
  !e.snapshotCache.isDisposed && !e.searchCache.isDisposed

/-! ## Publishing -/

theorem snapshotKey_not_blank : Text.allBlank snapshotKey.toList = false := by decide

theorem cacheSnapshot_cases (e : Engine) (s : Snapshot) :
    (e.snapshotCache.isDisposed = true ∧ e.cacheSnapshot s = (.error (.cache .disposed), e)) ∨
      (e.snapshotCache.isDisposed = false ∧ ∃ cache : Cache Snapshot, cache.isDisposed = false ∧
        e.cacheSnapshot s = (.ok (), { e with snapshotCache := cache })) := by
  unfold cacheSnapshot
  rcases Cache.set_cases e.snapshotCache snapshotKey s with
    ⟨err, hr, hset⟩ | ⟨cache, hr, hset, hsame, -⟩
  · obtain ⟨rfl, hd⟩ := Cache.isDisposed_of_refused snapshotKey_not_blank hr
    exact Or.inl ⟨hd, by rw [hset]⟩
  · have hd := Cache.isDisposed_of_not_refused hr
    exact Or.inr ⟨hd, cache, hsame.trans hd, by rw [hset]⟩

theorem dropStaleResults_cases (e : Engine) (generation : Nat) :
    (e.searchCache.isDisposed = true ∧
        e.dropStaleResults generation = (.error (.cache .disposed), e)) ∨
      (e.searchCache.isDisposed = false ∧ ∃ cache,
        e.dropStaleResults generation = (.ok (), { e with searchCache := cache })) := by
  unfold dropStaleResults Cache.removeWhere
  cases hd : e.searchCache.isDisposed with
  | true => exact Or.inl ⟨rfl, rfl⟩
  | false => exact Or.inr ⟨rfl, _, rfl⟩

/-- A publication counts, and it succeeds when no cache was disposed of. -/
theorem publish_cases (e : Engine) (s : Snapshot) :
    (e.publish s).2.generation = e.generation + 1 ∧
      ((e.isAlive = false ∧ (e.publish s).1 = .error (.cache .disposed)) ∨
        (e.isAlive = true ∧ (e.publish s).2.snapshotCache.isDisposed = false ∧
          ∃ s', (e.publish s).1 = .ok s')) := by
  unfold publish
  simp only
  rcases cacheSnapshot_cases (e.number.setSnapshot { s with generation := e.number.generation })
    { s with generation := e.number.generation } with ⟨hd, hput⟩ | ⟨hd, cache, hc, hput⟩
  · rw [hput]
    refine ⟨rfl, Or.inl ⟨?_, rfl⟩⟩
    rw [isAlive, show e.snapshotCache.isDisposed = true from hd]
    rfl
  · rw [hput]
    simp only
    rcases dropStaleResults_cases _ _ with ⟨hd', hdrop⟩ | ⟨hd', results, hdrop⟩
    · rw [hdrop]
      refine ⟨rfl, Or.inl ⟨?_, rfl⟩⟩
      rw [isAlive, show e.searchCache.isDisposed = true from hd', Bool.not_true, Bool.and_false]
    · rw [hdrop]
      refine ⟨rfl, Or.inr ⟨?_, hc, _, rfl⟩⟩
      rw [isAlive, show e.snapshotCache.isDisposed = false from hd,
        show e.searchCache.isDisposed = false from hd']
      rfl

/-! ## Requests in one go -/

/-- The engine when nobody has the right to build and no build is running. -/
def atRest (e : Engine) : Engine :=
  { e with isLocked := false, isBuilding := false }

/-- Who publishes asks neither for the lock nor for the flag. -/
theorem publish_of_flags (e : Engine) (isLocked isBuilding : Bool) (s : Snapshot) :
    { e with isLocked, isBuilding }.publish s =
      ((e.publish s).1, { (e.publish s).2 with isLocked, isBuilding }) := by
  simp only [publish, number, setSnapshot, cacheSnapshot, dropStaleResults]
  generalize e.snapshotCache.set snapshotKey { s with generation := e.generation + 1 } = stored
  obtain ⟨_ | _, cache⟩ := stored
  · rfl
  · simp only
    generalize (e.searchCache.removeWhere fun key =>
      (Text.after? (searchKeyStart (e.generation + 1)).toList key.toList).isNone) = dropped
    obtain ⟨_ | _, results⟩ := dropped <;> rfl

theorem publishBuilt_of_flags (e : Engine) (isLocked isBuilding : Bool)
    (built : Except IndexError Snapshot) :
    { e with isLocked, isBuilding }.publishBuilt built =
      ((e.publishBuilt built).1, { (e.publishBuilt built).2 with isLocked, isBuilding }) := by
  cases built with
  | error err => rfl
  | ok s => exact e.publish_of_flags isLocked isBuilding s

/-- Whoever has the right to build publishes what the build has given, and is at rest afterwards. -/
theorem buildLocked_eq (e : Engine) (tree : SourceTree) (availability : Availability)
    (cancelled : Bool) :
    let built := Snapshot.build e.settings tree availability cancelled
    e.buildLocked tree availability cancelled =
      ((e.publishBuilt built).1, (e.publishBuilt built).2.atRest) := by
  intro built
  have hflags := e.publishBuilt_of_flags true true built
  unfold buildLocked runBuild
  simp only
  rw [hflags]
  rfl

section
variable {e : Engine} {tree : SourceTree} {availability : Availability} {cancelled : Bool}
  {err : IndexError}

theorem build_of_free (hfree : e.isLocked = false) :
    let built := Snapshot.build e.settings tree availability cancelled
    e.build tree availability cancelled =
      ((e.publishBuilt built).1, (e.publishBuilt built).2.atRest) := by
  rw [build, hfree, if_neg Bool.false_ne_true]
  exact e.buildLocked_eq tree availability cancelled

theorem rebuild_of_free (hfree : e.isLocked = false) (cache : Cache Snapshot) :
    let made := { e with snapshotCache := cache }.publishBuilt
      (Snapshot.build e.settings tree availability cancelled)
    rebuild tree availability cancelled e cache =
      (made.1, made.2.atRest, made.2.snapshotCache) := by
  unfold rebuild
  simp only
  rw [if_neg (by rw [hfree]; exact Bool.false_ne_true), buildLocked_eq]
  rfl

/-- A build that fails changed something just when it came to a publication. -/
theorem build_failed (hidle : e.isLocked = false → e.isBuilding = false)
    (h : (e.build tree availability cancelled).1 = .error err) :
    e.SameAnswers (e.build tree availability cancelled).2 ↔
      ¬ (e.isLocked = false ∧ e.isAlive = false ∧
        ∃ s, Snapshot.build e.settings tree availability cancelled = .ok s) := by
  cases hl : e.isLocked with
  | true =>
      rw [build, hl, if_pos rfl]
      exact ⟨fun _ => by simp, fun _ => .of_eq rfl rfl rfl⟩
  | false =>
      rw [build_of_free hl] at h ⊢
      cases hb : Snapshot.build e.settings tree availability cancelled with
      | error fault => exact ⟨fun _ => by simp, fun _ => .of_eq rfl rfl (hidle hl).symm⟩
      | ok s =>
          simp only [hb, publishBuilt] at h ⊢
          obtain ⟨hcount, ⟨hdead, -⟩ | ⟨-, -, s', hok⟩⟩ := publish_cases e s
          · refine ⟨fun hsame => ?_, fun hnot => absurd ⟨trivial, hdead, s, rfl⟩ hnot⟩
            have hgeneration : (e.publish s).2.generation = e.generation := hsame.generation
            omega
          · rw [hok] at h
            cases h

/-- The same for a request that only needs some snapshot: it asks the snapshot cache first, so that
it comes to a publication only if that cache is there. -/
theorem ensureIndexed_failed (hidle : e.isLocked = false → e.isBuilding = false)
    (h : (e.ensureIndexed tree availability cancelled).1 = .error err) :
    e.SameAnswers (e.ensureIndexed tree availability cancelled).2 ↔
      ¬ (e.isLocked = false ∧ e.snapshotCache.isDisposed = false ∧
        e.searchCache.isDisposed = true ∧
        ∃ s, Snapshot.build e.settings tree availability cancelled = .ok s) := by
  unfold ensureIndexed at h ⊢
  rcases Cache.getOrCreateWith_cases IndexError.cache e (rebuild tree availability cancelled)
      e.snapshotCache snapshotKey with
    ⟨fault, hr, hcall⟩ | ⟨s, cache, -, hcall⟩ |
      ⟨cache, made, e', cache', hr, hsame, hmade, hcall⟩
  · have hd := (Cache.isDisposed_of_refused snapshotKey_not_blank hr).2
    rw [hcall]
    exact ⟨fun _ => by simp [hd], fun _ => .of_eq rfl rfl rfl⟩
  · rw [hcall] at h
    cases h
  have hd := Cache.isDisposed_of_not_refused hr
  rw [hcall] at h ⊢
  cases hl : e.isLocked with
  | true =>
      -- it waits, and the gate is all that it has touched
      simp only [rebuild, hl, if_true, Prod.mk.injEq] at hmade
      obtain ⟨-, rfl, -⟩ := hmade
      exact ⟨fun _ => by simp, fun _ => .of_eq rfl rfl rfl⟩
  | false =>
      rw [rebuild_of_free hl] at hmade
      obtain ⟨rfl, rfl, rfl⟩ : _ ∧ _ ∧ _ := by simpa only [Prod.mk.injEq] using hmade
      cases hb : Snapshot.build e.settings tree availability cancelled with
      | error fault => exact ⟨fun _ => by simp, fun _ => .of_eq rfl rfl (hidle hl).symm⟩
      | ok s =>
          simp only [hb, publishBuilt] at h ⊢
          obtain ⟨hcount, ⟨hdead, -⟩ | ⟨-, hopen, s', hok⟩⟩ :=
            publish_cases { e with snapshotCache := cache } s
          · have hresults : e.searchCache.isDisposed = true := by
              simpa [isAlive, hsame, hd] using hdead
            refine ⟨fun hkept => ?_, fun hnot => absurd ⟨trivial, hd, hresults, s, rfl⟩ hnot⟩
            have hgeneration := hkept.generation
            simp only [atRest, hcount] at hgeneration
            omega
          · rw [hok, Cache.keep_ok snapshotKey_not_blank hopen] at h
            cases h

end

end Engine

/-! ## Requests among other steps -/

namespace TaskStage

/-- A task at this stage has a number or a result, and fails only if a cache refuses. -/
def isCommitted : TaskStage → Bool
  | .numbered _ | .published _ | .cached _ | .finishing (.ok _) | .keeping _ | .leaving (.ok _)
  | .done (.ok _) => true
  | _ => false

end TaskStage

namespace Crowd

variable {e e' : Engine}

/-- Whatever changes what is published commits its task. -/
theorem Effect.published_eq {before after : TaskStage} (h : Effect e before e' after)
    (hafter : after.isCommitted = false) :
    e'.snapshot = e.snapshot ∧ e'.generation = e.generation := by
  cases h with
  | quiet snapshot generation _ _ _ => exact ⟨snapshot, generation⟩
  | number _ | publish _ => cases hafter
  | drop s _ =>
      rw [dropStaleResults_snd]
      exact ⟨rfl, rfl⟩

theorem advance_isCommitted (built : Except IndexError Snapshot) (isFree : Nat → Bool) {t : Task}
    (halive : e.isAlive = true) (h : t.stage.isCommitted = true) :
    (advance built isFree e t).2.stage.isCommitted = true := by
  simp only [Engine.isAlive, Bool.and_eq_true, Bool.not_eq_true'] at halive
  obtain ⟨hsnapshots, hresults⟩ := halive
  obtain ⟨kind, gate, stage⟩ := t
  cases stage with
  | numbered s => rfl
  | published s =>
      rcases Engine.cacheSnapshot_cases e s with ⟨hd, -⟩ | ⟨-, cache, -, hput⟩
      · simp [hsnapshots] at hd
      · simp only [advance, hput]
        rfl
  | cached s =>
      rcases Engine.dropStaleResults_cases e s.generation with ⟨hd, -⟩ | ⟨-, cache, hdrop⟩
      · simp [hresults] at hd
      · simp only [advance, hdrop]
        rfl
  | finishing result =>
      cases result with
      | error err => cases h
      | ok s => cases kind <;> rfl
  | keeping s =>
      rcases Engine.cacheSnapshot_cases e s with ⟨hd, -⟩ | ⟨-, cache, -, hput⟩
      · simp [hsnapshots] at hd
      · simp only [advance, hput]
        rfl
  | leaving result =>
      cases result with
      | error err => cases h
      | ok s => rfl
  | done result => exact h
  | start | missed | atGate | inside | missedAgain | waiting _ | comparing _ | taking | ready
  | reading | built _ => cases h

theorem abandon_isCommitted {t : Task} (h : t.stage.isCommitted = true) :
    (abandon e t).2.stage.isCommitted = true := by
  obtain ⟨kind, gate, stage⟩ := t
  cases stage with
  | start | atGate | waiting _ | reading => cases h
  | missed | inside | missedAgain | comparing _ | taking | ready | built _ | numbered _
  | published _ | cached _ | finishing _ | keeping _ | leaving _ | done _ => exact h

end Crowd

namespace Session

variable {σ τ : Session} {st : SessionStep} {i : Nat} {t : Task}

/-- A cache that was disposed of stays so. -/
theorem Change.isAlive (h : σ.Change st τ) (halive : τ.engine.isAlive = true) :
    σ.engine.isAlive = true := by
  have hof {e : Engine} (hs : e.snapshotCache.isDisposed = σ.engine.snapshotCache.isDisposed)
      (hr : e.searchCache.isDisposed = σ.engine.searchCache.isDisposed) (he : e.isAlive = true) :
      σ.engine.isAlive = true := by
    simpa only [Engine.isAlive, hs, hr] using he
  cases h with
  | begin _ | ask _ _ _ | idle _ => exact halive
  | @advance _ t built _ =>
      have heffect := Crowd.advance_effect built σ.crowd.isFree σ.engine t
      exact hof heffect.snapshots_isDisposed heffect.results_isDisposed halive
  | @giveUp _ t _ =>
      have heffect := Crowd.abandon_effect σ.engine t
      exact hof heffect.snapshots_isDisposed heffect.results_isDisposed halive
  | @search _ c _ =>
      have hmoves := SearchCall.advance_moves σ.engine c
      exact hof (by rw [hmoves.snapshotCache_eq]) hmoves.results_isDisposed halive
  | @age _ e' _ ages =>
      have he : e'.isAlive = true := halive
      simp only [Engine.isAlive, Bool.and_eq_true, Bool.not_eq_true', ← Bool.not_eq_true] at he ⊢
      exact ⟨fun hg => he.1 (ages.snapshots_gone hg), fun hg => he.2 (ages.results_gone hg)⟩

theorem isAlive_of_run {steps : List SessionStep} (h : (σ.run steps).engine.isAlive = true) :
    σ.engine.isAlive = true := by
  induction steps generalizing σ with
  | nil => exact h
  | cons st steps ih => exact (σ.step_change st).isAlive (ih h)

/-- A task is moved by its own steps and by no others. -/
theorem Change.task (h : σ.Change st τ) (ht : σ.crowd.tasks[i]? = some t) :
    (st.isOfTask i = false ∧ τ.crowd.tasks[i]? = some t) ∨
      (∃ built isFree, st = .advance i built ∧
        τ.engine = (Crowd.advance built isFree σ.engine t).1 ∧
        τ.crowd.tasks[i]? = some (Crowd.advance built isFree σ.engine t).2) ∨
      (τ.engine = (Crowd.abandon σ.engine t).1 ∧
        τ.crowd.tasks[i]? = some (Crowd.abandon σ.engine t).2) := by
  have hlt : i < σ.crowd.tasks.length := (List.getElem?_eq_some_iff.mp ht).1
  cases h with
  | begin kind =>
      refine Or.inl ⟨rfl, ?_⟩
      rwa [Crowd.begin, List.getElem?_append_left hlt]
  | @advance task u built there =>
      by_cases hi : task = i
      · subst hi
        obtain rfl := Option.some.inj (there.symm.trans ht)
        exact Or.inr (Or.inl ⟨built, σ.crowd.isFree, rfl, rfl, List.getElem?_set_self hlt⟩)
      · refine Or.inl ⟨by simpa [SessionStep.isOfTask] using hi, ?_⟩
        rwa [List.getElem?_set_ne hi]
  | @giveUp task u there =>
      by_cases hi : task = i
      · subst hi
        obtain rfl := Option.some.inj (there.symm.trans ht)
        exact Or.inr (Or.inr ⟨rfl, List.getElem?_set_self hlt⟩)
      · refine Or.inl ⟨by simpa [SessionStep.isOfTask] using hi, ?_⟩
        rwa [List.getElem?_set_ne hi]
  | ask _ _ _ | search _ => exact Or.inl ⟨rfl, ht⟩
  | age apart _ => exact Or.inl ⟨apart i, ht⟩
  | idle absent =>
      refine Or.inl ⟨?_, ht⟩
      cases hown : st.isOfTask i with
      | false => rfl
      | true => exact absurd ((absent i hown).symm.trans ht) (by simp)

/-- A step of a task that is not there changes nothing. -/
theorem Change.eq_of_absent (h : σ.Change st τ) (hown : st.isOfTask i = true)
    (ht : σ.crowd.tasks[i]? = none) : τ = σ := by
  cases h with
  | @advance task _ _ there =>
      obtain rfl : task = i := beq_iff_eq.mp hown
      exact absurd (there.symm.trans ht) (by simp)
  | @giveUp task _ there =>
      obtain rfl : task = i := beq_iff_eq.mp hown
      exact absurd (there.symm.trans ht) (by simp)
  | begin _ | ask _ _ _ | search _ => cases hown
  | age apart _ => exact absurd (hown.symm.trans (apart i)) (by simp)
  | idle _ => rfl

/-- A committed task stays so while there is no cache to refuse. -/
theorem step_committed (st : SessionStep) (halive : σ.engine.isAlive = true)
    (ht : σ.crowd.tasks[i]? = some t) (h : t.stage.isCommitted = true) :
    ∃ t', (σ.step st).crowd.tasks[i]? = some t' ∧ t'.stage.isCommitted = true := by
  rcases (σ.step_change st).task ht with ⟨-, ht'⟩ | ⟨built, isFree, -, -, ht'⟩ | ⟨-, ht'⟩
  · exact ⟨t, ht', h⟩
  · exact ⟨_, ht', Crowd.advance_isCommitted built isFree halive h⟩
  · exact ⟨_, ht', Crowd.abandon_isCommitted h⟩

theorem run_committed {steps : List SessionStep} (halive : (σ.run steps).engine.isAlive = true)
    (ht : σ.crowd.tasks[i]? = some t) (h : t.stage.isCommitted = true) :
    ∃ t', (σ.run steps).crowd.tasks[i]? = some t' ∧ t'.stage.isCommitted = true := by
  induction steps generalizing σ t with
  | nil => exact ⟨t, ht, h⟩
  | cons st steps ih =>
      have hstart : σ.engine.isAlive = true := (σ.step_change st).isAlive (isAlive_of_run halive)
      obtain ⟨t', ht', h'⟩ := step_committed st hstart ht h
      exact ih halive ht' h'

/-- A committed task is not one that has failed. -/
theorem not_failed_of_committed {err : IndexError} (ht : σ.crowd.tasks[i]? = some t)
    (h : t.stage.isCommitted = true) : σ.crowd.result? i ≠ some (.error err) := by
  unfold Crowd.result?
  rw [ht, Option.map_some]
  intro hfailed
  split at hfailed
  · rename_i r hstage
    obtain rfl := Option.some.inj hfailed
    simp [Option.some.inj hstage, TaskStage.isCommitted] at h
  · cases hfailed

/-- The steps of a request that fails change nothing that is published. -/
theorem step_of_failed {st : SessionStep} {late : List SessionStep} {err : IndexError}
    (hown : st.isOfTask i = true)
    (hfailed : ((σ.step st).run late).crowd.result? i = some (.error err))
    (halive : ((σ.step st).run late).engine.isAlive = true) :
    (σ.step st).engine.snapshot = σ.engine.snapshot ∧
      (σ.step st).engine.generation = σ.engine.generation := by
  cases ht : σ.crowd.tasks[i]? with
  | none =>
      rw [(σ.step_change st).eq_of_absent hown ht]
      exact ⟨rfl, rfl⟩
  | some t =>
      have huncommitted {t' : Task} (ht' : (σ.step st).crowd.tasks[i]? = some t') :
          t'.stage.isCommitted = false := by
        cases hc : t'.stage.isCommitted with
        | false => rfl
        | true =>
            obtain ⟨u, hu, hcommitted⟩ := run_committed halive ht' hc
            exact absurd hfailed (not_failed_of_committed hu hcommitted)
      rcases (σ.step_change st).task ht with ⟨hother, -⟩ | ⟨built, isFree, -, he, ht'⟩ | ⟨he, ht'⟩
      · rw [hown] at hother
        cases hother
      · rw [he]
        exact (Crowd.advance_effect built isFree σ.engine t).published_eq (huncommitted ht')
      · rw [he]
        exact (Crowd.abandon_effect σ.engine t).published_eq (huncommitted ht')

/-- A request that has failed does not hold up the engine: if a build is running, it is another
one. -/
theorem building_elsewhere {err : IndexError} (h : σ.crowd.OneBuilds)
    (hfailed : σ.crowd.result? i = some (.error err)) (hb : σ.engine.isBuilding = true) :
    ∃ j t, j ≠ i ∧ σ.crowd.tasks[j]? = some t ∧ t.stage.hasRight = true := by
  obtain ⟨t, hmem, hright⟩ := exists_hasRight h hb
  obtain ⟨j, hj⟩ := List.getElem?_of_mem hmem
  refine ⟨j, t, ?_, hj, hright⟩
  rintro rfl
  unfold Crowd.result? at hfailed
  rw [hj, Option.map_some] at hfailed
  split at hfailed
  · rename_i r hstage
    simp [Option.some.inj hstage, TaskStage.hasRight] at hright
  · cases hfailed

end Session

/-- A request that fails is unnoticed by everybody else, unless it came to a publication that a
disposed cache refused.  In one go, whatever happened to the engine before, this is the exact
condition.  Among other steps, while no cache was disposed of, no step of the request changes what
is published, and when it has failed a build is running only if it is another one. -/
theorem failed_build_unnoticed_iff (settings : Settings) (windows : Windows)
    (before : List SessionStep) :
    let σ := (Session.ofSettings settings windows).run before
    let e := σ.engine
    (∀ tree availability cancelled err, (e.build tree availability cancelled).1 = .error err →
      (e.SameAnswers (e.build tree availability cancelled).2 ↔
        ¬ (e.isLocked = false ∧ e.isAlive = false ∧
          ∃ s, Snapshot.build e.settings tree availability cancelled = .ok s))) ∧
    (∀ tree availability cancelled err,
      (e.ensureIndexed tree availability cancelled).1 = .error err →
      (e.SameAnswers (e.ensureIndexed tree availability cancelled).2 ↔
        ¬ (e.isLocked = false ∧ e.snapshotCache.isDisposed = false ∧
          e.searchCache.isDisposed = true ∧
          ∃ s, Snapshot.build e.settings tree availability cancelled = .ok s))) ∧
    ∀ kind after err,
      let task := σ.crowd.tasks.length
      let begun := σ.step (.begin kind)
      (begun.run after).crowd.result? task = some (.error err) →
      (begun.run after).engine.isAlive = true →
      (∀ early st late, after = early ++ st :: late → st.isOfTask task = true →
        ((begun.run early).step st).engine.snapshot = (begun.run early).engine.snapshot ∧
          ((begun.run early).step st).engine.generation = (begun.run early).engine.generation) ∧
      ((begun.run after).engine.isBuilding = true →
        ∃ other t, other ≠ task ∧ (begun.run after).crowd.tasks[other]? = some t ∧
          t.stage.hasRight = true) := by
  intro σ e
  have hone := Session.oneBuilds_run (Session.oneBuilds_ofSettings settings windows) before
  have hidle : e.isLocked = false → e.isBuilding = false := fun hfree => by
    cases hb : e.isBuilding with
    | false => rfl
    | true => exact absurd (hfree.symm.trans (hone.building hb)) (by decide)
  refine ⟨fun tree availability cancelled err h => Engine.build_failed hidle h,
    fun tree availability cancelled err h => Engine.ensureIndexed_failed hidle h, ?_⟩
  intro kind after err task begun hfailed halive
  refine ⟨fun early st late hafter hown => ?_, fun hb => ?_⟩
  · rw [hafter, Session.run_append, Session.run_cons] at hfailed halive
    exact Session.step_of_failed hown hfailed halive
  · have hlater := Session.oneBuilds_run ((σ.step_change (.begin kind)).oneBuilds hone) after
    exact Session.building_elsewhere hlater hfailed hb

/-- A rebuild of a source tree that is gone, a request for a snapshot that is cancelled, and a build
that is given up while it reads. -/
theorem failed_build_unnoticed_gone_or_given_up :
    let dial : Snapshot := ⟨[Component.ofName "Dial"], [], [], "", 0⟩
    let before := SessionStep.publication 0 dial ++ [.wait 90]
    let σ := (Session.ofSettings .standard ⟨some 30, none⟩).run before
    let e := σ.engine
    let begun := σ.step (.begin .build)
    let started := (begun.step (.advance 1 (.ok dial))).step (.advance 1 (.ok dial))
    e.SameAnswers (e.build ⟨⟨[]⟩, "gone"⟩ (.answered true) false).2 ∧
      e.SameAnswers (e.ensureIndexed ⟨⟨[]⟩, "gone"⟩ (.failed "no remote") true).2 ∧
      (started.step (.giveUp 1)).engine.snapshot = started.engine.snapshot ∧
      (started.step (.giveUp 1)).engine.generation = started.engine.generation := by
  intro dial before σ e begun started
  obtain ⟨hbuild, hensure, hamong⟩ := failed_build_unnoticed_iff .standard ⟨some 30, none⟩ before
  have hgone : (e.build ⟨⟨[]⟩, "gone"⟩ (.answered true) false).1 =
      .error (.sourceUnavailable "gone" "source tree not found") := by decide +kernel
  have hcancelled : (e.ensureIndexed ⟨⟨[]⟩, "gone"⟩ (.failed "no remote") true).1 =
      .error .cancelled := by decide +kernel
  have halive : e.isAlive = true := by decide +kernel
  have hgivenUp := hamong .build
    [.advance 1 (.ok dial), .advance 1 (.ok dial), .giveUp 1] .cancelled
    (by decide +kernel) (by decide +kernel)
  refine ⟨(hbuild _ _ _ _ hgone).mpr fun h => ?_, (hensure _ _ _ _ hcancelled).mpr fun h => ?_,
    hgivenUp.1 [.advance 1 (.ok dial), .advance 1 (.ok dial)] (.giveUp 1) [] rfl
      (by decide +kernel)⟩
  · exact absurd (halive.symm.trans h.2.1) (by decide)
  · exact absurd h.2.2.1 (by decide +kernel)

/-- The engine after `dispose`: its build fails, and yet the snapshot is published. -/
theorem disposed_build_publishes :
    let e := ((Session.ofSettings .standard .standard).run
      [.disposeResults, .disposeSnapshot]).engine
    let tree : SourceTree := ⟨⟨[(["mudblazor"], .directory)]⟩, "mudblazor"⟩
    (e.build tree (.answered true) false).1 = .error (.cache .disposed) ∧
      e.state = .notIndexed ∧ (e.build tree (.answered true) false).2.state = .indexed ∧
      ¬ e.SameAnswers (e.build tree (.answered true) false).2 := by
  intro e tree
  have hbefore : e.state = .notIndexed := rfl
  have hafter : (e.build tree (.answered true) false).2.state = .indexed := by decide +kernel
  refine ⟨by decide +kernel, hbefore, hafter, fun hsame => ?_⟩
  have hstate := hsame.state
  rw [hbefore, hafter] at hstate
  cases hstate

end ComponentAtlas
