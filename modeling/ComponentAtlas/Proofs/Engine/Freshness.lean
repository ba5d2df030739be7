import ComponentAtlas.Proofs.Engine.FailedBuild
import ComponentAtlas.Proofs.Engine.Publication

/-!
# How new a snapshot is that a request returns

A request that needs some snapshot returns one that it has found in the cache, or one that was the
published one while it had the right to build.  The second is never older than what was published
when the request began.  The first may be: the request that has had a snapshot built puts it into
the cache once more, after it has given back the right to build, and by then another build may have
published a newer one and have put it into the cache.
-/

namespace ComponentAtlas

namespace Crowd

variable {e : Engine} {t : Task} {s : Snapshot}

theorem advance_of_finds (built : Except IndexError Snapshot) (isFree : Nat → Bool)
    (h : t.Finds e s) : (advance built isFree e t).2.stage.Returns s := by
  obtain ⟨kind, gate, stage⟩ := t
  rcases h with ⟨rfl, rfl, hget⟩ | ⟨rfl, hpass⟩
  · rcases hfound : e.snapshotCache.get Engine.snapshotKey with ⟨found, cache⟩
    rw [hfound] at hget
    obtain rfl := hget
    simp only [advance, hfound]
    exact Or.inr rfl
  · rcases hfound : e.snapshotCache.passGate Engine.snapshotKey with ⟨found, cache⟩
    rw [hfound] at hpass
    obtain rfl := hpass
    simp only [advance, hfound]
    exact Or.inl rfl

theorem advance_of_returns (built : Except IndexError Snapshot) (isFree : Nat → Bool)
    (h : t.stage.Returns s) : (advance built isFree e t).2.stage.Returns s := by
  obtain ⟨kind, gate, stage⟩ := t
  rcases h with rfl | rfl
  · exact Or.inr rfl
  · exact Or.inr rfl

theorem abandon_of_returns (h : t.stage.Returns s) : (abandon e t).2.stage.Returns s := by
  obtain ⟨kind, gate, stage⟩ := t
  rcases h with rfl | rfl
  · exact Or.inl rfl
  · exact Or.inr rfl

/-- What a task will return it had before, or it has just found it in the cache, or it is the
published one. -/
theorem Move.kept_cases {e' : Engine} {after : TaskStage} (h : Move e t e' after)
    (hkept : after.kept? = some s) :
    t.stage.kept? = some s ∨ t.stage = .finishing (.ok s) ∨ t.Finds e s := by
  cases h with
  | quiet hquiet =>
      rcases hquiet.follows.kept s hkept with h | h
      · exact Or.inl h
      · exact Or.inr (Or.inl h)
  | find p finds _ _ _ returns =>
      rcases returns with rfl | rfl
      · obtain rfl := Option.some.inj hkept
        exact Or.inr (Or.inr finds)
      · obtain rfl := Option.some.inj hkept
        exact Or.inr (Or.inr finds)
  | take _ _ _ | number _ _ | publish _ _ => cases hkept
  | put p _ stage =>
      have hplain (h : after.isPlain = true) : t.stage.kept? = some s := by
        rw [TaskStage.kept_eq_none_of_plain h] at hkept
        cases hkept
      rcases stage with ⟨-, rfl | hnone⟩ | ⟨hstage, rfl | hnone⟩
      · cases hkept
      · exact Or.inl (hplain hnone)
      · rw [hstage]
        exact Or.inl hkept
      · exact Or.inl (hplain hnone)

end Crowd

namespace Session

variable {σ τ : Session} {st : SessionStep} {steps : List SessionStep} {i : Nat} {t : Task}
  {s : Snapshot}

/-- In a run a task goes on from where something holds of it and of the engine. -/
def GoesOn (σ : Session) (steps : List SessionStep) (P : Nat → Engine → Task → Prop) : Prop :=
  ∃ early i built late t, steps = early ++ .advance i built :: late ∧
    (σ.run early).crowd.tasks[i]? = some t ∧ P i (σ.run early).engine t

/-- A task finds a snapshot with a lower number in the cache. -/
def FindsOlder (σ : Session) (steps : List SessionStep) (task number : Nat) : Prop :=
  σ.GoesOn steps fun i e t => i = task ∧ ∃ s, t.Finds e s ∧ s.generation < number

/-- A task puts the snapshot that it will return into the cache when a newer one is published. -/
def KeepsOlder (σ : Session) (steps : List SessionStep) : Prop :=
  σ.GoesOn steps fun _ e t => ∃ s, t.stage = .keeping s ∧ s.generation < e.published

theorem GoesOn.cons {P : Nat → Engine → Task → Prop} (h : (σ.step st).GoesOn steps P) :
    σ.GoesOn (st :: steps) P := by
  obtain ⟨early, i, built, late, t, rfl, ht, hp⟩ := h
  exact ⟨st :: early, i, built, late, t, rfl, ht, hp⟩

theorem GoesOn.append {P : Nat → Engine → Task → Prop} (h : σ.GoesOn steps P)
    (more : List SessionStep) : σ.GoesOn (steps ++ more) P := by
  obtain ⟨early, i, built, late, t, rfl, ht, hp⟩ := h
  exact ⟨early, i, built, late ++ more, t, List.append_assoc .., ht, hp⟩

theorem GoesOn.now {P : Nat → Engine → Task → Prop} (built : Except IndexError Snapshot)
    (ht : σ.crowd.tasks[i]? = some t) (hp : P i σ.engine t) :
    σ.GoesOn (.advance i built :: steps) P :=
  ⟨[], i, built, steps, t, rfl, ht, hp⟩

/-! ## What a request returns -/

theorem step_returns (st : SessionStep) (ht : σ.crowd.tasks[i]? = some t)
    (h : t.stage.Returns s) :
    ∃ t', (σ.step st).crowd.tasks[i]? = some t' ∧ t'.stage.Returns s := by
  rcases (σ.step_change st).task ht with ⟨-, ht'⟩ | ⟨built, isFree, -, -, ht'⟩ | ⟨-, ht'⟩
  · exact ⟨t, ht', h⟩
  · exact ⟨_, ht', Crowd.advance_of_returns built isFree h⟩
  · exact ⟨_, ht', Crowd.abandon_of_returns h⟩

theorem run_returns (steps : List SessionStep) (ht : σ.crowd.tasks[i]? = some t)
    (h : t.stage.Returns s) :
    ∃ t', (σ.run steps).crowd.tasks[i]? = some t' ∧ t'.stage.Returns s := by
  induction steps generalizing σ t with
  | nil => exact ⟨t, ht, h⟩
  | cons st steps ih =>
      obtain ⟨t', ht', h'⟩ := step_returns st ht h
      exact ih ht' h'

theorem result?_eq_some_iff {result : Except IndexError Snapshot} :
    σ.crowd.result? i = some result ↔
      ∃ t, σ.crowd.tasks[i]? = some t ∧ t.stage = .done result := by
  unfold Crowd.result?
  cases ht : σ.crowd.tasks[i]? with
  | none => simp
  | some t =>
      obtain ⟨kind, gate, stage⟩ := t
      cases stage <;> simp

/-- A request returns what it has found. -/
theorem lt_of_findsOlder {number : Nat} (h : σ.FindsOlder steps i number)
    (hresult : (σ.run steps).crowd.result? i = some (.ok s)) : s.generation < number := by
  obtain ⟨early, task, built, late, t, rfl, ht, rfl, old, hfinds, hlt⟩ := h
  have hnext : ((σ.run early).step (.advance task built)).crowd.tasks[task]? =
      some (Crowd.advance built (σ.run early).crowd.isFree (σ.run early).engine t).2 := by
    rw [step, Crowd.step, ht]
    exact List.getElem?_set_self (List.getElem?_eq_some_iff.mp ht).1
  rw [run_append, run_cons] at hresult
  obtain ⟨u, hu, hreturns⟩ := run_returns late hnext (Crowd.advance_of_finds _ _ hfinds)
  obtain ⟨u', hu', hdone⟩ := result?_eq_some_iff.mp hresult
  obtain rfl := Option.some.inj (hu.symm.trans hu')
  rcases hreturns with h | h
  · rw [h] at hdone
    cases hdone
  · rw [h] at hdone
    obtain rfl := Except.ok.inj (TaskStage.done.inj hdone)
    exact hlt

/-- A task that will return nothing older than some number goes on to do so, unless it finds
something older. -/
theorem run_kept {number : Nat} (h : InOrder σ) (hnumber : number ≤ σ.engine.published)
    (ht : σ.crowd.tasks[i]? = some t)
    (hkept : ∀ s, t.stage.kept? = some s → number ≤ s.generation) :
    σ.FindsOlder steps i number ∨ ∃ t', (σ.run steps).crowd.tasks[i]? = some t' ∧
      ∀ s, t'.stage.kept? = some s → number ≤ s.generation := by
  induction steps generalizing σ t with
  | nil => exact Or.inr ⟨t, ht, hkept⟩
  | cons st steps ih =>
      -- what is published only grows, so the number stays below it
      obtain ⟨hnext, hle⟩ := (σ.step_change st).inOrder h
      have hmem : t ∈ σ.crowd.tasks := List.mem_of_getElem? ht
      have hlater {t' : Task} (ht' : (σ.step st).crowd.tasks[i]? = some t')
          (hkept' : ∀ s, t'.stage.kept? = some s → number ≤ s.generation) :=
        (ih hnext (Nat.le_trans hnumber hle) ht' hkept').imp_left GoesOn.cons
      have hfinishing {s : Snapshot} (hs : t.stage = .finishing (.ok s)) :
          number ≤ s.generation := by
        have hpublished := h.current t hmem s (by rw [hs]; rfl)
        rw [Engine.published_eq_of_snapshot hpublished] at hnumber
        exact hnumber
      rcases (σ.step_change st).task ht with
        ⟨-, ht'⟩ | ⟨built, isFree, rfl, -, ht'⟩ | ⟨-, ht'⟩
      · exact hlater ht' hkept
      · by_cases hfound : ∃ s, t.Finds σ.engine s ∧ s.generation < number
        · exact Or.inl (.now built ht ⟨rfl, hfound⟩)
        · refine hlater ht' fun s hs => ?_
          rcases (Crowd.advance_move built isFree σ.engine t).kept_cases hs with hs | hs | hs
          · exact hkept s hs
          · exact hfinishing hs
          · exact Nat.le_of_not_lt fun hlt => hfound ⟨s, hs, hlt⟩
      · refine hlater ht' fun s hs => ?_
        rcases (Crowd.abandon_quiet σ.engine t).follows.kept s hs with hs | hs
        · exact hkept s hs
        · exact hfinishing hs

theorem published_le_of_result (h : InOrder σ)
    (hfinds : ¬ (σ.step (.begin .ensure)).FindsOlder steps σ.crowd.tasks.length
      σ.engine.published)
    (hresult : ((σ.step (.begin .ensure)).run steps).crowd.result? σ.crowd.tasks.length =
      some (.ok s)) : σ.engine.published ≤ s.generation := by
  have hbegun := ((σ.step_change (.begin .ensure)).inOrder h).1
  have ht : (σ.step (.begin .ensure)).crowd.tasks[σ.crowd.tasks.length]? =
      some ⟨.ensure, none, .start⟩ := List.getElem?_concat_length
  have hnothing (s : Snapshot) (hs : TaskStage.start.kept? = some s) :
      σ.engine.published ≤ s.generation := by cases hs
  obtain ⟨t, ht, hkept⟩ :=
    (run_kept hbegun (Nat.le_refl σ.engine.published) ht hnothing).resolve_left hfinds
  obtain ⟨t', ht', hdone⟩ := result?_eq_some_iff.mp hresult
  obtain rfl := Option.some.inj (ht.symm.trans ht')
  exact hkept s (by rw [hdone]; rfl)

/-- Nothing that was published at some time of a run is newer than what is published at its end. -/
theorem le_published_of_prefix (h : InOrder σ) {early : List SessionStep}
    (hearly : early <+: steps) (hs : (σ.run early).engine.snapshot = some s) :
    s.generation ≤ (σ.run steps).engine.published := by
  obtain ⟨late, rfl⟩ := hearly
  rw [run_append, ← Engine.published_eq_of_snapshot hs]
  exact (inOrder_run (inOrder_run h early).1 late).2

/-! ## What the cache holds -/

/-- A task is about to put the published snapshot into the cache. -/
def IsPublishing (σ : Session) : Prop :=
  ∃ t ∈ σ.crowd.tasks, t.stage.isPublished = true

/-- The cache, unless it was disposed of, holds nothing older than the published snapshot, but
while the published one is on its way there. -/
def IsCacheCurrent (σ : Session) : Prop :=
  σ.engine.snapshotCache.isDisposed = false → σ.IsPublishing ∨
    ∀ s, σ.engine.snapshotCache.Holds Engine.snapshotKey s → σ.engine.published ≤ s.generation

theorem IsPublishing.set {t' : Task} {e' : Engine} (h : σ.IsPublishing)
    (ht : σ.crowd.tasks[i]? = some t)
    (hstays : t.stage.isPublished = true → t'.stage = t.stage) :
    IsPublishing ⟨⟨e', σ.crowd.tasks.set i t'⟩, σ.searches⟩ := by
  obtain ⟨u, hu, hpublished⟩ := h
  obtain ⟨j, hj⟩ := List.getElem?_of_mem hu
  by_cases hij : i = j
  · subst hij
    obtain rfl := Option.some.inj (ht.symm.trans hj)
    have hlt := (List.getElem?_eq_some_iff.mp ht).1
    refine ⟨t', List.mem_of_getElem? (i := i) (List.getElem?_set_self hlt), ?_⟩
    rw [hstays hpublished]
    exact hpublished
  · refine ⟨u, List.mem_of_getElem? (i := j) ?_, hpublished⟩
    rw [List.getElem?_set_ne hij]
    exact hj

namespace IsCacheCurrent

theorem ofSettings (settings : Settings) (windows : Windows) :
    IsCacheCurrent (.ofSettings settings windows) :=
  fun _ => Or.inr fun _ _ => Nat.zero_le _

/-- Nothing is published and nothing is put into the cache. -/
theorem of_less (h : σ.IsCacheCurrent)
    (hopen : τ.engine.snapshotCache.isDisposed = false →
      σ.engine.snapshotCache.isDisposed = false)
    (hpublishing : σ.IsPublishing → τ.IsPublishing)
    (hsnapshot : τ.engine.snapshot = σ.engine.snapshot)
    (hless : τ.engine.snapshotCache.HoldsLess σ.engine.snapshotCache) : τ.IsCacheCurrent := by
  intro hdisposed
  refine (h (hopen hdisposed)).imp hpublishing fun hheld s hs => ?_
  rw [Engine.published_congr hsnapshot]
  exact hheld s (hless _ s hs)

theorem of_quiet (h : σ.IsCacheCurrent) {t' : Task} {e' : Engine}
    (ht : σ.crowd.tasks[i]? = some t) (hquiet : Crowd.Quiet σ.engine t.stage e' t'.stage)
    (hsame : e'.snapshotCache.isDisposed = σ.engine.snapshotCache.isDisposed) :
    IsCacheCurrent ⟨⟨e', σ.crowd.tasks.set i t'⟩, σ.searches⟩ :=
  h.of_less hsame.symm.trans (fun hp => hp.set ht hquiet.stays) hquiet.snapshot hquiet.less

theorem of_move (h : σ.IsCacheCurrent) (hin : InOrder σ) {t' : Task} {e' : Engine}
    (ht : σ.crowd.tasks[i]? = some t) (hmove : Crowd.Move σ.engine t e' t'.stage)
    (hsame : e'.snapshotCache.isDisposed = σ.engine.snapshotCache.isDisposed)
    (hnewer : ∀ s, t.stage = .keeping s → σ.engine.published ≤ s.generation) :
    IsCacheCurrent ⟨⟨e', σ.crowd.tasks.set i t'⟩, σ.searches⟩ := by
  have hopen (hd : e'.snapshotCache.isDisposed = false) :
      σ.engine.snapshotCache.isDisposed = false := hsame.symm.trans hd
  generalize hafter : t'.stage = after at hmove
  have hstays (hno : t.stage.isPublished = false) (hp : σ.IsPublishing) :
      IsPublishing ⟨⟨e', σ.crowd.tasks.set i t'⟩, σ.searches⟩ :=
    hp.set ht fun hs => absurd (hs.symm.trans hno) (by decide)
  cases hmove with
  | quiet hquiet =>
      subst hafter
      exact h.of_quiet ht hquiet hsame
  | find s finds snapshot generation less returns =>
      refine h.of_less hopen (hstays ?_) snapshot less
      rcases finds with ⟨-, hs, -⟩ | ⟨hs, -⟩
      · rw [hs]
        rfl
      · rw [hs]
        rfl
  | take s stage published =>
      exact h.of_less hopen (hstays (by rw [stage]; rfl)) rfl (.refl _)
  | number s stage =>
      exact h.of_less hopen (hstays (by rw [stage]; rfl)) rfl (.refl _)
  | publish s stage =>
      have hlt := (List.getElem?_eq_some_iff.mp ht).1
      refine fun _ => Or.inl ⟨t', List.mem_of_getElem? (List.getElem?_set_self hlt), ?_⟩
      rw [hafter]
      rfl
  | put s cached stage =>
      subst cached
      rw [Crowd.cacheSnapshot_snd] at hopen ⊢
      refine fun hd => Or.inr fun p hp => ?_
      -- what was put last is all that is held
      obtain rfl : p = s := Cache.eq_of_holds_set hd Engine.snapshotKey_not_blank hp
      rcases stage with ⟨hs, -⟩ | ⟨hs, -⟩
      · have hpublished := hin.current t (List.mem_of_getElem? ht) p (by rw [hs]; rfl)
        exact Nat.le_of_eq (Engine.published_eq_of_snapshot hpublished)
      · exact hnewer p hs

end IsCacheCurrent

theorem Change.isCacheCurrent (hchange : σ.Change st τ) (hin : InOrder σ)
    (h : σ.IsCacheCurrent) (hkeeps : ¬ σ.KeepsOlder [st]) : τ.IsCacheCurrent := by
  cases hchange with
  | begin kind =>
      refine h.of_less id (fun hpublishing => ?_) rfl (.refl _)
      obtain ⟨t, ht, hs⟩ := hpublishing
      exact ⟨t, List.mem_append_left _ ht, hs⟩
  | @advance i t built there =>
      refine h.of_move hin there (Crowd.advance_move ..)
        (Crowd.advance_effect ..).snapshots_isDisposed fun s hs => ?_
      exact Nat.le_of_not_lt fun hlt => hkeeps (.now built there ⟨s, hs, hlt⟩)
  | giveUp there =>
      exact h.of_quiet there (Crowd.abandon_quiet ..) (Crowd.abandon_effect ..).snapshots_isDisposed
  | ask _ _ _ => exact h.of_less id id rfl (.refl _)
  | @search _ c _ =>
      have hmoves := SearchCall.advance_moves σ.engine c
      have hsame := hmoves.snapshotCache_eq
      refine h.of_less (fun hd => ?_) id hmoves.snapshot_eq fun key s hs => ?_
      · rw [← hsame]
        exact hd
      · rw [← hsame]
        exact hs
  | age _ ages =>
      refine h.of_less (fun hd => ?_) id ages.snapshot ages.snapshots
      rw [← Bool.not_eq_true] at hd ⊢
      exact fun hgone => hd (ages.snapshots_gone hgone)
  | idle _ => exact h

theorem isCacheCurrent_run (hin : InOrder σ) (h : σ.IsCacheCurrent) :
    σ.KeepsOlder steps ∨ (σ.run steps).IsCacheCurrent := by
  induction steps generalizing σ with
  | nil => exact Or.inr h
  | cons st steps ih =>
      by_cases hkeeps : σ.KeepsOlder [st]
      · exact Or.inl (hkeeps.append steps)
      · have hchange := σ.step_change st
        have hnext := hchange.isCacheCurrent hin h hkeeps
        exact (ih (hchange.inOrder hin).1 hnext).imp_left GoesOn.cons

end Session

/-- A request that returns a snapshot returns one that is at least as new as all that were published
when it began, just when it has not found an older one in the cache.  The cache holds an older one
only while a task is between publishing a snapshot and putting it there, or after a request has put
there what a newer build had overtaken. -/
theorem ensure_fresh_iff (settings : Settings) (windows : Windows) (before : List SessionStep) :
    let start := Session.ofSettings settings windows
    let σ := start.run before
    let task := σ.crowd.tasks.length
    let begun := σ.step (.begin .ensure)
    (∀ after s, (begun.run after).crowd.result? task = some (.ok s) →
      ((∀ early, early <+: before → ∀ p, (start.run early).engine.snapshot = some p →
          p.generation ≤ s.generation) ↔
        ¬ begun.FindsOlder after task σ.engine.published)) ∧
    ∀ old, σ.engine.snapshotCache.isDisposed = false →
      σ.engine.snapshotCache.Holds Engine.snapshotKey old →
      old.generation < σ.engine.published → σ.IsPublishing ∨ start.KeepsOlder before := by
  intro start σ task begun
  have hstart : InOrder start := .ofSettings settings windows
  have hin : InOrder σ := (Session.inOrder_run hstart before).1
  refine ⟨fun after s hresult => ⟨fun hfresh hfinds => ?_, fun hfinds early hearly p hp => ?_⟩,
    fun old hopen hheld hlt => ?_⟩
  · have hlt := Session.lt_of_findsOlder hfinds hresult
    cases hp : σ.engine.snapshot with
    | none =>
        rw [Engine.published, hp] at hlt
        exact Nat.not_lt_zero _ hlt
    | some p =>
        rw [Engine.published_eq_of_snapshot hp] at hlt
        exact Nat.not_le_of_lt hlt (hfresh before List.prefix_rfl p hp)
  · exact Nat.le_trans (Session.le_published_of_prefix hstart hearly hp)
      (Session.published_le_of_result hin hfinds hresult)
  · rcases Session.isCacheCurrent_run hstart (.ofSettings settings windows) with hkeeps | hcurrent
    · exact Or.inr hkeeps
    · rcases hcurrent hopen with hpublishing | hnewer
      · exact Or.inl hpublishing
      · exact absurd (hnewer old hheld) (Nat.not_le_of_lt hlt)

namespace SessionStep

/-- A request for some snapshot has one built; before it has put it into the cache once more, a
build publishes a newer one. -/
def overtaken (s : Snapshot) : List SessionStep :=
  .begin .ensure :: List.replicate 14 (.advance 0 (.ok s)) ++ publication 1 s ++
    [.advance 0 (.ok s), .advance 0 (.ok s)]

end SessionStep

/-- The next request finds the older one. -/
theorem ensure_fresh_iff_overtaken :
    let dial : Snapshot := ⟨[Component.ofName "Dial"], [], [], "", 0⟩
    let start := Session.ofSettings .standard .standard
    let σ := start.run (SessionStep.overtaken dial)
    (σ.step (.begin .ensure)).FindsOlder [.advance 2 (.ok dial)] σ.crowd.tasks.length
        σ.engine.published ∧
      start.KeepsOlder (SessionStep.overtaken dial) := by
  intro dial start σ
  let old : Snapshot := { dial with generation := 1 }
  let new : Snapshot := { dial with generation := 2 }
  obtain ⟨hfresh, hcache⟩ := ensure_fresh_iff .standard .standard (SessionStep.overtaken dial)
  have hnew : σ.engine.snapshot = some new := by decide +kernel
  refine ⟨Classical.byContradiction fun hnot => ?_, ?_⟩
  · have hle := (hfresh [.advance 2 (.ok dial)] old (by decide +kernel)).mpr hnot _
      List.prefix_rfl new hnew
    exact absurd hle (by decide)
  · have hheld := (σ.engine.snapshotCache.get_holds Engine.snapshotKey).2 old (by decide +kernel)
    refine (hcache old (by decide +kernel) hheld (by decide +kernel)).resolve_left ?_
    have hnone : σ.crowd.tasks.any (·.stage.isPublished) = false := by decide +kernel
    rintro ⟨t, ht, hs⟩
    exact List.any_eq_false.mp hnone t ht hs

/-- A request returns a snapshot with a lower number than the published one. -/
theorem ensure_returns_overtaken :
    ¬ ∀ (settings : Settings) (windows : Windows) (before after : List SessionStep) (s : Snapshot),
      let start := Session.ofSettings settings windows
      let σ := start.run before
      let last := (σ.step (.begin .ensure)).run after
      last.engine.isAlive = true → last.crowd.result? σ.crowd.tasks.length = some (.ok s) →
      ∀ early, early <+: before → ∀ p, (start.run early).engine.snapshot = some p →
        p.generation ≤ s.generation := by
  intro h
  let dial (generation : Nat) : Snapshot := ⟨[Component.ofName "Dial"], [], [], "", generation⟩
  have hle := h .standard .standard (SessionStep.overtaken (dial 0)) [.advance 2 (.ok (dial 0))]
    (dial 1) (by decide +kernel) (by decide +kernel) _ List.prefix_rfl (dial 2) (by decide +kernel)
  exact absurd hle (by decide)

end ComponentAtlas
