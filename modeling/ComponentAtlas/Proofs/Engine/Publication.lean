import ComponentAtlas.Proofs.Engine.RightToBuild

/-!
# Where snapshots go

A snapshot is numbered, published and put into the cache by the task that has built it; others take
it from where it is published, or find it in the cache.  `Move` says for each step which of this it
is, and that all other steps bring in no snapshot; so it tells where the snapshot that a task has at
a stage was got, and what the cache holds.

The number of the published snapshot only grows.  Whoever publishes has had the right to build since
it took its number; so no other number was given meanwhile, and its own is greater than that of the
snapshot it takes the place of.  Until it gives the right back, what it has published stays
published.
-/

namespace ComponentAtlas

namespace Engine

variable {e e' : Engine} {s : Snapshot}

/-- The number of the published snapshot, zero when there is none. -/
def published (e : Engine) : Nat :=
  (e.snapshot.map Snapshot.generation).getD 0

theorem published_eq_of_snapshot (h : e.snapshot = some s) : e.published = s.generation := by
  rw [published, h]
  rfl

theorem published_congr (h : e'.snapshot = e.snapshot) : e'.published = e.published := by
  rw [published, h, published]

end Engine

namespace TaskStage

/-- The snapshot that a task has taken or published and that is published still, because the task
has the right to build. -/
def current? : TaskStage → Option Snapshot
  | .published s | .cached s | .finishing (.ok s) => some s
  | _ => none

theorem hasRight_of_current {stage : TaskStage} {s : Snapshot} (h : stage.current? = some s) :
    stage.hasRight = true := by
  unfold current? at h
  split at h
  · rfl
  · rfl
  · rfl
  · cases h

/-- A task has published a snapshot and has not put it into the cache. -/
def isPublished : TaskStage → Bool
  | .published _ => true
  | _ => false

/-- The snapshot that a task will return, or has returned. -/
def kept? : TaskStage → Option Snapshot
  | .keeping s | .leaving (.ok s) | .done (.ok s) => some s
  | _ => none

/-- A task has no snapshot at a stage. -/
def isPlain : TaskStage → Bool
  | .numbered _ | .published _ | .cached _ | .finishing (.ok _) | .keeping _ | .leaving (.ok _)
  | .done (.ok _) => false
  | _ => true

theorem current_eq_none_of_plain {stage : TaskStage} (h : stage.isPlain = true) :
    stage.current? = none := by
  unfold current?
  split
  · cases h
  · cases h
  · cases h
  · rfl

theorem kept_eq_none_of_plain {stage : TaskStage} (h : stage.isPlain = true) :
    stage.kept? = none := by
  unfold kept?
  split
  · cases h
  · cases h
  · cases h
  · rfl

/-- What a task has at a stage it had at the stage before. -/
structure Follows (before after : TaskStage) : Prop where
  numbered : ∀ s, after = .numbered s → before = .numbered s
  current : ∀ s, after.current? = some s → before.current? = some s
  kept : ∀ s, after.kept? = some s → before.kept? = some s ∨ before = .finishing (.ok s)

theorem Follows.rfl {stage : TaskStage} : Follows stage stage :=
  ⟨fun _ h => h, fun _ h => h, fun _ h => Or.inl h⟩

theorem Follows.of_plain {before after : TaskStage} (h : after.isPlain = true) :
    Follows before after := by
  refine ⟨fun s hs => ?_, fun s hs => ?_, fun s hs => ?_⟩
  · rw [hs] at h
    cases h
  · rw [current_eq_none_of_plain h] at hs
    cases hs
  · rw [kept_eq_none_of_plain h] at hs
    cases hs

end TaskStage

/-- A task returns a snapshot, or has returned it. -/
def TaskStage.Returns (stage : TaskStage) (s : Snapshot) : Prop :=
  stage = .leaving (.ok s) ∨ stage = .done (.ok s)

/-- A task that needs some snapshot finds one in the cache when it looks, at first or behind the
gate. -/
def Task.Finds (e : Engine) (t : Task) (s : Snapshot) : Prop :=
  (t.kind = .ensure ∧ t.stage = .start ∧
    (e.snapshotCache.get Engine.snapshotKey).1 = .ok (some s)) ∨
  (t.stage = .inside ∧ (e.snapshotCache.passGate Engine.snapshotKey).1 = .ok (some s))

namespace Cache

variable {α : Type}

/-- What was stored last is all that is held under its key. -/
theorem eq_of_holds_set {c : Cache α} {key : String} {v w : α}
    (hopen : (c.set key v).2.isDisposed = false) (hkey : Text.allBlank key.toList = false)
    (h : (c.set key v).2.Holds key w) : w = v := by
  rcases set_cases c key v with ⟨err, hrefused, hset⟩ | ⟨d, haccepted, -⟩
  · rw [hset, (isDisposed_of_refused hkey hrefused).2] at hopen
    cases hopen
  · unfold set at h
    rw [haccepted] at h
    obtain ⟨e, he, rfl⟩ := h
    rcases Keyed.mem_put.mp he with heq | ⟨-, hne⟩
    · obtain ⟨-, rfl⟩ := Prod.mk.inj heq
      rfl
    · exact absurd rfl hne

end Cache

namespace Crowd

/-- A step that brings in no snapshot. -/
structure Quiet (e : Engine) (before : TaskStage) (e' : Engine) (after : TaskStage) : Prop where
  snapshot : e'.snapshot = e.snapshot
  generation : e'.generation = e.generation
  less : e'.snapshotCache.HoldsLess e.snapshotCache
  stays : before.isPublished = true → after = before
  follows : before.Follows after

theorem Quiet.of_plain {e e' : Engine} {before after : TaskStage}
    (hsnapshot : e'.snapshot = e.snapshot) (hgeneration : e'.generation = e.generation)
    (hless : e'.snapshotCache.HoldsLess e.snapshotCache) (hbefore : before.isPublished = false)
    (hafter : after.isPlain = true) : Quiet e before e' after where
  snapshot := hsnapshot
  generation := hgeneration
  less := hless
  stays h := by
    rw [hbefore] at h
    cases h
  follows := .of_plain hafter

/-- Where a step of a task leaves snapshots. -/
inductive Move (e : Engine) (t : Task) : Engine → TaskStage → Prop
  | quiet {e' : Engine} {after : TaskStage} (quiet : Quiet e t.stage e' after) : Move e t e' after
  | find {e' : Engine} {after : TaskStage} (s : Snapshot) (finds : t.Finds e s)
      (snapshot : e'.snapshot = e.snapshot) (generation : e'.generation = e.generation)
      (less : e'.snapshotCache.HoldsLess e.snapshotCache) (returns : after.Returns s) :
      Move e t e' after
  | take (s : Snapshot) (stage : t.stage = .taking) (published : e.snapshot = some s) :
      Move e t e (.finishing (.ok s))
  | number (s : Snapshot) (stage : t.stage = .built s) :
      Move e t e.number (.numbered { s with generation := e.generation + 1 })
  | publish (s : Snapshot) (stage : t.stage = .numbered s) :
      Move e t (e.setSnapshot s) (.published s)
  | put {e' : Engine} {after : TaskStage} (s : Snapshot) (cached : e' = (e.cacheSnapshot s).2)
      (stage : t.stage = .published s ∧ (after = .cached s ∨ after.isPlain = true) ∨
        t.stage = .keeping s ∧ (after = .leaving (.ok s) ∨ after.isPlain = true)) :
      Move e t e' after

theorem advance_move (built : Except IndexError Snapshot) (isFree : Nat → Bool) (e : Engine)
    (t : Task) : Move e t (advance built isFree e t).1 (advance built isFree e t).2.stage := by
  obtain ⟨kind, gate, stage⟩ := t
  have hsame : e.snapshotCache.HoldsLess e.snapshotCache := .refl _
  cases stage with
  | start =>
      cases kind with
      | build =>
          cases hl : e.isLocked with
          | true =>
              simp only [advance, hl]
              exact .quiet (.of_plain rfl rfl hsame rfl rfl)
          | false =>
              simp only [advance, hl]
              exact .quiet (.of_plain rfl rfl hsame rfl rfl)
      | ensure =>
          obtain ⟨hless, -⟩ := e.snapshotCache.get_holds Engine.snapshotKey
          rcases hget : e.snapshotCache.get Engine.snapshotKey with ⟨found, cache⟩
          rw [hget] at hless
          simp only [advance, hget]
          rcases found with err | - | s
          · exact .quiet (.of_plain rfl rfl hless rfl rfl)
          · exact .quiet (.of_plain rfl rfl hless rfl rfl)
          · have hfinds : Task.Finds e ⟨.ensure, gate, .start⟩ s :=
              Or.inl ⟨rfl, rfl, by rw [hget]⟩
            exact .find s hfinds rfl rfl hless (Or.inr rfl)
  | missed =>
      have hless := e.snapshotCache.enterGate_holdsLess Engine.snapshotKey
      exact .quiet (.of_plain rfl rfl hless rfl rfl)
  | atGate =>
      simp only [advance]
      split <;> exact .quiet (.of_plain rfl rfl hsame rfl rfl)
  | inside =>
      obtain ⟨hless, -⟩ := e.snapshotCache.passGate_holds Engine.snapshotKey
      rcases hpass : e.snapshotCache.passGate Engine.snapshotKey with ⟨found, cache⟩
      rw [hpass] at hless
      simp only [advance, hpass]
      rcases found with err | - | s
      · exact .quiet (.of_plain rfl rfl hless rfl rfl)
      · exact .quiet (.of_plain rfl rfl hless rfl rfl)
      · have hfinds : Task.Finds e ⟨kind, gate, .inside⟩ s := Or.inr ⟨rfl, by rw [hpass]⟩
        exact .find s hfinds rfl rfl hless (Or.inl rfl)
  | missedAgain => exact .quiet (.of_plain rfl rfl hsame rfl rfl)
  | waiting seen =>
      simp only [advance]
      split <;> exact .quiet (.of_plain rfl rfl hsame rfl rfl)
  | comparing seen =>
      refine .quiet (.of_plain rfl rfl hsame rfl ?_)
      simp only [advance]
      split <;> rfl
  | taking =>
      cases hp : e.snapshot with
      | none =>
          simp only [advance, hp]
          exact .quiet (.of_plain rfl rfl hsame rfl rfl)
      | some s =>
          simp only [advance, hp]
          exact .take s rfl hp
  | ready => exact .quiet (.of_plain rfl rfl hsame rfl rfl)
  | reading => cases built <;> exact .quiet (.of_plain rfl rfl hsame rfl rfl)
  | built s => exact .number s rfl
  | numbered s => exact .publish s rfl
  | published s =>
      rcases hput : e.cacheSnapshot s with ⟨outcome, e'⟩
      have hcached : e' = (e.cacheSnapshot s).2 := by rw [hput]
      simp only [advance, hput]
      cases outcome with
      | error err => exact .put s hcached (Or.inl ⟨rfl, Or.inr rfl⟩)
      | ok _ => exact .put s hcached (Or.inl ⟨rfl, Or.inl rfl⟩)
  | cached s =>
      have hsnd := dropStaleResults_snd e s.generation
      rcases hdrop : e.dropStaleResults s.generation with ⟨outcome, e'⟩
      rw [hdrop] at hsnd
      obtain rfl := hsnd
      simp only [advance, hdrop]
      cases outcome with
      | error err => exact .quiet (.of_plain rfl rfl hsame rfl rfl)
      | ok _ =>
          refine .quiet ⟨rfl, rfl, hsame, fun h => ?_, fun p hp => ?_, fun p hp => hp,
            fun p hp => ?_⟩
          · cases h
          · cases hp
          · cases hp
  | finishing result =>
      refine .quiet ⟨rfl, rfl, hsame, (fun h => by cases h), ?_⟩
      cases result with
      | error err => cases kind <;> exact .of_plain rfl
      | ok s =>
          have hkept (p : Snapshot) (h : some s = some p) :
              (TaskStage.finishing (.ok s)).kept? = some p ∨
                TaskStage.finishing (.ok s) = .finishing (.ok p) := by
            rw [Option.some.inj h]
            exact Or.inr rfl
          cases kind <;> exact ⟨(fun p hp => by cases hp), (fun p hp => by cases hp), hkept⟩
  | keeping s =>
      rcases hput : e.cacheSnapshot s with ⟨outcome, e'⟩
      have hcached : e' = (e.cacheSnapshot s).2 := by rw [hput]
      simp only [advance, hput]
      cases outcome with
      | error err => exact .put s hcached (Or.inr ⟨rfl, Or.inr rfl⟩)
      | ok _ => exact .put s hcached (Or.inr ⟨rfl, Or.inl rfl⟩)
  | leaving result =>
      have hless := e.snapshotCache.leaveGate_holdsLess Engine.snapshotKey
      refine .quiet ⟨rfl, rfl, hless, (fun h => by cases h), ?_⟩
      cases result with
      | error err => exact .of_plain rfl
      | ok s => exact ⟨(fun p hp => by cases hp), (fun p hp => by cases hp), fun p hp => Or.inl hp⟩
  | done result => exact .quiet ⟨rfl, rfl, hsame, fun _ => rfl, .rfl⟩

/-- A task that is given up has no snapshot left; one that is not at a place to be given up stays as
it is. -/
theorem abandon_quiet (e : Engine) (t : Task) :
    Quiet e t.stage (abandon e t).1 (abandon e t).2.stage := by
  obtain ⟨kind, gate, stage⟩ := t
  have hsame : e.snapshotCache.HoldsLess e.snapshotCache := .refl _
  have hless := e.snapshotCache.leaveGate_holdsLess Engine.snapshotKey
  cases stage with
  | start => exact .of_plain rfl rfl hsame rfl rfl
  | atGate | waiting _ => exact .of_plain rfl rfl hless rfl rfl
  | reading =>
      cases kind with
      | build => exact .of_plain rfl rfl hsame rfl rfl
      | ensure => exact .of_plain rfl rfl hless rfl rfl
  | missed | inside | missedAgain | comparing _ | taking | ready | built _ | numbered _
  | published _ | cached _ | finishing _ | keeping _ | leaving _ | done _ =>
      exact ⟨rfl, rfl, hsame, fun _ => rfl, .rfl⟩

/-- At most one task has the right to build. -/
theorem OneBuilds.unique {c : Crowd} (h : c.OneBuilds) {i j : Nat} {t u : Task}
    (hi : c.tasks[i]? = some t) (ht : t.stage.hasRight = true)
    (hj : c.tasks[j]? = some u) (hu : u.stage.hasRight = true) : i = j := by
  obtain ⟨hlt, rfl⟩ := List.getElem?_eq_some_iff.mp hi
  refine Decidable.byContradiction fun hne => ?_
  -- without the one at `i` nobody would have it, but the one at `j` does
  have hset := List.countP_set (p := fun t : Task => t.stage.hasRight)
    (a := ⟨.build, none, .start⟩) hlt
  have hone := h.holders
  have hle := Bool.toNat_le c.engine.isLocked
  rw [ht, hone] at hset
  have hothers : 0 < (c.tasks.set i ⟨.build, none, .start⟩).countP (·.stage.hasRight) := by
    refine List.countP_pos_iff.mpr ⟨u, ?_, hu⟩
    refine List.mem_of_getElem? (i := j) ?_
    rw [List.getElem?_set_ne hne]
    exact hj
  rw [hset] at hothers
  simp only [if_true, TaskStage.hasRight, Bool.false_eq_true, if_false] at hothers
  omega

end Crowd

/-! ## In order -/

/-- One task builds at a time.  Numbers are given in order, and the snapshot that a task with the
right to build has published, or has taken, is the published one. -/
structure InOrder (σ : Session) : Prop where
  one : σ.crowd.OneBuilds
  below : σ.engine.published ≤ σ.engine.generation
  numbered : ∀ t ∈ σ.crowd.tasks, ∀ s, t.stage = .numbered s →
    σ.engine.published < s.generation ∧ s.generation ≤ σ.engine.generation
  current : ∀ t ∈ σ.crowd.tasks, ∀ s, t.stage.current? = some s → σ.engine.snapshot = some s

namespace InOrder

variable {σ τ : Session} {st : SessionStep}

theorem ofSettings (settings : Settings) (windows : Windows) :
    InOrder (.ofSettings settings windows) where
  one := Session.oneBuilds_ofSettings settings windows
  below := Nat.le_refl 0
  numbered := by simp [Session.ofSettings]
  current := by simp [Session.ofSettings]

/-- Nothing is published and no number is given. -/
theorem of_same (h : InOrder σ) {e' : Engine} {searches : List SearchCall} {tasks : List Task}
    (hone : Crowd.OneBuilds ⟨e', tasks⟩) (hsnapshot : e'.snapshot = σ.engine.snapshot)
    (hgeneration : e'.generation = σ.engine.generation)
    (hnumbered : ∀ t ∈ tasks, ∀ s, t.stage = .numbered s →
      ∃ u ∈ σ.crowd.tasks, u.stage = .numbered s)
    (hcurrent : ∀ t ∈ tasks, ∀ s, t.stage.current? = some s → σ.engine.snapshot = some s) :
    InOrder ⟨⟨e', tasks⟩, searches⟩ where
  one := hone
  below := by
    show e'.published ≤ e'.generation
    rw [Engine.published_congr hsnapshot, hgeneration]
    exact h.below
  numbered t ht s hs := by
    obtain ⟨u, hu, hstage⟩ := hnumbered t ht s hs
    show e'.published < s.generation ∧ s.generation ≤ e'.generation
    rw [Engine.published_congr hsnapshot, hgeneration]
    exact h.numbered u hu s hstage
  current t ht s hs := hsnapshot.trans (hcurrent t ht s hs)

/-- A task's step that publishes nothing and gives no number. -/
theorem of_set_same (h : InOrder σ) {i : Nat} {t t' : Task} {e' : Engine}
    (ht : σ.crowd.tasks[i]? = some t) (hone : Crowd.OneBuilds ⟨e', σ.crowd.tasks.set i t'⟩)
    (hsnapshot : e'.snapshot = σ.engine.snapshot)
    (hgeneration : e'.generation = σ.engine.generation)
    (hnumbered : ∀ s, t'.stage = .numbered s → t.stage = .numbered s)
    (hcurrent : ∀ s, t'.stage.current? = some s → σ.engine.snapshot = some s) :
    InOrder ⟨⟨e', σ.crowd.tasks.set i t'⟩, σ.searches⟩ ∧ σ.engine.published ≤ e'.published := by
  refine ⟨h.of_same hone hsnapshot hgeneration (fun u hu s hs => ?_) fun u hu s hs => ?_,
    Nat.le_of_eq (Engine.published_congr hsnapshot).symm⟩
  · rcases List.mem_or_eq_of_mem_set hu with hu | rfl
    · exact ⟨u, hu, hs⟩
    · exact ⟨t, List.mem_of_getElem? ht, hnumbered s hs⟩
  · rcases List.mem_or_eq_of_mem_set hu with hu | rfl
    · exact h.current u hu s hs
    · exact hcurrent s hs

/-- A step of the task that has the right to build.  No other task has a number or is publishing,
so nothing needs to be said of the others. -/
theorem of_set_right (h : InOrder σ) {i : Nat} {t t' : Task} {e' : Engine}
    (ht : σ.crowd.tasks[i]? = some t) (hright : t.stage.hasRight = true)
    (hone : Crowd.OneBuilds ⟨e', σ.crowd.tasks.set i t'⟩) (hbelow : e'.published ≤ e'.generation)
    (hnumbered : ∀ s, t'.stage = .numbered s →
      e'.published < s.generation ∧ s.generation ≤ e'.generation)
    (hcurrent : ∀ s, t'.stage.current? = some s → e'.snapshot = some s) :
    InOrder ⟨⟨e', σ.crowd.tasks.set i t'⟩, σ.searches⟩ := by
  have hother {u : Task} (hu : u ∈ σ.crowd.tasks.set i t') (hr : u.stage.hasRight = true) :
      u = t' := by
    obtain ⟨hlt, -⟩ := List.getElem?_eq_some_iff.mp ht
    obtain ⟨j, hj⟩ := List.getElem?_of_mem hu
    by_cases hij : i = j
    · subst hij
      rw [List.getElem?_set_self hlt] at hj
      exact (Option.some.inj hj).symm
    · rw [List.getElem?_set_ne hij] at hj
      exact absurd (h.one.unique ht hright hj hr) hij
  refine ⟨hone, hbelow, fun u hu s hs => ?_, fun u hu s hs => ?_⟩
  · obtain rfl := hother hu (by rw [hs]; rfl)
    exact hnumbered s hs
  · obtain rfl := hother hu (TaskStage.hasRight_of_current hs)
    exact hcurrent s hs

/-- What a task does keeps the order, and what is published is never replaced by something older. -/
theorem of_move (h : InOrder σ) {i : Nat} {t t' : Task} {e' : Engine}
    (ht : σ.crowd.tasks[i]? = some t) (hmove : Crowd.Move σ.engine t e' t'.stage)
    (hone : Crowd.OneBuilds ⟨e', σ.crowd.tasks.set i t'⟩) :
    InOrder ⟨⟨e', σ.crowd.tasks.set i t'⟩, σ.searches⟩ ∧ σ.engine.published ≤ e'.published := by
  have hmem : t ∈ σ.crowd.tasks := List.mem_of_getElem? ht
  have hset := h.of_set_same ht hone
  generalize hafter : t'.stage = after at hmove hset
  cases hmove with
  | quiet hquiet =>
      exact hset hquiet.snapshot hquiet.generation hquiet.follows.numbered
        fun s hs => h.current t hmem s (hquiet.follows.current s hs)
  | find s finds snapshot generation less returns =>
      refine hset snapshot generation (fun p hp => ?_) fun p hp => ?_
      · rcases returns with rfl | rfl <;> cases hp
      · rcases returns with rfl | rfl <;> cases hp
  | take s stage published =>
      refine hset rfl rfl (fun p hp => by cases hp) fun p hp => ?_
      rw [← Option.some.inj hp]
      exact published
  | number s stage =>
      refine ⟨h.of_set_right ht (by rw [stage]; rfl) hone (Nat.le_succ_of_le h.below)
        (fun p hp => ?_) fun p hp => ?_, Nat.le_refl _⟩
      · obtain rfl := TaskStage.numbered.inj (hafter.symm.trans hp)
        exact ⟨Nat.lt_succ_of_le h.below, Nat.le_refl _⟩
      · rw [hafter] at hp
        cases hp
  | publish s stage =>
      obtain ⟨hnewer, hbelow⟩ := h.numbered t hmem s stage
      refine ⟨h.of_set_right ht (by rw [stage]; rfl) hone hbelow (fun p hp => ?_) fun p hp => ?_,
        Nat.le_of_lt hnewer⟩
      · rw [hafter] at hp
        cases hp
      · rw [hafter] at hp
        exact hp
  | put s cached stage =>
      subst cached
      rw [Crowd.cacheSnapshot_snd] at hset ⊢
      refine hset rfl rfl (fun p hp => ?_) fun p hp => ?_
      · subst hp
        rcases stage with ⟨-, hq | hq⟩ | ⟨-, hq | hq⟩ <;> cases hq
      · have hplain (h : after.isPlain = true) : σ.engine.snapshot = some p := by
          rw [TaskStage.current_eq_none_of_plain h] at hp
          cases hp
        rcases stage with ⟨hs, rfl | hnone⟩ | ⟨-, rfl | hnone⟩
        · exact h.current t hmem p (by rw [hs]; exact hp)
        · exact hplain hnone
        · cases hp
        · exact hplain hnone

end InOrder

namespace Session

variable {σ τ : Session} {st : SessionStep}

theorem Change.inOrder (hchange : σ.Change st τ) (h : InOrder σ) :
    InOrder τ ∧ σ.engine.published ≤ τ.engine.published := by
  have hone := hchange.oneBuilds h.one
  have hapart {e' : Engine} {searches : List SearchCall}
      (hone : Crowd.OneBuilds ⟨e', σ.crowd.tasks⟩) (hsnapshot : e'.snapshot = σ.engine.snapshot)
      (hgeneration : e'.generation = σ.engine.generation) :
      InOrder ⟨⟨e', σ.crowd.tasks⟩, searches⟩ ∧ σ.engine.published ≤ e'.published :=
    ⟨h.of_same hone hsnapshot hgeneration (fun t ht s hs => ⟨t, ht, hs⟩) h.current,
      Nat.le_of_eq (Engine.published_congr hsnapshot).symm⟩
  cases hchange with
  | begin kind =>
      refine ⟨h.of_same hone rfl rfl (fun t ht s hs => ?_) fun t ht s hs => ?_, Nat.le_refl _⟩
      · rcases List.mem_append.mp ht with ht | ht
        · exact ⟨t, ht, hs⟩
        · obtain rfl := List.mem_singleton.mp ht
          cases hs
      · rcases List.mem_append.mp ht with ht | ht
        · exact h.current t ht s hs
        · obtain rfl := List.mem_singleton.mp ht
          cases hs
  | advance built there => exact h.of_move there (Crowd.advance_move ..) hone
  | giveUp there => exact h.of_move there (.quiet (Crowd.abandon_quiet ..)) hone
  | ask _ _ _ => exact hapart h.one rfl rfl
  | @search _ c _ =>
      have hmoves := SearchCall.advance_moves σ.engine c
      exact hapart hone hmoves.snapshot_eq hmoves.generation_eq
  | age _ ages => exact hapart hone ages.snapshot ages.generation
  | idle _ => exact ⟨h, Nat.le_refl _⟩

theorem inOrder_run (h : InOrder σ) (steps : List SessionStep) :
    InOrder (σ.run steps) ∧ σ.engine.published ≤ (σ.run steps).engine.published := by
  induction steps generalizing σ with
  | nil => exact ⟨h, Nat.le_refl _⟩
  | cons st steps ih =>
      obtain ⟨hnext, hle⟩ := (σ.step_change st).inOrder h
      obtain ⟨hlast, hle'⟩ := ih hnext
      exact ⟨hlast, Nat.le_trans hle hle'⟩

end Session
end ComponentAtlas
