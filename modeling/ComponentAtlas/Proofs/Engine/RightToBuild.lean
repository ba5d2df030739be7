import ComponentAtlas.Proofs.Engine.Step
import ComponentAtlas.Proofs.Engine.SearchSteps

/-!
# The right to build

A task that has got the right to build keeps it until it finishes, or is given up while it reads the
source tree.  The invariant `OneBuilds` counts the tasks that have it: there is one of them when the
engine is locked and none otherwise, and a build is running only while the engine is locked.
-/

namespace ComponentAtlas

namespace TaskStage

/-- Whether a task at this stage has the right to build. -/
def hasRight : TaskStage → Bool
  | .comparing _ | .taking | .ready | .reading | .built _ | .numbered _ | .published _ | .cached _
  | .finishing _ => true
  | .start | .missed | .atGate | .inside | .missedAgain | .waiting _ | .keeping _ | .leaving _
  | .done _ => false

end TaskStage

namespace Crowd

/-- What a step from one stage to another may do to the lock. -/
inductive LockEffect (e : Engine) (before : TaskStage) (e' : Engine) (after : TaskStage) : Prop
  | keep (same : after.hasRight = before.hasRight) (locked : e'.isLocked = e.isLocked)
      (building : e'.isBuilding = true → e.isBuilding = true ∨ after.hasRight = true)
  | take (had : before.hasRight = false) (has : after.hasRight = true)
      (free : e.isLocked = false) (locked : e'.isLocked = true)
  | giveBack (had : before.hasRight = true) (has : after.hasRight = false)
      (locked : e'.isLocked = false) (building : e'.isBuilding = false)

theorem afterBuild_hasRight (kind : TaskKind) (result : Except IndexError Snapshot) :
    (afterBuild kind result).hasRight = false := by
  cases kind <;> cases result <;> rfl

theorem advance_lockEffect (built : Except IndexError Snapshot) (isFree : Nat → Bool) (e : Engine)
    (t : Task) :
    LockEffect e t.stage (advance built isFree e t).1 (advance built isFree e t).2.stage := by
  obtain ⟨kind, gate, stage⟩ := t
  cases stage with
  | start =>
      cases kind with
      | build =>
          cases hl : e.isLocked with
          | true => simp only [advance, hl]; exact .keep rfl rfl Or.inl
          | false => simp only [advance, hl]; exact .take rfl rfl hl rfl
      | ensure =>
          simp only [advance]
          split <;> exact .keep rfl rfl Or.inl
  | missed => exact .keep rfl rfl Or.inl
  | atGate =>
      simp only [advance]
      split <;> exact .keep rfl rfl Or.inl
  | inside =>
      simp only [advance]
      split <;> exact .keep rfl rfl Or.inl
  | missedAgain => exact .keep rfl rfl Or.inl
  | waiting seen =>
      cases hl : e.isLocked with
      | true => simp only [advance, hl]; exact .keep rfl rfl Or.inl
      | false => simp only [advance, hl]; exact .take rfl rfl hl rfl
  | comparing seen =>
      simp only [advance]
      split <;> exact .keep rfl rfl Or.inl
  | taking =>
      simp only [advance]
      split <;> exact .keep rfl rfl Or.inl
  | ready => exact .keep rfl rfl fun _ => Or.inr rfl
  | reading => cases built <;> exact .keep rfl rfl Or.inl
  | built s => exact .keep rfl rfl Or.inl
  | numbered s => exact .keep rfl rfl Or.inl
  | published s =>
      have hsnd := cacheSnapshot_snd e s
      simp only [advance]
      split <;> simp_all only <;> exact .keep rfl rfl Or.inl
  | cached s =>
      have hsnd := dropStaleResults_snd e s.generation
      simp only [advance]
      split <;> simp_all only <;> exact .keep rfl rfl Or.inl
  | finishing result => exact .giveBack rfl (afterBuild_hasRight kind result) rfl rfl
  | keeping s =>
      have hsnd := cacheSnapshot_snd e s
      simp only [advance]
      split <;> simp_all only <;> exact .keep rfl rfl Or.inl
  | leaving result => exact .keep rfl rfl Or.inl
  | done result => exact .keep rfl rfl Or.inl

theorem abandon_lockEffect (e : Engine) (t : Task) :
    LockEffect e t.stage (abandon e t).1 (abandon e t).2.stage := by
  obtain ⟨kind, gate, stage⟩ := t
  cases stage with
  | reading => cases kind <;> exact .giveBack rfl rfl rfl rfl
  | start | missed | atGate | inside | missedAgain | waiting _ | comparing _ | taking | ready
  | built _ | numbered _ | published _ | cached _ | finishing _ | keeping _ | leaving _
  | done _ => exact .keep rfl rfl Or.inl

/-- There is a task with the right to build when the engine is locked, and then just one. -/
structure OneBuilds (c : Crowd) : Prop where
  holders : c.tasks.countP (·.stage.hasRight) = c.engine.isLocked.toNat
  building : c.engine.isBuilding = true → c.engine.isLocked = true

namespace OneBuilds

variable {c : Crowd}

theorem of_lockEffect (h : c.OneBuilds) {i : Nat} {t t' : Task} {e' : Engine}
    (ht : c.tasks[i]? = some t) (heffect : LockEffect c.engine t.stage e' t'.stage) :
    OneBuilds ⟨e', c.tasks.set i t'⟩ := by
  obtain ⟨hi, rfl⟩ := List.getElem?_eq_some_iff.mp ht
  have hcount := h.holders
  have hset := List.countP_set (p := fun t : Task => t.stage.hasRight) (a := t') hi
  have hpos (hr : c.tasks[i].stage.hasRight = true) :
      0 < c.tasks.countP (·.stage.hasRight) :=
    List.countP_pos_iff.mpr ⟨_, List.getElem_mem hi, hr⟩
  cases heffect with
  | keep same locked building =>
      have hsame : (c.tasks.set i t').countP (·.stage.hasRight) =
          c.tasks.countP (·.stage.hasRight) := by
        rw [hset, same]
        cases hr : c.tasks[i].stage.hasRight with
        | true =>
            have := hpos hr
            simp only [if_true]
            omega
        | false => simp
      refine ⟨by rw [hsame, hcount, locked], fun hb => ?_⟩
      rw [locked]
      rcases building hb with hb | hr
      · exact h.building hb
      · have hheld := hpos (same ▸ hr)
        rw [hcount] at hheld
        cases hl : c.engine.isLocked with
        | true => rfl
        | false => simp [hl] at hheld
  | take had has free locked =>
      refine ⟨?_, fun _ => locked⟩
      rw [free] at hcount
      simp [hset, had, has, locked, hcount]
  | giveBack had has locked building =>
      refine ⟨?_, fun hb => absurd hb (by simp [building])⟩
      have hle := Bool.toNat_le c.engine.isLocked
      have hzero : c.tasks.countP (·.stage.hasRight) - 1 = 0 := by omega
      simp only [hset, had, has, locked]
      simpa using hzero

theorem begin (h : c.OneBuilds) (kind : TaskKind) : (c.begin kind).OneBuilds := by
  refine ⟨?_, h.building⟩
  rw [Crowd.begin, List.countP_append, h.holders]
  simp [TaskStage.hasRight]

end OneBuilds
end Crowd

namespace Session

theorem Change.oneBuilds {σ τ : Session} {st : SessionStep} (hchange : σ.Change st τ)
    (h : σ.crowd.OneBuilds) : τ.crowd.OneBuilds := by
  cases hchange with
  | begin kind => exact h.begin kind
  | advance _ there => exact h.of_lockEffect there (Crowd.advance_lockEffect ..)
  | giveUp there => exact h.of_lockEffect there (Crowd.abandon_lockEffect ..)
  | @search _ c _ =>
      have hmoves := SearchCall.advance_moves σ.engine c
      refine ⟨h.holders.trans (by rw [hmoves.isLocked_eq]; rfl), fun hb => ?_⟩
      rw [hmoves.isBuilding_eq] at hb
      exact hmoves.isLocked_eq.trans (h.building hb)
  | age _ ages =>
      refine ⟨h.holders.trans (by rw [ages.isLocked]; rfl), fun hb => ?_⟩
      rw [ages.isBuilding] at hb
      exact ages.isLocked.trans (h.building hb)
  | ask _ _ _ | idle _ => exact h

theorem oneBuilds_run {σ : Session} (h : σ.crowd.OneBuilds) (steps : List SessionStep) :
    (σ.run steps).crowd.OneBuilds := by
  induction steps generalizing σ with
  | nil => exact h
  | cons st steps ih => exact ih ((σ.step_change st).oneBuilds h)

theorem oneBuilds_ofSettings (settings : Settings) (windows : Windows) :
    (ofSettings settings windows).crowd.OneBuilds :=
  ⟨rfl, by simp [ofSettings, Engine.ofSettings]⟩

/-- A build is running only while a task has the right to build. -/
theorem exists_hasRight {σ : Session} (h : σ.crowd.OneBuilds)
    (hb : σ.engine.isBuilding = true) : ∃ t ∈ σ.crowd.tasks, t.stage.hasRight = true := by
  have hcount := h.holders
  rw [h.building hb] at hcount
  exact List.countP_pos_iff.mp (by rw [hcount]; exact Nat.one_pos)

end Session
end ComponentAtlas
