import ComponentAtlas.Proofs.Engine.FailedBuild

/-!
# Requests in one go

`Engine.build` and `Engine.ensureIndexed` tell at once what a request comes to that nobody gets in
the way of.  They are not a second account of it: a task that is alone with the engine and takes one
step after the other leaves the same engine and has the same result.  A request that finds the lock
taken waits for it; it is given up in the end, and `Engine.ensureIndexed` says what is left then.
-/

namespace ComponentAtlas

namespace Crowd

variable {built : Except IndexError Snapshot} {e d e' : Engine} {t u t' : Task} {kind : TaskKind}
  {gate : Option Nat} {m n : Nat}

/-! ## One task alone -/

/-- One task and nobody else. -/
def single (e : Engine) (t : Task) : Crowd := ⟨e, [t]⟩

/-- A request that is alone with the engine, and given up if it waits in the end. -/
def alone (built : Except IndexError Snapshot) (e : Engine) (kind : TaskKind) : Crowd :=
  (((Crowd.mk e []).begin kind).proceed built 0).giveUp 0

theorem begin_alone (e : Engine) (kind : TaskKind) :
    (Crowd.mk e []).begin kind = single e ⟨kind, none, .start⟩ :=
  rfl

/-- A task that is alone comes from one point to another, in so many steps at most. -/
def Goes (built : Except IndexError Snapshot) (n : Nat) (e : Engine) (t : Task) (e' : Engine)
    (t' : Task) : Prop :=
  ∃ k ≤ n, (single e t).steps built 0 k = single e' t'

theorem steps_add (c : Crowd) (task : Nat) (m n : Nat) :
    c.steps built task (m + n) = (c.steps built task m).steps built task n := by
  induction m generalizing c with
  | zero => rw [Nat.zero_add, steps]
  | succ m ih => rw [Nat.succ_add, steps, steps, ih]

theorem steps_of_stay {c : Crowd} {task : Nat} (h : c.step built task = c) (n : Nat) :
    c.steps built task n = c := by
  induction n with
  | zero => rfl
  | succ n ih => rw [steps, h, ih]

/-- A task that is alone finds every gate free until it is behind one. -/
theorem isFree_single (e : Engine) (t : Task) (h : t.stage.isInside = false) (gate : Nat) :
    (single e t).isFree gate = true := by
  simp [isFree, single, h]

namespace Goes

theorem refl : Goes built n e t e t := ⟨0, Nat.zero_le n, rfl⟩

theorem trans (h : Goes built m e t d u) (h' : Goes built n d u e' t') :
    Goes built (m + n) e t e' t' := by
  obtain ⟨k, hk, hsteps⟩ := h
  obtain ⟨l, hl, hrest⟩ := h'
  exact ⟨k + l, Nat.add_le_add hk hl, by rw [steps_add, hsteps, hrest]⟩

/-- One more step in front. -/
theorem next (hstep : advance built (single e t).isFree e t = (d, u))
    (h : Goes built n d u e' t') : Goes built (n + 1) e t e' t' := by
  obtain ⟨k, hk, hsteps⟩ := h
  refine ⟨k + 1, Nat.succ_le_succ hk, ?_⟩
  have hcrowd : (single e t).step built 0 = single d u := by
    change single (advance built (single e t).isFree e t).1
      (advance built (single e t).isFree e t).2 = single d u
    rw [hstep]
  rw [steps, hcrowd, hsteps]

/-- A task that stays where it comes is there in the end. -/
theorem proceed (h : Goes built n e t e' t') (hn : n ≤ allSteps)
    (hstay : (single e' t').step built 0 = single e' t') :
    (single e t).proceed built 0 = single e' t' := by
  obtain ⟨k, hk, hsteps⟩ := h
  have hall : allSteps = k + (allSteps - k) := (Nat.add_sub_cancel' (Nat.le_trans hk hn)).symm
  rw [Crowd.proceed, hall, steps_add, hsteps, steps_of_stay hstay]

/-- A request that is done in the end is not given up. -/
theorem alone {r : Except IndexError Snapshot}
    (h : Goes built n e ⟨kind, none, .start⟩ e' ⟨kind, gate, .done r⟩) (hn : n ≤ allSteps) :
    (alone built e kind).result? 0 = some r ∧ (alone built e kind).engine = e' := by
  rw [Crowd.alone, begin_alone, h.proceed hn rfl]
  exact ⟨rfl, rfl⟩

end Goes

/-! ## Building -/

/-- A task that has a snapshot publishes it. -/
theorem goes_publish (built : Except IndexError Snapshot) (kind : TaskKind) (gate : Option Nat)
    (e : Engine) (s : Snapshot) :
    Goes built 4 e ⟨kind, gate, .built s⟩ (e.publish s).2
      ⟨kind, gate, .finishing (e.publish s).1⟩ := by
  let numbered : Snapshot := { s with generation := e.number.generation }
  refine .next (u := ⟨kind, gate, .numbered numbered⟩) rfl (.next rfl ?_)
  rcases hput : (e.number.setSnapshot numbered).cacheSnapshot numbered with ⟨err | _, after⟩
  · refine .next (d := after) (u := ⟨kind, gate, .finishing (.error err)⟩) ?_ ?_
    · simp only [advance, hput]
    · simp only [Engine.publish, numbered, hput]
      exact .refl
  refine .next (d := after) (u := ⟨kind, gate, .cached numbered⟩) ?_ ?_
  · simp only [advance, hput]
  rcases hdrop : after.dropStaleResults numbered.generation with ⟨err | _, left⟩
  · refine .next (d := left) (u := ⟨kind, gate, .finishing (.error err)⟩) ?_ ?_
    · simp only [advance, hdrop]
    · simp only [Engine.publish, numbered, hput, hdrop]
      exact .refl
  · refine .next (d := left) (u := ⟨kind, gate, .finishing (.ok numbered)⟩) ?_ ?_
    · simp only [advance, hdrop]
    · simp only [Engine.publish, numbered, hput, hdrop]
      exact .refl

/-- A task that has the right to build publishes what its build gives, and gives the right back. -/
theorem goes_build (built : Except IndexError Snapshot) (kind : TaskKind) (gate : Option Nat)
    (e : Engine) :
    Goes built 7 { e with isLocked := true } ⟨kind, gate, .ready⟩ (e.publishBuilt built).2.atRest
      ⟨kind, gate, afterBuild kind (e.publishBuilt built).1⟩ := by
  refine .next (d := { e with isLocked := true, isBuilding := true }) rfl ?_
  cases built with
  | error err => exact .next rfl (.next rfl .refl)
  | ok s =>
      have hpublish := goes_publish (.ok s) kind gate
        { e with isLocked := true, isBuilding := true } s
      rw [e.publish_of_flags true true s] at hpublish
      refine .next rfl (Goes.trans (m := 4) (n := 1) hpublish ?_)
      exact .next rfl .refl

/-! ## A request that builds -/

/-- What a request to build comes to in one go is what it comes to alone. -/
theorem alone_build (e : Engine) (tree : SourceTree) (availability : Availability)
    (cancelled : Bool) :
    let built := Snapshot.build e.settings tree availability cancelled
    (alone built e .build).result? 0 = some (e.build tree availability cancelled).1 ∧
      (alone built e .build).engine = (e.build tree availability cancelled).2 := by
  intro built
  cases hl : e.isLocked with
  | true =>
      have hgoes : Goes built 1 e ⟨.build, none, .start⟩ e
          ⟨.build, none, .done (.error .buildInProgress)⟩ :=
        .next (by simp only [advance, hl, if_true]) .refl
      rw [Engine.build, hl, if_pos rfl]
      exact hgoes.alone (by decide)
  | false =>
      have hgoes : Goes built 8 e ⟨.build, none, .start⟩ (e.publishBuilt built).2.atRest
          ⟨.build, none, .done (e.publishBuilt built).1⟩ :=
        .next (by simp [advance, hl]) (goes_build built .build none e)
      rw [Engine.build_of_free hl]
      exact hgoes.alone (by decide)

/-! ## A request for some snapshot -/

/-- Who misses the snapshot comes behind the gate, where nobody else is. -/
theorem goes_gate (built : Except IndexError Snapshot) {cache entered : Cache Snapshot}
    {number : Nat} (hmiss : e.snapshotCache.get Engine.snapshotKey = (.ok none, cache))
    (henter : cache.enterGate Engine.snapshotKey = (number, entered)) :
    Goes built 3 e ⟨.ensure, none, .start⟩ { e with snapshotCache := entered }
      ⟨.ensure, some number, .inside⟩ := by
  refine .next (d := { e with snapshotCache := cache }) (u := ⟨.ensure, none, .missed⟩) ?_ ?_
  · simp only [advance, hmiss]
  refine .next (d := { e with snapshotCache := entered })
    (u := ⟨.ensure, some number, .atGate⟩) ?_ (.next ?_ .refl)
  · simp only [advance, henter]
  · have hfree := isFree_single { e with snapshotCache := entered }
      ⟨.ensure, some number, .atGate⟩ rfl number
    simp only [advance, Option.all_some, hfree, if_true]

/-- Who leaves the gate is done. -/
theorem goes_leave (e : Engine) (result : Except IndexError Snapshot) :
    Goes built 1 e ⟨kind, gate, .leaving result⟩
      { e with snapshotCache := e.snapshotCache.leaveGate Engine.snapshotKey }
      ⟨kind, gate, .done result⟩ :=
  .next rfl .refl

/-- Who need not build after all leaves the gate. -/
theorem goes_out {entered passed : Cache Snapshot} {number : Nat}
    {r : Except IndexError Snapshot}
    (hgate : Goes built 3 e ⟨.ensure, none, .start⟩ { e with snapshotCache := entered }
      ⟨.ensure, some number, .inside⟩)
    (hpass : ∀ isFree, advance built isFree { e with snapshotCache := entered }
      ⟨.ensure, some number, .inside⟩ =
        ({ e with snapshotCache := passed }, ⟨.ensure, some number, .leaving r⟩)) :
    Goes built 5 e ⟨.ensure, none, .start⟩
      { e with snapshotCache := passed.leaveGate Engine.snapshotKey }
      ⟨.ensure, some number, .done r⟩ :=
  Goes.trans (m := 3) (n := 2) hgate (.next (hpass _) (goes_leave _ _))

/-- What was made is kept, and the gate is left. -/
theorem goes_keep (e : Engine) (made : Except IndexError Snapshot) :
    let kept := e.snapshotCache.keep IndexError.cache Engine.snapshotKey made
    Goes built 2 e ⟨.ensure, gate, afterBuild .ensure made⟩
      { e with snapshotCache := kept.2.leaveGate Engine.snapshotKey }
      ⟨.ensure, gate, .done kept.1⟩ := by
  intro kept
  cases made with
  | error err => exact .next rfl .refl
  | ok s =>
      rcases hset : e.snapshotCache.set Engine.snapshotKey s with ⟨err | _, cache⟩
      · have hkept : kept = (.error (.cache err), cache) := by
          simp only [kept, Cache.keep, hset]
        refine .next (d := { e with snapshotCache := cache })
          (u := ⟨.ensure, gate, .leaving (.error (.cache err))⟩) ?_ ?_
        · simp only [afterBuild, advance, Engine.cacheSnapshot, hset]
        · rw [hkept]
          exact goes_leave _ _
      · have hkept : kept = (.ok s, cache) := by
          simp only [kept, Cache.keep, hset]
        refine .next (d := { e with snapshotCache := cache })
          (u := ⟨.ensure, gate, .leaving (.ok s)⟩) ?_ ?_
        · simp only [afterBuild, advance, Engine.cacheSnapshot, hset]
        · rw [hkept]
          exact goes_leave _ _

/-- Who misses the snapshot again builds one, when the right to build is free. -/
theorem goes_rebuild (built : Except IndexError Snapshot) (gate : Option Nat)
    (hfree : e.isLocked = false) :
    let made := e.publishBuilt built
    let kept := made.2.snapshotCache.keep IndexError.cache Engine.snapshotKey made.1
    Goes built 12 e ⟨.ensure, gate, .missedAgain⟩
      { made.2.atRest with snapshotCache := kept.2.leaveGate Engine.snapshotKey }
      ⟨.ensure, gate, .done kept.1⟩ := by
  intro made kept
  have hright : Goes built 3 e ⟨.ensure, gate, .missedAgain⟩ { e with isLocked := true }
      ⟨.ensure, gate, .ready⟩ := by
    refine .next rfl (.next (d := { e with isLocked := true })
      (u := ⟨.ensure, gate, .comparing e.generation⟩) ?_ (.next ?_ .refl))
    · simp [advance, hfree]
    · simp only [advance, if_true]
  have hbuild := goes_build built .ensure gate e
  exact (hright.trans hbuild).trans (goes_keep made.2.atRest made.1)

/-- What a request for some snapshot comes to in one go is what it comes to alone. -/
theorem alone_ensure (e : Engine) (tree : SourceTree) (availability : Availability)
    (cancelled : Bool) :
    let built := Snapshot.build e.settings tree availability cancelled
    (alone built e .ensure).result? 0 = some (e.ensureIndexed tree availability cancelled).1 ∧
      (alone built e .ensure).engine = (e.ensureIndexed tree availability cancelled).2 := by
  intro built
  rw [Engine.ensureIndexed, Cache.getOrCreateWith]
  rcases hget : e.snapshotCache.get Engine.snapshotKey with ⟨err | found, cache⟩
  · have hgoes : Goes built 1 e ⟨.ensure, none, .start⟩ { e with snapshotCache := cache }
        ⟨.ensure, none, .done (.error (.cache err))⟩ :=
      .next (by simp only [advance, hget]) .refl
    exact hgoes.alone (by decide)
  cases found with
  | some s =>
      have hgoes : Goes built 1 e ⟨.ensure, none, .start⟩ { e with snapshotCache := cache }
          ⟨.ensure, none, .done (.ok s)⟩ :=
        .next (by simp only [advance, hget]) .refl
      exact hgoes.alone (by decide)
  | none =>
      rcases henter : cache.enterGate Engine.snapshotKey with ⟨number, entered⟩
      have hgate := goes_gate built hget henter
      simp only [henter]
      rcases hpass : entered.passGate Engine.snapshotKey with ⟨err | found, passed⟩
      · have hgoes := goes_out hgate (r := .error (.cache err)) fun _ => by
          simp only [advance, hpass]
          rfl
        exact hgoes.alone (by decide)
      cases found with
      | some s =>
          have hgoes := goes_out hgate (r := .ok s) fun _ => by
            simp only [advance, hpass]
            rfl
          exact hgoes.alone (by decide)
      | none =>
          have hbehind : Goes built 4 e ⟨.ensure, none, .start⟩ { e with snapshotCache := passed }
              ⟨.ensure, some number, .missedAgain⟩ := by
            refine Goes.trans (m := 3) (n := 1) hgate (.next ?_ .refl)
            simp only [advance, hpass]
          cases hl : e.isLocked with
          | true =>
              -- it waits, and has only the gate to give back
              have hwaits : Goes built 5 e ⟨.ensure, none, .start⟩
                  { e with snapshotCache := passed }
                  ⟨.ensure, some number, .waiting e.generation⟩ :=
                Goes.trans (m := 4) (n := 1) hbehind (.next rfl .refl)
              rw [alone, begin_alone, hwaits.proceed (by decide) (by simp [step, single, advance, hl])]
              simp only [Engine.rebuild, hl, if_true]
              exact ⟨rfl, rfl⟩
          | false =>
              have hmade := goes_rebuild (e := { e with snapshotCache := passed }) built
                (some number) hl
              have hgoes := Goes.trans (m := 4) (n := 12) hbehind hmade
              simp only [Engine.rebuild_of_free hl]
              exact hgoes.alone (by decide)

end Crowd
end ComponentAtlas
