import ComponentAtlas.Proofs.Cache.FlightGate

/-!
# One flight at a time

Calls for one missing value take turns in the order in which they pass the gate.  Until a factory
has made a value, each call runs its own factory and ends with what that gives, or is given up;
from then on every call gets the value and no factory runs.  `outcomes` says so of a list of plans,
and the invariant `InTurn` says that the calls that have passed the gate are on their way there: all
end as `outcomes` says, or all but the last, which is inside.  Nobody who is inside waits for those
that are still leaving, and so a call counts as ended when its end is certain (`final`).
-/

namespace ComponentAtlas

variable {ε α : Type}

namespace CallPhase

/-- Whether a call has been let in. -/
def hasPassed : CallPhase ε α → Bool
  | .inside _ | .admitted _ | .missedAgain _ | .running _ | .leaving _ _ | .ended _ => true
  | .dropping _ ran | .givenUp ran => ran
  | .missed | .waiting _ => false

/-- Whether a call got a value that another one made. -/
def isServed : CallPhase ε α → Bool
  | .leaving _ ⟨.ok _, false⟩ | .ended ⟨.ok _, false⟩ => true
  | .missed | .waiting _ | .inside _ | .admitted _ | .missedAgain _ | .running _ | .leaving _ _
  | .dropping _ _ | .ended _ | .givenUp _ => false

/-- Whether a call has looked again and found nothing. -/
def hasMissedAgain : CallPhase ε α → Bool
  | .missedAgain _ | .running _ => true
  | .missed | .waiting _ | .inside _ | .admitted _ | .leaving _ _ | .dropping _ _ | .ended _
  | .givenUp _ => false

/-- Where a call comes that has nothing more to do than to leave. -/
def final : CallPhase ε α → CallPhase ε α
  | .leaving _ outcome => .ended outcome
  | .dropping _ ran => .givenUp ran
  | phase => phase

variable {p : CallPhase ε α} {gate : Nat}

theorem final_of_inside? (h : p.inside? = some gate) : p.final = p := by
  cases p with
  | inside _ | admitted _ | missedAgain _ | running _ => rfl
  | missed | waiting _ | leaving _ _ | dropping _ _ | ended _ | givenUp _ => cases h

theorem final_final (p : CallPhase ε α) : p.final.final = p.final := by
  cases p <;> rfl

theorem inside?_final (p : CallPhase ε α) : p.final.inside? = p.inside? := by
  cases p <;> rfl

theorem hasPassed_final (p : CallPhase ε α) : p.final.hasPassed = p.hasPassed := by
  cases p <;> rfl

theorem isServed_final (p : CallPhase ε α) : p.final.isServed = p.isServed := by
  cases p with
  | leaving gate outcome => obtain ⟨_ | _, _ | _⟩ := outcome <;> rfl
  | missed | waiting _ | inside _ | admitted _ | missedAgain _ | running _ | dropping _ _ | ended _
  | givenUp _ => rfl

theorem inside?_of_isOver (h : p.isOver = true) : p.inside? = none :=
  inside?_of_no_gate (gate?_of_isOver h)

theorem hasPassed_of_inside? (h : p.inside? = some gate) : p.hasPassed = true := by
  cases p with
  | inside _ | admitted _ | missedAgain _ | running _ => rfl
  | missed | waiting _ | leaving _ _ | dropping _ _ | ended _ | givenUp _ => cases h

theorem isServed_of_inside? (h : p.inside? = some gate) : p.isServed = false := by
  cases p with
  | inside _ | admitted _ | missedAgain _ | running _ => rfl
  | missed | waiting _ | leaving _ _ | dropping _ _ | ended _ | givenUp _ => cases h

end CallPhase

namespace FlightStep

/-- A step of calls for one key, whose factories end as it is planned: nothing is planned for a call
that will be given up. -/
def Follows (plan : Nat → Option (Except ε α)) (key : String) : FlightStep ε α → Prop
  | .start k => k = key
  | .enter _ | .lock _ | .check _ | .look _ | .begin _ | .leave _ => True
  | .store call made => plan call = some made
  | .drop call => plan call = none
  | .dispose => False

end FlightStep

/-! ## What is to become of calls that take turns -/

/-- The first value that is made. -/
def firstMade? : List (Option (Except ε α)) → Option α
  | [] => none
  | some (.ok v) :: _ => some v
  | some (.error _) :: plans | none :: plans => firstMade? plans

/-- What becomes of calls whose factories end as it is planned, in the order of their turns.  Up to
the first value that is made each call ends by its own factory, or is given up while that runs; all
later ones get the value. -/
def outcomes : List (Option (Except ε α)) → List (CallPhase ε α)
  | [] => []
  | none :: plans => .givenUp true :: outcomes plans
  | some (.error e) :: plans => .ended ⟨.error e, true⟩ :: outcomes plans
  | some (.ok v) :: plans =>
    .ended ⟨.ok v, true⟩ :: plans.map fun _ => .ended ⟨.ok v, false⟩

theorem firstMade?_append (ps qs : List (Option (Except ε α))) :
    firstMade? (ps ++ qs) = (firstMade? ps).or (firstMade? qs) := by
  induction ps with
  | nil => rfl
  | cons p ps ih =>
      match p with
      | none | some (.error _) => exact ih
      | some (.ok _) => rfl

theorem outcomes_append_of_none {ps : List (Option (Except ε α))} (h : firstMade? ps = none)
    (qs : List (Option (Except ε α))) : outcomes (ps ++ qs) = outcomes ps ++ outcomes qs := by
  induction ps with
  | nil => rfl
  | cons p ps ih =>
      match p with
      | none | some (.error _) => exact congrArg (_ :: ·) (ih h)
      | some (.ok _) => cases h

theorem outcomes_append_of_some {ps : List (Option (Except ε α))} {v : α}
    (h : firstMade? ps = some v) (qs : List (Option (Except ε α))) :
    outcomes (ps ++ qs) = outcomes ps ++ qs.map fun _ => CallPhase.ended ⟨.ok v, false⟩ := by
  induction ps with
  | nil => cases h
  | cons p ps ih =>
      match p with
      | none | some (.error _) => exact congrArg (_ :: ·) (ih h)
      | some (.ok w) =>
          obtain rfl : w = v := Option.some.inj h
          simp [outcomes]

theorem isOver_of_mem_outcomes {plans : List (Option (Except ε α))} {p : CallPhase ε α}
    (h : p ∈ outcomes plans) : p.isOver = true := by
  induction plans with
  | nil => cases h
  | cons plan plans ih =>
      match plan with
      | none | some (.error _) =>
          rcases List.mem_cons.mp h with rfl | h
          · rfl
          · exact ih h
      | some (.ok v) =>
          rcases List.mem_cons.mp h with rfl | h
          · rfl
          · obtain ⟨-, -, rfl⟩ := List.mem_map.mp h
            rfl

namespace Flight

variable {plan : Nat → Option (Except ε α)} {key : String} {c : Cache α} {f f' : Flight ε α}
  {s : FlightStep ε α} {order : List Nat} {i : Nat} {old p : CallPhase ε α}
  {ofCacheError : CacheError → ε}

/-! ## Phases -/

def phase? (f : Flight ε α) (i : Nat) : Option (CallPhase ε α) :=
  f.calls[i]?.map Call.phase

/-- Where a call is, or where it comes by leaving. -/
def final? (f : Flight ε α) (i : Nat) : Option (CallPhase ε α) :=
  (f.phase? i).map CallPhase.final

theorem phase?_of_call (h : f.calls[i]? = some ⟨key, p⟩) : f.phase? i = some p := by
  rw [phase?, h]
  rfl

theorem final?_of_call (h : f.calls[i]? = some ⟨key, p⟩) : f.final? i = some p.final := by
  rw [final?, phase?_of_call h]
  rfl

theorem phase?_move (cache : Cache α) (here : f.calls[i]? = some ⟨key, old⟩) :
    (f.move cache i key p).phase? = Function.update f.phase? i (some p) := by
  funext j
  by_cases hj : j = i
  · subst hj
    rw [Function.update_self]
    exact phase?_of_call (move_self cache here)
  · rw [Function.update_of_ne hj, phase?, move, List.getElem?_set_ne (Ne.symm hj)]
    rfl

theorem final?_move (cache : Cache α) (here : f.calls[i]? = some ⟨key, old⟩) :
    (f.move cache i key p).final? = Function.update f.final? i (some p.final) := by
  funext j
  rw [final?, phase?_move cache here]
  by_cases hj : j = i
  · subst hj
    rw [Function.update_self, Function.update_self]
    rfl
  · rw [Function.update_of_ne hj, Function.update_of_ne hj]
    rfl

theorem phase?_append {call : Call ε α} {cache : Cache α}
    (h : (⟨cache, f.calls ++ [call]⟩ : Flight ε α).phase? i = some p) :
    f.phase? i = some p ∨ p = call.phase := by
  obtain ⟨there, hthere, rfl⟩ := Option.map_eq_some_iff.mp h
  rcases call_append hthere with hthere | ⟨rfl, -⟩
  · exact Or.inl (by rw [phase?, hthere]; rfl)
  · exact Or.inr rfl

theorem phase?_append_of_some {call : Call ε α} (cache : Cache α) (h : f.phase? i = some p) :
    (⟨cache, f.calls ++ [call]⟩ : Flight ε α).phase? i = some p := by
  obtain ⟨there, hthere, rfl⟩ := Option.map_eq_some_iff.mp h
  obtain ⟨hi, -⟩ := List.getElem?_eq_some_iff.mp hthere
  rw [phase?, List.getElem?_append_left hi, hthere]
  rfl

/-! ## Turns -/

/-- The phases of the calls that have passed the gate, and the value that there is by then: all are
over, or all but the last, which is inside and has not missed a value that there is. -/
inductive Turns (plan : Nat → Option (Except ε α)) (phase : Nat → Option (CallPhase ε α))
    (value : Option α) : List Nat → Prop
  | free {order : List Nat} (ended : order.map phase = (outcomes (order.map plan)).map some)
      (held : value = firstMade? (order.map plan)) : Turns plan phase value order
  | busy {done : List Nat} {i gate : Nat} {p : CallPhase ε α}
      (ended : done.map phase = (outcomes (done.map plan)).map some)
      (held : value = firstMade? (done.map plan)) (inside : phase i = some p)
      (within : p.inside? = some gate) (missing : p.hasMissedAgain = true → value = none) :
      Turns plan phase value (done ++ [i])

section

variable {phase phase' : Nat → Option (CallPhase ε α)} {value : Option α} {done : List Nat}
  {gate : Nat}

theorem Turns.congr (h : Turns plan phase value order) (hsame : ∀ j ∈ order, phase' j = phase j) :
    Turns plan phase' value order := by
  cases h with
  | free ended held =>
      refine .free ?_ held
      rw [List.map_congr_left hsame]
      exact ended
  | busy ended held inside within missing =>
      have hdone := fun j hj => hsame j (List.mem_append_left _ hj)
      have hlast := hsame _ (List.mem_append_right _ List.mem_cons_self)
      refine .busy ?_ held (hlast.trans inside) within missing
      rw [List.map_congr_left hdone]
      exact ended

theorem not_inside_of_over (ended : order.map phase = (outcomes (order.map plan)).map some)
    (hi : i ∈ order) (here : phase i = some p) : p.inside? = none := by
  have hmem : phase i ∈ (outcomes (order.map plan)).map some := by
    rw [← ended]
    exact List.mem_map_of_mem hi
  obtain ⟨q, hq, hphase⟩ := List.mem_map.mp hmem
  rw [here] at hphase
  obtain rfl := Option.some.inj hphase
  exact CallPhase.inside?_of_isOver (isOver_of_mem_outcomes hq)

/-- If nobody is inside, all that have passed the gate are over. -/
theorem Turns.over_of_free (h : Turns plan phase value order)
    (hfree : ∀ j p, phase j = some p → p.inside? = none) :
    order.map phase = (outcomes (order.map plan)).map some ∧
      value = firstMade? (order.map plan) := by
  cases h with
  | free ended held => exact ⟨ended, held⟩
  | busy _ _ inside within =>
      rw [hfree _ _ inside] at within
      cases within

/-- If a call is inside, it is the last that has passed the gate. -/
theorem Turns.last_of_inside (h : Turns plan phase value order) (hi : i ∈ order)
    (here : phase i = some p) (hinside : p.inside? = some gate) :
    ∃ done, order = done ++ [i] ∧ done.map phase = (outcomes (done.map plan)).map some ∧
      value = firstMade? (done.map plan) ∧ (p.hasMissedAgain = true → value = none) := by
  have hnot {l : List Nat} (ended : l.map phase = (outcomes (l.map plan)).map some)
      (hl : i ∈ l) : False := by
    rw [not_inside_of_over ended hl here] at hinside
    cases hinside
  cases h with
  | free ended held => exact (hnot ended hi).elim
  | busy ended held inside within missing =>
      rcases List.mem_append.mp hi with hdone | hlast
      · exact (hnot ended hdone).elim
      · obtain rfl := List.mem_singleton.mp hlast
        rw [inside] at here
        obtain rfl := Option.some.inj here
        exact ⟨_, rfl, ended, held, missing⟩

theorem map_update_of_notMem (hoff : i ∉ done) (x : Option (CallPhase ε α)) :
    done.map (Function.update phase i x) = done.map phase := by
  refine List.map_congr_left fun j hj => Function.update_of_ne ?_ _ _
  rintro rfl
  exact hoff hj

/-- The next one goes inside, or the one inside goes on there. -/
theorem Turns.stay (ended : done.map phase = (outcomes (done.map plan)).map some)
    (held : value = firstMade? (done.map plan)) (hoff : i ∉ done) (within : p.inside? = some gate)
    (missing : p.hasMissedAgain = true → value = none) :
    Turns plan (Function.update phase i (some p)) value (done ++ [i]) := by
  refine .busy ?_ held (Function.update_self ..) within missing
  rw [map_update_of_notMem hoff]
  exact ended

/-- The one inside gets the value that there is. -/
theorem Turns.serve {v : α} (ended : done.map phase = (outcomes (done.map plan)).map some)
    (held : firstMade? (done.map plan) = some v) (hoff : i ∉ done) :
    Turns plan (Function.update phase i (some (.ended ⟨.ok v, false⟩))) (some v) (done ++ [i]) := by
  refine .free ?_ ?_
  · rw [List.map_append, map_update_of_notMem hoff, ended, List.map_append,
      outcomes_append_of_some held]
    simp
  · rw [List.map_append, firstMade?_append, held]
    rfl

/-- The one inside ends as it is planned. -/
theorem Turns.finish (ended : done.map phase = (outcomes (done.map plan)).map some)
    (unmade : firstMade? (done.map plan) = none) (hoff : i ∉ done)
    (hend : outcomes [plan i] = [p]) :
    Turns plan (Function.update phase i (some p)) (firstMade? [plan i]) (done ++ [i]) := by
  refine .free ?_ ?_
  · rw [List.map_append, map_update_of_notMem hoff, ended, List.map_append, List.map_singleton,
      List.map_singleton, outcomes_append_of_none unmade, hend, Function.update_self,
      List.map_append]
    rfl
  · rw [List.map_append, firstMade?_append, unmade]
    rfl

end

/-! ## The invariant -/

/-- A call has been let in. -/
def HasPassed (f : Flight ε α) (i : Nat) : Prop :=
  ∃ p, f.phase? i = some p ∧ p.hasPassed = true

/-- How many calls got a value that another one made. -/
def served (f : Flight ε α) : Nat :=
  f.calls.countP fun call => call.phase.isServed

/-- Calls for a key that the cache `c` did not hold, of which those in `order` have passed the gate,
in that order. -/
structure InTurn (plan : Nat → Option (Except ε α)) (key : String) (c : Cache α) (f : Flight ε α)
    (order : List Nat) : Prop where
  cache : f.cache.Keeps key
  keys : ∀ call ∈ f.calls, call.key = key
  guarded : f.Guarded
  passed : ∀ i, i ∈ order ↔ f.HasPassed i
  nodup : order.Nodup
  turns : Turns plan f.final? (f.cache.value? key) order
  misses : f.cache.misses = c.misses + f.calls.length
  hits : f.cache.hits = c.hits + f.served
  dropped : ∀ i, f.final? i = some (.givenUp false) → plan i = none

theorem hasPassed_move {cache : Cache α} (here : f.calls[i]? = some ⟨key, old⟩) {j : Nat} :
    (f.move cache i key p).HasPassed j ↔ if j = i then p.hasPassed = true else f.HasPassed j := by
  unfold HasPassed
  rw [phase?_move cache here]
  by_cases hj : j = i
  · subst hj
    simp
  · rw [Function.update_of_ne hj, if_neg hj]

namespace InTurn

/-- A call that has passed the gate stays so, and one that has not does not pass it by leaving. -/
theorem passed_same (h : InTurn plan key c f order) {cache : Cache α}
    (here : f.calls[i]? = some ⟨key, old⟩) (hsame : p.hasPassed = old.hasPassed) (j : Nat) :
    j ∈ order ↔ (f.move cache i key p).HasPassed j := by
  rw [hasPassed_move here, h.passed]
  by_cases hj : j = i
  · subst hj
    rw [if_pos rfl, hsame]
    unfold HasPassed
    simp [phase?_of_call here]
  · rw [if_neg hj]

theorem notMem_of_not_passed (h : InTurn plan key c f order)
    (here : f.calls[i]? = some ⟨key, old⟩) (hold : old.hasPassed = false) : i ∉ order := by
  rw [h.passed]
  rintro ⟨q, hq, hpassed⟩
  rw [phase?_of_call here] at hq
  obtain rfl := Option.some.inj hq
  rw [hold] at hpassed
  cases hpassed

/-- A call that passes the gate comes last. -/
theorem passed_append (h : InTurn plan key c f order) {cache : Cache α}
    (here : f.calls[i]? = some ⟨key, old⟩) (hnew : p.hasPassed = true) (j : Nat) :
    j ∈ order ++ [i] ↔ (f.move cache i key p).HasPassed j := by
  rw [hasPassed_move here, List.mem_append, List.mem_singleton, h.passed]
  by_cases hj : j = i
  · simp [hj, hnew]
  · simp [hj]

theorem nodup_append (h : InTurn plan key c f order) (hoff : i ∉ order) :
    (order ++ [i]).Nodup := by
  refine List.nodup_append.mpr ⟨h.nodup, List.pairwise_singleton _ _, ?_⟩
  rintro j hj _ hi rfl
  obtain rfl := List.mem_singleton.mp hi
  exact hoff hj

/-- A call that is inside was the last one to pass the gate. -/
theorem last_of_inside (h : InTurn plan key c f order) {gate : Nat}
    (here : f.calls[i]? = some ⟨key, old⟩) (hinside : old.inside? = some gate) :
    ∃ done, order = done ++ [i] ∧ i ∉ done ∧
      done.map f.final? = (outcomes (done.map plan)).map some ∧
      f.cache.value? key = firstMade? (done.map plan) ∧
      (old.hasMissedAgain = true → f.cache.value? key = none) := by
  have hin : i ∈ order :=
    (h.passed i).mpr ⟨old, phase?_of_call here, CallPhase.hasPassed_of_inside? hinside⟩
  have hfinal := final?_of_call here
  rw [CallPhase.final_of_inside? hinside] at hfinal
  obtain ⟨done, rfl, hends⟩ := h.turns.last_of_inside hin hfinal hinside
  refine ⟨done, rfl, fun hdone => ?_, hends⟩
  exact (List.nodup_append.mp h.nodup).2.2 i hdone i List.mem_cons_self rfl

/-! ### What a call does -/

section

variable {cache : Cache α}

theorem move (h : InTurn plan key c f order) {order' : List Nat}
    (here : f.calls[i]? = some ⟨key, old⟩) (hcache : cache.Keeps key)
    (hguarded : (f.move cache i key p).Guarded)
    (hpassed : ∀ j, j ∈ order' ↔ (f.move cache i key p).HasPassed j) (hnodup : order'.Nodup)
    (hturns : Turns plan (Function.update f.final? i (some p.final)) (cache.value? key) order')
    (hmisses : cache.misses = f.cache.misses)
    (hhits : cache.hits + old.isServed.toNat = f.cache.hits + p.isServed.toNat)
    (hdropped : p.final = .givenUp false → plan i = none) :
    InTurn plan key c (f.move cache i key p) order' where
  cache := hcache
  keys call hcall := by
    rcases List.mem_or_eq_of_mem_set hcall with hcall | rfl
    · exact h.keys call hcall
    · rfl
  guarded := hguarded
  passed := hpassed
  nodup := hnodup
  turns := by
    rw [final?_move cache here]
    exact hturns
  misses := by
    show cache.misses = c.misses + (f.calls.set i ⟨key, p⟩).length
    rw [hmisses, h.misses, List.length_set]
  hits := by
    have hcount := countP_move_call (fun call => call.phase.isServed) here cache key p
    have hhere := h.hits
    show cache.hits = c.hits + (f.move cache i key p).calls.countP _
    unfold served at hhere
    simp only at hcount
    omega
  dropped j hj := by
    rw [final?_move cache here] at hj
    by_cases hji : j = i
    · subst hji
      rw [Function.update_self] at hj
      exact hdropped (Option.some.inj hj)
    · rw [Function.update_of_ne hji] at hj
      exact h.dropped j hj

/-- A call that stays outside, on its way to the gate or away from it. -/
theorem outside (h : InTurn plan key c f order) (here : f.calls[i]? = some ⟨key, old⟩)
    (hold : old.hasPassed = false) (hnew : p.hasPassed = false)
    (hserved : old.isServed = false ∧ p.isServed = false)
    (alike : Cache.AlikeButGates key f.cache cache) (hguarded : (f.move cache i key p).Guarded)
    (hdropped : p.final = .givenUp false → plan i = none) :
    InTurn plan key c (f.move cache i key p) order := by
  have hoff : i ∉ order := h.notMem_of_not_passed here hold
  refine h.move here (alike.keeps h.cache) hguarded (h.passed_same here (hnew.trans hold.symm))
    h.nodup ?_ alike.misses ?_ hdropped
  · rw [alike.value]
    refine h.turns.congr fun j hj => Function.update_of_ne ?_ _ _
    rintro rfl
    exact hoff hj
  · rw [alike.hits, hserved.1, hserved.2]

/-- A call that has nothing more to do leaves. -/
theorem leaves (h : InTurn plan key c f order) (here : f.calls[i]? = some ⟨key, old⟩)
    (hguarded : (f.move (f.cache.leaveGate key) i key old.final).Guarded) :
    InTurn plan key c (f.move (f.cache.leaveGate key) i key old.final) order := by
  have alike := f.cache.leaveGate_alike key
  have hthere := final?_of_call here
  refine h.move here (alike.keeps h.cache) hguarded (h.passed_same here old.hasPassed_final)
    h.nodup ?_ alike.misses ?_ ?_
  · rw [alike.value, old.final_final, ← hthere, Function.update_eq_self]
    exact h.turns
  · rw [alike.hits, old.isServed_final]
  · rw [old.final_final]
    exact fun hgivenUp => h.dropped i (hthere.trans (congrArg some hgivenUp))

/-- The call inside goes on there. -/
theorem stays (h : InTurn plan key c f order) {gate : Nat} (here : f.calls[i]? = some ⟨key, old⟩)
    (hold : old.inside? = some gate) (hnew : p.inside? = some gate)
    (alike : Cache.AlikeButGates key f.cache cache)
    (hmissing : p.hasMissedAgain = true → f.cache.value? key = none)
    (hguarded : (f.move cache i key p).Guarded) :
    InTurn plan key c (f.move cache i key p) order := by
  obtain ⟨done, rfl, hoff, ended, held, -⟩ := h.last_of_inside here hold
  have hpassed : p.hasPassed = old.hasPassed := by
    rw [CallPhase.hasPassed_of_inside? hnew, CallPhase.hasPassed_of_inside? hold]
  refine h.move here (alike.keeps h.cache) hguarded (h.passed_same here hpassed) h.nodup ?_
    alike.misses ?_ ?_
  · rw [alike.value, CallPhase.final_of_inside? hnew]
    exact .stay ended held hoff hnew hmissing
  · rw [alike.hits, CallPhase.isServed_of_inside? hold, CallPhase.isServed_of_inside? hnew]
  · intro hgivenUp
    rw [CallPhase.final_of_inside? hnew] at hgivenUp
    rw [hgivenUp] at hnew
    cases hnew

/-- The call inside ends by its own factory, and it is over then. -/
theorem ends (h : InTurn plan key c f order) {gate : Nat}
    (here : f.calls[i]? = some ⟨key, .running gate⟩) (hpassed : p.hasPassed = true)
    (hserved : p.isServed = false) (hend : outcomes [plan i] = [p.final])
    (hcache : cache.Keeps key) (hguarded : (f.move cache i key p).Guarded)
    (hvalue : cache.value? key = (firstMade? [plan i]).or (f.cache.value? key))
    (hmisses : cache.misses = f.cache.misses) (hhits : cache.hits = f.cache.hits) :
    InTurn plan key c (f.move cache i key p) order := by
  obtain ⟨done, rfl, hoff, ended, held, hmissing⟩ := h.last_of_inside here rfl
  have hmissing := hmissing rfl
  refine h.move here hcache hguarded (h.passed_same here hpassed) h.nodup ?_ hmisses ?_ ?_
  · rw [hvalue, hmissing, Option.or_none]
    exact .finish ended (held.symm.trans hmissing) hoff hend
  · rw [hhits, hserved]
    rfl
  · intro hgivenUp
    rw [hgivenUp] at hend
    cases hplan : plan i with
    | none => rfl
    | some made =>
        rw [hplan] at hend
        cases made <;> cases hend

end

/-- Another call starts. -/
theorem starts (h : InTurn plan key c f order) {d : Cache α} (alike : f.cache.Alike key d)
    (hguarded : Guarded (⟨d.countMiss, f.calls ++ [⟨key, .missed⟩]⟩ : Flight ε α)) :
    InTurn plan key c ⟨d.countMiss, f.calls ++ [⟨key, .missed⟩]⟩ order where
  cache := (alike.keeps h.cache).countMiss
  keys call hcall := by
    rcases List.mem_append.mp hcall with hcall | hcall
    · exact h.keys call hcall
    · rw [List.mem_singleton.mp hcall]
  guarded := hguarded
  passed j := by
    rw [h.passed]
    constructor
    · rintro ⟨p, hp, hpassed⟩
      exact ⟨p, phase?_append_of_some _ hp, hpassed⟩
    · rintro ⟨p, hp, hpassed⟩
      rcases phase?_append hp with hp | rfl
      · exact ⟨p, hp, hpassed⟩
      · cases hpassed
  nodup := h.nodup
  turns := by
    rw [show d.countMiss.value? key = f.cache.value? key from alike.value]
    refine h.turns.congr fun j hj => ?_
    obtain ⟨p, hp, -⟩ := (h.passed j).mp hj
    rw [final?, final?, phase?_append_of_some _ hp, hp]
  misses := by
    show d.misses + 1 = c.misses + (f.calls ++ [_]).length
    rw [alike.misses, h.misses, List.length_append, List.length_singleton, Nat.add_assoc]
  hits := by
    show d.hits = c.hits + (f.calls ++ [_]).countP _
    rw [alike.hits, h.hits, List.countP_append]
    rfl
  dropped j hj := by
    obtain ⟨p, hp, hfinal⟩ := Option.map_eq_some_iff.mp hj
    rcases phase?_append hp with hp | rfl
    · exact h.dropped j (by rw [final?, hp, Option.map_some, hfinal])
    · cases hfinal

/-- The next one is let in. -/
theorem locks (h : InTurn plan key c f order) {gate : Nat}
    (here : f.calls[i]? = some ⟨key, .waiting gate⟩) (free : f.isFree gate = true) :
    InTurn plan key c (f.move f.cache i key (.inside gate)) (order ++ [i]) := by
  have hoff : i ∉ order := h.notMem_of_not_passed here rfl
  -- whoever is inside is inside this gate, since all calls are for one key
  have hnobody (j : Nat) (p : CallPhase ε α) (hj : f.final? j = some p) : p.inside? = none := by
    obtain ⟨q, hq, rfl⟩ := Option.map_eq_some_iff.mp hj
    obtain ⟨call, hcall, rfl⟩ := Option.map_eq_some_iff.mp hq
    rw [CallPhase.inside?_final]
    cases hinside : call.phase.inside? with
    | none => rfl
    | some other =>
        obtain ⟨k, q⟩ := call
        obtain rfl : k = key := h.keys _ (List.mem_of_getElem? hcall)
        have hgate := h.guarded.number h.cache.isOpen i k _ gate here rfl
        have hother := h.guarded.number h.cache.isOpen j k _ other hcall
          (CallPhase.gate?_of_inside? hinside)
        obtain rfl : gate = other := Option.some.inj (hgate.symm.trans hother)
        exact absurd hinside (isFree_iff.mp free j _ hcall)
  obtain ⟨ended, held⟩ := h.turns.over_of_free hnobody
  exact h.move here h.cache (h.guarded.lock here free) (h.passed_append here rfl)
    (h.nodup_append hoff) (.stay ended held hoff rfl nofun) rfl rfl nofun

/-- The call inside looks again. -/
theorem looks (h : InTurn plan key c f order) {gate : Nat}
    (here : f.calls[i]? = some ⟨key, .admitted gate⟩)
    (hguarded : (f.move (f.cache.lookAgain key).2 i key
      (.ofSecondLook gate (f.cache.lookAgain key).1)).Guarded) :
    InTurn plan key c (f.move (f.cache.lookAgain key).2 i key
      (.ofSecondLook gate (f.cache.lookAgain key).1)) order := by
  cases hvalue : f.cache.value? key with
  | none =>
      obtain ⟨d, hlook, alike⟩ := h.cache.lookAgain_missing hvalue
      rw [hlook] at hguarded ⊢
      exact h.stays here rfl rfl alike.toAlikeButGates (fun _ => hvalue) hguarded
  | some v =>
      obtain ⟨d, hlook, alike⟩ := h.cache.lookAgain_held hvalue
      rw [hlook] at hguarded ⊢
      obtain ⟨done, rfl, hoff, ended, held, -⟩ := h.last_of_inside here rfl
      refine h.move here (alike.keeps h.cache).countHit hguarded (h.passed_same here rfl) h.nodup
        ?_ alike.misses ?_ nofun
      · rw [show d.countHit.value? key = some v from alike.value.trans hvalue]
        exact .serve ended (held.symm.trans hvalue) hoff
      · rw [show d.countHit.hits = d.hits + 1 from rfl, alike.hits]
        rfl

theorem call_key (h : InTurn plan key c f order) {k : String}
    (here : f.calls[i]? = some ⟨k, old⟩) : k = key :=
  h.keys _ (List.mem_of_getElem? here)

/-- What one step does to the turns: the call that is let in, if one is, comes last. -/
theorem step (h : InTurn plan key c f order) (hmoves : Moves ofCacheError f s f')
    (hplan : s.Follows plan key) (hstart : s.isStart = true → f.cache.value? key = none) :
    InTurn plan key c f' (order ++ (f.passedBy? s).toList) := by
  have hguarded : f'.Guarded := h.guarded.move hmoves
  have hstill {s : FlightStep ε α} {g : Flight ε α} (hnobody : f.passedBy? s = none)
      (hg : InTurn plan key c g order) :
      InTurn plan key c g (order ++ (f.passedBy? s).toList) := by
    rwa [hnobody, Option.toList_none, List.append_nil]
  cases hmoves with
  | idle later passes => exact hstill passes h
  | @start k =>
      obtain rfl : k = key := hplan
      obtain ⟨d, hget, alike⟩ := h.cache.get_missing (hstart rfl)
      rw [hget] at hguarded ⊢
      exact hstill rfl (h.starts alike hguarded)
  | @enter i k here =>
      obtain rfl := h.call_key here
      have henters := f.cache.enterGate_enters k
      exact hstill rfl
        (h.outside here rfl rfl ⟨rfl, rfl⟩ henters.toAlikeButGates hguarded nofun)
  | lock here free passes =>
      obtain rfl := h.call_key here
      rw [passes]
      exact h.locks here free
  | check here =>
      obtain rfl := h.call_key here
      rw [h.cache.refusal?_eq_none] at hguarded ⊢
      exact hstill rfl (h.stays here rfl rfl ⟨rfl, rfl, rfl, id⟩ nofun hguarded)
  | look here =>
      obtain rfl := h.call_key here
      exact hstill rfl (h.looks here hguarded)
  | begin here =>
      obtain rfl := h.call_key here
      obtain ⟨-, -, -, -, -, hmissing⟩ := h.last_of_inside here rfl
      exact hstill rfl (h.stays here rfl rfl ⟨rfl, rfl, rfl, id⟩ hmissing hguarded)
  | @store i gate k made here =>
      obtain rfl := h.call_key here
      have hplan : plan i = some made := hplan
      obtain ⟨d, hkeep, hstores⟩ := h.cache.keep ofCacheError made
      rw [hkeep] at hguarded ⊢
      refine hstill rfl (h.ends here rfl ?_ ?_ hstores.keeps hguarded ?_ hstores.misses
        hstores.hits)
      · cases made <;> rfl
      · rw [hplan]
        cases made <;> rfl
      · rw [hstores.value, hplan]
        cases made <;> rfl
  | dropWaiting here =>
      obtain rfl := h.call_key here
      exact hstill rfl
        (h.outside here rfl rfl ⟨rfl, rfl⟩ ⟨rfl, rfl, rfl, id⟩ hguarded fun _ => hplan)
  | @dropRunning i gate k here =>
      obtain rfl := h.call_key here
      have hplan : plan i = none := hplan
      refine hstill rfl (h.ends here rfl rfl ?_ h.cache hguarded ?_ rfl rfl)
      · rw [hplan]
        rfl
      · rw [hplan]
        rfl
  | leaveEnded here =>
      obtain rfl := h.call_key here
      exact hstill rfl (h.leaves here hguarded)
  | leaveGivenUp here =>
      obtain rfl := h.call_key here
      exact hstill rfl (h.leaves here hguarded)
  | dispose => cases hplan

end InTurn

end Flight
end ComponentAtlas
