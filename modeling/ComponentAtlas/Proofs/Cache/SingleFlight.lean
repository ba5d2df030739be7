import ComponentAtlas.Proofs.Cache.Turns
import Mathlib.Data.List.Infix

/-!
# A missing value is made once

Any number of calls look for a missing value, and all of them before a value was made.  In whatever
order they pass the gate, their factories run one at a time in that order, up to the first one that
makes a value; whoever comes later gets it.  Calls may fail or be given up on the way, and the
others are never stuck because of that: every run can be brought to its end.
-/

namespace ComponentAtlas

variable {ε α : Type}

namespace FlightStep

/-- Whether a factory makes a value in this step. -/
def makes : FlightStep ε α → Bool
  | .store _ (.ok _) => true
  | .start _ | .enter _ | .lock _ | .check _ | .look _ | .begin _ | .store _ (.error _) | .drop _
  | .leave _ | .dispose => false

end FlightStep

/-- Steps of calls for one key, whose factories end as it is planned.  No call starts after a value
was made. -/
structure IsSchedule (plan : Nat → Option (Except ε α)) (key : String)
    (steps : List (FlightStep ε α)) : Prop where
  follows : ∀ s ∈ steps, s.Follows plan key
  starts_first : steps.Pairwise fun s t => s.makes = true → t.isStart = false

theorem IsSchedule.of_prefix {plan : Nat → Option (Except ε α)} {key : String}
    {before steps : List (FlightStep ε α)} (h : IsSchedule plan key steps)
    (hbefore : before <+: steps) : IsSchedule plan key before :=
  ⟨fun s hs => h.follows s (hbefore.subset hs), h.starts_first.sublist hbefore.sublist⟩

theorem IsSchedule.append {plan : Nat → Option (Except ε α)} {key : String}
    {steps more : List (FlightStep ε α)} (h : IsSchedule plan key steps)
    (hmore : ∀ s ∈ more, s.Follows plan key ∧ s.isStart = false) :
    IsSchedule plan key (steps ++ more) where
  follows s hs := by
    rcases List.mem_append.mp hs with hs | hs
    · exact h.follows s hs
    · exact (hmore s hs).1
  starts_first := by
    refine List.pairwise_append.mpr ⟨h.starts_first, ?_, fun s _ t ht _ => (hmore t ht).2⟩
    refine List.Pairwise.imp_of_mem (R := fun _ _ => True) ?_ ?_
    · exact fun _ ht _ _ => (hmore _ ht).2
    · exact List.pairwise_of_forall fun _ _ => trivial

namespace Flight

variable {plan : Nat → Option (Except ε α)} {key : String} {c : Cache α} {f f' : Flight ε α}
  {s : FlightStep ε α} {steps : List (FlightStep ε α)} {order : List Nat} {i j : Nat}
  {ofCacheError : CacheError → ε}

/-! ## Runs -/

/-- The calls that pass the gate in a run, in the order in which they do. -/
def passOrder (ofCacheError : CacheError → ε) (f : Flight ε α) : List (FlightStep ε α) → List Nat
  | [] => []
  | s :: steps =>
    (f.passedBy? s).toList ++ (f.step ofCacheError s).passOrder ofCacheError steps

/-- There are as many calls as have started. -/
theorem calls_length_run (ofCacheError : CacheError → ε) (f : Flight ε α)
    (steps : List (FlightStep ε α)) :
    (f.run ofCacheError steps).calls.length =
      f.calls.length + steps.countP FlightStep.isStart := by
  have hstep {f f' : Flight ε α} {s : FlightStep ε α} (hmoves : Moves ofCacheError f s f') :
      f'.calls.length = f.calls.length + s.isStart.toNat := by
    cases hmoves with
    | idle later => rw [later]; rfl
    | start => exact List.length_append
    | enter | lock | check | look | begin | store | dropWaiting | dropRunning | leaveEnded
    | leaveGivenUp => exact List.length_set
    | dispose => rfl
  induction steps generalizing f with
  | nil => rfl
  | cons s steps ih =>
      refine (ih _).trans ?_
      rw [hstep (step_moves ofCacheError f s), List.countP_cons]
      cases s.isStart with
      | false => simp
      | true =>
          simp only [Bool.toNat_true, if_true]
          omega

theorem inTurn_nothing (hcache : c.Keeps key) (hmissing : c.value? key = none) :
    InTurn plan key c ⟨c, []⟩ [] where
  cache := hcache
  keys := by simp
  guarded := .of_no_calls c
  passed i := by
    refine iff_of_false List.not_mem_nil ?_
    rintro ⟨p, hp, -⟩
    cases hp
  nodup := List.nodup_nil
  turns := .free rfl hmissing
  misses := rfl
  hits := rfl
  dropped i hi := by cases hi

/-- A value is there only when there was one before, or one was made. -/
theorem InTurn.missing_step (h : InTurn plan key c f order) (hmoves : Moves ofCacheError f s f')
    (hplan : s.Follows plan key) (hmakes : s.makes = false)
    (hmissing : f.cache.value? key = none) : f'.cache.value? key = none := by
  cases hmoves with
  | idle => exact hmissing
  | @start k =>
      obtain rfl : k = key := hplan
      obtain ⟨d, hget, alike⟩ := h.cache.get_missing hmissing
      rw [hget]
      exact alike.value.trans hmissing
  | @enter i k here =>
      obtain rfl := h.call_key here
      exact (f.cache.enterGate_enters k).value.trans hmissing
  | lock | check | begin | dropWaiting | dropRunning => exact hmissing
  | look here =>
      obtain rfl := h.call_key here
      obtain ⟨d, hlook, alike⟩ := h.cache.lookAgain_missing hmissing
      rw [hlook]
      exact alike.value.trans hmissing
  | @store i gate k made here =>
      cases made with
      | error e => exact hmissing
      | ok v => cases hmakes
  | @leaveEnded i gate k outcome here =>
      obtain rfl := h.call_key here
      exact (f.cache.leaveGate_alike k).value.trans hmissing
  | @leaveGivenUp i gate k ran here =>
      obtain rfl := h.call_key here
      exact (f.cache.leaveGate_alike k).value.trans hmissing
  | dispose => cases hplan

/-- The invariant holds all along a run in which no call starts once there is a value. -/
theorem InTurn.run (h : InTurn plan key c f order) (hsteps : IsSchedule plan key steps)
    (hheld : f.cache.value? key = none ∨ ∀ s ∈ steps, s.isStart = false) :
    InTurn plan key c (f.run ofCacheError steps) (order ++ f.passOrder ofCacheError steps) := by
  induction steps generalizing f order with
  | nil =>
      rw [passOrder, List.append_nil]
      exact h
  | cons s steps ih =>
      obtain ⟨hstarts, htail⟩ := List.pairwise_cons.mp hsteps.starts_first
      have hplan := hsteps.follows s List.mem_cons_self
      have hstart : s.isStart = true → f.cache.value? key = none := by
        intro hs
        rcases hheld with hmissing | hnone
        · exact hmissing
        · rw [hnone s List.mem_cons_self] at hs
          cases hs
      have hmoves : Moves ofCacheError f s (f.step ofCacheError s) := step_moves ofCacheError f s
      -- a value comes only with a step that makes one, and after that no call starts
      have hheld' : (f.step ofCacheError s).cache.value? key = none ∨
          ∀ t ∈ steps, t.isStart = false := by
        rcases hheld with hmissing | hnone
        · cases hmakes : s.makes with
          | true => exact Or.inr fun t ht => hstarts t ht hmakes
          | false => exact Or.inl (h.missing_step hmoves hplan hmakes hmissing)
        · exact Or.inr fun t ht => hnone t (List.mem_cons_of_mem _ ht)
      have hrest : IsSchedule plan key steps :=
        ⟨fun t ht => hsteps.follows t (List.mem_cons_of_mem _ ht), htail⟩
      rw [passOrder, ← List.append_assoc]
      exact ih (h.step hmoves hplan hstart) hrest hheld'

theorem inTurn_run (hcache : c.Keeps key) (hmissing : c.value? key = none)
    (hsteps : IsSchedule plan key steps) :
    InTurn plan key c ((Flight.mk c []).run ofCacheError steps)
      ((Flight.mk c []).passOrder ofCacheError steps) :=
  (inTurn_nothing hcache hmissing).run hsteps (Or.inl hmissing)

/-! ## One at a time -/

/-- A call has the gate to itself. -/
def IsInside (f : Flight ε α) (i : Nat) : Prop :=
  ∃ p gate, f.phase? i = some p ∧ p.inside? = some gate

theorem InTurn.inside_unique (h : InTurn plan key c f order) (hi : f.IsInside i)
    (hj : f.IsInside j) : i = j := by
  have hlast {i : Nat} (hi : f.IsInside i) : ∃ done, order = done ++ [i] := by
    obtain ⟨p, gate, hp, hinside⟩ := hi
    obtain ⟨⟨k, p⟩, hcall, rfl⟩ := Option.map_eq_some_iff.mp hp
    obtain rfl := h.call_key hcall
    obtain ⟨done, hdone, -⟩ := h.last_of_inside hcall hinside
    exact ⟨done, hdone⟩
  obtain ⟨done, rfl⟩ := hlast hi
  obtain ⟨done', heq⟩ := hlast hj
  exact List.singleton_inj.mp (List.append_inj_right' heq rfl)

/-! ## Nobody is stuck -/

end Flight

/-- How many steps are left to a call at most. -/
def CallPhase.stepsLeft : CallPhase ε α → Nat
  | .missed => 7
  | .waiting _ => 6
  | .inside _ => 5
  | .admitted _ => 4
  | .missedAgain _ => 3
  | .running _ => 2
  | .leaving _ _ | .dropping _ _ => 1
  | .ended _ | .givenUp _ => 0

theorem CallPhase.stepsLeft_ofRefusal_lt (ofCacheError : CacheError → ε) (gate : Nat)
    (refused : Option CacheError) :
    (ofRefusal ofCacheError gate refused : CallPhase ε α).stepsLeft < 5 := by
  cases refused with
  | none => exact Nat.lt_succ_self 4
  | some err => exact Nat.lt_of_sub_pos (Nat.succ_pos 3)

theorem CallPhase.stepsLeft_ofSecondLook_lt (gate : Nat) (found : Option α) :
    (ofSecondLook gate found : CallPhase ε α).stepsLeft < 4 := by
  cases found with
  | none => exact Nat.lt_succ_self 3
  | some v => exact Nat.lt_of_sub_pos (Nat.succ_pos 2)

namespace Flight

variable {plan : Nat → Option (Except ε α)} {key : String} {c : Cache α} {f f' : Flight ε α}
  {s : FlightStep ε α} {steps : List (FlightStep ε α)} {order : List Nat} {i j : Nat}
  {old p : CallPhase ε α} {ofCacheError : CacheError → ε}

def stepsLeft : List (Call ε α) → Nat
  | [] => 0
  | call :: calls => call.phase.stepsLeft + stepsLeft calls

theorem stepsLeft_set_lt {calls : List (Call ε α)} {old new : Call ε α}
    (hold : calls[i]? = some old) (hless : new.phase.stepsLeft < old.phase.stepsLeft) :
    stepsLeft (calls.set i new) < stepsLeft calls := by
  induction calls generalizing i with
  | nil => cases hold
  | cons call calls ih =>
      cases i with
      | zero =>
          obtain rfl := Option.some.inj hold
          exact Nat.add_lt_add_right hless _
      | succ i => exact Nat.add_lt_add_left (ih hold) _

/-- Nothing more happens to any call. -/
def IsSettled (f : Flight ε α) : Prop :=
  ∀ call ∈ f.calls, call.phase.isOver = true

/-- A step of a call that is planned and leaves fewer steps to it. -/
def Progress (ofCacheError : CacheError → ε) (plan : Nat → Option (Except ε α)) (key : String)
    (f : Flight ε α) : Prop :=
  ∃ s, s.Follows plan key ∧ s.isStart = false ∧
    stepsLeft (f.step ofCacheError s).calls < stepsLeft f.calls

theorem Progress.of_move (s : FlightStep ε α) {cache : Cache α} {k : String}
    (hplan : s.Follows plan key) (hlater : s.isStart = false)
    (here : f.calls[i]? = some ⟨k, old⟩) (hstep : f.step ofCacheError s = f.move cache i k p)
    (hless : p.stepsLeft < old.stepsLeft) : f.Progress ofCacheError plan key := by
  refine ⟨s, hplan, hlater, ?_⟩
  rw [hstep]
  exact stepsLeft_set_lt here hless

/-- A call that is inside can go on. -/
theorem progress_of_inside (ofCacheError : CacheError → ε)
    (plan : Nat → Option (Except ε α)) (key : String) (hinside : f.IsInside i) :
    f.Progress ofCacheError plan key := by
  obtain ⟨p, gate, hp, hinside⟩ := hinside
  obtain ⟨⟨k, p⟩, here, rfl⟩ := Option.map_eq_some_iff.mp hp
  cases p with
  | inside gate =>
      exact .of_move (.check i) trivial rfl here (check_of_inside here)
        (CallPhase.stepsLeft_ofRefusal_lt ..)
  | admitted gate =>
      exact .of_move (.look i) trivial rfl here (look_of_admitted here)
        (CallPhase.stepsLeft_ofSecondLook_lt ..)
  | missedAgain gate =>
      exact .of_move (.begin i) trivial rfl here (begin_of_missedAgain here) (Nat.lt_succ_self 2)
  | running gate =>
      cases hplan : plan i with
      | none => exact .of_move (.drop i) hplan rfl here (drop_of_running here) (Nat.lt_succ_self 1)
      | some made =>
          exact .of_move (.store i made) hplan rfl here (store_of_running here made)
            (Nat.lt_succ_self 1)
  | missed | waiting _ | leaving _ _ | dropping _ _ | ended _ | givenUp _ => cases hinside

theorem isFree_of_nobody_inside (hnobody : ∀ i, ¬ f.IsInside i) (gate : Nat) :
    f.isFree gate = true :=
  isFree_iff.mpr fun i call hcall hinside =>
    hnobody i ⟨call.phase, gate, by rw [phase?, hcall, Option.map_some], hinside⟩

/-- As long as not all calls are over, some call has a step to make. -/
theorem progress_of_unsettled (ofCacheError : CacheError → ε)
    (plan : Nat → Option (Except ε α)) (key : String) (hunsettled : ¬ f.IsSettled) :
    f.Progress ofCacheError plan key := by
  by_cases hinside : ∃ i, f.IsInside i
  · obtain ⟨i, hi⟩ := hinside
    exact progress_of_inside ofCacheError plan key hi
  -- nobody is inside, so the gate is open to whoever is next
  have hnobody (i : Nat) : ¬ f.IsInside i := fun hi => hinside ⟨i, hi⟩
  obtain ⟨⟨k, p⟩, hmem, hover⟩ : ∃ call ∈ f.calls, call.phase.isOver = false := by
    simpa [IsSettled] using hunsettled
  obtain ⟨i, here⟩ := List.mem_iff_getElem?.mp hmem
  cases p with
  | missed => exact .of_move (.enter i) trivial rfl here (enter_of_missed here) (Nat.lt_succ_self 6)
  | waiting gate =>
      have hfree := isFree_of_nobody_inside hnobody gate
      exact .of_move (.lock i) trivial rfl here (lock_of_free here hfree) (Nat.lt_succ_self 5)
  | leaving gate outcome =>
      exact .of_move (.leave i) trivial rfl here (leave_of_leaving here) (Nat.lt_succ_self 0)
  | dropping gate ran =>
      exact .of_move (.leave i) trivial rfl here (leave_of_dropping here) (Nat.lt_succ_self 0)
  | inside gate | admitted gate | missedAgain gate | running gate =>
      exact absurd ⟨_, gate, phase?_of_call here, rfl⟩ (hnobody i)
  | ended _ | givenUp _ => cases hover

/-- Every run can be brought to its end as it is planned, without another call. -/
theorem InTurn.exists_settled (h : InTurn plan key c f order) (ofCacheError : CacheError → ε) :
    ∃ more, (∀ s ∈ more, s.Follows plan key ∧ s.isStart = false) ∧
      (f.run ofCacheError more).IsSettled := by
  -- every step that makes progress leaves fewer steps to the calls
  induction hn : stepsLeft f.calls using Nat.strong_induction_on generalizing f order with
  | _ n ih =>
      by_cases hsettled : f.IsSettled
      · exact ⟨[], by simp, hsettled⟩
      · obtain ⟨s, hplan, hlater, hless⟩ := progress_of_unsettled ofCacheError plan key hsettled
        have hnext : InTurn plan key c (f.step ofCacheError s) (order ++ (f.passedBy? s).toList) :=
          h.step (step_moves ofCacheError f s) hplan fun hs => by rw [hlater] at hs; cases hs
        obtain ⟨more, hmore, hend⟩ := ih _ (hn ▸ hless) hnext rfl
        refine ⟨s :: more, ?_, hend⟩
        intro t ht
        rcases List.mem_cons.mp ht with rfl | ht
        · exact ⟨hplan, hlater⟩
        · exact hmore t ht

/-! ## The end of a run -/

theorem IsSettled.isOver (h : f.IsSettled) (hp : f.phase? i = some p) : p.isOver = true := by
  obtain ⟨call, hcall, rfl⟩ := Option.map_eq_some_iff.mp hp
  exact h call (List.mem_of_getElem? hcall)

/-- When all calls are over, each is where it was to come. -/
theorem IsSettled.final?_eq (h : f.IsSettled) : f.final? = f.phase? := by
  funext i
  unfold final?
  cases hp : f.phase? i with
  | none => rfl
  | some p =>
      have hover := h.isOver hp
      cases p with
      | ended _ | givenUp _ => rfl
      | missed | waiting _ | inside _ | admitted _ | missedAgain _ | running _ | leaving _ _
      | dropping _ _ => cases hover

theorem InTurn.waited_or_passed (h : InTurn plan key c f order) (hsettled : f.IsSettled)
    (hi : i < f.calls.length) :
    i ∈ order ∨ plan i = none ∧ f.phase? i = some (.givenUp false) := by
  have hphase : f.phase? i = some f.calls[i].phase := by
    rw [phase?, List.getElem?_eq_getElem hi, Option.map_some]
  generalize f.calls[i].phase = p at hphase
  have hover := hsettled.isOver hphase
  cases p with
  | ended outcome => exact Or.inl ((h.passed i).mpr ⟨_, hphase, rfl⟩)
  | givenUp ran =>
      cases ran with
      | true => exact Or.inl ((h.passed i).mpr ⟨_, hphase, rfl⟩)
      | false => exact Or.inr ⟨h.dropped i (by rw [hsettled.final?_eq, hphase]), hphase⟩
  | missed | waiting _ | inside _ | admitted _ | missedAgain _ | running _ | leaving _ _
  | dropping _ _ => cases hover

/-- Calls that look for a missing value before one was made, in any order and however their
factories end.  At no time are two of them inside, and the run can be brought to its end.  Then each
call that was not given up at the gate has had its turn: up to the first value that is made the
calls end by their own factories, and all later ones get that value, which the cache holds.  Each
call counts as a miss, and each that got the value from another one as a hit. -/
theorem run_singleFlight (ofCacheError : CacheError → ε) (hcache : c.Keeps key)
    (hmissing : c.value? key = none) (hsteps : IsSchedule plan key steps) :
    let begun : Flight ε α := ⟨c, []⟩
    let f := begun.run ofCacheError steps
    let order := begun.passOrder ofCacheError steps
    (∀ before, before <+: steps → ∀ i j, (begun.run ofCacheError before).IsInside i →
      (begun.run ofCacheError before).IsInside j → i = j) ∧
    (∃ more, (∀ s ∈ more, s.isStart = false) ∧ IsSchedule plan key (steps ++ more) ∧
      (begun.run ofCacheError (steps ++ more)).IsSettled) ∧
    (f.IsSettled →
      order.Nodup ∧
      (∀ i < f.calls.length, i ∈ order ∨ plan i = none ∧ f.phase? i = some (.givenUp false)) ∧
      order.map f.phase? = (outcomes (order.map plan)).map some ∧
      (f.cache.get key).1 = .ok (firstMade? (order.map plan)) ∧
      f.cache.misses = c.misses + steps.countP FlightStep.isStart ∧
      f.cache.hits = c.hits + f.served) := by
  intro begun f order
  have hrun : InTurn plan key c f order := inTurn_run hcache hmissing hsteps
  refine ⟨?_, ?_, ?_⟩
  · intro before hbefore i j hi hj
    have hthen : InTurn plan key c (begun.run ofCacheError before)
        (begun.passOrder ofCacheError before) :=
      inTurn_run hcache hmissing (hsteps.of_prefix hbefore)
    exact hthen.inside_unique hi hj
  · obtain ⟨more, hmore, hend⟩ := hrun.exists_settled ofCacheError
    refine ⟨more, fun s hs => (hmore s hs).2, hsteps.append hmore, ?_⟩
    rw [run_append]
    exact hend
  · intro hsettled
    obtain ⟨ended, held⟩ := hrun.turns.over_of_free fun j p hj =>
      CallPhase.inside?_of_isOver (hsettled.isOver (hsettled.final?_eq ▸ hj))
    rw [hsettled.final?_eq] at ended
    refine ⟨hrun.nodup, fun i hi => hrun.waited_or_passed hsettled hi, ended, ?_, ?_, hrun.hits⟩
    · rw [hrun.cache.get_fst, held]
    · rw [hrun.misses, calls_length_run]
      simp [begun]

/-! ## A run with failures and calls given up -/

/-- The first factory fails, the second call and the last are given up, and the others would make
different values. -/
def troubledPlan : Nat → Option (Except String Nat)
  | 0 => some (.error "broken")
  | 2 => some (.ok 7)
  | 3 => some (.ok 8)
  | _ => none

def troubledSteps : List (FlightStep String Nat) :=
  [.start "k", .start "k", .start "k", .start "k", .start "k",
    .enter 3, .enter 1, .enter 0, .enter 2, .enter 4,
    .lock 1, .check 1, .lock 0, .look 1, .begin 1, .drop 1,
    .lock 0, .check 0, .leave 1, .look 0, .begin 0, .store 0 (.error "broken"), .drop 4,
    .lock 3, .leave 0, .check 3, .look 3, .begin 3, .lock 2, .leave 4, .store 3 (.ok 8),
    .lock 2, .check 2, .look 2, .leave 3, .leave 2]

/-- The second call is given up inside, the first one fails, the fourth one makes the value and the
third one gets it; the last one is given up at the gate. -/
theorem run_singleFlight_troubled :
    let c : Cache Nat := .ofWindows ⟨none, none⟩
    let f := (Flight.mk c []).run CacheError.message troubledSteps
    c.Keeps "k" ∧ c.value? "k" = none ∧ IsSchedule troubledPlan "k" troubledSteps ∧
      f.IsSettled ∧
      [1, 0, 3, 2].map f.phase? = [some (.givenUp true), some (.ended ⟨.error "broken", true⟩),
        some (.ended ⟨.ok 8, true⟩), some (.ended ⟨.ok 8, false⟩)] ∧
      troubledPlan 4 = none ∧ f.phase? 4 = some (.givenUp false) ∧
      (f.cache.get "k").1 = .ok (some 8) ∧ f.cache.misses = 5 ∧ f.cache.hits = 1 := by
  intro c f
  have hcache : c.Keeps "k" := ⟨by decide +kernel, rfl, rfl⟩
  have hsteps : IsSchedule troubledPlan "k" troubledSteps :=
    ⟨by simp [troubledSteps, FlightStep.Follows, troubledPlan], by decide⟩
  have hsettled : f.IsSettled := by
    unfold IsSettled
    decide +kernel
  have horder : (Flight.mk c []).passOrder CacheError.message troubledSteps = [1, 0, 3, 2] := by
    decide +kernel
  have hcount : f.calls.length = 5 := by decide +kernel
  have hserved : f.served = 1 := by decide +kernel
  obtain ⟨-, -, hend⟩ := run_singleFlight CacheError.message hcache rfl hsteps
  obtain ⟨-, hwaited, hphases, hvalue, hmisses, hhits⟩ := hend hsettled
  rw [horder] at hwaited hphases hvalue
  obtain ⟨hgone, hlast⟩ := (hwaited 4 (by rw [hcount]; decide)).resolve_left (by decide)
  refine ⟨hcache, rfl, hsteps, hsettled, hphases, hgone, hlast, hvalue, ?_, ?_⟩
  · rw [hmisses]
    rfl
  · rw [hhits, hserved]
    rfl

end Flight
end ComponentAtlas
