import ComponentAtlas.Cache.Flight
import ComponentAtlas.Proofs.Cache.Keeping
import Mathlib.Data.List.Basic
import Mathlib.Logic.Function.Basic

/-!
# What one step of a flight does

A step changes one call at most, and nothing at all when that call is not where the step begins.
The cases of `Moves` say from which phase to which one a call is taken, and what becomes of the
cache, whatever keys there are and whether or not the cache is disposed of.  Later proofs go by
these cases and never look at the steps themselves.
-/

namespace ComponentAtlas

variable {ε α : Type}

namespace CallPhase

/-- The gate that counts a call. -/
def gate? : CallPhase ε α → Option Nat
  | .waiting gate | .inside gate | .admitted gate | .missedAgain gate | .running gate
  | .leaving gate _ | .dropping gate _ => some gate
  | .missed | .ended _ | .givenUp _ => none

/-- Whether a call was not refused inside its gate, and is there still. -/
def isAdmitted : CallPhase ε α → Bool
  | .admitted _ | .missedAgain _ | .running _ => true
  | .missed | .waiting _ | .inside _ | .leaving _ _ | .dropping _ _ | .ended _ | .givenUp _ => false

/-- Whether nothing more happens to a call. -/
def isOver : CallPhase ε α → Bool
  | .ended _ | .givenUp _ => true
  | .missed | .waiting _ | .inside _ | .admitted _ | .missedAgain _ | .running _ | .leaving _ _
  | .dropping _ _ => false

/-- What a call has come to, once that is certain. -/
def result? : CallPhase ε α → Option (Except ε α)
  | .leaving _ outcome | .ended outcome => some outcome.result
  | .missed | .waiting _ | .inside _ | .admitted _ | .missedAgain _ | .running _ | .dropping _ _
  | .givenUp _ => none

variable {p : CallPhase ε α} {gate : Nat}

theorem gate?_of_inside? (h : p.inside? = some gate) : p.gate? = some gate := by
  cases p with
  | inside _ | admitted _ | missedAgain _ | running _ => exact h
  | missed | waiting _ | leaving _ _ | dropping _ _ | ended _ | givenUp _ => cases h

theorem exists_inside?_of_isAdmitted (h : p.isAdmitted = true) : ∃ gate, p.inside? = some gate := by
  cases p with
  | admitted gate | missedAgain gate | running gate => exact ⟨gate, rfl⟩
  | missed | waiting _ | inside _ | leaving _ _ | dropping _ _ | ended _ | givenUp _ => cases h

theorem inside?_of_no_gate (h : p.gate? = none) : p.inside? = none := by
  refine Option.eq_none_iff_forall_ne_some.mpr fun gate hinside => ?_
  rw [gate?_of_inside? hinside] at h
  cases h

theorem isAdmitted_of_no_gate (h : p.gate? = none) : p.isAdmitted = false := by
  refine Bool.eq_false_iff.mpr fun hadmitted => ?_
  obtain ⟨gate, hinside⟩ := exists_inside?_of_isAdmitted hadmitted
  rw [inside?_of_no_gate h] at hinside
  cases hinside

theorem gate?_ofFirstLook (ofCacheError : CacheError → ε)
    (found : Except CacheError (Option α)) : (ofFirstLook ofCacheError found).gate? = none := by
  obtain _ | _ | _ := found <;> rfl

theorem hasBegun_ofFirstLook (ofCacheError : CacheError → ε)
    (found : Except CacheError (Option α)) : (ofFirstLook ofCacheError found).hasBegun = false := by
  obtain _ | _ | _ := found <;> rfl

theorem gate?_ofRefusal (ofCacheError : CacheError → ε) (gate : Nat)
    (refused : Option CacheError) :
    (ofRefusal ofCacheError gate refused : CallPhase ε α).gate? = some gate := by
  cases refused <;> rfl

theorem gate?_ofSecondLook (gate : Nat) (found : Option α) :
    (ofSecondLook gate found : CallPhase ε α).gate? = some gate := by
  cases found <;> rfl

theorem gate?_of_isOver (h : p.isOver = true) : p.gate? = none := by
  cases p with
  | ended _ | givenUp _ => rfl
  | missed | waiting _ | inside _ | admitted _ | missedAgain _ | running _ | leaving _ _
  | dropping _ _ => cases h

end CallPhase

namespace FlightStep

def isStart : FlightStep ε α → Bool
  | .start _ => true
  | .enter _ | .lock _ | .check _ | .look _ | .begin _ | .store _ _ | .drop _ | .leave _
  | .dispose => false

end FlightStep

namespace Flight

variable {f f' : Flight ε α} {key : String} {i j : Nat} {old p : CallPhase ε α}
  {ofCacheError : CacheError → ε}

/-! ## Calls -/

theorem call_move {cache : Cache α} {call : Call ε α}
    (h : (f.move cache i key p).calls[j]? = some call) :
    call = ⟨key, p⟩ ∧ j = i ∨ f.calls[j]? = some call ∧ j ≠ i := by
  rw [move, List.getElem?_set] at h
  split at h
  · rename_i hij
    split at h
    · exact Or.inl ⟨(Option.some.inj h).symm, hij.symm⟩
    · cases h
  · rename_i hij
    exact Or.inr ⟨h, Ne.symm hij⟩

theorem call_append {call new : Call ε α} (h : (f.calls ++ [new])[j]? = some call) :
    f.calls[j]? = some call ∨ call = new ∧ j = f.calls.length := by
  rw [List.getElem?_append] at h
  split at h
  · exact Or.inl h
  · obtain ⟨hlt, hnew⟩ := List.getElem?_eq_some_iff.mp h
    rw [List.length_singleton] at hlt
    exact Or.inr ⟨(List.mem_singleton.mp (List.mem_of_getElem? h)), by omega⟩

theorem move_self {call : Call ε α} (cache : Cache α) (here : f.calls[i]? = some call) :
    (f.move cache i key p).calls[i]? = some ⟨key, p⟩ :=
  List.getElem?_set_self (List.getElem?_eq_some_iff.mp here).1

theorem move_cache (f : Flight ε α) (cache : Cache α) (i : Nat) (key : String)
    (p : CallPhase ε α) : (f.move cache i key p).cache = cache := rfl

theorem move_move (f : Flight ε α) (cache d : Cache α) (i : Nat) (key : String)
    (old p : CallPhase ε α) : (f.move cache i key old).move d i key p = f.move d i key p :=
  congrArg (Flight.mk d) (List.set_set _)

theorem isFree_iff {gate : Nat} :
    f.isFree gate = true ↔
      ∀ (j : Nat) (call : Call ε α), f.calls[j]? = some call → call.phase.inside? ≠ some gate := by
  rw [isFree, Bool.not_eq_true', List.any_eq_false]
  constructor
  · intro h j call hcall hinside
    exact h call (List.mem_of_getElem? hcall) (beq_iff_eq.mpr hinside)
  · intro h call hcall hinside
    obtain ⟨j, hj⟩ := List.getElem?_of_mem hcall
    exact h j call hj (beq_iff_eq.mp hinside)

/-! ## Steps that do something -/

section

variable {gate : Nat}

theorem enter_of_missed (here : f.calls[i]? = some ⟨key, .missed⟩) :
    f.enter i = f.move (f.cache.enterGate key).2 i key (.waiting (f.cache.enterGate key).1) := by
  simp only [Flight.enter, here]

theorem lock_of_free (here : f.calls[i]? = some ⟨key, .waiting gate⟩)
    (free : f.isFree gate = true) : f.lock i = f.move f.cache i key (.inside gate) := by
  simp only [Flight.lock, here, free, if_true]

theorem check_of_inside (here : f.calls[i]? = some ⟨key, .inside gate⟩) :
    f.check ofCacheError i =
      f.move f.cache i key (.ofRefusal ofCacheError gate (f.cache.refusal? key)) := by
  simp only [Flight.check, here]

theorem look_of_admitted (here : f.calls[i]? = some ⟨key, .admitted gate⟩) :
    f.look i =
      f.move (f.cache.lookAgain key).2 i key (.ofSecondLook gate (f.cache.lookAgain key).1) := by
  simp only [Flight.look, here]

theorem begin_of_missedAgain (here : f.calls[i]? = some ⟨key, .missedAgain gate⟩) :
    f.begin i = f.move f.cache i key (.running gate) := by
  simp only [Flight.begin, here]

theorem store_of_running (here : f.calls[i]? = some ⟨key, .running gate⟩) (made : Except ε α) :
    f.store ofCacheError i made = f.move (f.cache.keep ofCacheError key made).2 i key
      (.leaving gate ⟨(f.cache.keep ofCacheError key made).1, true⟩) := by
  simp only [Flight.store, here]

theorem drop_of_running (here : f.calls[i]? = some ⟨key, .running gate⟩) :
    f.drop i = f.move f.cache i key (.dropping gate true) := by
  simp only [Flight.drop, here]

theorem leave_of_leaving {outcome : Creation ε α}
    (here : f.calls[i]? = some ⟨key, .leaving gate outcome⟩) :
    f.leave i = f.move (f.cache.leaveGate key) i key (.ended outcome) := by
  simp only [Flight.leave, here]

theorem leave_of_dropping {ran : Bool} (here : f.calls[i]? = some ⟨key, .dropping gate ran⟩) :
    f.leave i = f.move (f.cache.leaveGate key) i key (.givenUp ran) := by
  simp only [Flight.leave, here]

end

/-! ## Steps -/

/-- The call that is let in by a step. -/
def passedBy? (f : Flight ε α) : FlightStep ε α → Option Nat
  | .lock i =>
    match f.calls[i]? with
    | some ⟨_, .waiting gate⟩ => if f.isFree gate then some i else none
    | _ => none
  | _ => none

/-- What a step may do. -/
inductive Moves (ofCacheError : CacheError → ε) (f : Flight ε α) :
    FlightStep ε α → Flight ε α → Prop
  | idle {s : FlightStep ε α} (later : s.isStart = false) (passes : f.passedBy? s = none) :
      Moves ofCacheError f s f
  | start {key : String} : Moves ofCacheError f (.start key)
      ⟨(f.cache.get key).2,
        f.calls ++ [⟨key, .ofFirstLook ofCacheError (f.cache.get key).1⟩]⟩
  | enter {i : Nat} {key : String} (here : f.calls[i]? = some ⟨key, .missed⟩) :
      Moves ofCacheError f (.enter i)
        (f.move (f.cache.enterGate key).2 i key (.waiting (f.cache.enterGate key).1))
  | lock {i gate : Nat} {key : String} (here : f.calls[i]? = some ⟨key, .waiting gate⟩)
      (free : f.isFree gate = true) (passes : f.passedBy? (.lock i) = some i) :
      Moves ofCacheError f (.lock i) (f.move f.cache i key (.inside gate))
  | check {i gate : Nat} {key : String} (here : f.calls[i]? = some ⟨key, .inside gate⟩) :
      Moves ofCacheError f (.check i)
        (f.move f.cache i key (.ofRefusal ofCacheError gate (f.cache.refusal? key)))
  | look {i gate : Nat} {key : String} (here : f.calls[i]? = some ⟨key, .admitted gate⟩) :
      Moves ofCacheError f (.look i)
        (f.move (f.cache.lookAgain key).2 i key (.ofSecondLook gate (f.cache.lookAgain key).1))
  | begin {i gate : Nat} {key : String} (here : f.calls[i]? = some ⟨key, .missedAgain gate⟩) :
      Moves ofCacheError f (.begin i) (f.move f.cache i key (.running gate))
  | store {i gate : Nat} {key : String} {made : Except ε α}
      (here : f.calls[i]? = some ⟨key, .running gate⟩) :
      Moves ofCacheError f (.store i made)
        (f.move (f.cache.keep ofCacheError key made).2 i key
          (.leaving gate ⟨(f.cache.keep ofCacheError key made).1, true⟩))
  | dropWaiting {i gate : Nat} {key : String} (here : f.calls[i]? = some ⟨key, .waiting gate⟩) :
      Moves ofCacheError f (.drop i) (f.move f.cache i key (.dropping gate false))
  | dropRunning {i gate : Nat} {key : String} (here : f.calls[i]? = some ⟨key, .running gate⟩) :
      Moves ofCacheError f (.drop i) (f.move f.cache i key (.dropping gate true))
  | leaveEnded {i gate : Nat} {key : String} {outcome : Creation ε α}
      (here : f.calls[i]? = some ⟨key, .leaving gate outcome⟩) :
      Moves ofCacheError f (.leave i) (f.move (f.cache.leaveGate key) i key (.ended outcome))
  | leaveGivenUp {i gate : Nat} {key : String} {ran : Bool}
      (here : f.calls[i]? = some ⟨key, .dropping gate ran⟩) :
      Moves ofCacheError f (.leave i) (f.move (f.cache.leaveGate key) i key (.givenUp ran))
  | dispose : Moves ofCacheError f .dispose { f with cache := f.cache.dispose }

theorem lock_moves (f : Flight ε α) (i : Nat) : Moves ofCacheError f (.lock i) (f.lock i) := by
  unfold Flight.lock
  split
  · rename_i key gate here
    split
    · rename_i free
      exact .lock here free (by simp [passedBy?, here, free])
    · rename_i occupied
      exact .idle rfl (by simp [passedBy?, here, occupied])
  · exact .idle rfl (by simp only [passedBy?])

theorem step_moves (ofCacheError : CacheError → ε) (f : Flight ε α) (s : FlightStep ε α) :
    Moves ofCacheError f s (f.step ofCacheError s) := by
  cases s with
  | start key => exact .start
  | enter i =>
      simp only [step, Flight.enter]
      split
      · exact .enter ‹_›
      · exact .idle rfl rfl
  | lock i => exact lock_moves f i
  | check i =>
      simp only [step, Flight.check]
      split
      · exact .check ‹_›
      · exact .idle rfl rfl
  | look i =>
      simp only [step, Flight.look]
      split
      · exact .look ‹_›
      · exact .idle rfl rfl
  | begin i =>
      simp only [step, Flight.begin]
      split
      · exact .begin ‹_›
      · exact .idle rfl rfl
  | store i made =>
      simp only [step, Flight.store]
      split
      · exact .store ‹_›
      · exact .idle rfl rfl
  | drop i =>
      simp only [step, Flight.drop]
      split
      · exact .dropWaiting ‹_›
      · exact .dropRunning ‹_›
      · exact .idle rfl rfl
  | leave i =>
      simp only [step, Flight.leave]
      split
      · exact .leaveEnded ‹_›
      · exact .leaveGivenUp ‹_›
      · exact .idle rfl rfl
  | dispose => exact .dispose

theorem run_append (f : Flight ε α) (steps more : List (FlightStep ε α)) :
    f.run ofCacheError (steps ++ more) = (f.run ofCacheError steps).run ofCacheError more :=
  List.foldl_append

theorem run_cons (f : Flight ε α) (step : FlightStep ε α) (steps : List (FlightStep ε α)) :
    f.run ofCacheError (step :: steps) = (f.step ofCacheError step).run ofCacheError steps := rfl

/-- What every step keeps is kept along a run. -/
theorem run_induction {P : Flight ε α → Prop}
    (hstep : ∀ g s g', P g → Moves ofCacheError g s g' → P g') (hf : P f)
    (steps : List (FlightStep ε α)) : P (f.run ofCacheError steps) := by
  induction steps generalizing f with
  | nil => exact hf
  | cons s steps ih => exact ih (hstep f s _ hf (step_moves ofCacheError f s))

end Flight
end ComponentAtlas
