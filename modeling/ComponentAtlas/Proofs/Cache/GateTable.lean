import ComponentAtlas.Proofs.Cache.SingleFlight

/-!
# The table of gates

Calls for any keys come and go, and the cache may be disposed of at any time.  A call that goes to a
gate counts itself there, and it takes itself off again however it ends; so the table tells for each
key how many calls are at its gate, and it is empty when no call is left.

Disposal throws the table away under calls that still are at gates.  When they leave they take
themselves off what they find under their key, which may be a gate that was made after the disposal
and that never counted them.  So from then on a gate counts too few at times, but never too many
(`Tallied.counted`).

Nobody who asks inside a gate is admitted any more once the cache is disposed of.  But a call that
asked before goes on: it finds nothing and begins its factory.  There is one such call for a key at
most, the one that was inside when the cache was disposed of, and what its factory makes is refused
(`Since`).
-/

namespace ComponentAtlas

variable {ε α : Type}

/-- A disposed cache takes no value. -/
theorem Cache.keep_ne_ok {c : Cache α} (hdisposed : c.isDisposed = true)
    (ofCacheError : CacheError → ε) (key : String) (made : Except ε α) (v : α) :
    (c.keep ofCacheError key made).1 ≠ .ok v := by
  cases made with
  | error e => exact nofun
  | ok w =>
      rcases set_cases c key w with ⟨err, -, hset⟩ | ⟨d, hopen, -⟩
      · simp only [keep, hset]
        exact nofun
      · rw [isDisposed_of_not_refused hopen] at hdisposed
        cases hdisposed

namespace Flight

variable {f g g' : Flight ε α} {s : FlightStep ε α} {key : String} {i : Nat}
  {old p : CallPhase ε α} {ofCacheError : CacheError → ε}

/-! ## The invariant -/

/-- The gates count the calls that are at them and no more than there are, and none is kept that
counts nobody. -/
structure Tallied (f : Flight ε α) : Prop extends Guarded f where
  used : f.cache.GatesUsed
  counted : ∀ k, f.cache.usersAt k ≤ f.atGateOf k

namespace Tallied

variable {d : Cache α} {gate : Nat}

theorem counted_all (h : f.Tallied) (hopen : f.cache.isDisposed = false) (k : String) :
    f.cache.usersAt k = f.atGateOf k :=
  Nat.le_antisymm (h.counted k) (h.enough hopen k)

theorem of_no_calls {c : Cache α} (hgates : c.gates = []) :
    (Flight.mk c [] : Flight ε α).Tallied := by
  have hnone (k : String) : c.gates.get? k = none := by rw [hgates]; rfl
  refine ⟨.of_no_calls c, fun k g hg => ?_, fun k => ?_⟩
  · rw [hnone] at hg
    cases hg
  · rw [Cache.usersAt, hnone]
    exact Nat.zero_le _

/-- A call goes on at the gate where it is. -/
theorem stay (h : f.Tallied) (here : f.calls[i]? = some ⟨key, old⟩) (hstay : p.gate? = old.gate?)
    (hsame : f.cache.SameGates d) (hguarded : (f.move d i key p).Guarded) :
    (f.move d i key p).Tallied where
  toGuarded := hguarded
  used := hsame.used h.used
  counted k := by
    rw [atGateOf_stay here d hstay]
    exact (hsame.usersAt k).trans_le (h.counted k)

theorem leave (h : f.Tallied) (here : f.calls[i]? = some ⟨key, old⟩) (hold : old.gate? = some gate)
    (hover : p.isOver = true) (hguarded : (f.move (f.cache.leaveGate key) i key p).Guarded) :
    (f.move (f.cache.leaveGate key) i key p).Tallied where
  toGuarded := hguarded
  used := h.used.leaveGate key
  counted k := by
    have husers := f.cache.usersAt_leaveGate_eq key k
    have hcount := atGateOf_leave here (f.cache.leaveGate key) hold
      (CallPhase.gate?_of_isOver hover) k
    have hcounted := h.counted k
    show (f.cache.leaveGate key).usersAt k ≤ _
    omega

theorem move (h : f.Tallied) (hmoves : Moves ofCacheError f s g) : g.Tallied := by
  have hguarded : g.Guarded := h.toGuarded.move hmoves
  cases hmoves with
  | idle => exact h
  | @start key =>
      have hsame := f.cache.get_sameGates key
      refine ⟨hguarded, hsame.used h.used, fun k => ?_⟩
      rw [atGateOf_append _ (CallPhase.gate?_ofFirstLook ..)]
      exact (hsame.usersAt k).trans_le (h.counted k)
  | enter here =>
      refine ⟨hguarded, h.used.enterGate _, fun k => ?_⟩
      rw [atGateOf_enter here _ rfl rfl]
      exact (f.cache.usersAt_enterGate _ k).trans_le (Nat.add_le_add_right (h.counted k) _)
  | lock here | begin here | dropWaiting here | dropRunning here =>
      exact h.stay here rfl (.refl _) hguarded
  | check here => exact h.stay here (CallPhase.gate?_ofRefusal ..) (.refl _) hguarded
  | look here =>
      exact h.stay here (CallPhase.gate?_ofSecondLook ..) (f.cache.lookAgain_sameGates _) hguarded
  | store here => exact h.stay here rfl (f.cache.keep_sameGates ofCacheError _ _) hguarded
  | leaveEnded here | leaveGivenUp here => exact h.leave here rfl rfl hguarded
  | dispose =>
      refine ⟨hguarded, ?_, ?_⟩
      · exact h.used.dispose
      · exact fun k => (f.cache.usersAt_dispose_le k).trans (h.counted k)

theorem run (h : f.Tallied) (steps : List (FlightStep ε α)) :
    (f.run ofCacheError steps).Tallied :=
  run_induction (P := Tallied) (fun _ _ _ hg hmoves => hg.move hmoves) h steps

end Tallied

theorem atGateOf_of_settled (h : f.IsSettled) (key : String) : f.atGateOf key = 0 := by
  refine List.countP_eq_zero.mpr fun call hcall hat => ?_
  rw [CallPhase.gate?_of_isOver (h call hcall), Option.isSome_none, Bool.and_false] at hat
  cases hat

/-! ## After a disposal -/

/-- The factory of a call has begun. -/
def HasBegun (f : Flight ε α) (i : Nat) : Prop :=
  ∃ call, f.calls[i]? = some call ∧ call.phase.hasBegun = true

/-- A call for a key was not refused inside its gate, and is there still. -/
def IsAdmitted (f : Flight ε α) (i : Nat) (key : String) : Prop :=
  ∃ p, f.calls[i]? = some ⟨key, p⟩ ∧ p.isAdmitted = true

/-- What can have come of a flight whose cache is disposed of.  No call is admitted that was not,
and a factory has begun only if it had, or if its call was admitted; in that case the call comes to
no value. -/
structure Since (f g : Flight ε α) : Prop where
  isDisposed : g.cache.isDisposed = true
  admitted : ∀ i key, g.IsAdmitted i key → f.IsAdmitted i key
  begun : ∀ (i : Nat) (key : String) (p : CallPhase ε α), g.calls[i]? = some ⟨key, p⟩ →
    p.hasBegun = true → f.HasBegun i ∨ f.IsAdmitted i key ∧ ∀ v, p.result? ≠ some (.ok v)

namespace Since

theorem refl (hdisposed : f.cache.isDisposed = true) : f.Since f where
  isDisposed := hdisposed
  admitted _ _ h := h
  begun _ _ _ hi hbegun := Or.inl ⟨_, hi, hbegun⟩

/-- A call goes on: it is admitted only if it was, and its factory has begun only if it had, or if
it was admitted and comes to no value. -/
theorem goOn (h : f.Since g) (here : g.calls[i]? = some ⟨key, old⟩) {cache : Cache α}
    (hdisposed : cache.isDisposed = g.cache.isDisposed)
    (hadmitted : p.isAdmitted = true → old.isAdmitted = true)
    (hbegun : p.hasBegun = true → old.hasBegun = true ∧ p.result? = old.result? ∨
      old.isAdmitted = true ∧ ∀ v, p.result? ≠ some (.ok v)) :
    f.Since (g.move cache i key p) where
  isDisposed := hdisposed.trans h.isDisposed
  admitted j k := by
    rintro ⟨q, hj, hq⟩
    rcases call_move hj with ⟨hnew, rfl⟩ | ⟨hj, -⟩
    · cases hnew
      exact h.admitted j key ⟨old, here, hadmitted hq⟩
    · exact h.admitted j k ⟨q, hj, hq⟩
  begun j k q hj hq := by
    rcases call_move hj with ⟨hnew, rfl⟩ | ⟨hj, -⟩
    · cases hnew
      rcases hbegun hq with ⟨hold, hsame⟩ | ⟨hold, hresult⟩
      · rw [hsame]
        exact h.begun j key old here hold
      · exact Or.inr ⟨h.admitted j key ⟨old, here, hold⟩, hresult⟩
    · exact h.begun j k q hj hq

theorem start (h : f.Since g) (key : String) :
    f.Since ⟨(g.cache.get key).2,
      g.calls ++ [⟨key, .ofFirstLook ofCacheError (g.cache.get key).1⟩]⟩ where
  isDisposed := (g.cache.get_isDisposed key).trans h.isDisposed
  admitted j k := by
    rintro ⟨q, hj, hq⟩
    rcases call_append hj with hj | ⟨hnew, -⟩
    · exact h.admitted j k ⟨q, hj, hq⟩
    · cases hnew
      rw [CallPhase.isAdmitted_of_no_gate (CallPhase.gate?_ofFirstLook ..)] at hq
      cases hq
  begun j k q hj hq := by
    rcases call_append hj with hj | ⟨hnew, -⟩
    · exact h.begun j k q hj hq
    · cases hnew
      rw [CallPhase.hasBegun_ofFirstLook] at hq
      cases hq

theorem move (h : f.Since g) (hmoves : Moves ofCacheError g s g') : f.Since g' := by
  cases hmoves with
  | idle => exact h
  | start => exact h.start _
  | enter here => exact h.goOn here (g.cache.enterGate_isDisposed _) nofun nofun
  | lock here => exact h.goOn here rfl nofun nofun
  | @check i gate key here =>
      -- whoever asks now is refused
      cases hrefused : g.cache.refusal? key with
      | some err => exact h.goOn here rfl nofun nofun
      | none =>
          have hopen := Cache.isDisposed_of_not_refused hrefused
          rw [h.isDisposed] at hopen
          cases hopen
  | @look i gate key here =>
      have hsame := (g.cache.lookAgain_sameGates key).isDisposed
      cases (g.cache.lookAgain key).1 with
      | none => exact h.goOn here hsame (fun _ => rfl) nofun
      | some v => exact h.goOn here hsame nofun nofun
  | begin here => exact h.goOn here rfl (fun _ => rfl) fun _ => Or.inr ⟨rfl, nofun⟩
  | @store i gate key made here =>
      refine h.goOn here (g.cache.keep_sameGates ofCacheError key made).isDisposed nofun
        fun _ => Or.inr ⟨rfl, fun v hv => ?_⟩
      exact Cache.keep_ne_ok h.isDisposed ofCacheError key made v (Option.some.inj hv)
  | dropWaiting here => exact h.goOn here rfl nofun nofun
  | dropRunning here => exact h.goOn here rfl nofun fun _ => Or.inr ⟨rfl, nofun⟩
  | leaveEnded here =>
      exact h.goOn here (g.cache.leaveGate_isDisposed _) nofun fun hbegun => Or.inl ⟨hbegun, rfl⟩
  | leaveGivenUp here =>
      exact h.goOn here (g.cache.leaveGate_isDisposed _) nofun fun hbegun => Or.inl ⟨hbegun, rfl⟩
  | dispose => exact ⟨g.cache.dispose_isDisposed, h.admitted, h.begun⟩

theorem run (hdisposed : f.cache.isDisposed = true) (more : List (FlightStep ε α)) :
    f.Since (f.run ofCacheError more) :=
  run_induction (fun _ _ _ hg hmoves => hg.move hmoves) (.refl hdisposed) more

end Since

/-! ## Any calls, any order -/

/-- Calls for any keys, in any order, ending in any way, with the cache disposed of at any time.  No
two factories for one key run at once.  As long as the cache is not disposed of, the gate of a key
counts the calls that have come to it and not left, and there is none when there are no such calls;
afterwards it never counts more than there are.  A factory that begins afterwards is that of a call
that had been admitted before; no other call for its key was, so that no factory for the key ran,
and the call comes to no value.  When all calls are over there are no gates. -/
theorem run_gates_tallied (ofCacheError : CacheError → ε) {c : Cache α} (hgates : c.gates = [])
    (steps : List (FlightStep ε α)) :
    let f := (Flight.mk c []).run ofCacheError steps
    (∀ (i j : Nat) (key : String) (gate other : Nat), f.calls[i]? = some ⟨key, .running gate⟩ →
      f.calls[j]? = some ⟨key, .running other⟩ → i = j) ∧
    (f.cache.isDisposed = false → ∀ key, (f.cache.gates.get? key).map Gate.users =
      if f.atGateOf key = 0 then none else some (f.atGateOf key)) ∧
    (f.cache.isDisposed = true → (∀ key, f.cache.usersAt key ≤ f.atGateOf key) ∧
      ∀ (more : List (FlightStep ε α)) (i : Nat) (key : String) (p : CallPhase ε α),
        (f.run ofCacheError more).calls[i]? = some ⟨key, p⟩ → p.hasBegun = true → ¬ f.HasBegun i →
          f.IsAdmitted i key ∧ (∀ j, f.IsAdmitted j key → j = i) ∧
            ∀ v, p.result? ≠ some (.ok v)) ∧
    (f.IsSettled → f.cache.gates = []) := by
  intro f
  have htallied : f.Tallied := (Tallied.of_no_calls hgates).run steps
  refine ⟨fun i j key gate other hi hj => ?_, fun hopen key => ?_, fun hdisposed => ⟨?_, ?_⟩,
    fun hsettled => ?_⟩
  · exact htallied.alone key i j _ _ hi ⟨rfl, rfl⟩ hj ⟨rfl, rfl⟩
  · rw [Cache.users?_eq htallied.used, htallied.counted_all hopen]
  · exact htallied.counted
  · intro more i key p hi hbegun hnew
    obtain hold | ⟨⟨q, hq, hadmitted⟩, hresult⟩ :=
      (Since.run hdisposed more).begun i key p hi hbegun
    · exact absurd hold hnew
    refine ⟨⟨q, hq, hadmitted⟩, fun j hj => ?_, hresult⟩
    obtain ⟨r, hr, hother⟩ := hj
    exact htallied.alone key j i _ _ hr ⟨rfl, hother⟩ hq ⟨rfl, hadmitted⟩
  · refine Cache.gates_eq_nil htallied.used fun key => Nat.le_zero.mp ?_
    exact (htallied.counted key).trans_eq (atGateOf_of_settled hsettled key)

/-! ## A disposal among calls -/

/-- One call is inside and another one waits when the cache is disposed of.  A third one, which
missed before, then makes a gate of its own, and the first one is given up. -/
def disposedSteps : List (FlightStep String Nat) :=
  [.start "k", .start "k", .start "k", .enter 0, .lock 0, .check 0, .look 0, .begin 0, .enter 1,
    .dispose, .enter 2, .drop 0, .leave 0]

/-- The two calls that wait ask whether the cache was disposed of. -/
def refusedSteps : List (FlightStep String Nat) :=
  [.lock 1, .lock 2, .check 2, .check 1, .leave 1, .leave 2]

/-- A call asks inside its gate whether the cache was disposed of, and then it is. -/
def admittedSteps : List (FlightStep String Nat) :=
  [.start "k", .enter 0, .lock 0, .check 0, .dispose]

/-- The end of a run from the beginning in a cache without windows. -/
def flightAfter (steps : List (FlightStep String Nat)) : Flight String Nat :=
  (Flight.mk (.ofWindows ⟨none, none⟩) []).run CacheError.message steps

/-- The first call has taken itself off the gate that the third one made, so that it counts none of
the two that wait; they are refused inside, and nothing is left.  In the other run the call goes on,
and its factory has begun by the end. -/
theorem run_gates_tallied_disposed :
    (Cache.ofWindows ⟨none, none⟩ : Cache Nat).gates = [] ∧
      (flightAfter disposedSteps).cache.isDisposed = true ∧
      (flightAfter disposedSteps).atGateOf "k" = 2 ∧
      (flightAfter disposedSteps).cache.usersAt "k" = 0 ∧
      (flightAfter disposedSteps).cache.usersAt "k" ≤ (flightAfter disposedSteps).atGateOf "k" ∧
      (flightAfter (disposedSteps ++ refusedSteps)).IsSettled ∧
      (flightAfter (disposedSteps ++ refusedSteps)).cache.gates = [] ∧
      (flightAfter admittedSteps).cache.isDisposed = true ∧
      ((flightAfter admittedSteps).run CacheError.message [.look 0, .begin 0]).calls[0]? =
        some ⟨"k", .running 0⟩ ∧
      (flightAfter admittedSteps).IsAdmitted 0 "k" := by
  have hgates : (Cache.ofWindows ⟨none, none⟩ : Cache Nat).gates = [] := rfl
  have hdisposed : (flightAfter disposedSteps).cache.isDisposed = true := by decide +kernel
  have hsettled : (flightAfter (disposedSteps ++ refusedSteps)).IsSettled := by
    unfold IsSettled
    decide +kernel
  have hadmitted : (flightAfter admittedSteps).cache.isDisposed = true := by decide +kernel
  have hruns : ((flightAfter admittedSteps).run CacheError.message [.look 0, .begin 0]).calls[0]? =
      some ⟨"k", .running 0⟩ := rfl
  have hnew : ¬ (flightAfter admittedSteps).HasBegun 0 := by
    rintro ⟨call, hcall, hbegun⟩
    obtain rfl : call = ⟨"k", .admitted 0⟩ := (Option.some.inj hcall).symm
    cases hbegun
  obtain ⟨-, -, hcounts, -⟩ := run_gates_tallied CacheError.message hgates disposedSteps
  obtain ⟨-, -, -, hend⟩ :=
    run_gates_tallied CacheError.message hgates (disposedSteps ++ refusedSteps)
  obtain ⟨-, -, hbegins, -⟩ := run_gates_tallied CacheError.message hgates admittedSteps
  exact ⟨hgates, hdisposed, by decide +kernel, by decide +kernel, (hcounts hdisposed).1 "k",
    hsettled, hend hsettled, hadmitted, hruns,
    ((hbegins hadmitted).2 _ 0 "k" _ hruns rfl hnew).1⟩

/-- A factory may begin in a cache that is disposed of: no factory has begun when the cache is
disposed of between the question of a call and the beginning of its factory. -/
theorem factory_begins_in_disposed_cache :
    ¬ ∀ steps more : List (FlightStep String Nat), (flightAfter steps).cache.isDisposed = true →
      ((flightAfter steps).run CacheError.message more).factoryRuns =
        (flightAfter steps).factoryRuns := by
  intro hnever
  have h := hnever admittedSteps [.look 0, .begin 0] (by decide +kernel)
  exact absurd h (by decide +kernel)

end Flight
end ComponentAtlas
