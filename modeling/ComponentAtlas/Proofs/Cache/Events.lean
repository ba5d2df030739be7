import ComponentAtlas.Proofs.Cache.GateTable
import ComponentAtlas.Proofs.Cache.PlainMap

/-!
# What may happen while a factory runs

While the factory of a call runs, it may use the cache, start calls of its own, and dispose of the
cache, and so may everybody else.  All of that is one list of events: steps of calls, and operations
that are done at once.

A gate counts the calls that are at it (`Tallied`), and a number belongs to one key only
(`NumbersApart`).  While a call is admitted inside the gate of its key, no other call for that key
is, and none of them can store a value.  What does not stand under the key when the call looks there
is therefore not there later, unless something sets the key outright.  That a call is still inside
need not be asked at each event: a call never goes back, and so it was inside all the while if its
factory runs in the end (`Moves.call`).
-/

namespace ComponentAtlas

variable {ε α : Type}

/-- Whether an operation is done at once, without a factory. -/
def CacheCall.isPlain : CacheCall ε α → Bool
  | .getOrCreate _ _ => false
  | _ => true

/-- What may happen to a cache and the calls on it. -/
inductive FlightEvent (ε α : Type)
  | step (step : FlightStep ε α)
  | use (call : CacheCall ε α) (plain : call.isPlain = true)

/-- The key is set outright. -/
def FlightEvent.Sets (key : String) : FlightEvent ε α → Prop
  | .use (.set k _) _ => k = key
  | _ => False

namespace Cache

variable {c d : Cache α} {key k : String} {ofCacheError : CacheError → ε}

/-! ## Numbers of gates -/

/-- No number belongs to the gates of two keys, and the next one to none. -/
structure NumbersApart (c : Cache α) : Prop where
  taken : ∀ k n, c.gateAt? k = some n → n < c.nextGate
  apart : ∀ k l n, c.gateAt? k = some n → c.gateAt? l = some n → k = l

theorem NumbersApart.congr (h : c.NumbersApart) (hsame : c.SameGates d) : d.NumbersApart where
  taken k n hn := by
    rw [gateAt?_congr hsame.gates] at hn
    exact hsame.nextGate ▸ h.taken k n hn
  apart k l n hk hl := by
    rw [gateAt?_congr hsame.gates] at hk hl
    exact h.apart k l n hk hl

theorem NumbersApart.of_gates_nil (h : c.gates = []) : c.NumbersApart := by
  have hnone (k : String) : c.gateAt? k = none := by rw [gateAt?, h]; rfl
  exact ⟨fun k n hk => by simp [hnone] at hk, fun k l n hk => by simp [hnone] at hk⟩

theorem gateAt?_enterGate (c : Cache α) (key k : String) :
    (c.enterGate key).2.gateAt? k =
      if k = key then some ((c.gateAt? key).getD c.nextGate) else c.gateAt? k := by
  unfold enterGate gateAt?
  cases hgate : c.gates.get? key <;> by_cases hk : k = key <;> simp [Keyed.get?_put, hk]

theorem NumbersApart.enterGate (h : c.NumbersApart) (key : String) :
    (c.enterGate key).2.NumbersApart := by
  have hnext : c.nextGate ≤ (c.enterGate key).2.nextGate ∧
      (c.gateAt? key = none → (c.enterGate key).2.nextGate = c.nextGate + 1) := by
    unfold Cache.enterGate gateAt?
    cases c.gates.get? key <;> simp
  -- the number of the key is the one that it had, or the next one, which no other key has
  have hnumber (k : String) (n : Nat) (hk : (c.enterGate key).2.gateAt? k = some n) :
      c.gateAt? k = some n ∨ k = key ∧ c.gateAt? key = none ∧ n = c.nextGate := by
    rw [gateAt?_enterGate] at hk
    split at hk
    · rename_i hsame
      subst hsame
      cases hold : c.gateAt? k with
      | some m => exact Or.inl (by rw [← hk, hold, Option.getD_some])
      | none => exact Or.inr ⟨rfl, rfl, by rw [← Option.some.inj hk, hold, Option.getD_none]⟩
    · exact Or.inl hk
  refine ⟨fun k n hk => ?_, fun k l n hk hl => ?_⟩
  · rcases hnumber k n hk with hk | ⟨-, hnew, rfl⟩
    · exact Nat.lt_of_lt_of_le (h.taken k n hk) hnext.1
    · exact hnext.2 hnew ▸ Nat.lt_succ_self _
  · rcases hnumber k n hk with hk | ⟨rfl, -, rfl⟩
    · rcases hnumber l n hl with hl | ⟨-, -, rfl⟩
      · exact h.apart k l n hk hl
      · exact absurd (h.taken k _ hk) (Nat.lt_irrefl _)
    · rcases hnumber l _ hl with hl | ⟨rfl, -, -⟩
      · exact absurd (h.taken l _ hl) (Nat.lt_irrefl _)
      · rfl

theorem NumbersApart.leaveGate (h : c.NumbersApart) (key : String) :
    (c.leaveGate key).NumbersApart := by
  have hnext : (c.leaveGate key).nextGate = c.nextGate := by
    unfold Cache.leaveGate
    split
    · split <;> rfl
    · rfl
  have hnumber (k : String) (n : Nat) (hk : (c.leaveGate key).gateAt? k = some n) :
      c.gateAt? k = some n := by
    by_cases hsame : k = key
    · subst hsame
      unfold Cache.leaveGate gateAt? at hk
      unfold gateAt?
      cases hgate : c.gates.get? k with
      | none => simp [hgate] at hk
      | some g =>
          by_cases hlast : g.users ≤ 1
          · simp [hgate, hlast, Keyed.get?_erase] at hk
          · simpa [hgate, hlast, Keyed.get?_put] using hk
    · rwa [gateAt?, c.get?_leaveGate_of_ne hsame] at hk
  exact ⟨fun k n hk => hnext ▸ h.taken k n (hnumber k n hk),
    fun k l n hk hl => h.apart k l n (hnumber k n hk) (hnumber l n hl)⟩

theorem NumbersApart.dispose (h : c.NumbersApart) : c.dispose.NumbersApart := by
  unfold Cache.dispose
  split
  · exact h
  · exact .of_gates_nil rfl

/-! ## Operations -/

/-- An operation without a factory leaves the gates alone, unless it is the disposal. -/
theorem after_sameGates {call : CacheCall ε α} (hplain : call.isPlain = true)
    (hkeeps : call.isDispose = false) : c.SameGates (c.after ofCacheError call) := by
  cases call with
  | get key => exact c.get_sameGates key
  | set key v =>
      show c.SameGates (c.set key v).2
      unfold Cache.set
      cases c.refusal? key <;> exact ⟨rfl, rfl, rfl⟩
  | remove key =>
      show c.SameGates (c.remove key).2
      unfold Cache.remove
      cases c.refusal? key <;> exact ⟨rfl, rfl, rfl⟩
  | removeWhere p =>
      show c.SameGates (c.removeWhere p).2
      unfold Cache.removeWhere
      split <;> exact ⟨rfl, rfl, rfl⟩
  | clear =>
      show c.SameGates c.clear.2
      unfold Cache.clear
      split <;> exact ⟨rfl, rfl, rfl⟩
  | statistics =>
      show c.SameGates c.statistics.2
      unfold Cache.statistics
      split <;> exact ⟨rfl, rfl, rfl⟩
  | getOrCreate key made => cases hplain
  | dispose => cases hkeeps
  | wait milliseconds => exact ⟨rfl, rfl, rfl⟩
  | evict p => exact ⟨rfl, rfl, rfl⟩

/-- An operation brings in the value that it sets and no other one. -/
theorem after_holds {call : CacheCall ε α} (hplain : call.isPlain = true) {v : α}
    (hholds : (c.after ofCacheError call).Holds key v) :
    c.Holds key v ∨ call = .set key v := by
  have hkept {p : String × CacheEntry α → Bool} {d : Cache α}
      (hentries : d.entries = c.entries.filter p) (hd : d.Holds key v) : c.Holds key v :=
    HoldsLess.of_subset (fun e he => (List.mem_filter.mp (hentries ▸ he)).1) key v hd
  cases call with
  | get k => exact Or.inl ((c.get_holds k).1 key v hholds)
  | set k w =>
      rcases set_cases c k w with ⟨err, -, hset⟩ | ⟨d, -, hset, -, hheld⟩
      · rw [after, hset] at hholds
        exact Or.inl hholds
      · rw [after, hset] at hholds
        rcases hheld key v hholds with ⟨rfl, rfl⟩ | hold
        · exact Or.inr rfl
        · exact Or.inl hold
  | remove k =>
      rw [after, remove] at hholds
      split at hholds
      · exact Or.inl hholds
      · exact Or.inl (hkept rfl hholds)
  | removeWhere p => exact Or.inl (removeWhere_holdsLess c p key v hholds)
  | clear =>
      rw [after, clear] at hholds
      split at hholds
      · exact Or.inl hholds
      · obtain ⟨e, he, -⟩ := hholds
        cases he
  | statistics =>
      rw [after, statistics] at hholds
      split at hholds
      · exact Or.inl hholds
      · exact Or.inl hholds
  | getOrCreate k made => cases hplain
  | dispose => exact Or.inl (dispose_holdsLess c key v hholds)
  | wait milliseconds => exact Or.inl hholds
  | evict p => exact Or.inl (hkept rfl hholds)

end Cache

namespace Flight

variable {f f' : Flight ε α} {key k : String} {i j : Nat} {p q : CallPhase ε α}
  {ofCacheError : CacheError → ε} {s : FlightStep ε α} {e : FlightEvent ε α}

def happen (ofCacheError : CacheError → ε) (f : Flight ε α) : FlightEvent ε α → Flight ε α
  | .step s => f.step ofCacheError s
  | .use call _ => { f with cache := f.cache.after ofCacheError call }

def happenAll (ofCacheError : CacheError → ε) (f : Flight ε α) (events : List (FlightEvent ε α)) :
    Flight ε α :=
  events.foldl (happen ofCacheError) f

/-- The factory of a call for a key runs. -/
def RunsFor (f : Flight ε α) (i : Nat) (key : String) : Prop :=
  ∃ gate, f.calls[i]? = some ⟨key, .running gate⟩

/-- A call for a key has its gate to itself. -/
def InsideFor (f : Flight ε α) (i : Nat) (key : String) : Prop :=
  ∃ p gate, f.calls[i]? = some ⟨key, p⟩ ∧ p.inside? = some gate

/-! ## Gates in order -/

/-- The gates count the calls that are at them, and each number is the number of one key. -/
structure InOrder (f : Flight ε α) : Prop where
  tallied : f.Tallied
  numbers : f.cache.NumbersApart

namespace InOrder

theorem move (h : f.InOrder) (hmoves : Moves ofCacheError f s f') : f'.InOrder where
  tallied := h.tallied.move hmoves
  numbers := by
    cases hmoves with
    | idle | lock | check | begin | dropWaiting | dropRunning => exact h.numbers
    | start => exact h.numbers.congr (f.cache.get_sameGates _)
    | enter => exact h.numbers.enterGate _
    | look => exact h.numbers.congr (f.cache.lookAgain_sameGates _)
    | store => exact h.numbers.congr (f.cache.keep_sameGates ofCacheError _ _)
    | leaveEnded | leaveGivenUp => exact h.numbers.leaveGate _
    | dispose => exact h.numbers.dispose

theorem run (h : f.InOrder) (steps : List (FlightStep ε α)) : (f.run ofCacheError steps).InOrder :=
  run_induction (P := InOrder) (fun _ _ _ hg hmoves => hg.move hmoves) h steps

theorem use {d : Cache α} (h : f.InOrder) (hsame : f.cache.SameGates d) :
    InOrder { f with cache := d } where
  tallied :=
    ⟨h.tallied.with_cache hsame, hsame.used h.tallied.used,
      fun k => (hsame.usersAt k).trans_le (h.tallied.counted k)⟩
  numbers := h.numbers.congr hsame

theorem happen (h : f.InOrder) (e : FlightEvent ε α) : (f.happen ofCacheError e).InOrder := by
  cases e with
  | step s => exact h.move (step_moves ofCacheError f s)
  | use call plain =>
      cases hdisposal : call.isDispose with
      | false => exact h.use (Cache.after_sameGates plain hdisposal)
      | true =>
          cases call with
          | dispose => exact h.move (step_moves ofCacheError f .dispose)
          | _ => cases hdisposal

theorem happenAll (h : f.InOrder) (events : List (FlightEvent ε α)) :
    (f.happenAll ofCacheError events).InOrder := by
  unfold Flight.happenAll
  induction events generalizing f with
  | nil => exact h
  | cons e events ih => exact ih (h.happen e)

theorem of_idle {c : Cache α} (hgates : c.gates = []) : (Flight.mk c [] : Flight ε α).InOrder where
  tallied := .of_no_calls hgates
  numbers := .of_gates_nil hgates

/-- A gate is free when no call for its key is inside. -/
theorem isFree (h : f.InOrder) (hopen : f.cache.isDisposed = false) {gate : Nat}
    (hgate : f.cache.gateAt? key = some gate) (hnobody : ∀ j, ¬ f.InsideFor j key) :
    f.isFree gate = true := by
  refine isFree_iff.mpr fun j call hj hinside => ?_
  obtain ⟨k, p⟩ := call
  have hthere := h.tallied.number hopen j k p gate hj (CallPhase.gate?_of_inside? hinside)
  obtain rfl := h.numbers.apart k key gate hthere hgate
  exact hnobody j ⟨p, gate, hj, hinside⟩

end InOrder

/-! ## A call never goes back -/

theorem call_of_move {cache : Cache α} {old : CallPhase ε α} (there : f.calls[j]? = some ⟨k, old⟩)
    (hless : q.stepsLeft ≤ old.stepsLeft) (here : f.calls[i]? = some ⟨key, p⟩) :
    ∃ p', (f.move cache j k q).calls[i]? = some ⟨key, p'⟩ ∧ p'.stepsLeft ≤ p.stepsLeft := by
  by_cases hij : i = j
  · subst hij
    rw [there] at here
    cases here
    exact ⟨q, move_self cache there, hless⟩
  · refine ⟨p, ?_, Nat.le_refl _⟩
    rw [move, List.getElem?_set_ne (Ne.symm hij), here]

/-- A step leaves a call no more steps than it had. -/
theorem Moves.call (hmoves : Moves ofCacheError f s f') (here : f.calls[i]? = some ⟨key, p⟩) :
    ∃ p', f'.calls[i]? = some ⟨key, p'⟩ ∧ p'.stepsLeft ≤ p.stepsLeft := by
  cases hmoves with
  | idle | dispose => exact ⟨p, here, Nat.le_refl _⟩
  | start =>
      obtain ⟨hi, -⟩ := List.getElem?_eq_some_iff.mp here
      exact ⟨p, (List.getElem?_append_left hi).trans here, Nat.le_refl _⟩
  | enter there => exact call_of_move there (Nat.le_succ 6) here
  | lock there => exact call_of_move there (Nat.le_succ 5) here
  | check there =>
      exact call_of_move there (Nat.le_of_lt (CallPhase.stepsLeft_ofRefusal_lt ..)) here
  | look there =>
      exact call_of_move there (Nat.le_of_lt (CallPhase.stepsLeft_ofSecondLook_lt ..)) here
  | begin there => exact call_of_move there (Nat.le_succ 2) here
  | store there | dropRunning there => exact call_of_move there (Nat.le_succ 1) here
  | dropWaiting there => exact call_of_move there (Nat.le_add_left 1 5) here
  | leaveEnded there | leaveGivenUp there => exact call_of_move there (Nat.le_succ 0) here

theorem call_happen (ofCacheError : CacheError → ε) (here : f.calls[i]? = some ⟨key, p⟩)
    (e : FlightEvent ε α) :
    ∃ p', (f.happen ofCacheError e).calls[i]? = some ⟨key, p'⟩ ∧ p'.stepsLeft ≤ p.stepsLeft := by
  cases e with
  | step s => exact (step_moves ofCacheError f s).call here
  | use call plain => exact ⟨p, here, Nat.le_refl _⟩

theorem call_happenAll (ofCacheError : CacheError → ε) (here : f.calls[i]? = some ⟨key, p⟩)
    (events : List (FlightEvent ε α)) :
    ∃ p', (f.happenAll ofCacheError events).calls[i]? = some ⟨key, p'⟩ ∧
      p'.stepsLeft ≤ p.stepsLeft := by
  unfold happenAll
  induction events generalizing f p with
  | nil => exact ⟨p, here, Nat.le_refl _⟩
  | cons e events ih =>
      obtain ⟨p', hp', hless⟩ := call_happen ofCacheError here e
      obtain ⟨q, hq, hrest⟩ := ih hp'
      exact ⟨q, hq, hrest.trans hless⟩

/-! ## What is brought in -/

/-- A step brings in no value but what a call stores that then leaves. -/
theorem Moves.holds (hmoves : Moves ofCacheError f s f') {v : α} (hheld : f'.cache.Holds key v) :
    f.cache.Holds key v ∨ ∃ (i gate : Nat) (outcome : Creation ε α),
      f.calls[i]? = some ⟨key, .running gate⟩ ∧
      f'.calls[i]? = some ⟨key, .leaving gate outcome⟩ := by
  cases hmoves with
  | idle | lock | check | begin | dropWaiting | dropRunning => exact Or.inl hheld
  | start => exact Or.inl ((f.cache.get_holds _).1 key v hheld)
  | enter => exact Or.inl (f.cache.enterGate_holdsLess _ key v hheld)
  | look => exact Or.inl ((f.cache.lookAgain_spec _).1 key v hheld)
  | @store i gate k made here =>
      obtain ⟨-, hkept, -⟩ := Cache.keep_spec ofCacheError f.cache k made
      refine (hkept key v hheld).imp_right ?_
      rintro ⟨-, rfl, -⟩
      exact ⟨i, gate, _, here, move_self _ here⟩
  | leaveEnded | leaveGivenUp => exact Or.inl (f.cache.leaveGate_holdsLess _ key v hheld)
  | dispose => exact Or.inl (Cache.dispose_holdsLess f.cache key v hheld)

/-- While a call is admitted, nothing is brought in under its key, unless the key is set
outright. -/
theorem InOrder.happen_holds (h : f.InOrder) (hi : f.IsAdmitted i key)
    (hstays : (f.happen ofCacheError e).IsAdmitted i key) (hsets : ¬ e.Sets key)
    (hnone : ∀ v, ¬ f.cache.Holds key v) (v : α) :
    ¬ (f.happen ofCacheError e).cache.Holds key v := by
  intro hheld
  cases e with
  | step s =>
      rcases (step_moves ofCacheError f s).holds hheld with hold | ⟨j, gate, outcome, hj, hleaves⟩
      · exact hnone v hold
      · -- whoever stores is the one that is admitted, and it would be so no more
        obtain ⟨p, hp, hadmitted⟩ := hi
        obtain rfl := h.tallied.alone key j i _ _ hj ⟨rfl, rfl⟩ hp ⟨rfl, hadmitted⟩
        obtain ⟨q, hq, hstays⟩ := hstays
        have hsame := hq.symm.trans hleaves
        cases hsame
        cases hstays
  | use call plain =>
      rcases Cache.after_holds plain hheld with hold | rfl
      · exact hnone v hold
      · exact hsets rfl

theorem CallPhase.isAdmitted_of_stepsLeft (hmost : p.stepsLeft ≤ 4) (hleast : 2 ≤ p.stepsLeft) :
    p.isAdmitted = true := by
  cases p with
  | admitted _ | missedAgain _ | running _ => rfl
  | missed | waiting _ | inside _ => exact absurd hmost (by simp [CallPhase.stepsLeft])
  | leaving _ _ | dropping _ _ | ended _ | givenUp _ =>
      exact absurd hleast (by simp [CallPhase.stepsLeft])

/-- When a call finds nothing under its key and its factory runs later, nothing stands there then,
unless the key was set outright. -/
theorem InOrder.happenAll_holds (h : f.InOrder) (here : f.calls[i]? = some ⟨key, p⟩)
    (hadmitted : p.stepsLeft ≤ 4) {events : List (FlightEvent ε α)}
    (hruns : (f.happenAll ofCacheError events).RunsFor i key)
    (hsets : ∀ e ∈ events, ¬ e.Sets key) (hnone : ∀ v, ¬ f.cache.Holds key v) (v : α) :
    ¬ (f.happenAll ofCacheError events).cache.Holds key v := by
  -- a call that runs in the end has two steps left, and so it had two or more all the while
  have hleast {f : Flight ε α} {p : CallPhase ε α} {events : List (FlightEvent ε α)}
      (here : f.calls[i]? = some ⟨key, p⟩)
      (hruns : (f.happenAll ofCacheError events).RunsFor i key) : 2 ≤ p.stepsLeft := by
    obtain ⟨q, hq, hless⟩ := call_happenAll ofCacheError here events
    obtain ⟨gate, hgate⟩ := hruns
    cases hq.symm.trans hgate
    exact hless
  induction events generalizing f p with
  | nil => exact hnone v
  | cons e events ih =>
      obtain ⟨hset, hsets⟩ := List.forall_mem_cons.mp hsets
      obtain ⟨q, hq, hless⟩ := call_happen ofCacheError here e
      have hmost := hless.trans hadmitted
      have hi := CallPhase.isAdmitted_of_stepsLeft hadmitted (hleast here hruns)
      have hstays := CallPhase.isAdmitted_of_stepsLeft hmost (hleast hq hruns)
      exact ih (h.happen e) hq hmost hruns hsets
        (h.happen_holds ⟨p, here, hi⟩ ⟨q, hq, hstays⟩ hset hnone)

end Flight
end ComponentAtlas
