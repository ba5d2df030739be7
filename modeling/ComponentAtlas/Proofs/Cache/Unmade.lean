import ComponentAtlas.Proofs.Cache.Events

/-!
# What is not made leaves nothing behind

A call for a missing value runs its factory inside the gate of the key.  When the factory fails,
when the call is given up, or when the cache was disposed of before the factory gives its value,
nothing is stored: the call leaves the gate, and that is all it does to the cache.  So the entries
are those that the factory left.  The second look has taken away what had expired under the key, and
from then on nothing stands there unless it is set outright; the next call therefore misses, finds
the gate free, and runs its own factory.
-/

namespace ComponentAtlas

variable {ε α : Type}

namespace Cache

variable {c d : Cache α} {key : String}

/-! ## Looking for what is missing -/

/-- A look that finds nothing takes away what has expired. -/
theorem lookup_of_missing (hmissing : c.live? key = none) :
    c.lookup key = (none, { c.tick with entries := c.entries.erase key }) := by
  have hsame : c.tick.entries.get? key = c.entries.get? key := rfl
  unfold lookup
  simp only [hsame]
  unfold live? at hmissing
  cases hget : c.entries.get? key with
  | none =>
      have herase : c.entries.erase key = c.entries := by
        refine List.filter_eq_self.mpr fun e he => bne_iff_ne.mpr fun hkey => ?_
        have hthere := Keyed.isSome_get?_of_mem he
        rw [hkey, hget] at hthere
        cases hthere
      rw [herase]
      rfl
  | some e =>
      rw [hget] at hmissing
      cases hlive : c.tick.isLive e with
      | true => simp [Option.filter, hlive] at hmissing
      | false => simp only [hlive, Bool.false_eq_true, if_false]; rfl

theorem get_of_missing (hopen : c.refusal? key = none) (hmissing : c.live? key = none) :
    c.get key =
      (.ok none, countMiss { c.tick with entries := c.entries.erase key }) := by
  rw [get, hopen, lookup_of_missing hmissing]

/-- The cache when a call has looked for a key and counted itself at the gate, and the gate. -/
def comesToGate (c : Cache α) (key : String) : Nat × Cache α :=
  (c.get key).2.enterGate key

theorem comesToGate_entries (hopen : c.refusal? key = none) (hmissing : c.live? key = none) :
    (c.comesToGate key).2.entries = c.entries.erase key := by
  rw [comesToGate, enterGate_entries, get_of_missing hopen hmissing]
  rfl

theorem comesToGate_isDisposed (c : Cache α) (key : String) :
    (c.comesToGate key).2.isDisposed = c.isDisposed :=
  (enterGate_isDisposed _ key).trans (get_isDisposed c key)

theorem lookAgain_of_missing (hmissing : c.live? key = none) :
    c.lookAgain key = (none, { c.tick with entries := c.entries.erase key }) := by
  rw [lookAgain, lookup_of_missing hmissing]

/-- Whoever finds nothing at the second look looked where nothing was live. -/
theorem missing_of_lookAgain (h : (c.lookAgain key).1 = none) : c.live? key = none := by
  have hfound := lookup_fst c key
  unfold lookAgain at h
  rcases hl : c.lookup key with ⟨_ | v, d⟩
  · rw [hl] at hfound
    exact hfound.symm
  · rw [hl] at h
    cases h

theorem live?_eq_none (h : ∀ v, ¬ c.Holds key v) : c.live? key = none :=
  Option.eq_none_iff_forall_ne_some.mpr fun v hlive => h v (holds_of_live? hlive)

theorem not_holds_of_erased {t : Keyed (CacheEntry α)} (h : c.entries = t.erase key) (v : α) :
    ¬ c.Holds key v := by
  rintro ⟨e, he, -⟩
  exact (Keyed.mem_erase.mp (h ▸ he)).2 rfl

theorem refusal?_eq_none (hkey : Text.allBlank key.toList = false) (hopen : c.isDisposed = false) :
    c.refusal? key = none := by
  rw [refusal?, hkey, hopen]
  rfl

/-- A disposed cache keeps nothing that is made. -/
theorem keep_of_disposed (ofCacheError : CacheError → ε) (hkey : Text.allBlank key.toList = false)
    (hdisposed : c.isDisposed = true) (v : α) :
    c.keep ofCacheError key (.ok v) = (.error (ofCacheError .disposed), c) := by
  have hrefused : c.refusal? key = some .disposed := by
    rw [refusal?, hkey, hdisposed]
    rfl
  have hset : c.set key v = (.error .disposed, c) := by rw [set, hrefused]
  simp only [keep, hset]

end Cache

namespace Flight

variable {f after : Flight ε α} {key : String} {i gate : Nat} {p : CallPhase ε α}
  {ofCacheError : CacheError → ε}

/-! ## A call begins -/

/-- A call for what is missing comes to the gate of its key. -/
theorem waits_of_missing (ofCacheError : CacheError → ε) (hopen : f.cache.refusal? key = none)
    (hmissing : f.cache.live? key = none) :
    f.run ofCacheError [.start key, .enter f.calls.length] =
      ⟨(f.cache.comesToGate key).2, f.calls ++ [⟨key, .waiting (f.cache.comesToGate key).1⟩]⟩ := by
  have hget := Cache.get_of_missing hopen hmissing
  have hstart : f.start ofCacheError key =
      ⟨(f.cache.get key).2, f.calls ++ [⟨key, .missed⟩]⟩ := by
    rw [start, hget]
    rfl
  have hcall : (f.calls ++ [(⟨key, .missed⟩ : Call ε α)])[f.calls.length]? =
      some ⟨key, .missed⟩ := List.getElem?_concat_length
  have hset (p : CallPhase ε α) : (f.calls ++ [(⟨key, .missed⟩ : Call ε α)]).set f.calls.length
      ⟨key, p⟩ = f.calls ++ [⟨key, p⟩] := by
    rw [List.set_append_right _ _ (Nat.le_refl _), Nat.sub_self]
    rfl
  simp only [run_cons, step]
  rw [hstart, enter_of_missed hcall, move, hset]
  rfl

/-- A call that passes the gate and finds nothing runs its factory. -/
theorem pass_of_waiting (hopen : f.cache.refusal? key = none) (hmissing : f.cache.live? key = none)
    (here : f.calls[i]? = some ⟨key, .waiting gate⟩) (hfree : f.isFree gate = true) :
    f.pass ofCacheError i =
      f.move { f.cache.tick with entries := f.cache.entries.erase key } i key (.running gate) := by
  have hsteps : f.pass ofCacheError i =
      ((((f.lock i).check ofCacheError i).look i).begin i).leave i := rfl
  have hadmitted : (f.lock i).check ofCacheError i =
      f.move f.cache i key (.admitted gate) := by
    rw [lock_of_free here hfree, check_of_inside (move_self _ here), move_move, move_cache, hopen]
    rfl
  have hlooked : (f.move f.cache i key (.admitted gate)).look i =
      f.move { f.cache.tick with entries := f.cache.entries.erase key } i key
        (.missedAgain gate) := by
    rw [look_of_admitted (move_self _ here), move_move, move_cache,
      Cache.lookAgain_of_missing hmissing]
    rfl
  rw [hsteps, hadmitted, hlooked, begin_of_missedAgain (move_self _ here), move_move, move_cache]
  simp only [Flight.leave, move_self _ here]

theorem finish_of_running (here : f.calls[i]? = some ⟨key, .running gate⟩) (made : Except ε α) :
    f.finish ofCacheError i made =
      f.move ((f.cache.keep ofCacheError key made).2.leaveGate key) i key
        (.ended ⟨(f.cache.keep ofCacheError key made).1, true⟩) := by
  have hsteps : f.finish ofCacheError i made = (f.store ofCacheError i made).leave i := rfl
  rw [hsteps, store_of_running here, leave_of_leaving (move_self _ here), move_move, move_cache]

theorem giveUp_of_running (here : f.calls[i]? = some ⟨key, .running gate⟩) :
    f.giveUp i = f.move (f.cache.leaveGate key) i key (.givenUp true) := by
  rw [giveUp, drop_of_running here, leave_of_dropping (move_self _ here), move_move, move_cache]

/-- A call that misses again has looked where nothing was live, and what stood there had expired. -/
theorem missing_of_look (here : f.calls[i]? = some ⟨key, .admitted gate⟩)
    (hmisses : (f.look i).calls[i]? = some ⟨key, .missedAgain gate⟩) :
    f.cache.live? key = none ∧ (f.look i).cache.entries = f.cache.entries.erase key := by
  have hmissing : f.cache.live? key = none := by
    refine Cache.missing_of_lookAgain ?_
    rw [look_of_admitted here, move_self _ here] at hmisses
    cases hfound : (f.cache.lookAgain key).1 with
    | none => rfl
    | some v =>
        rw [hfound] at hmisses
        cases hmisses
  refine ⟨hmissing, ?_⟩
  rw [look_of_admitted here, Cache.lookAgain_of_missing hmissing]
  rfl

/-- When no call for a key is inside and nothing is found there, the next one runs its factory. -/
theorem InOrder.call_runs (h : f.InOrder) (hkey : Text.allBlank key.toList = false)
    (hopen : f.cache.isDisposed = false) (hmissing : f.cache.live? key = none)
    (hnobody : ∀ j, ¬ f.InsideFor j key) :
    ((f.run ofCacheError [.start key, .enter f.calls.length]).pass ofCacheError
      f.calls.length).RunsFor f.calls.length key := by
  have hpasses := Cache.refusal?_eq_none hkey hopen
  have hwaits := waits_of_missing ofCacheError hpasses hmissing
  have hentries := Cache.comesToGate_entries hpasses hmissing
  have hisOpen := (f.cache.comesToGate_isDisposed key).trans hopen
  have hgate := ((f.cache.get key).2.enterGate_enters key).number_eq
  have hwaiting : (f.run ofCacheError [.start key, .enter f.calls.length]).InOrder :=
    h.run [.start key, .enter f.calls.length]
  rw [hwaits] at hwaiting ⊢
  have hfree := hwaiting.isFree hisOpen hgate fun j hj => by
    obtain ⟨p, inside, hj, hp⟩ := hj
    rcases call_append hj with hj | ⟨hnew, -⟩
    · exact hnobody j ⟨p, inside, hj, hp⟩
    · cases hnew
      cases hp
  rw [pass_of_waiting (Cache.refusal?_eq_none hkey hisOpen)
    (Cache.live?_eq_none (Cache.not_holds_of_erased hentries)) List.getElem?_concat_length hfree]
  exact ⟨_, List.getElem?_set_self (by simp)⟩

/-! ## A call ends without a value -/

/-- A call for a key ends in a phase and has left nothing but the gate.  The gate counts the others
that are at it, as long as the cache is not disposed of; it is gone when there are none, no factory
for the key runs, and the gate is free unless the cache is disposed of. -/
structure LeavesNothing (f : Flight ε α) (i : Nat) (key : String) (p : CallPhase ε α)
    (after : Flight ε α) : Prop where
  entries : after.cache.entries = f.cache.entries
  isDisposed : after.cache.isDisposed = f.cache.isDisposed
  calls : after.calls = f.calls.set i ⟨key, p⟩
  gates : ∀ k, k ≠ key → after.cache.gates.get? k = f.cache.gates.get? k
  released : after.cache.usersAt key = f.cache.usersAt key - 1
  counted : after.cache.isDisposed = false → after.cache.usersAt key = after.atGateOf key
  gone : after.atGateOf key = 0 → after.cache.gates.get? key = none
  nobody : ∀ j, ¬ after.RunsFor j key
  free : after.cache.isDisposed = false → ∀ j, ¬ after.InsideFor j key

theorem InOrder.leavesNothing (h : f.InOrder) (here : f.calls[i]? = some ⟨key, .running gate⟩)
    (hover : p.isOver = true) :
    LeavesNothing f i key p (f.move (f.cache.leaveGate key) i key p) := by
  have htallied := h.tallied.leave here rfl hover (h.tallied.toGuarded.leave here rfl hover)
  refine ⟨f.cache.leaveGate_entries key, f.cache.leaveGate_isDisposed key, rfl,
    fun k hk => f.cache.get?_leaveGate_of_ne hk, f.cache.usersAt_leaveGate key,
    fun hopen => htallied.counted_all hopen key, fun hnone => ?_, fun j hj => ?_,
    fun hopen j hj => ?_⟩
  · have husers := Cache.users?_eq htallied.used key
    rw [if_pos (Nat.le_zero.mp ((htallied.counted key).trans_eq hnone))] at husers
    exact Option.map_eq_none_iff.mp husers
  · obtain ⟨inside, hj⟩ := hj
    rcases call_move hj with ⟨hsame, -⟩ | ⟨hj, hne⟩
    · cases hsame
      cases hover
    · exact hne (h.tallied.alone key j i _ _ hj ⟨rfl, rfl⟩ here ⟨rfl, rfl⟩)
  · obtain ⟨q, inside, hj, hq⟩ := hj
    rcases call_move hj with ⟨hsame, -⟩ | ⟨hj, hne⟩
    · cases hsame
      rw [CallPhase.inside?_of_isOver hover] at hq
      cases hq
    · have hopen := (f.cache.leaveGate_isDisposed key).symm.trans hopen
      exact hne (h.tallied.eq_of_inside hopen hj hq here rfl)

theorem InOrder.finish_error (h : f.InOrder) (hruns : f.RunsFor i key) (err : ε) :
    LeavesNothing f i key (.ended ⟨.error err, true⟩) (f.finish ofCacheError i (.error err)) := by
  obtain ⟨gate, here⟩ := hruns
  rw [finish_of_running here]
  exact h.leavesNothing here rfl

theorem InOrder.giveUp (h : f.InOrder) (hruns : f.RunsFor i key) :
    LeavesNothing f i key (.givenUp true) (f.giveUp i) := by
  obtain ⟨gate, here⟩ := hruns
  rw [giveUp_of_running here]
  exact h.leavesNothing here rfl

theorem InOrder.finish_disposed (h : f.InOrder) (hruns : f.RunsFor i key)
    (hkey : Text.allBlank key.toList = false) (hdisposed : f.cache.isDisposed = true) (v : α) :
    LeavesNothing f i key (.ended ⟨.error (ofCacheError .disposed), true⟩)
      (f.finish ofCacheError i (.ok v)) := by
  obtain ⟨gate, here⟩ := hruns
  rw [finish_of_running here, Cache.keep_of_disposed ofCacheError hkey hdisposed]
  exact h.leavesNothing here rfl

/-- Where nothing stood before, the next call runs its own factory. -/
theorem LeavesNothing.next_runs (h : LeavesNothing f i key p after) (horder : after.InOrder)
    (hkey : Text.allBlank key.toList = false) (hopen : f.cache.isDisposed = false)
    (hnone : ∀ v, ¬ f.cache.Holds key v) :
    ((after.run ofCacheError [.start key, .enter after.calls.length]).pass ofCacheError
      after.calls.length).RunsFor after.calls.length key := by
  have hisOpen := h.isDisposed.trans hopen
  refine horder.call_runs hkey hisOpen (Cache.live?_eq_none fun v hheld => ?_) (h.free hisOpen)
  exact hnone v (Cache.HoldsLess.of_entries h.entries key v hheld)

/-! ## A whole call -/

/-- A call that nobody gets in the way of is a flight of its own. -/
theorem getOrCreateWith_alone {σ : Type} (ofCacheError : CacheError → ε) {c : Cache α}
    (hopen : c.refusal? key = none) (hmissing : c.live? key = none) (world : σ)
    (factory : σ → Cache α → Except ε α × σ × Cache α) :
    ∃ gate creation after,
      ((Flight.mk c []).run ofCacheError [.start key, .enter 0]).pass ofCacheError 0 =
        ⟨c.looked key, [⟨key, .running gate⟩]⟩ ∧
      let (made, world', left) := factory world (c.looked key)
      (Flight.mk left [⟨key, .running gate⟩]).finish ofCacheError 0 made =
          ⟨after, [⟨key, .ended creation⟩]⟩ ∧
        c.getOrCreateWith ofCacheError key world factory = (creation, world', after) := by
  have hwaits : (Flight.mk c []).run ofCacheError [.start key, .enter 0] =
      ⟨(c.comesToGate key).2, [⟨key, .waiting (c.comesToGate key).1⟩]⟩ :=
    waits_of_missing ofCacheError hopen hmissing
  have hentries := Cache.comesToGate_entries hopen hmissing
  have hpasses := (Cache.refusal?_congr (c.comesToGate_isDisposed key) key).trans hopen
  have hagain : (c.comesToGate key).2.entries.erase key = (c.comesToGate key).2.entries := by
    rw [hentries, Keyed.erase, Keyed.erase, List.filter_filter]
    simp only [Bool.and_self]
  have hlooked : c.looked key = (c.comesToGate key).2.tick := rfl
  have hruns : ((Flight.mk c []).run ofCacheError [.start key, .enter 0]).pass ofCacheError 0 =
      ⟨c.looked key, [⟨key, .running (c.comesToGate key).1⟩]⟩ := by
    have hmissing := Cache.live?_eq_none (Cache.not_holds_of_erased hentries)
    rw [hwaits, hlooked]
    generalize c.comesToGate key = came at hpasses hmissing hagain
    rw [pass_of_waiting (f := ⟨came.2, _⟩) hpasses hmissing rfl rfl, hagain]
    rfl
  refine ⟨_, _, _, hruns, rfl, ?_⟩
  exact Cache.getOrCreateWith_of_missing ofCacheError world factory hopen hmissing

/-- Whatever has happened to a cache before, a call for a key without a live entry is refused when
the cache is disposed of.  Otherwise it comes to its gate, where it passes at once unless a call for
the key is inside already.  Whenever it looks again and finds nothing there, nothing but what had
expired stood under the key, and that is gone.  Whatever happens then, and while the factory runs:
when it fails, or the call is given up, or the cache is disposed of before it gives a value, the
entries are left as they are, the gate is left, and the call ends with the factory's error, with
nothing, or because of the disposal.  In the first two cases the next call for the key runs its own
factory, unless the key was set or the cache disposed of. -/
theorem unmade_leaves_nothing (ofCacheError : CacheError → ε) {c : Cache α} (hgates : c.gates = [])
    (earlier : List (FlightEvent ε α)) {key : String}
    (hkey : Text.allBlank key.toList = false) :
    let f := (Flight.mk c []).happenAll ofCacheError earlier
    let i := f.calls.length
    f.cache.live? key = none →
      (f.cache.isDisposed = true → f.start ofCacheError key =
        ⟨f.cache, f.calls ++ [⟨key, .ended ⟨.error (ofCacheError .disposed), false⟩⟩]⟩) ∧
      (f.cache.isDisposed = false →
        let atGate := f.run ofCacheError [.start key, .enter i]
        atGate.cache.entries = f.cache.entries.erase key ∧
        ((∀ j, ¬ f.InsideFor j key) → (atGate.pass ofCacheError i).RunsFor i key) ∧
        ∀ (meanwhile : List (FlightEvent ε α)) (gate : Nat),
          let reached := atGate.happenAll ofCacheError meanwhile
          let looked := reached.look i
          reached.calls[i]? = some ⟨key, .admitted gate⟩ →
          looked.calls[i]? = some ⟨key, .missedAgain gate⟩ →
            reached.cache.live? key = none ∧
            looked.cache.entries = reached.cache.entries.erase key ∧
            ∀ events : List (FlightEvent ε α),
              let left := looked.happenAll ofCacheError events
              left.RunsFor i key →
              (∀ err, LeavesNothing left i key (.ended ⟨.error err, true⟩)
                (left.finish ofCacheError i (.error err))) ∧
              LeavesNothing left i key (.givenUp true) (left.giveUp i) ∧
              (left.cache.isDisposed = true → ∀ v,
                LeavesNothing left i key (.ended ⟨.error (ofCacheError .disposed), true⟩)
                  (left.finish ofCacheError i (.ok v))) ∧
              (left.cache.isDisposed = false → (∀ e ∈ events, ¬ e.Sets key) →
                ∀ after : Flight ε α,
                after = left.giveUp i ∨ (∃ err, after = left.finish ofCacheError i (.error err)) →
                let j := after.calls.length
                ((after.run ofCacheError [.start key, .enter j]).pass ofCacheError j).RunsFor
                  j key)) := by
  intro f i hmissing
  have hf : f.InOrder := (InOrder.of_idle hgates).happenAll earlier
  refine ⟨fun hdisposed => ?_, fun hopen => ?_⟩
  · have hrefused : f.cache.refusal? key = some .disposed := by
      rw [Cache.refusal?, hkey, hdisposed]
      rfl
    rw [start, Cache.get, hrefused]
    rfl
  intro atGate
  have hpasses := Cache.refusal?_eq_none hkey hopen
  have hgate : atGate.InOrder := hf.run [.start key, .enter i]
  refine ⟨?_, hf.call_runs hkey hopen hmissing, fun meanwhile gate => ?_⟩
  · rw [show atGate = _ from waits_of_missing ofCacheError hpasses hmissing]
    exact Cache.comesToGate_entries hpasses hmissing
  intro reached looked hadmitted hmisses
  obtain ⟨hnothing, herased⟩ := missing_of_look hadmitted hmisses
  have hlooked : looked.InOrder :=
    (hgate.happenAll meanwhile).move (step_moves ofCacheError reached (.look i))
  refine ⟨hnothing, herased, fun events => ?_⟩
  intro left hruns
  have hleft : left.InOrder := hlooked.happenAll events
  refine ⟨hleft.finish_error hruns, hleft.giveUp hruns, hleft.finish_disposed hruns hkey,
    fun hisOpen hsets after hafter => ?_⟩
  have hnone : ∀ v, ¬ left.cache.Holds key v :=
    hlooked.happenAll_holds hmisses (Nat.le_succ 3) hruns hsets (Cache.not_holds_of_erased herased)
  rcases hafter with rfl | ⟨err, rfl⟩
  · have hdropped : (left.drop i).InOrder := hleft.move (step_moves ofCacheError left (.drop i))
    exact (hleft.giveUp hruns).next_runs
      (hdropped.move (step_moves ofCacheError (left.drop i) (.leave i))) hkey hisOpen hnone
  · exact (hleft.finish_error hruns err).next_runs
      (hleft.run [.store i (.error err), .leave i]) hkey hisOpen hnone

/-- A call is let in and asks whether the cache was disposed of. -/
def busyMeanwhile : List (FlightEvent String Nat) :=
  [.step (.lock 0), .step (.check 0)]

/-- The factory of a call begins, stores under another key and removes what stood there before the
call. -/
def busyEvents : List (FlightEvent String Nat) :=
  [.step (.begin 0), .use (.set "kept" 2) rfl, .use (.remove "old") rfl]

/-- A call looks again in a cache with one entry, and goes on as `busyEvents` say. -/
def busyFlight : Flight String Nat :=
  let c : Cache Nat := .ofWindows ⟨none, none⟩
  let f := (Flight.mk c []).happenAll CacheError.message [.use (.set "old" 1) rfl]
  let atGate := f.run CacheError.message [.start "new", .enter 0]
  let reached := atGate.happenAll CacheError.message busyMeanwhile
  (reached.look 0).happenAll CacheError.message busyEvents

/-- The factory fails: only what it stored itself is there, nobody is at a gate, and the next call
runs its own factory.  Where it disposes of the cache as well, its value is refused. -/
theorem unmade_leaves_nothing_busy :
    (Cache.ofWindows ⟨none, none⟩ : Cache Nat).gates = [] ∧
      Text.allBlank "new".toList = false ∧
      let after := busyFlight.finish CacheError.message 0 (.error "failed")
      after.cache.entries.map Prod.fst = ["kept"] ∧
      after.calls = [⟨"new", .ended ⟨.error "failed", true⟩⟩] ∧
      after.cache.gates.get? "new" = none ∧
      ((after.run CacheError.message [.start "new", .enter 1]).pass CacheError.message 1).RunsFor
        1 "new" ∧
      ((busyFlight.run CacheError.message [.dispose]).finish CacheError.message 0 (.ok 3)).calls =
        [⟨"new", .ended ⟨.error "cache has been disposed", true⟩⟩] := by
  have hgates : (Cache.ofWindows ⟨none, none⟩ : Cache Nat).gates = [] := rfl
  have hkey : Text.allBlank "new".toList = false := by decide
  obtain ⟨-, hopen⟩ := unmade_leaves_nothing CacheError.message hgates
    [.use (.set "old" 1) rfl] hkey (by decide)
  obtain ⟨-, -, hlooks⟩ := hopen (by decide)
  obtain ⟨-, -, hends⟩ := hlooks busyMeanwhile 0 rfl rfl
  have hspares : ∀ e ∈ busyEvents, ¬ e.Sets "new" := by
    simp [busyEvents, FlightEvent.Sets]
  obtain ⟨hfails, -, -, hnext⟩ := hends busyEvents ⟨0, rfl⟩
  have hleaves := hfails "failed"
  obtain ⟨-, -, hrefused, -⟩ := hends (busyEvents ++ [FlightEvent.step .dispose]) ⟨0, rfl⟩
  exact ⟨hgates, hkey, hleaves.entries ▸ by decide, hleaves.calls, hleaves.gone (by decide),
    hnext (by decide) hspares _ (Or.inr ⟨"failed", rfl⟩), (hrefused (by decide) 3).calls⟩

/-- A cache that is disposed of runs no factory, so that no factory's error is returned. -/
theorem disposed_runs_no_factory :
    ¬ ∀ (c : Cache Nat) (key err : String), Text.allBlank key.toList = false →
      c.live? key = none →
      (c.getOrCreate CacheError.message key fun d => (.error err, d)).1.result = .error err := by
  intro hreturned
  have h := hreturned (Cache.ofWindows ⟨none, none⟩).dispose "k" "failed" (by decide) rfl
  exact absurd (Except.error.inj h) (by decide)

end Flight
end ComponentAtlas
