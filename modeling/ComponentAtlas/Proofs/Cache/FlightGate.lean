import ComponentAtlas.Proofs.Cache.FlightStep
import ComponentAtlas.Proofs.Cache.Gates

/-!
# Nobody loses the gate

Two calls for one key are never inside at once, because all calls that are at the gate of a key know
it by one number.  That would fail if the gate were taken away, and made anew under another number,
while somebody still is inside; but it is taken away by the last user it counts, and it counts at
least as many as there are.

A disposal does take the gates away under the calls that are at them.  So it is not being inside
that keeps two factories apart then: no call is admitted any more, and of those that were there was
one for each key.
-/

namespace ComponentAtlas

variable {ε α : Type}

namespace Flight

variable {f f' : Flight ε α} {s : FlightStep ε α} {key : String} {i j : Nat}
  {old p : CallPhase ε α} {ofCacheError : CacheError → ε}

/-! ## Counting calls -/

theorem countP_move_call (q : Call ε α → Bool) {call : Call ε α} (here : f.calls[i]? = some call)
    (cache : Cache α) (key : String) (p : CallPhase ε α) :
    (f.move cache i key p).calls.countP q + (q call).toNat =
      f.calls.countP q + (q ⟨key, p⟩).toNat := by
  obtain ⟨hi, rfl⟩ := List.getElem?_eq_some_iff.mp here
  have hset := List.countP_set (p := q) (a := ⟨key, p⟩) hi
  have hpos (hq : q f.calls[i] = true) : 0 < f.calls.countP q :=
    List.countP_pos_iff.mpr ⟨_, List.getElem_mem hi, hq⟩
  rw [move, hset]
  cases hold : q f.calls[i] with
  | false => cases q ⟨key, p⟩ <;> simp
  | true =>
      have := hpos hold
      cases q ⟨key, p⟩ <;> simp <;> omega

/-- How many calls have come to the gate of a key and have not left it. -/
def atGateOf (f : Flight ε α) (key : String) : Nat :=
  f.calls.countP fun call => call.key == key && call.phase.gate?.isSome

theorem atGateOf_pos {gate : Nat} (here : f.calls[i]? = some ⟨key, p⟩)
    (hgate : p.gate? = some gate) : 0 < f.atGateOf key :=
  List.countP_pos_iff.mpr ⟨_, List.mem_of_getElem? here, by simp [hgate]⟩

theorem atGateOf_move (here : f.calls[i]? = some ⟨key, old⟩) (cache : Cache α) (p : CallPhase ε α)
    (k : String) : (f.move cache i key p).atGateOf k + (key == k && old.gate?.isSome).toNat =
      f.atGateOf k + (key == k && p.gate?.isSome).toNat :=
  countP_move_call _ here cache key p

theorem atGateOf_stay (here : f.calls[i]? = some ⟨key, old⟩) (cache : Cache α)
    (hstay : p.gate? = old.gate?) (k : String) :
    (f.move cache i key p).atGateOf k = f.atGateOf k := by
  have hcount := atGateOf_move here cache p k
  rw [hstay] at hcount
  exact Nat.add_right_cancel hcount

theorem atGateOf_enter {gate : Nat} (here : f.calls[i]? = some ⟨key, old⟩) (cache : Cache α)
    (houtside : old.gate? = none) (hgate : p.gate? = some gate) (k : String) :
    (f.move cache i key p).atGateOf k = f.atGateOf k + (key == k).toNat := by
  simpa [houtside, hgate] using atGateOf_move here cache p k

theorem atGateOf_leave {gate : Nat} (here : f.calls[i]? = some ⟨key, old⟩) (cache : Cache α)
    (hgate : old.gate? = some gate) (houtside : p.gate? = none) (k : String) :
    (f.move cache i key p).atGateOf k + (key == k).toNat = f.atGateOf k := by
  simpa [houtside, hgate] using atGateOf_move here cache p k

theorem atGateOf_append (cache : Cache α) (houtside : p.gate? = none) (k : String) :
    Flight.atGateOf ⟨cache, f.calls ++ [⟨key, p⟩]⟩ k = f.atGateOf k := by
  simp [atGateOf, houtside]

/-! ## At most one call -/

/-- No two calls are of one kind. -/
def AtMostOne (f : Flight ε α) (kind : Call ε α → Prop) : Prop :=
  ∀ (i j : Nat) (x y : Call ε α), f.calls[i]? = some x → kind x → f.calls[j]? = some y → kind y →
    i = j

section

variable {kind : Call ε α → Prop} {cache : Cache α}

theorem AtMostOne.move_of_imp (h : f.AtMostOne kind) (here : f.calls[i]? = some ⟨key, old⟩)
    (hold : kind ⟨key, p⟩ → kind ⟨key, old⟩) : (f.move cache i key p).AtMostOne kind := by
  -- who is of the kind was so before, at the same place
  have hbefore (j : Nat) (x : Call ε α) (hx : (f.move cache i key p).calls[j]? = some x)
      (hkind : kind x) : ∃ y, f.calls[j]? = some y ∧ kind y := by
    rcases call_move hx with ⟨rfl, rfl⟩ | ⟨hx, -⟩
    · exact ⟨_, here, hold hkind⟩
    · exact ⟨x, hx, hkind⟩
  intro j k x y hx hkx hy hky
  obtain ⟨x', hx', hkx'⟩ := hbefore j x hx hkx
  obtain ⟨y', hy', hky'⟩ := hbefore k y hy hky
  exact h j k x' y' hx' hkx' hy' hky'

theorem AtMostOne.move_of_none
    (hnone : ∀ (j : Nat) (x : Call ε α), f.calls[j]? = some x → ¬ kind x) :
    (f.move cache i key p).AtMostOne kind := by
  intro j k x y hx hkx hy hky
  rcases call_move hx with ⟨-, rfl⟩ | ⟨hx, -⟩
  · rcases call_move hy with ⟨-, rfl⟩ | ⟨hy, -⟩
    · rfl
    · exact absurd hky (hnone k y hy)
  · exact absurd hkx (hnone j x hx)

theorem AtMostOne.append (h : f.AtMostOne kind) {new : Call ε α} (hnew : ¬ kind new) :
    Flight.AtMostOne ⟨cache, f.calls ++ [new]⟩ kind := by
  intro j k x y hx hkx hy hky
  rcases call_append hx with hx | ⟨rfl, -⟩
  · rcases call_append hy with hy | ⟨rfl, -⟩
    · exact h j k x y hx hkx hy hky
    · exact absurd hky hnew
  · exact absurd hkx hnew

end

/-! ## The gates -/

/-- While the cache is not disposed of, all calls at the gate of a key know it by the number that it
has, and it counts them all.  No two calls are inside one gate, and of those for one key no two were
admitted. -/
structure Guarded (f : Flight ε α) : Prop where
  number : f.cache.isDisposed = false → ∀ (i : Nat) (k : String) (q : CallPhase ε α) (gate : Nat),
    f.calls[i]? = some ⟨k, q⟩ → q.gate? = some gate → f.cache.gateAt? k = some gate
  enough : f.cache.isDisposed = false → ∀ k, f.atGateOf k ≤ f.cache.usersAt k
  locks : ∀ gate, f.AtMostOne fun call => call.phase.inside? = some gate
  alone : ∀ k, f.AtMostOne fun call => call.key = k ∧ call.phase.isAdmitted = true

namespace Guarded

variable {d : Cache α} {gate : Nat}

theorem of_no_calls (c : Cache α) : (Flight.mk c [] : Flight ε α).Guarded :=
  ⟨nofun, fun _ _ => Nat.zero_le _, nofun, nofun⟩

theorem with_cache (h : f.Guarded) (hsame : f.cache.SameGates d) :
    Guarded { f with cache := d } where
  number hopen i k q gate hi hgate :=
    (Cache.gateAt?_congr hsame.gates).trans
      (h.number (hsame.isDisposed.symm.trans hopen) i k q gate hi hgate)
  enough hopen k :=
    le_of_le_of_eq (h.enough (hsame.isDisposed.symm.trans hopen) k) (hsame.usersAt k).symm
  locks := h.locks
  alone := h.alone

/-- Another call starts, and it is not at a gate yet. -/
theorem append (h : f.Guarded) (houtside : p.gate? = none) (hsame : f.cache.SameGates d) :
    Guarded ⟨d, f.calls ++ [⟨key, p⟩]⟩ where
  number hopen i k q gate hi hgate := by
    rcases call_append hi with hi | ⟨hnew, -⟩
    · exact (h.with_cache hsame).number hopen i k q gate hi hgate
    · cases hnew
      rw [houtside] at hgate
      cases hgate
  enough hopen k := by
    rw [atGateOf_append d houtside]
    exact (h.with_cache hsame).enough hopen k
  locks gate := (h.locks gate).append fun hinside => by
    rw [CallPhase.inside?_of_no_gate houtside] at hinside
    cases hinside
  alone k := (h.alone k).append fun hadmitted => by
    rw [CallPhase.isAdmitted_of_no_gate houtside] at hadmitted
    cases hadmitted.2

/-- A call goes on at the gate where it is. -/
theorem stay (h : f.Guarded) (here : f.calls[i]? = some ⟨key, old⟩) (hstay : p.gate? = old.gate?)
    (hsame : f.cache.SameGates d)
    (hlocks : ∀ gate, (f.move d i key p).AtMostOne fun call => call.phase.inside? = some gate)
    (halone : ∀ k, (f.move d i key p).AtMostOne fun call =>
      call.key = k ∧ call.phase.isAdmitted = true) :
    (f.move d i key p).Guarded where
  number hopen j k q gate hj hgate := by
    have hbefore := h.with_cache hsame
    rcases call_move hj with ⟨hnew, rfl⟩ | ⟨hj, -⟩
    · cases hnew
      exact hbefore.number hopen j key old gate here (hstay.symm.trans hgate)
    · exact hbefore.number hopen j k q gate hj hgate
  enough hopen k := by
    rw [atGateOf_stay here d hstay]
    exact (h.with_cache hsame).enough hopen k
  locks := hlocks
  alone := halone

/-- A call goes on, and is inside and admitted only if it was so before. -/
theorem goOn (h : f.Guarded) (here : f.calls[i]? = some ⟨key, old⟩) (hstay : p.gate? = old.gate?)
    (hinside : ∀ gate, p.inside? = some gate → old.inside? = some gate)
    (hadmitted : p.isAdmitted = true → old.isAdmitted = true) (hsame : f.cache.SameGates d) :
    (f.move d i key p).Guarded :=
  h.stay here hstay hsame (fun gate => (h.locks gate).move_of_imp here (hinside gate))
    fun k => (h.alone k).move_of_imp here (And.imp_right hadmitted)

theorem enter (h : f.Guarded) (here : f.calls[i]? = some ⟨key, .missed⟩) :
    (f.move (f.cache.enterGate key).2 i key (.waiting (f.cache.enterGate key).1)).Guarded := by
  have henters := f.cache.enterGate_enters key
  have hopen := f.cache.enterGate_isDisposed key
  refine ⟨fun hopen' j k q gate hj hgate => ?_, fun hopen' k => ?_, fun gate => ?_, fun k => ?_⟩
  · rcases call_move hj with ⟨hnew, -⟩ | ⟨hj, -⟩
    · cases hnew
      exact henters.number_eq.trans hgate
    · have hthere := h.number (hopen.symm.trans hopen') j k q gate hj hgate
      by_cases hk : k = key
      · subst hk
        rw [henters.same_gate gate hthere]
        exact henters.number_eq
      · show (f.cache.enterGate key).2.gateAt? k = some gate
        rw [Cache.gateAt?, f.cache.get?_enterGate_of_ne hk]
        exact hthere
  · rw [atGateOf_enter here _ rfl rfl]
    exact le_of_le_of_eq (Nat.add_le_add_right (h.enough (hopen.symm.trans hopen') k) _)
      (f.cache.usersAt_enterGate key k).symm
  · refine (h.locks gate).move_of_imp here fun hinside => ?_
    cases hinside
  · refine (h.alone k).move_of_imp here fun hadmitted => ?_
    cases hadmitted.2

/-- A call is let in when nobody is inside. -/
theorem lock (h : f.Guarded) (here : f.calls[i]? = some ⟨key, .waiting gate⟩)
    (free : f.isFree gate = true) : (f.move f.cache i key (.inside gate)).Guarded := by
  refine h.stay here rfl (.refl _) (fun g => ?_) fun k => (h.alone k).move_of_imp here nofun
  by_cases hg : g = gate
  · subst hg
    exact .move_of_none (isFree_iff.mp free)
  · exact (h.locks g).move_of_imp here fun hinside => absurd (Option.some.inj hinside).symm hg

/-- A call that is inside while the cache is not disposed of is the only one for its key. -/
theorem eq_of_inside (h : f.Guarded) (hopen : f.cache.isDisposed = false)
    (hi : f.calls[i]? = some ⟨key, old⟩) (hold : old.inside? = some gate) {g : Nat}
    (hj : f.calls[j]? = some ⟨key, p⟩) (hp : p.inside? = some g) : i = j := by
  have hgate := h.number hopen i key old gate hi (CallPhase.gate?_of_inside? hold)
  have hother := h.number hopen j key p g hj (CallPhase.gate?_of_inside? hp)
  obtain rfl : gate = g := Option.some.inj (hgate.symm.trans hother)
  exact h.locks gate i j _ _ hi hold hj hp

/-- A call that is not refused was inside alone. -/
theorem check (h : f.Guarded) (hopen : f.cache.isDisposed = false)
    (here : f.calls[i]? = some ⟨key, .inside gate⟩) :
    (f.move f.cache i key (.admitted gate)).Guarded := by
  refine h.stay here rfl (.refl _) (fun g => (h.locks g).move_of_imp here id) fun k => ?_
  by_cases hk : k = key
  · subst hk
    refine .move_of_none fun j x hx hadmitted => ?_
    obtain ⟨k', q⟩ := x
    obtain ⟨rfl, hadmitted⟩ := hadmitted
    obtain ⟨g, hinside⟩ := CallPhase.exists_inside?_of_isAdmitted hadmitted
    obtain rfl := h.eq_of_inside hopen here rfl hx hinside
    rw [here] at hx
    cases hx
    cases hadmitted
  · exact (h.alone k).move_of_imp here fun hadmitted => absurd hadmitted.1.symm hk

theorem leave (h : f.Guarded) (here : f.calls[i]? = some ⟨key, old⟩) (hold : old.gate? = some gate)
    (houtside : p.isOver = true) : (f.move (f.cache.leaveGate key) i key p).Guarded := by
  have hopen := f.cache.leaveGate_isDisposed key
  have hnoGate : p.gate? = none := CallPhase.gate?_of_isOver houtside
  have hcount := atGateOf_leave here (f.cache.leaveGate key) hold hnoGate
  refine ⟨fun hopen' j k q g hj hgate => ?_, fun hopen' k => ?_, fun g => ?_, fun k => ?_⟩
  · have hleft := hj
    rcases call_move hj with ⟨hnew, -⟩ | ⟨hj, -⟩
    · cases hnew
      rw [hnoGate] at hgate
      cases hgate
    refine Eq.trans ?_ (h.number (hopen.symm.trans hopen') j k q g hj hgate)
    show (f.cache.leaveGate key).gateAt? k = f.cache.gateAt? k
    by_cases hk : k = key
    · -- the call that stays is counted too, so the gate stays
      subst hk
      refine Cache.gateAt?_leaveGate ?_
      have hstays := atGateOf_pos hleft hgate
      have henough := h.enough (hopen.symm.trans hopen') k
      have hcount := hcount k
      rw [beq_self_eq_true, Bool.toNat_true] at hcount
      omega
    · rw [Cache.gateAt?, f.cache.get?_leaveGate_of_ne hk, Cache.gateAt?]
  · have husers := f.cache.usersAt_leaveGate_eq key k
    have henough := h.enough (hopen.symm.trans hopen') k
    have hcount := hcount k
    show _ ≤ (f.cache.leaveGate key).usersAt k
    omega
  · refine (h.locks g).move_of_imp here fun hinside => ?_
    rw [CallPhase.inside?_of_no_gate hnoGate] at hinside
    cases hinside
  · refine (h.alone k).move_of_imp here fun hadmitted => ?_
    rw [CallPhase.isAdmitted_of_no_gate hnoGate] at hadmitted
    cases hadmitted.2

theorem dispose (h : f.Guarded) : Guarded { f with cache := f.cache.dispose } := by
  have hdisposed (hopen : f.cache.dispose.isDisposed = false) : False := by
    rw [Cache.dispose_isDisposed] at hopen
    cases hopen
  exact ⟨fun hopen => (hdisposed hopen).elim, fun hopen => (hdisposed hopen).elim, h.locks, h.alone⟩

/-- What one step does to the gates. -/
theorem move (h : f.Guarded) (hmoves : Moves ofCacheError f s f') : f'.Guarded := by
  cases hmoves with
  | idle => exact h
  | start => exact h.append (CallPhase.gate?_ofFirstLook ..) (f.cache.get_sameGates _)
  | enter here => exact h.enter here
  | lock here free => exact h.lock here free
  | @check i gate key here =>
      cases hrefused : f.cache.refusal? key with
      | none => exact h.check (Cache.isDisposed_of_not_refused hrefused) here
      | some err => exact h.goOn here rfl nofun nofun (.refl _)
  | @look i gate key here =>
      have hsame := f.cache.lookAgain_sameGates key
      cases (f.cache.lookAgain key).1 with
      | none => exact h.goOn here rfl (fun _ => id) id hsame
      | some v => exact h.goOn here rfl nofun nofun hsame
  | begin here => exact h.goOn here rfl (fun _ => id) id (.refl _)
  | store here =>
      exact h.goOn here rfl nofun nofun (f.cache.keep_sameGates ofCacheError _ _)
  | dropWaiting here => exact h.goOn here rfl nofun nofun (.refl _)
  | dropRunning here => exact h.goOn here rfl nofun nofun (.refl _)
  | leaveEnded here => exact h.leave here rfl rfl
  | leaveGivenUp here => exact h.leave here rfl rfl
  | dispose => exact h.dispose

end Guarded

end Flight
end ComponentAtlas
