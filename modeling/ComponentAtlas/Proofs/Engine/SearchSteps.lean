import ComponentAtlas.Engine.Session
import ComponentAtlas.Proofs.Engine.Step
import ComponentAtlas.Proofs.Search.Key

/-!
# A search in steps

A search that nobody gets in the way of is what the engine does in one go (`finish_eq_search`).  In
between other steps it stays the same request (`run_call`): it keeps the snapshot that it took,
which was the published one when it took it, and three steps of its own bring it to its end.
-/

namespace ComponentAtlas

namespace SearchCall

/-- All steps of a search, one right after the other. -/
def finish (e : Engine) (c : SearchCall) : Engine × SearchCall :=
  let first := c.advance e
  let second := first.2.advance first.1
  second.2.advance second.1

theorem finish_eq_search (e : Engine) (query : String) (fields : SearchFields) (limit : Nat) :
    (finish e ⟨query, fields, limit, .start⟩).1 = (e.search query fields limit).2 ∧
      (finish e ⟨query, fields, limit, .start⟩).2.stage.result? =
        some (e.search query fields limit).1 := by
  cases hs : e.snapshot with
  | none =>
      simp [finish, advance, Engine.search, Engine.current, SearchStage.result?, hs]
  | some s =>
      cases hf : Engine.searchFault? query fields limit with
      | some err =>
          simp [finish, advance, Engine.search, Engine.current, SearchStage.result?, hs, hf]
      | none =>
          simp only [finish, advance, Engine.search, Engine.current, keyFor, hs, hf]
          rcases hget : e.searchCache.get
              (Engine.searchKey s.generation fields limit (Snapshot.needleOf query)) with ⟨r, d⟩
          rcases r with err | found
          · simp [SearchStage.result?]
          · rcases found with - | results
            · rcases hset : d.set
                (Engine.searchKey s.generation fields limit (Snapshot.needleOf query))
                (s.search query fields limit) with ⟨r, d'⟩
              cases r <;> simp [SearchStage.result?, hset]
            · simp [SearchStage.result?]

/-! ## The steps one by one -/

/-- What one step of a search does to the engine and to the search.  A step that reads or writes the
results that are kept is refused by a disposed cache alone, because no key of a search is blank. -/
inductive Moves (e : Engine) (c : SearchCall) : Engine → SearchCall → Prop
  | refuse (stage : c.stage = .start) (absent : e.snapshot = none) :
      Moves e c e { c with stage := .refused }
  | fault {s : Snapshot} {err : IndexError} (stage : c.stage = .start)
      (loaded : e.snapshot = some s)
      (fault : Engine.searchFault? c.query c.fields c.limit = some err) :
      Moves e c e { c with stage := .answered s (.error err) }
  | take {s : Snapshot} (stage : c.stage = .start) (loaded : e.snapshot = some s)
      (proper : Engine.searchFault? c.query c.fields c.limit = none) :
      Moves e c e { c with stage := .looking s }
  | disposed {s : Snapshot} (stage : c.stage = .looking s ∨ c.stage = .missed s)
      (gone : e.searchCache.isDisposed = true) :
      Moves e c e { c with stage := .answered s (.error (.cache .disposed)) }
  | hit {s : Snapshot} {results : List Component} {d : Cache (List Component)}
      (stage : c.stage = .looking s) (held : e.searchCache.Holds (c.keyFor s) results)
      (less : d.HoldsLess e.searchCache) (same : d.isDisposed = e.searchCache.isDisposed) :
      Moves e c { e with searchCache := d } { c with stage := .answered s (.ok results) }
  | miss {s : Snapshot} {d : Cache (List Component)} (stage : c.stage = .looking s)
      (less : d.HoldsLess e.searchCache) (same : d.isDisposed = e.searchCache.isDisposed) :
      Moves e c { e with searchCache := d } { c with stage := .missed s }
  | keep {s : Snapshot} {d : Cache (List Component)} (stage : c.stage = .missed s)
      (held : ∀ key results, d.Holds key results →
        (key = c.keyFor s ∧ results = s.search c.query c.fields c.limit) ∨
          e.searchCache.Holds key results)
      (same : d.isDisposed = e.searchCache.isDisposed) :
      Moves e c { e with searchCache := d }
        { c with stage := .answered s (.ok (s.search c.query c.fields c.limit)) }
  | rest (stage : c.stage.stepsLeft = 0) : Moves e c e c

theorem advance_moves (e : Engine) (c : SearchCall) :
    Moves e c (c.advance e).1 (c.advance e).2 := by
  cases hstage : c.stage with
  | start =>
      simp only [advance, hstage]
      cases hs : e.snapshot with
      | none => exact .refuse hstage hs
      | some s =>
          cases hf : Engine.searchFault? c.query c.fields c.limit with
          | some err => exact .fault hstage hs hf
          | none => exact .take hstage hs hf
  | looking s =>
      simp only [advance, hstage]
      rcases Cache.get_cases e.searchCache (c.keyFor s) with
        ⟨err, hrefused, hget⟩ | ⟨found, d, -, hget, hless, hsame, hfound⟩
      · obtain ⟨rfl, hgone⟩ :=
          Cache.isDisposed_of_refused (Engine.searchKey_not_blank ..) hrefused
        simp only [hget]
        exact .disposed (Or.inl hstage) hgone
      · cases found with
        | none =>
            simp only [hget]
            exact .miss hstage hless hsame
        | some results =>
            simp only [hget]
            exact .hit hstage (hfound results rfl) hless hsame
  | missed s =>
      simp only [advance, hstage]
      rcases Cache.set_cases e.searchCache (c.keyFor s) (s.search c.query c.fields c.limit) with
        ⟨err, hrefused, hset⟩ | ⟨d, -, hset, hsame, hheld⟩
      · obtain ⟨rfl, hgone⟩ :=
          Cache.isDisposed_of_refused (Engine.searchKey_not_blank ..) hrefused
        simp only [hset]
        exact .disposed (Or.inr hstage) hgone
      · simp only [hset]
        exact .keep hstage hheld hsame
  | answered s r =>
      simp only [advance, hstage]
      exact .rest (by rw [hstage]; rfl)
  | refused =>
      simp only [advance, hstage]
      exact .rest (by rw [hstage]; rfl)

/-- The calls with the same request. -/
def SameRequest (c d : SearchCall) : Prop :=
  d.query = c.query ∧ d.fields = c.fields ∧ d.limit = c.limit

namespace Moves

variable {e e' : Engine} {c c' : SearchCall}

theorem sameRequest (h : Moves e c e' c') : c.SameRequest c' := by
  cases h <;> exact ⟨rfl, rfl, rfl⟩

theorem stepsLeft_le (h : Moves e c e' c') :
    c'.stage.stepsLeft ≤ c.stage.stepsLeft - 1 := by
  cases h with
  | refuse stage _ => simp [stage, SearchStage.stepsLeft]
  | fault stage _ _ => simp [stage, SearchStage.stepsLeft]
  | take stage _ _ => simp [stage, SearchStage.stepsLeft]
  | disposed _ _ => simp [SearchStage.stepsLeft]
  | hit _ _ _ _ => simp [SearchStage.stepsLeft]
  | miss stage _ _ => simp [stage, SearchStage.stepsLeft]
  | keep _ _ _ => simp [SearchStage.stepsLeft]
  | rest stage => simp [stage]

theorem refused (h : Moves e c e' c') (hr : c'.stage = .refused) :
    c.stage = .refused ∨ e.snapshot = none := by
  cases h with
  | refuse _ absent => exact Or.inr absent
  | rest _ => exact Or.inl hr
  | fault _ _ _ | take _ _ _ | disposed _ _ | hit _ _ _ _ | miss _ _ _ | keep _ _ _ => cases hr

/-- The snapshot that a search has after a step is the one that it had, or else the published
one. -/
theorem snapshot? (h : Moves e c e' c') {s : Snapshot} (hs : c'.stage.snapshot? = some s) :
    c.stage.snapshot? = some s ∨ (c.stage.snapshot? = none ∧ e.snapshot = some s) := by
  cases h with
  | refuse _ _ => cases hs
  | fault stage loaded _ =>
      obtain rfl := Option.some.inj hs
      exact Or.inr ⟨by rw [stage]; rfl, loaded⟩
  | take stage loaded _ =>
      obtain rfl := Option.some.inj hs
      exact Or.inr ⟨by rw [stage]; rfl, loaded⟩
  | disposed stage _ =>
      rcases stage with stage | stage <;> exact Or.inl (by rw [stage]; exact hs)
  | hit stage _ _ _ => exact Or.inl (by rw [stage]; exact hs)
  | miss stage _ _ => exact Or.inl (by rw [stage]; exact hs)
  | keep stage _ _ => exact Or.inl (by rw [stage]; exact hs)
  | rest _ => exact Or.inl hs

/-- A search that has begun keeps its snapshot, and one that begins takes the published one. -/
theorem snapshot?_of (h : Moves e c e' c') {s : Snapshot}
    (hs : c.stage.snapshot? = some s ∨ (c.stage = .start ∧ e.snapshot = some s)) :
    c'.stage.snapshot? = some s := by
  cases h with
  | refuse stage absent => simp_all [SearchStage.snapshot?]
  | fault stage loaded _ => simp_all [SearchStage.snapshot?]
  | take stage loaded _ => simp_all [SearchStage.snapshot?]
  | disposed stage _ => rcases stage with stage | stage <;> simp_all [SearchStage.snapshot?]
  | hit stage _ _ _ => simp_all [SearchStage.snapshot?]
  | miss stage _ _ => simp_all [SearchStage.snapshot?]
  | keep stage _ _ => simp_all [SearchStage.snapshot?]
  | rest stage =>
      rcases hs with hs | ⟨hstart, -⟩
      · exact hs
      · simp [hstart, SearchStage.stepsLeft] at stage

theorem snapshot_eq (h : Moves e c e' c') : e'.snapshot = e.snapshot := by
  cases h <;> rfl

theorem generation_eq (h : Moves e c e' c') : e'.generation = e.generation := by
  cases h <;> rfl

theorem snapshotCache_eq (h : Moves e c e' c') : e'.snapshotCache = e.snapshotCache := by
  cases h <;> rfl

theorem isLocked_eq (h : Moves e c e' c') : e'.isLocked = e.isLocked := by
  cases h <;> rfl

theorem isBuilding_eq (h : Moves e c e' c') : e'.isBuilding = e.isBuilding := by
  cases h <;> rfl

theorem results_isDisposed (h : Moves e c e' c') :
    e'.searchCache.isDisposed = e.searchCache.isDisposed := by
  cases h with
  | hit _ _ _ same | miss _ _ same | keep _ _ same => exact same
  | refuse _ _ | fault _ _ _ | take _ _ _ | disposed _ _ | rest _ => rfl

end Moves

/-- All steps of a search are three single ones. -/
theorem finish_moves (e : Engine) (c : SearchCall) :
    ∃ e1 c1 e2 c2, Moves e c e1 c1 ∧ Moves e1 c1 e2 c2 ∧
      Moves e2 c2 (c.finish e).1 (c.finish e).2 := by
  unfold finish
  have h1 := advance_moves e c
  have h2 := advance_moves (c.advance e).1 (c.advance e).2
  exact ⟨_, _, _, _, h1, h2, advance_moves ..⟩

theorem finish_isDisposed (e : Engine) (c : SearchCall) :
    (c.finish e).1.searchCache.isDisposed = e.searchCache.isDisposed := by
  obtain ⟨e1, c1, e2, c2, h1, h2, h3⟩ := finish_moves e c
  rw [h3.results_isDisposed, h2.results_isDisposed, h1.results_isDisposed]

theorem finish_snapshot? {e : Engine} {c : SearchCall} {s : Snapshot} (hc : c.stage = .start)
    (hs : e.snapshot = some s) : (c.finish e).2.stage.snapshot? = some s := by
  obtain ⟨e1, c1, e2, c2, h1, h2, h3⟩ := finish_moves e c
  have hs1 := h1.snapshot?_of (Or.inr ⟨hc, hs⟩)
  have hs2 := h2.snapshot?_of (Or.inl hs1)
  exact h3.snapshot?_of (Or.inl hs2)

end SearchCall

/-! ## A search among other steps -/

namespace Session

variable {σ τ : Session} {st : SessionStep} {i : Nat} {c : SearchCall}

theorem Change.isIndexed (h : σ.Change st τ) (hi : σ.engine.isIndexed = true) :
    τ.engine.isIndexed = true := by
  cases h with
  | begin _ | ask _ _ _ | idle _ => exact hi
  | advance _ _ => exact (Crowd.advance_effect ..).isIndexed hi
  | giveUp _ => exact (Crowd.abandon_effect ..).isIndexed hi
  | @search _ d _ =>
      show (d.advance σ.engine).1.snapshot.isSome = true
      rw [(SearchCall.advance_moves σ.engine d).snapshot_eq]
      exact hi
  | @age _ e' _ ages =>
      show e'.snapshot.isSome = true
      rw [ages.snapshot]
      exact hi

/-- No step but its own touches a search. -/
theorem Change.call (h : σ.Change st τ) (hc : σ.searches[i]? = some c)
    (hst : st.isOfSearch i = false) : τ.searches[i]? = some c := by
  cases h with
  | begin _ | advance _ _ | giveUp _ | age _ _ | idle _ => exact hc
  | ask query fields limit =>
      have hlt : i < σ.searches.length := (List.getElem?_eq_some_iff.mp hc).1
      rwa [List.getElem?_append_left hlt]
  | @search call _ _ =>
      have hne : call ≠ i := by simpa [SessionStep.isOfSearch] using hst
      rwa [List.getElem?_set_ne hne]

theorem step_search (hc : σ.searches[i]? = some c) :
    (σ.step (.search i)).searches[i]? = some (c.advance σ.engine).2 := by
  have hlt : i < σ.searches.length := (List.getElem?_eq_some_iff.mp hc).1
  rw [step_search_eq hc]
  exact List.getElem?_set_self hlt

theorem step_search_engine (hc : σ.searches[i]? = some c) :
    (σ.step (.search i)).engine = (c.advance σ.engine).1 := by
  rw [step_search_eq hc]
  rfl

/-- The steps of a search, one right after the other. -/
theorem run_finish (hc : σ.searches[i]? = some c) :
    (σ.run [.search i, .search i, .search i]).engine = (c.finish σ.engine).1 ∧
      (σ.run [.search i, .search i, .search i]).searches[i]? = some (c.finish σ.engine).2 := by
  have h1 := step_search hc
  have h2 := step_search h1
  have h3 := step_search h2
  have he := step_search_engine h2
  rw [step_search_engine h1, step_search_engine hc] at h3 he
  rw [run_cons, run_cons, run_cons]
  exact ⟨he, h3⟩

/-- What has become of a search after some steps, when there was a snapshot to take. -/
structure CallAfter (σ : Session) (steps : List SessionStep) (i : Nat) (c d : SearchCall) :
    Prop where
  request : c.SameRequest d
  not_refused : d.stage ≠ .refused
  stepsLeft : d.stage.stepsLeft ≤ c.stage.stepsLeft - steps.countP (·.isOfSearch i)
  /-- A snapshot that it took meanwhile was the published one at some moment. -/
  taken : ∀ s, d.stage.snapshot? = some s → c.stage.snapshot? = some s ∨
    ∃ early late, steps = early ++ late ∧ (σ.run early).engine.snapshot = some s

theorem run_call (steps : List SessionStep) (hc : σ.searches[i]? = some c)
    (hi : σ.engine.isIndexed = true) (hr : c.stage ≠ .refused) :
    ∃ d, (σ.run steps).searches[i]? = some d ∧ CallAfter σ steps i c d := by
  induction steps generalizing σ c with
  | nil => exact ⟨c, hc, ⟨rfl, rfl, rfl⟩, hr, Nat.le_refl _, fun s hs => Or.inl hs⟩
  | cons st steps ih =>
      have hi' := (σ.step_change st).isIndexed hi
      cases hst : st.isOfSearch i with
      | false =>
          obtain ⟨d, hd, hafter⟩ := ih ((σ.step_change st).call hc hst) hi' hr
          refine ⟨d, hd, hafter.request, hafter.not_refused, ?_, fun s hs => ?_⟩
          · simpa [List.countP_cons, hst] using hafter.stepsLeft
          · rcases hafter.taken s hs with h | ⟨early, late, rfl, h⟩
            · exact Or.inl h
            · exact Or.inr ⟨st :: early, late, rfl, h⟩
      | true =>
          obtain rfl : st = .search i := SessionStep.eq_search_of_isOfSearch hst
          have hmoves := SearchCall.advance_moves σ.engine c
          have hr' : (c.advance σ.engine).2.stage ≠ .refused := fun h => by
            rcases hmoves.refused h with h | h
            · exact hr h
            · simp [Engine.isIndexed, h] at hi
          obtain ⟨d, hd, hafter⟩ := ih (step_search hc) hi' hr'
          obtain ⟨hq, hf, hl⟩ := hmoves.sameRequest
          obtain ⟨hq', hf', hl'⟩ := hafter.request
          refine ⟨d, hd, ⟨hq'.trans hq, hf'.trans hf, hl'.trans hl⟩, hafter.not_refused, ?_,
            fun s hs => ?_⟩
          · have hone := hmoves.stepsLeft_le
            have hrest := hafter.stepsLeft
            simp only [List.countP_cons, hst, if_true]
            omega
          · rcases hafter.taken s hs with h | ⟨early, late, rfl, h⟩
            · rcases hmoves.snapshot? h with h | ⟨-, h⟩
              · exact Or.inl h
              · exact Or.inr ⟨[], _, rfl, h⟩
            · exact Or.inr ⟨.search i :: early, late, rfl, h⟩

end Session
end ComponentAtlas
