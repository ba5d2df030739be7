import ComponentAtlas.Proofs.Engine.SearchSteps
import ComponentAtlas.Proofs.Search.Mention
import ComponentAtlas.Proofs.Text.Blank

/-!
# Kept results are results

Results are kept under a key that names a generation, and a search looks for the key of the snapshot
that it took, which may be an old one by then.  What makes this right is that a generation stands
for one snapshot for ever.  The invariant `Faithful` says so by a history: all snapshots that were
ever given a number, no two the same one.  Every snapshot in circulation is in the history
(published, about to be, or taken by a search), and every entry of the cache, whether live, expired
or of an old generation, is the result of a search of the snapshot in the history that its key
names.  A new number makes the history longer; all other steps leave it as it is.
-/

namespace ComponentAtlas

/-- Some results are those of a search of a snapshot of the history, and the key is its key. -/
def IsResult (history : List Snapshot) (key : String) (results : List Component) : Prop :=
  ∃ s ∈ history, ∃ query fields limit,
    key = Engine.searchKey s.generation fields limit (Snapshot.needleOf query) ∧
      results = s.search query fields limit

theorem IsResult.mono {history : List Snapshot} {s : Snapshot} {key : String}
    {results : List Component} (h : IsResult history key results) :
    IsResult (history ++ [s]) key results := by
  obtain ⟨t, ht, rest⟩ := h
  exact ⟨t, List.mem_append_left _ ht, rest⟩

namespace SearchCall

/-- The result of a search is what its snapshot gives, unless the engine is disposed. -/
def IsRight (e : Engine) (c : SearchCall) : Prop :=
  ∀ s result, c.stage = .answered s result →
    Engine.searchFault? c.query c.fields c.limit = none →
    result = .ok (s.search c.query c.fields c.limit) ∨
      (result = .error (.cache .disposed) ∧ e.searchCache.isDisposed = true)

theorem IsRight.of_disposed {e e' : Engine} {c : SearchCall} (h : c.IsRight e)
    (hd : e.searchCache.isDisposed = true → e'.searchCache.isDisposed = true) : c.IsRight e' := by
  intro s result hstage hproper
  exact (h s result hstage hproper).imp_right fun ⟨hr, hg⟩ => ⟨hr, hd hg⟩

end SearchCall

/-- A session whose snapshots are told apart by their numbers and whose kept results are results. -/
structure Faithful (history : List Snapshot) (σ : Session) : Prop where
  numbered : ∀ s ∈ history, s.generation ≤ σ.engine.generation
  unique : ∀ s ∈ history, ∀ t ∈ history, s.generation = t.generation → s = t
  published : ∀ s, σ.engine.snapshot = some s → s ∈ history
  pending : ∀ t ∈ σ.crowd.tasks, ∀ s, t.stage = .numbered s → s ∈ history
  taken : ∀ c ∈ σ.searches, ∀ s, c.stage.snapshot? = some s → s ∈ history
  kept : ∀ key results, σ.engine.searchCache.Holds key results → IsResult history key results
  right : ∀ c ∈ σ.searches, c.IsRight σ.engine

namespace Faithful

variable {history : List Snapshot} {σ : Session}

theorem ofSettings (settings : Settings) (windows : Windows) :
    Faithful [] (.ofSettings settings windows) where
  numbered := by simp
  unique := by simp
  published := by simp [Session.ofSettings, Session.engine, Engine.ofSettings]
  pending := by simp [Session.ofSettings]
  taken := by simp [Session.ofSettings]
  kept := fun _ _ h => absurd h (Cache.ofWindows_holds_nothing _ _ _)
  right := by simp [Session.ofSettings]

/-- The step of a task, or its being given up: whatever has the effect of one. -/
theorem of_effect (h : Faithful history σ) {i : Nat} {t t' : Task} {e' : Engine}
    (ht : σ.crowd.tasks[i]? = some t) (heffect : Crowd.Effect σ.engine t.stage e' t'.stage) :
    ∃ history', Faithful history' ⟨⟨e', σ.crowd.tasks.set i t'⟩, σ.searches⟩ := by
  have hmem : t ∈ σ.crowd.tasks := List.mem_of_getElem? ht
  have hdisposed := heffect.results_isDisposed
  have hright : ∀ c ∈ σ.searches, c.IsRight e' := fun c hc =>
    (h.right c hc).of_disposed fun hg => hdisposed.trans hg
  have hless := heffect.results_holdsLess
  generalize hstage : t.stage = before, hstage' : t'.stage = after at heffect
  -- a task other than the one that moved is at the stage where it was
  have hpending : ∀ u ∈ σ.crowd.tasks.set i t', ∀ s, u.stage = .numbered s →
      s ∈ history ∨ after = .numbered s := by
    intro u hu s hs
    rcases List.mem_or_eq_of_mem_set hu with hu | rfl
    · exact Or.inl (h.pending u hu s hs)
    · exact Or.inr (hstage'.symm.trans hs)
  cases heffect with
  | quiet hsnapshot hgeneration hresults _ hnumbered =>
      refine ⟨history, ?_, h.unique, ?_, ?_, h.taken, fun key r hr => h.kept key r (hless key r hr),
        hright⟩
      · intro s hs
        rw [show Session.engine ⟨⟨e', _⟩, _⟩ = e' from rfl, hgeneration]
        exact h.numbered s hs
      · intro s hs
        exact h.published s (hsnapshot.symm.trans hs)
      · intro u hu s hs
        rcases hpending u hu s hs with hin | hafter
        · exact hin
        · exact h.pending t hmem s (hstage.trans (hnumbered s hafter))
  | number s =>
      -- the new number is greater than all numbers of the history
      refine ⟨history ++ [{ s with generation := σ.engine.generation + 1 }], ?_, ?_, ?_, ?_, ?_,
        fun key r hr => (h.kept key r hr).mono, hright⟩
      · intro u hu
        rcases List.mem_append.mp hu with hu | hu
        · exact Nat.le_succ_of_le (h.numbered u hu)
        · obtain rfl := List.mem_singleton.mp hu
          exact Nat.le_refl _
      · intro u hu v hv huv
        simp only [List.mem_append, List.mem_singleton] at hu hv
        rcases hu with hu | rfl <;> rcases hv with hv | rfl
        · exact h.unique u hu v hv huv
        · have := h.numbered u hu
          simp only at huv
          omega
        · have := h.numbered v hv
          simp only at huv
          omega
        · rfl
      · exact fun u hu => List.mem_append_left _ (h.published u hu)
      · intro u hu v hv
        rcases hpending u hu v hv with hin | hafter
        · exact List.mem_append_left _ hin
        · obtain rfl := TaskStage.numbered.inj hafter
          exact List.mem_append_right _ (List.mem_singleton.mpr rfl)
      · exact fun c hc u hu => List.mem_append_left _ (h.taken c hc u hu)
  | publish s =>
      refine ⟨history, h.numbered, h.unique, ?_, ?_, h.taken, h.kept, hright⟩
      · intro u hu
        obtain rfl := Option.some.inj hu
        exact h.pending t hmem s hstage
      · intro u hu v hv
        exact (hpending u hu v hv).resolve_right (by simp)
  | drop s hafter =>
      rw [Crowd.dropStaleResults_snd] at hless hright ⊢
      refine ⟨history, h.numbered, h.unique, h.published, ?_, h.taken,
        fun key r hr => h.kept key r (hless key r hr), hright⟩
      intro u hu v hv
      exact (hpending u hu v hv).resolve_right (hafter v)

/-- The step of a search.  Only here is something stored, and only here is something served: what is
served under the key of a search was stored under it, so it is the result of a search for the same
fields, limit and text in the snapshot of the same number. -/
theorem of_moves (h : Faithful history σ) {i : Nat} {c c' : SearchCall} {e' : Engine}
    (hc : σ.searches[i]? = some c) (hmoves : c.Moves σ.engine e' c') :
    Faithful history ⟨{ σ.crowd with engine := e' }, σ.searches.set i c'⟩ := by
  have hmem : c ∈ σ.searches := List.mem_of_getElem? hc
  have hdisposed := hmoves.results_isDisposed
  have hgeneration := hmoves.generation_eq
  refine ⟨?_, h.unique, ?_, h.pending, ?_, ?_, ?_⟩
  · intro s hs
    rw [show Session.engine ⟨{ σ.crowd with engine := e' }, _⟩ = e' from rfl, hgeneration]
    exact h.numbered s hs
  · intro s hs
    exact h.published s (hmoves.snapshot_eq.symm.trans hs)
  · intro d hd s hs
    rcases List.mem_or_eq_of_mem_set hd with hd | rfl
    · exact h.taken d hd s hs
    · rcases hmoves.snapshot? hs with hold | ⟨-, hnew⟩
      · exact h.taken c hmem s hold
      · exact h.published s hnew
  · intro key results hheld
    cases hmoves with
    | refuse _ _ | fault _ _ _ | take _ _ _ | disposed _ _ | rest _ => exact h.kept _ _ hheld
    | hit _ _ less _ | miss _ less _ => exact h.kept _ _ (less _ _ hheld)
    | @keep s d stage held _ =>
        rcases held _ _ hheld with ⟨rfl, rfl⟩ | hold
        · exact ⟨s, h.taken c hmem s (by rw [stage]; rfl), c.query, c.fields, c.limit, rfl, rfl⟩
        · exact h.kept _ _ hold
  · intro d hd
    rcases List.mem_or_eq_of_mem_set hd with hd | rfl
    · exact (h.right d hd).of_disposed fun hg => hdisposed.trans hg
    · intro s result hstage hproper
      cases hmoves with
      | refuse _ _ => cases hstage
      | fault _ _ fault => simp [hproper] at fault
      | take _ _ _ => cases hstage
      | disposed _ gone =>
          obtain ⟨rfl, rfl⟩ := SearchStage.answered.inj hstage
          exact Or.inr ⟨rfl, gone⟩
      | @hit s results d stage held _ _ =>
          obtain ⟨rfl, rfl⟩ := SearchStage.answered.inj hstage
          obtain ⟨t, ht, query, fields, limit, hkey, rfl⟩ := h.kept _ _ held
          obtain ⟨hnumber, rfl, rfl, hneedle⟩ := Engine.searchKey_inj hkey
          obtain rfl := h.unique s (h.taken c hmem s (by rw [stage]; rfl)) t ht hnumber
          exact Or.inl (congrArg Except.ok (Snapshot.search_congr hneedle.symm))
      | miss _ _ _ => cases hstage
      | keep _ _ _ =>
          obtain ⟨rfl, rfl⟩ := SearchStage.answered.inj hstage
          exact Or.inl rfl
      | rest _ => exact h.right c hmem s result hstage hproper

theorem of_ages (h : Faithful history σ) {e' : Engine} (hages : σ.engine.Ages e') :
    Faithful history { σ with crowd := { σ.crowd with engine := e' } } where
  numbered s hs := by
    show s.generation ≤ e'.generation
    rw [hages.generation]
    exact h.numbered s hs
  unique := h.unique
  published s hs := h.published s (hages.snapshot.symm.trans hs)
  pending := h.pending
  taken := h.taken
  kept key results hheld := h.kept key results (hages.results key results hheld)
  right c hc := (h.right c hc).of_disposed hages.results_gone

theorem of_ask (h : Faithful history σ) (query : String) (fields : SearchFields) (limit : Nat) :
    Faithful history { σ with searches := σ.searches ++ [⟨query, fields, limit, .start⟩] } := by
  refine ⟨h.numbered, h.unique, h.published, h.pending, ?_, h.kept, ?_⟩
  · intro c hc s hs
    rcases List.mem_append.mp hc with hc | hc
    · exact h.taken c hc s hs
    · obtain rfl := List.mem_singleton.mp hc
      cases hs
  · intro c hc
    rcases List.mem_append.mp hc with hc | hc
    · exact h.right c hc
    · obtain rfl := List.mem_singleton.mp hc
      intro s result hstage
      cases hstage

theorem of_change (h : Faithful history σ) {st : SessionStep} {τ : Session}
    (hchange : σ.Change st τ) : ∃ history', Faithful history' τ := by
  cases hchange with
  | begin kind =>
      refine ⟨history, h.numbered, h.unique, h.published, ?_, h.taken, h.kept, h.right⟩
      intro t ht s hs
      rcases List.mem_append.mp ht with ht | ht
      · exact h.pending t ht s hs
      · obtain rfl := List.mem_singleton.mp ht
        cases hs
  | advance _ there => exact h.of_effect there (Crowd.advance_effect ..)
  | giveUp there => exact h.of_effect there (Crowd.abandon_effect ..)
  | ask query fields limit => exact ⟨history, h.of_ask query fields limit⟩
  | search there => exact ⟨history, h.of_moves there (SearchCall.advance_moves ..)⟩
  | age _ ages => exact ⟨history, h.of_ages ages⟩
  | idle _ => exact ⟨history, h⟩

theorem run (h : Faithful history σ) (steps : List SessionStep) :
    ∃ history', Faithful history' (σ.run steps) := by
  induction steps generalizing history σ with
  | nil => exact ⟨history, h⟩
  | cons st steps ih =>
      obtain ⟨history', h'⟩ := h.of_change (σ.step_change st)
      exact ih h'

end Faithful

/-! ## A search gives what its snapshot gives -/

theorem Engine.searchFault?_eq_none {query : String} {fields : SearchFields} {limit : Nat}
    (hquery : Text.trim query.toList ≠ []) (hfields : fields.isEmpty = false)
    (hlow : 1 ≤ limit) (hhigh : limit ≤ 50) : searchFault? query fields limit = none := by
  have hblank : Text.allBlank query.toList = false := by
    rw [← Bool.not_eq_true, ← Text.trim_eq_nil_iff]
    exact hquery
  have hlimit : ¬ (limit < 1 ∨ maxSearchResults < limit) := by
    unfold maxSearchResults
    omega
  unfold searchFault?
  rw [if_neg (by simp [hblank]), if_neg (by simp [hfields]), if_neg hlimit]

/-- A search that is asked while a snapshot is published, and that gets to take its three steps
before the engine is disposed of, comes to the result of the snapshot that it took. -/
theorem Faithful.answered {history : List Snapshot} {σ : Session} (h : Faithful history σ)
    (hi : σ.engine.isIndexed = true) {query : String} {fields : SearchFields} {limit : Nat}
    (hproper : Engine.searchFault? query fields limit = none) (after : List SessionStep)
    (hsteps : 3 ≤ after.countP (·.isOfSearch σ.searches.length))
    (hd : ((σ.step (.ask query fields limit)).run after).engine.searchCache.isDisposed = false) :
    ∃ c s, ((σ.step (.ask query fields limit)).run after).searches[σ.searches.length]? = some c ∧
      c.stage = .answered s (.ok (s.search query fields limit)) ∧
      ∃ early late, after = early ++ late ∧
        ((σ.step (.ask query fields limit)).run early).engine.snapshot = some s := by
  have hasked : Faithful history (σ.step (.ask query fields limit)) := h.of_ask query fields limit
  obtain ⟨later, hlater⟩ := hasked.run after
  have hcall : (σ.step (.ask query fields limit)).searches[σ.searches.length]? =
      some ⟨query, fields, limit, .start⟩ := by
    simp [Session.step]
  obtain ⟨c, hc, hafter⟩ := Session.run_call after hcall hi (by simp)
  obtain ⟨hq, hf, hl⟩ := hafter.request
  simp only at hq hf hl
  have hend : c.stage.stepsLeft = 0 := by
    have hleft : c.stage.stepsLeft ≤ 3 - after.countP (·.isOfSearch σ.searches.length) :=
      hafter.stepsLeft
    omega
  cases hstage : c.stage with
  | start | looking _ | missed _ => simp [hstage, SearchStage.stepsLeft] at hend
  | refused => exact absurd hstage hafter.not_refused
  | answered s result =>
      have hright := hlater.right c (List.mem_of_getElem? hc) s result hstage
      rw [hq, hf, hl] at hright
      rcases hright hproper with rfl | ⟨-, hgone⟩
      · refine ⟨c, s, hc, hstage, ?_⟩
        rcases hafter.taken s (by rw [hstage]; rfl) with hold | hnew
        · cases hold
        · exact hnew
      · rw [hd] at hgone
        cases hgone

/-- Kept results are never told from results.  Whatever happened before to an engine (requests to
build, searches, time, in any order of their steps) and however its entries stand, a search of the
published snapshot gives its first components that mention the text, and so does a search whose
steps other steps come between, for the snapshot that it took. -/
theorem search_transparent (settings : Settings) (windows : Windows)
    (before after : List SessionStep) (query : String) (fields : SearchFields) (limit : Nat)
    (hquery : Text.trim query.toList ≠ []) (hfields : fields.isEmpty = false)
    (hlow : 1 ≤ limit) (hhigh : limit ≤ 50)
    (hindexed : ((Session.ofSettings settings windows).run before).engine.isIndexed = true) :
    let σ := (Session.ofSettings settings windows).run before
    let asked := σ.step (.ask query fields limit)
    let call := σ.searches.length
    (σ.engine.searchCache.isDisposed = false →
      ∃ s, σ.engine.snapshot = some s ∧
        (σ.engine.search query fields limit).1 = .ok (s.firstMentions query fields limit)) ∧
    (3 ≤ after.countP (·.isOfSearch call) →
      (asked.run after).engine.searchCache.isDisposed = false →
      ∃ c s, (asked.run after).searches[call]? = some c ∧
        c.stage = .answered s (.ok (s.firstMentions query fields limit)) ∧
        ∃ early late, after = early ++ late ∧ (asked.run early).engine.snapshot = some s) := by
  intro σ asked call
  have hproper := Engine.searchFault?_eq_none hquery hfields hlow hhigh
  obtain ⟨history, hσ⟩ := (Faithful.ofSettings settings windows).run before
  refine ⟨fun hd => ?_, fun hsteps hd => ?_⟩
  · -- the search in one go is its three steps with nothing in between
    have hcall : asked.searches[call]? = some ⟨query, fields, limit, .start⟩ := by
      simp [asked, call, Session.step]
    obtain ⟨hengine, hfinished⟩ := Session.run_finish hcall
    have hkept : (asked.run
        [.search call, .search call, .search call]).engine.searchCache.isDisposed = false := by
      rw [hengine, SearchCall.finish_isDisposed]
      exact hd
    have hsteps : 3 ≤ [SessionStep.search call, .search call, .search call].countP
        (·.isOfSearch call) := by
      simp [SessionStep.isOfSearch_search]
    obtain ⟨c, s, hc, hstage, -⟩ := hσ.answered hindexed hproper _ hsteps hkept
    obtain rfl := Option.some.inj (hfinished.symm.trans hc)
    obtain ⟨t, ht⟩ := Option.isSome_iff_exists.mp hindexed
    have htaken := SearchCall.finish_snapshot? (c := ⟨query, fields, limit, .start⟩) rfl ht
    have hresult := (SearchCall.finish_eq_search σ.engine query fields limit).2
    have hsame : asked.engine = σ.engine := rfl
    rw [hsame] at hstage
    rw [hstage] at htaken hresult
    obtain rfl := Option.some.inj htaken
    refine ⟨s, ht, ?_⟩
    rw [← Option.some.inj hresult, Snapshot.search_eq_firstMentions]
  · obtain ⟨c, s, hc, hstage, htaken⟩ := hσ.answered hindexed hproper after hsteps hd
    refine ⟨c, s, hc, ?_, htaken⟩
    rw [hstage, Snapshot.search_eq_firstMentions]

/-- A search whose text holds a colon, asked after another spelling of it was searched for, and
between whose steps the entries expire and another snapshot is published. -/
theorem search_transparent_across_publication :
    let pulse := { Component.ofName "Gauge" with summary := some "Shows a Pulse:rate" }
    let first : Snapshot := ⟨[pulse, Component.ofName "Pulse"], [], [], "", 0⟩
    let second : Snapshot := ⟨[Component.ofName "Dial"], [], [], "", 0⟩
    let before := SessionStep.publication 0 first ++
      [.ask "PULSE:" .full 5, .search 0, .search 0, .search 0]
    let after := [.search 1] ++ SessionStep.publication 1 second ++
      [.wait 90, .search 1, .search 1]
    let σ := (Session.ofSettings .standard ⟨some 30, some 60⟩).run before
    let asked := σ.step (.ask " pulse:\n" .full 50)
    (∃ s, σ.engine.snapshot = some s ∧
      (σ.engine.search " pulse:\n" .full 50).1 = .ok (s.firstMentions " pulse:\n" .full 50)) ∧
    ∃ c s, (asked.run after).searches[σ.searches.length]? = some c ∧
      c.stage = .answered s (.ok (s.firstMentions " pulse:\n" .full 50)) ∧
      ∃ early late, after = early ++ late ∧ (asked.run early).engine.snapshot = some s := by
  intro pulse first second before after σ asked
  have htransparent := search_transparent .standard ⟨some 30, some 60⟩ before after " pulse:\n"
    .full 50 (by decide) (by decide) (by decide) (by decide) (by decide +kernel)
  exact ⟨htransparent.1 (by decide +kernel),
    htransparent.2 (by decide +kernel) (by decide +kernel)⟩

end ComponentAtlas
