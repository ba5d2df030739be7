import ComponentAtlas.Proofs.Cache.Live
import ComponentAtlas.Proofs.Engine.FailedBuild
import ComponentAtlas.Proofs.Engine.Publication
import ComponentAtlas.Proofs.Search.Key
import ComponentAtlas.Proofs.Text.Occurrence

/-!
# Calls one after the other

Somebody who waits for each answer before asking again always meets the engine at rest.  `Settled`
says what that means: the count of publications is the number of the published snapshot, nobody
builds, the snapshot cache holds the published snapshot and nothing else, and the results that are
kept are those of the published snapshot.  Each kind of call keeps this, whether it succeeds or not,
before and after the engine is disposed of, and whatever the windows of the caches are; the reason
is that a publication replaces what the one cache holds and empties the other, and that nothing but
a publication changes what is published.

After disposal a build still publishes, but neither cache takes anything in.  So `Settled` has to
say that a cache which was disposed of is empty, and that the two caches went together.
-/

namespace ComponentAtlas

/-- What may be asked of an engine.  The source tree may be another one each time. -/
inductive EngineCall
  | build (tree : SourceTree) (availability : Availability) (cancelled : Bool)
  | ensure (tree : SourceTree) (availability : Availability) (cancelled : Bool)
  | search (query : String) (fields : SearchFields) (limit : Nat)
  | searchText (query fields : String) (limit : Nat)
  | cacheStatistics
  /-- Any question that is answered from the published snapshot alone. -/
  | read
  /-- Some time without a call. -/
  | wait (milliseconds : Nat)
  | dispose

namespace Cache

variable {α ε : Type}

theorem set_of_disposed {c : Cache α} (hd : c.isDisposed = true) (key : String) (v : α) :
    (c.set key v).2 = c := by
  rcases set_cases c key v with ⟨err, -, hset⟩ | ⟨d, hopen, -⟩
  · rw [hset]
  · rw [isDisposed_of_not_refused hopen] at hd
    cases hd

theorem holds_of_removeWhere {c : Cache α} {p : String → Bool} (hd : c.isDisposed = false)
    {key : String} {v : α} (h : (c.removeWhere p).2.Holds key v) :
    c.Holds key v ∧ p key = false := by
  unfold removeWhere at h
  rw [hd] at h
  obtain ⟨e, he, rfl⟩ := h
  obtain ⟨hmem, hkeep⟩ := List.mem_filter.mp he
  exact ⟨⟨e, hmem, rfl⟩, (Bool.not_eq_true' _).mp hkeep⟩

theorem dispose_holds_nothing (c : Cache α) (hempty : c.isDisposed = true → ∀ k v, ¬ c.Holds k v)
    (k : String) (v : α) : ¬ c.dispose.Holds k v := by
  unfold dispose
  split
  · rename_i hd
    exact hempty hd k v
  · rintro ⟨e, he, -⟩
    cases he

end Cache

namespace Engine

variable {e e' : Engine}

def after (e : Engine) : EngineCall → Engine
  | .build tree availability cancelled => (e.build tree availability cancelled).2
  | .ensure tree availability cancelled => (e.ensureIndexed tree availability cancelled).2
  | .search query fields limit => (e.search query fields limit).2
  | .searchText query fields limit => (e.searchText query fields limit).2
  | .cacheStatistics => e.cacheStatistics.2
  | .read => e
  | .wait milliseconds =>
    { e with
      snapshotCache := e.snapshotCache.wait milliseconds
      searchCache := e.searchCache.wait milliseconds }
  | .dispose => e.dispose

def afterAll (e : Engine) (calls : List EngineCall) : Engine :=
  calls.foldl after e

/-- A request for some snapshot in full: with its result, whether it built one. -/
def ensureCall (e : Engine) (tree : SourceTree) (availability : Availability) (cancelled : Bool) :
    Creation IndexError Snapshot × Engine × Cache Snapshot :=
  e.snapshotCache.getOrCreateWith IndexError.cache snapshotKey e
    (rebuild tree availability cancelled)

theorem ensureIndexed_eq (e : Engine) (tree : SourceTree) (availability : Availability)
    (cancelled : Bool) :
    e.ensureIndexed tree availability cancelled =
      ((e.ensureCall tree availability cancelled).1.result,
        { (e.ensureCall tree availability cancelled).2.1 with
          snapshotCache := (e.ensureCall tree availability cancelled).2.2 }) := rfl

/-- Whether a key is one of another generation. -/
def isStale (generation : Nat) (key : String) : Bool :=
  (Text.after? (searchKeyStart generation).toList key.toList).isNone

theorem publish_snd (e : Engine) (s : Snapshot) :
    (e.publish s).2 =
      { e with
        snapshot := some { s with generation := e.generation + 1 }
        generation := e.generation + 1
        snapshotCache :=
          (e.snapshotCache.set snapshotKey { s with generation := e.generation + 1 }).2
        searchCache :=
          if e.snapshotCache.isDisposed then e.searchCache
          else (e.searchCache.removeWhere (isStale (e.generation + 1))).2 } := by
  let numbered : Snapshot := { s with generation := e.generation + 1 }
  have hput := Crowd.cacheSnapshot_snd (e.number.setSnapshot numbered) numbered
  unfold publish
  simp only
  rcases cacheSnapshot_cases (e.number.setSnapshot numbered) numbered with
    ⟨hd, hrefused⟩ | ⟨hd, cache, -, hcached⟩
  · have hgone : e.snapshotCache.isDisposed = true := hd
    rw [hrefused] at hput
    simp only [numbered, number, setSnapshot] at hrefused hput ⊢
    simp only [hrefused, hgone, if_true]
    exact hput
  · have hopen : e.snapshotCache.isDisposed = false := hd
    rw [hcached] at hput
    simp only [numbered, number, setSnapshot] at hcached hput ⊢
    have hcache : (e.snapshotCache.set snapshotKey
        { s with generation := e.generation + 1 }).2 = cache := by simpa using hput.symm
    simp only [hcached, hopen, hcache]
    split
    all_goals
      rename_i hdrop
      have hsnd := congrArg Prod.snd hdrop
      rw [Crowd.dropStaleResults_snd] at hsnd
      exact hsnd.symm

/-- The key of a search begins like those of its own generation and of no other. -/
theorem generation_eq_of_not_stale {generation g : Nat} {fields : SearchFields} {limit : Nat}
    {needle : List Char} (h : isStale generation (searchKey g fields limit needle) = false) :
    g = generation := by
  obtain ⟨rest, hrest⟩ := Option.isSome_iff_exists.mp (Option.isNone_eq_false_iff.mp h)
  have hstart : (searchKeyStart generation).toList =
      "search:".toList ++ (Nat.toDigits 10 generation ++ [':']) := by simp [searchKeyStart]
  have hkey := Text.after?_eq_some_iff.mp hrest
  rw [toList_searchKey, hstart, List.append_assoc, List.append_assoc] at hkey
  exact (digits_colon_inj (List.append_cancel_left hkey)).1

/-- A publication that succeeds returns what it has published. -/
theorem snapshot_of_publish {s s' : Snapshot} (h : (e.publish s).1 = .ok s') :
    (e.publish s).2.snapshot = some s' := by
  rw [publish_snd]
  unfold publish at h
  simp only at h
  split at h
  · cases h
  · split at h
    · cases h
    · exact congrArg some (Except.ok.inj h)

/-! ## An engine at rest -/

/-- What an engine is like between two calls. -/
structure Settled (e : Engine) : Prop where
  counted : e.generation = e.published
  unlocked : e.isLocked = false
  idle : e.isBuilding = false
  cached : ∀ key s, e.snapshotCache.Holds key s → key = snapshotKey ∧ e.snapshot = some s
  kept : ∀ key results, e.searchCache.Holds key results →
    ∃ fields limit needle, key = searchKey e.published fields limit needle
  together : e.snapshotCache.isDisposed = e.searchCache.isDisposed
  emptied : e.snapshotCache.isDisposed = true →
    (∀ key s, ¬ e.snapshotCache.Holds key s) ∧ ∀ key results, ¬ e.searchCache.Holds key results

theorem settled_ofSettings (settings : Settings) (windows : Windows) :
    Settled (ofSettings settings windows) where
  counted := rfl
  unlocked := rfl
  idle := rfl
  cached key s h := absurd h (Cache.ofWindows_holds_nothing windows key s)
  kept key results h := absurd h (Cache.ofWindows_holds_nothing windows key results)
  together := rfl
  emptied h := by cases h

/-- The caches may lose entries, and an open cache may take in what belongs to the published
snapshot. -/
theorem Settled.of_caches (h : Settled e) {snapshots : Cache Snapshot}
    {results : Cache (List Component)}
    (hsnapshots : ∀ key s, snapshots.Holds key s → e.snapshotCache.Holds key s ∨
      (e.snapshotCache.isDisposed = false ∧ key = snapshotKey ∧ e.snapshot = some s))
    (hresults : ∀ key r, results.Holds key r → e.searchCache.Holds key r ∨
      (e.searchCache.isDisposed = false ∧
        ∃ fields limit needle, key = searchKey e.published fields limit needle))
    (hsame : snapshots.isDisposed = e.snapshotCache.isDisposed)
    (hsame' : results.isDisposed = e.searchCache.isDisposed) :
    Settled { e with snapshotCache := snapshots, searchCache := results } where
  counted := h.counted
  unlocked := h.unlocked
  idle := h.idle
  cached key s hs := (hsnapshots key s hs).elim (h.cached key s) And.right
  kept key r hr := (hresults key r hr).elim (h.kept key r) And.right
  together := hsame.trans (h.together.trans hsame'.symm)
  emptied hd := by
    have hgone : e.snapshotCache.isDisposed = true := hsame.symm.trans hd
    have hgone' : e.searchCache.isDisposed = true := h.together.symm.trans hgone
    refine ⟨fun key s hs => ?_, fun key r hr => ?_⟩
    · rcases hsnapshots key s hs with hold | ⟨hopen, -⟩
      · exact (h.emptied hgone).1 key s hold
      · exact absurd (hopen.symm.trans hgone) (by decide)
    · rcases hresults key r hr with hold | ⟨hopen, -⟩
      · exact (h.emptied hgone).2 key r hold
      · exact absurd (hopen.symm.trans hgone') (by decide)

theorem Settled.of_less (h : Settled e) {snapshots : Cache Snapshot}
    (hless : snapshots.HoldsLess e.snapshotCache)
    (hsame : snapshots.isDisposed = e.snapshotCache.isDisposed) :
    Settled { e with snapshotCache := snapshots } :=
  h.of_caches (fun key s hs => Or.inl (hless key s hs)) (fun _ _ hr => Or.inl hr) hsame rfl

/-! ## What each call keeps -/

/-- The new snapshot takes the place of the old one, and keys of the old generation are dropped. -/
theorem Settled.publish (h : Settled e) (s : Snapshot) : Settled (e.publish s).2 := by
  rw [publish_snd]
  cases hd : e.snapshotCache.isDisposed with
  | true =>
      obtain ⟨hnone, hnone'⟩ := h.emptied hd
      have hset := Cache.set_of_disposed hd snapshotKey { s with generation := e.generation + 1 }
      simp only [hset, if_true]
      exact ⟨rfl, h.unlocked, h.idle, fun key s hs => absurd hs (hnone key s),
        fun key r hr => absurd hr (hnone' key r), h.together, fun _ => ⟨hnone, hnone'⟩⟩
  | false =>
      have hopen : (e.snapshotCache.set snapshotKey
          { s with generation := e.generation + 1 }).2.isDisposed = false := by
        rw [Cache.set_isDisposed, hd]
      refine ⟨rfl, h.unlocked, h.idle, fun key s' hs => ?_, fun key r hr => ?_, ?_, fun hgone => ?_⟩
      · have hkey : key = snapshotKey := by
          rcases Cache.set_cases e.snapshotCache snapshotKey
            { s with generation := e.generation + 1 } with ⟨_, -, heq⟩ | ⟨_, -, heq, -, hheld⟩
          · simp only [heq] at hs
            exact (h.cached key s' hs).1
          · simp only [heq] at hs
            exact (hheld key s' hs).elim And.left fun hold => (h.cached key s' hold).1
        subst hkey
        exact ⟨rfl, congrArg some (Cache.eq_of_holds_set hopen snapshotKey_not_blank hs).symm⟩
      · rw [if_neg Bool.false_ne_true] at hr
        obtain ⟨hold, hfresh⟩ := Cache.holds_of_removeWhere
          (h.together.symm.trans hd) hr
        obtain ⟨fields, limit, needle, rfl⟩ := h.kept key r hold
        rw [generation_eq_of_not_stale hfresh]
        exact ⟨fields, limit, needle, rfl⟩
      · rw [if_neg Bool.false_ne_true, Cache.removeWhere_isDisposed, hopen, ← h.together, hd]
      · exact absurd (hopen.symm.trans hgone) (by decide)

theorem Settled.publishBuilt (h : Settled e) (built : Except IndexError Snapshot) :
    Settled (e.publishBuilt built).2 := by
  cases built with
  | error err => exact h
  | ok s => exact h.publish s

/-- What a build leaves when it ends, in whatever way. -/
theorem Settled.publishBuilt_atRest (h : Settled e) (built : Except IndexError Snapshot) :
    Settled (e.publishBuilt built).2.atRest := by
  obtain ⟨counted, -, -, cached, kept, together, emptied⟩ := h.publishBuilt built
  exact ⟨counted, rfl, rfl, cached, kept, together, emptied⟩

theorem Settled.build (h : Settled e) (tree : SourceTree) (availability : Availability)
    (cancelled : Bool) : Settled (e.build tree availability cancelled).2 := by
  rw [build_of_free h.unlocked]
  exact h.publishBuilt_atRest _

/-- A request for some snapshot is refused, finds the live one, or has one built because there is
none.  What the build has published is what the cache gets to hold. -/
theorem Settled.ensureIndexed_spec (h : Settled e) (tree : SourceTree)
    (availability : Availability) (cancelled : Bool) :
    (e.snapshotCache.isDisposed = true ∧
        e.ensureIndexed tree availability cancelled = (.error (.cache .disposed), e)) ∨
      (∃ (s : Snapshot) (cache : Cache Snapshot), e.snapshotCache.live? snapshotKey = some s ∧
        (e.ensureCall tree availability cancelled).1.factoryRan = false ∧
        cache.HoldsLess e.snapshotCache ∧ cache.isDisposed = e.snapshotCache.isDisposed ∧
        e.ensureIndexed tree availability cancelled = (.ok s, { e with snapshotCache := cache })) ∨
      ∃ (looked : Cache Snapshot) (made : Except IndexError Snapshot) (e' : Engine)
        (cache : Cache Snapshot),
        e.snapshotCache.isDisposed = false ∧ e.snapshotCache.live? snapshotKey = none ∧
        (e.ensureCall tree availability cancelled).1.factoryRan = true ∧
        looked.HoldsLess e.snapshotCache ∧ looked.isDisposed = e.snapshotCache.isDisposed ∧
        { e with snapshotCache := looked }.publishBuilt
          (Snapshot.build e.settings tree availability cancelled) = (made, e') ∧
        cache.isDisposed = e'.snapshotCache.isDisposed ∧
        (∀ key s, cache.Holds key s → e'.snapshotCache.Holds key s ∨
          (e'.snapshotCache.isDisposed = false ∧ key = snapshotKey ∧ made = .ok s)) ∧
        (∀ s, (e.ensureIndexed tree availability cancelled).1 = .ok s → made = .ok s) ∧
        (e.ensureIndexed tree availability cancelled).2 =
          { e'.atRest with snapshotCache := cache } := by
  simp only [ensureIndexed_eq]
  let factory := rebuild tree availability cancelled
  cases hrefused : e.snapshotCache.refusal? snapshotKey with
  | some err =>
      have hcall := Cache.getOrCreateWith_of_refused IndexError.cache e factory hrefused
      obtain ⟨rfl, hd⟩ := Cache.isDisposed_of_refused snapshotKey_not_blank hrefused
      exact Or.inl ⟨hd, by simp only [ensureCall, factory, hcall]⟩
  | none =>
      cases hlive : e.snapshotCache.live? snapshotKey with
      | some s =>
          have hcall := Cache.getOrCreateWith_of_live IndexError.cache e factory hrefused hlive
          refine Or.inr (Or.inl ⟨s, _, rfl, ?_, (Cache.get_holds _ snapshotKey).1,
            Cache.get_isDisposed _ snapshotKey, ?_⟩)
          · simp only [ensureCall, factory, hcall]
          · simp only [ensureCall, factory, hcall]
      | none =>
          have hcall := Cache.getOrCreateWith_of_missing IndexError.cache e factory hrefused hlive
          obtain ⟨hless, hsame⟩ := Cache.looked_spec e.snapshotCache snapshotKey
          rcases hbuilt :
            { e with snapshotCache := e.snapshotCache.looked snapshotKey }.publishBuilt
              (Snapshot.build e.settings tree availability cancelled) with ⟨made, e'⟩
          obtain ⟨hkept, hheld, hresult⟩ :=
            Cache.keep_spec IndexError.cache e'.snapshotCache snapshotKey made
          simp only [factory, rebuild_of_free h.unlocked, hbuilt] at hcall
          refine Or.inr (Or.inr ⟨_, made, e', _, Cache.isDisposed_of_not_refused hrefused, rfl, ?_,
            hless, hsame, hbuilt, (Cache.leaveGate_isDisposed _ snapshotKey).trans hkept,
            fun key s hs => hheld key s (Cache.leaveGate_holdsLess _ _ _ _ hs), fun s hs => ?_, ?_⟩)
          · simp only [ensureCall, hcall]
          · simp only [ensureCall, hcall] at hs
            exact hresult s hs
          · simp only [ensureCall, hcall]

theorem snapshot_of_publishBuilt {built : Except IndexError Snapshot} {s : Snapshot}
    (h : (e.publishBuilt built).1 = .ok s) : (e.publishBuilt built).2.snapshot = some s := by
  cases built with
  | error err => cases h
  | ok s' => exact snapshot_of_publish h

theorem Settled.ensureIndexed (h : Settled e) (tree : SourceTree) (availability : Availability)
    (cancelled : Bool) : Settled (e.ensureIndexed tree availability cancelled).2 := by
  rcases h.ensureIndexed_spec tree availability cancelled with
    ⟨-, heq⟩ | ⟨s, cache, -, -, hless, hsame, heq⟩ |
    ⟨looked, made, e', cache, -, -, -, hless, hsame, hbuilt, hkept, hheld, -, heq⟩
  · rw [heq]
    exact h
  · rw [heq]
    exact h.of_less hless hsame
  · rw [heq]
    have hpublished := (h.of_less hless hsame).publishBuilt_atRest
      (Snapshot.build e.settings tree availability cancelled)
    rw [hbuilt] at hpublished
    refine hpublished.of_caches (fun key s hs => ?_) (fun _ _ hr => Or.inl hr) hkept rfl
    rcases hheld key s hs with hold | ⟨hopen, hkey, hmade⟩
    · exact Or.inl hold
    · have hreturned := snapshot_of_publishBuilt (congrArg Prod.fst hbuilt |>.trans hmade)
      rw [hbuilt] at hreturned
      exact Or.inr ⟨hopen, hkey, hreturned⟩

theorem snapshot_of_current {s : Snapshot} (h : e.current = .ok s) : e.snapshot = some s := by
  unfold current at h
  split at h
  · rename_i s' hs
    rw [hs, Except.ok.inj h]
  · cases h

/-- Nothing has changed but the kept results, and those that are new are of the published
snapshot. -/
def Asked (e e' : Engine) : Prop :=
  ∃ results, e' = { e with searchCache := results } ∧
    results.isDisposed = e.searchCache.isDisposed ∧
    ∀ key r, results.Holds key r → e.searchCache.Holds key r ∨
      (e.searchCache.isDisposed = false ∧
        ∃ fields limit needle, key = searchKey e.published fields limit needle)

theorem Asked.rfl : Asked e e := ⟨_, Eq.refl e, Eq.refl _, fun _ _ hr => Or.inl hr⟩

theorem asked_search (e : Engine) (query : String) (fields : SearchFields) (limit : Nat) :
    Asked e (e.search query fields limit).2 := by
  unfold Engine.search
  cases hcurrent : e.current with
  | error err => exact .rfl
  | ok s =>
      have hnumber : e.published = s.generation :=
        published_eq_of_snapshot (snapshot_of_current hcurrent)
      cases searchFault? query fields limit with
      | some err => exact .rfl
      | none =>
          simp only
          rcases Cache.get_cases e.searchCache
              (searchKey s.generation fields limit (Snapshot.needleOf query)) with
            ⟨err, -, hget⟩ | ⟨found, looked, hopen, hget, hless, hsame, -⟩
          · simp only [hget]
            exact .rfl
          · cases found with
            | some results =>
                simp only [hget]
                exact ⟨looked, Eq.refl _, hsame, fun key r hr => Or.inl (hless key r hr)⟩
            | none =>
                rcases Cache.set_cases looked
                    (searchKey s.generation fields limit (Snapshot.needleOf query))
                    (s.search query fields limit) with
                  ⟨err, -, hset⟩ | ⟨d, -, hset, hsame', hheld⟩
                · simp only [hget, hset]
                  exact ⟨looked, Eq.refl _, hsame, fun key r hr => Or.inl (hless key r hr)⟩
                · simp only [hget, hset]
                  refine ⟨d, Eq.refl _, hsame'.trans hsame, fun key r hr => ?_⟩
                  rcases hheld key r hr with ⟨rfl, -⟩ | hold
                  · exact Or.inr ⟨Cache.isDisposed_of_not_refused hopen,
                      fields, limit, Snapshot.needleOf query, by rw [hnumber]⟩
                  · exact Or.inl (hless key r hold)

theorem asked_searchText (e : Engine) (query fields : String) (limit : Nat) :
    Asked e (e.searchText query fields limit).2 := by
  unfold searchText
  cases SearchFields.ofText fields with
  | error fault => exact .rfl
  | ok fields => exact e.asked_search query fields limit

theorem asked_cacheStatistics (e : Engine) : Asked e e.cacheStatistics.2 := by
  unfold cacheStatistics Cache.statistics
  cases e.searchCache.isDisposed with
  | true => exact .rfl
  | false => exact ⟨_, Eq.refl _, Eq.refl _, fun _ _ hr => Or.inl hr⟩

theorem Settled.of_asked (h : Settled e) (hasked : Asked e e') : Settled e' := by
  obtain ⟨results, rfl, hsame, hheld⟩ := hasked
  exact h.of_caches (fun _ _ hs => Or.inl hs) hheld rfl hsame

theorem Settled.dispose (h : Settled e) : Settled e.dispose where
  counted := h.counted
  unlocked := h.unlocked
  idle := h.idle
  cached key s hs := h.cached key s (Cache.dispose_holdsLess _ key s hs)
  kept key r hr := h.kept key r (Cache.dispose_holdsLess _ key r hr)
  together := (Cache.dispose_isDisposed _).trans (Cache.dispose_isDisposed _).symm
  emptied _ := ⟨Cache.dispose_holds_nothing _ fun hd => (h.emptied hd).1,
    Cache.dispose_holds_nothing _ fun hd => (h.emptied (h.together.trans hd)).2⟩

/-- One call. -/
theorem Settled.after (h : Settled e) (call : EngineCall) : Settled (e.after call) := by
  cases call with
  | build tree availability cancelled => exact h.build tree availability cancelled
  | ensure tree availability cancelled => exact h.ensureIndexed tree availability cancelled
  | search query fields limit => exact h.of_asked (e.asked_search query fields limit)
  | searchText query fields limit => exact h.of_asked (e.asked_searchText query fields limit)
  | cacheStatistics => exact h.of_asked e.asked_cacheStatistics
  | read => exact h
  | wait milliseconds =>
      exact h.of_caches (fun _ _ hs => Or.inl hs) (fun _ _ hr => Or.inl hr) rfl rfl
  | dispose => exact h.dispose

/-- All calls. -/
theorem Settled.afterAll (h : Settled e) (calls : List EngineCall) :
    Settled (e.afterAll calls) := by
  induction calls generalizing e with
  | nil => exact h
  | cons call calls ih => exact ih (h.after call)

/-! ## What is published -/

/-- The snapshot that a call publishes when it comes now: the one that it builds. -/
def publication? (e : Engine) : EngineCall → Option Snapshot
  | .build tree availability cancelled =>
    (Snapshot.build e.settings tree availability cancelled).toOption
  | .ensure tree availability cancelled =>
    if e.snapshotCache.isDisposed ∨ (e.snapshotCache.live? snapshotKey).isSome then none
    else (Snapshot.build e.settings tree availability cancelled).toOption
  | _ => none

/-- What calls that come one after the other publish. -/
def publications (e : Engine) : List EngineCall → List Snapshot
  | [] => []
  | call :: calls => (e.publication? call).toList ++ (e.after call).publications calls

/-- An engine has become another one by a publication, or without one. -/
def Becomes (e e' : Engine) : Option Snapshot → Prop
  | none => e'.snapshot = e.snapshot ∧ e'.generation = e.generation
  | some s => e'.snapshot = some { s with generation := e.generation + 1 } ∧
      e'.generation = e.generation + 1

theorem Becomes.of_eq {e'' : Engine} {built : Option Snapshot} (h : Becomes e e' built)
    (hsnapshot : e''.snapshot = e'.snapshot) (hgeneration : e''.generation = e'.generation) :
    Becomes e e'' built := by
  cases built with
  | none => exact ⟨hsnapshot.trans h.1, hgeneration.trans h.2⟩
  | some s => exact ⟨hsnapshot.trans h.1, hgeneration.trans h.2⟩

theorem becomes_publishBuilt (e : Engine) (built : Except IndexError Snapshot) :
    Becomes e (e.publishBuilt built).2 built.toOption := by
  cases built with
  | error err => exact ⟨rfl, rfl⟩
  | ok s =>
      change Becomes e (e.publish s).2 (some s)
      rw [publish_snd]
      exact ⟨rfl, rfl⟩

theorem Settled.becomes_build (h : Settled e) (tree : SourceTree) (availability : Availability)
    (cancelled : Bool) : Becomes e (e.build tree availability cancelled).2
      (Snapshot.build e.settings tree availability cancelled).toOption := by
  rw [build_of_free h.unlocked]
  exact (e.becomes_publishBuilt _).of_eq rfl rfl

theorem Settled.becomes_ensureIndexed (h : Settled e) (tree : SourceTree)
    (availability : Availability) (cancelled : Bool) :
    Becomes e (e.ensureIndexed tree availability cancelled).2
      (e.publication? (.ensure tree availability cancelled)) := by
  simp only [publication?]
  rcases h.ensureIndexed_spec tree availability cancelled with
    ⟨hd, heq⟩ | ⟨s, cache, hlive, -, -, -, heq⟩ |
    ⟨looked, made, e', cache, hd, habsent, -, -, -, hbuilt, -, -, -, heq⟩
  · rw [if_pos (Or.inl hd), heq]
    exact ⟨rfl, rfl⟩
  · have hfound : (e.snapshotCache.live? snapshotKey).isSome = true := by rw [hlive]; rfl
    rw [if_pos (Or.inr hfound), heq]
    exact ⟨rfl, rfl⟩
  · have hpublished := becomes_publishBuilt { e with snapshotCache := looked }
      (Snapshot.build e.settings tree availability cancelled)
    rw [hbuilt] at hpublished
    rw [if_neg (by simp [hd, habsent]), heq]
    exact Becomes.of_eq (e := e) hpublished rfl rfl

theorem becomes_of_asked (hasked : Asked e e') : Becomes e e' none := by
  obtain ⟨results, rfl, -⟩ := hasked
  exact ⟨rfl, rfl⟩

/-- What one call does to what is published. -/
theorem Settled.becomes (h : Settled e) (call : EngineCall) :
    Becomes e (e.after call) (e.publication? call) := by
  cases call with
  | build tree availability cancelled => exact h.becomes_build tree availability cancelled
  | ensure tree availability cancelled => exact h.becomes_ensureIndexed tree availability cancelled
  | search query fields limit => exact becomes_of_asked (e.asked_search query fields limit)
  | searchText query fields limit => exact becomes_of_asked (e.asked_searchText query fields limit)
  | cacheStatistics => exact becomes_of_asked e.asked_cacheStatistics
  | read | wait _ | dispose => exact ⟨rfl, rfl⟩

/-- What all calls do: the last publication stays, and its number counts them. -/
theorem Settled.afterAll_eq (h : Settled e) (calls : List EngineCall) :
    (e.afterAll calls).generation = e.generation + (e.publications calls).length ∧
      (e.afterAll calls).snapshot =
        ((e.publications calls).getLast?.map fun s =>
          { s with generation := (e.afterAll calls).generation }).or e.snapshot := by
  induction calls generalizing e with
  | nil => exact ⟨rfl, rfl⟩
  | cons call calls ih =>
      obtain ⟨hgeneration, hsnapshot⟩ := ih (h.after call)
      have hcall := h.becomes call
      have hall : e.afterAll (call :: calls) = (e.after call).afterAll calls := rfl
      rw [hall, publications]
      cases hp : e.publication? call with
      | none =>
          rw [hp] at hcall
          rw [Option.toList_none, List.nil_append]
          exact ⟨by rw [hgeneration, hcall.2], by rw [hsnapshot, hcall.1]⟩
      | some s =>
          rw [hp] at hcall
          rw [Option.toList_some, List.singleton_append, List.length_cons, List.getLast?_cons]
          refine ⟨by rw [hgeneration, hcall.2]; omega, ?_⟩
          rw [hsnapshot, hcall.1]
          cases hrest : ((e.after call).publications calls).getLast? with
          | some s' => rfl
          | none =>
              rw [List.getLast?_eq_none_iff.mp hrest, hcall.2] at hgeneration
              rw [hgeneration]
              rfl

/-! ## What is true between calls -/

theorem Settled.state_eq (h : Settled e) :
    e.state = if e.snapshot.isSome then .indexed else .notIndexed := by
  rw [state, h.idle, isIndexed, if_neg Bool.false_ne_true]

theorem Settled.eq_of_live (h : Settled e) {s : Snapshot}
    (hlive : e.snapshotCache.live? snapshotKey = some s) : e.snapshot = some s :=
  (h.cached snapshotKey s (Cache.holds_of_live? hlive)).2

theorem Becomes.isIndexed {built : Option Snapshot} (h : Becomes e e' built)
    (hindexed : e.snapshot.isSome = true) : e'.snapshot.isSome = true := by
  cases built with
  | none => rw [h.1, hindexed]
  | some s => rw [h.1]; rfl

/-- A request for some snapshot that succeeds returns the published one, and it has had it built
exactly when there was no live one. -/
theorem Settled.ensured (h : Settled e) {tree : SourceTree} {availability : Availability}
    {cancelled : Bool} {s : Snapshot}
    (hok : (e.ensureIndexed tree availability cancelled).1 = .ok s) :
    (e.ensureIndexed tree availability cancelled).2.snapshot = some s ∧
      ((e.ensureCall tree availability cancelled).1.factoryRan = true ↔
        e.snapshotCache.live? snapshotKey = none) ∧
      ((e.ensureCall tree availability cancelled).1.factoryRan = true →
        s.generation = e.generation + 1) := by
  rcases h.ensureIndexed_spec tree availability cancelled with
    ⟨-, heq⟩ | ⟨found, cache, hlive, hran, -, -, heq⟩ |
    ⟨looked, made, e', cache, -, habsent, hran, -, -, hbuilt, -, -, hmade, heq⟩
  · rw [heq] at hok
    cases hok
  · rw [heq] at hok ⊢
    obtain rfl := Except.ok.inj hok
    rw [hran, hlive]
    exact ⟨h.eq_of_live hlive, by simp, by simp⟩
  · have hfst := congrArg Prod.fst hbuilt |>.trans (hmade s hok)
    have hpublished := snapshot_of_publishBuilt hfst
    have hbecomes := becomes_publishBuilt { e with snapshotCache := looked }
      (Snapshot.build e.settings tree availability cancelled)
    rw [hbuilt] at hpublished hbecomes
    rw [heq, hran, habsent]
    refine ⟨hpublished, by simp, fun _ => ?_⟩
    cases hbuild : Snapshot.build e.settings tree availability cancelled with
    | error err =>
        rw [hbuild] at hfst
        cases hfst
    | ok built =>
        rw [hbuild] at hbecomes
        rw [Option.some.inj (hpublished.symm.trans hbecomes.1)]

end Engine

/-- Calls one after the other, the source tree changing as it may and the caches expiring as they
may.  The published snapshot is the one that was published last, and its number counts the
publications; all that either cache holds belongs to it. -/
theorem engine_between_calls (settings : Settings) (windows : Windows)
    (calls : List EngineCall) :
    let start := Engine.ofSettings settings windows
    let e := start.afterAll calls
    let published := start.publications calls
    e.generation = published.length ∧
    e.published = e.generation ∧
    e.snapshot = (published.getLast?.map fun s => { s with generation := published.length }) ∧
    e.state = (if published = [] then .notIndexed else .indexed) ∧
    (∀ key s, e.snapshotCache.Holds key s → key = Engine.snapshotKey ∧ e.snapshot = some s) ∧
    (∀ s, e.snapshotCache.live? Engine.snapshotKey = some s → e.snapshot = some s) ∧
    (∀ key results, e.searchCache.Holds key results →
      ∃ fields limit needle, key = Engine.searchKey e.generation fields limit needle) ∧
    (∀ call, e.Becomes (e.after call) (e.publication? call) ∧
      (e.state = .indexed → (e.after call).state = .indexed)) ∧
    ∀ tree availability cancelled s,
      let call := e.ensureIndexed tree availability cancelled
      let ran := (e.ensureCall tree availability cancelled).1.factoryRan
      call.1 = .ok s →
        call.2.snapshot = some s ∧ (ran = true ↔ e.snapshotCache.live? Engine.snapshotKey = none) ∧
        (ran = true → s.generation = e.generation + 1) := by
  intro start e published
  have hstart : start.Settled := Engine.settled_ofSettings settings windows
  have hsettled : e.Settled := hstart.afterAll calls
  obtain ⟨hgeneration, hsnapshot⟩ := hstart.afterAll_eq calls
  have hcount : e.generation = published.length := hgeneration.trans (Nat.zero_add _)
  have hlast : e.snapshot =
      published.getLast?.map fun s => { s with generation := published.length } := by
    rw [← hcount]
    exact hsnapshot.trans Option.or_none
  have hstate : e.state = if published = [] then .notIndexed else .indexed := by
    rw [hsettled.state_eq, hlast]
    cases hp : published.getLast? with
    | none => rw [List.getLast?_eq_none_iff.mp hp]; rfl
    | some s =>
        have hsome : published ≠ [] := fun hnil => by rw [hnil] at hp; cases hp
        rw [if_neg hsome]
        rfl
  refine ⟨hcount, hsettled.counted.symm, hlast, hstate, hsettled.cached,
    fun s hlive => hsettled.eq_of_live hlive, ?_, fun call => ⟨hsettled.becomes call, ?_⟩,
    fun tree availability cancelled s hok => hsettled.ensured hok⟩
  · rw [hsettled.counted]
    exact hsettled.kept
  · rw [hsettled.state_eq, (hsettled.after call).state_eq]
    intro hindexed
    cases hsome : e.snapshot.isSome with
    | true => rw [if_pos ((hsettled.becomes call).isIndexed hsome)]
    | false =>
        rw [hsome] at hindexed
        cases hindexed

/-- A build and a search; then, when the cached snapshot has expired, a request for some
snapshot. -/
theorem engine_between_calls_after_expiry :
    let tree : SourceTree := ⟨⟨[(["lib", "src", "MudBlazor", "Components", "Gauge.cs"],
      .text "public class MudGauge\n\x7b\n\x7d\n")]⟩, "lib"⟩
    let start := Engine.ofSettings .standard ⟨some 30, none⟩
    let calls := [EngineCall.build tree (.answered true) false, .search "dial" .full 5]
    let e := start.afterAll calls
    let late := start.afterAll (calls ++ [.wait 90])
    let key := Engine.searchKey 1 .full 5 "dial".toList
    (e.state = .indexed ∧ (e.after .dispose).state = .indexed) ∧
      (e.searchCache.Holds key [] ∧
        ∃ fields limit needle, key = Engine.searchKey e.generation fields limit needle) ∧
      (∃ s, e.snapshotCache.live? Engine.snapshotKey = some s ∧ e.snapshot = some s) ∧
      ∃ s, (late.ensureIndexed tree (.answered true) false).1 = .ok s ∧
        late.snapshotCache.live? Engine.snapshotKey = none ∧
        (late.ensureIndexed tree (.answered true) false).2.snapshot = some s ∧
        s.generation = 2 := by
  intro tree start calls e late key
  obtain ⟨-, -, -, -, -, hlive, hkept, hcalls, -⟩ :=
    engine_between_calls .standard ⟨some 30, none⟩ calls
  obtain ⟨-, -, -, -, -, -, -, -, hensure⟩ :=
    engine_between_calls .standard ⟨some 30, none⟩ (calls ++ [.wait 90])
  have hindexed : e.state = .indexed := by decide +kernel
  have hholds : e.searchCache.Holds key [] := by
    refine ⟨⟨[], 2, 2⟩, ?_, rfl⟩
    decide +kernel
  have hfound : (e.snapshotCache.live? Engine.snapshotKey).isSome = true := by decide +kernel
  obtain ⟨s, hs⟩ := Option.isSome_iff_exists.mp hfound
  have hexpired : late.snapshotCache.live? Engine.snapshotKey = none := by decide +kernel
  have hnumbered : (late.ensureIndexed tree (.answered true) false).1.toOption.map
      Snapshot.generation = some 2 := by decide +kernel
  refine ⟨⟨hindexed, (hcalls .dispose).2 hindexed⟩, ⟨hholds, hkept key [] hholds⟩,
    ⟨s, hs, hlive s hs⟩, ?_⟩
  obtain ⟨s', hs', hgeneration⟩ := Option.map_eq_some_iff.mp hnumbered
  cases hresult : (late.ensureIndexed tree (.answered true) false).1 with
  | error err =>
      rw [hresult] at hs'
      cases hs'
  | ok returned =>
      rw [hresult] at hs'
      obtain rfl := Option.some.inj hs'
      exact ⟨returned, rfl, hexpired, (hensure tree _ _ returned hresult).1, hgeneration⟩

end ComponentAtlas
