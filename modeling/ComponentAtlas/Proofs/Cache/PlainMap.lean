import ComponentAtlas.Engine.Session
import ComponentAtlas.Proofs.Cache.Keeping
import ComponentAtlas.Proofs.Cache.Live

/-!
# Caches as plain maps

What a cache answers is told by the calls that came before, without a word about time and expired
entries, if its windows either let every entry live or none until the next look.  The value under a
key is the one stored last and not removed since, and the counts are those of the looks since the
cache was cleared.

Expired entries stay until something removes them: a look at their key, a store under any key, or
the cache at a moment of its own, the event `evict`.  The relation `Mirrors` does not see this,
because it speaks of values only where entries live forever, and there nothing is ever expired.

In a history the latest call stands first.
-/

namespace ComponentAtlas

/-- What may be done to a cache, and what may happen to it. -/
inductive CacheCall (ε α : Type)
  | get (key : String)
  | set (key : String) (value : α)
  | remove (key : String)
  | removeWhere (p : String → Bool)
  | clear
  | statistics
  /-- A call for a missing value, whose factory gives `made` if it runs. -/
  | getOrCreate (key : String) (made : Except ε α)
  | dispose
  /-- Some time passes. -/
  | wait (milliseconds : Nat)
  /-- Expired entries are removed, those whose keys satisfy `p`. -/
  | evict (p : String → Bool)

namespace CacheCall

variable {ε α : Type}

/-- The value under a key after a call, from the one before. -/
def leaves (key : String) (before : Option α) : CacheCall ε α → Option α
  | .set k v => if k = key then some v else before
  | .getOrCreate k (.ok v) => if k = key then some (before.getD v) else before
  | .remove k => if k = key then none else before
  | .removeWhere p => if p key then none else before
  | .clear => none
  | _ => before

/-- The key that a call looks for. -/
def lookedFor? : CacheCall ε α → Option String
  | .get key | .getOrCreate key _ => if Text.allBlank key.toList then none else some key
  | _ => none

def isClear : CacheCall ε α → Bool
  | .clear => true
  | _ => false

def isDispose : CacheCall ε α → Bool
  | .dispose => true
  | _ => false

/-! ## What a history tells -/

/-- The value that was stored last under a key and not removed since. -/
def stored? (past : List (CacheCall ε α)) (key : String) : Option α :=
  past.foldr (fun call before => call.leaves key before) none

/-- What is found under a key: what was stored, if entries last. -/
def found? (lasts : Bool) (past : List (CacheCall ε α)) (key : String) : Option α :=
  if lasts ∧ Text.allBlank key.toList = false then stored? past key else none

/-- How many looks found a value, or found none, since the last clear. -/
def looks (lasts wasFound : Bool) : List (CacheCall ε α) → Nat
  | [] => 0
  | call :: past =>
    if call.isClear then 0
    else if call.lookedFor?.any fun key => (found? lasts past key).isSome == wasFound then
      looks lasts wasFound past + 1
    else looks lasts wasFound past

end CacheCall

namespace Windows

/-- Windows let every entry live when it is looked at later, or none. -/
def Lets (w : Windows) (lasts : Bool) : Prop :=
  ∀ storedAt readAt now, storedAt < now → readAt < now →
    (passed w.sliding readAt now || passed w.absolute storedAt now) = !lasts

theorem lets_without : Lets ⟨none, none⟩ true := fun _ _ _ _ _ => rfl

theorem lets_sliding_zero (absolute : Option Nat) : Lets ⟨some 0, absolute⟩ false := by
  intro storedAt readAt now _ hread
  have hpassed : passed (some 0) readAt now = true := by
    simp only [passed, Option.any_some, decide_eq_true_eq]
    omega
  rw [hpassed]
  rfl

end Windows

namespace Cache

variable {α ε : Type} {c d : Cache α} {key : String}

def after (ofCacheError : CacheError → ε) (c : Cache α) : CacheCall ε α → Cache α
  | .get key => (c.get key).2
  | .set key value => (c.set key value).2
  | .remove key => (c.remove key).2
  | .removeWhere p => (c.removeWhere p).2
  | .clear => c.clear.2
  | .statistics => c.statistics.2
  | .getOrCreate key made => (c.getOrCreate ofCacheError key fun c => (made, c)).2
  | .dispose => c.dispose
  | .wait milliseconds => c.wait milliseconds
  | .evict p => { c with entries := c.entries.filter fun e => c.tick.isLive e.2 || !p e.1 }

def afterAll (ofCacheError : CacheError → ε) (c : Cache α) (past : List (CacheCall ε α)) :
    Cache α :=
  past.foldr (fun call c => c.after ofCacheError call) c

/-! ## Entries in order -/

/-- Entries under different keys, none of them blank, of a time that is past. -/
structure Orderly (now : Nat) (t : Keyed (CacheEntry α)) : Prop where
  nodup : (t.map Prod.fst).Nodup
  named : ∀ e ∈ t, Text.allBlank e.1.toList = false
  past : ∀ e ∈ t, e.2.storedAt ≤ now ∧ e.2.readAt ≤ now

section

variable {now : Nat} {t : Keyed (CacheEntry α)}

theorem Orderly.nil : Orderly now ([] : Keyed (CacheEntry α)) :=
  ⟨List.nodup_nil, fun _ he => absurd he List.not_mem_nil,
    fun _ he => absurd he List.not_mem_nil⟩

theorem Orderly.later {now' : Nat} (h : Orderly now t) (hle : now ≤ now') : Orderly now' t :=
  ⟨h.nodup, h.named, fun e he =>
    ⟨Nat.le_trans (h.past e he).1 hle, Nat.le_trans (h.past e he).2 hle⟩⟩

theorem Orderly.filter (h : Orderly now t) (p : String × CacheEntry α → Bool) :
    Orderly now (t.filter p) where
  nodup := h.nodup.sublist (List.filter_sublist.map Prod.fst)
  named e he := h.named e (List.mem_filter.mp he).1
  past e he := h.past e (List.mem_filter.mp he).1

theorem Orderly.put (h : Orderly now t) (hkey : Text.allBlank key.toList = false)
    {e : CacheEntry α} (he : e.storedAt ≤ now ∧ e.readAt ≤ now) :
    Orderly now (Keyed.put t key e) where
  nodup := by
    refine List.nodup_cons.mpr ⟨fun hmem => ?_, (h.filter _).nodup⟩
    obtain ⟨e', he', hfst⟩ := List.mem_map.mp hmem
    exact (Keyed.mem_erase.mp he').2 hfst
  named e' he' := by
    rcases Keyed.mem_put.mp he' with rfl | ⟨hin, -⟩
    · exact hkey
    · exact h.named e' hin
  past e' he' := by
    rcases Keyed.mem_put.mp he' with rfl | ⟨hin, -⟩
    · exact he
    · exact h.past e' hin

end

/-! ## A cache and a map -/

/-- An open cache whose entries all live or all have expired, and which holds the values of a map
if they live. -/
structure Mirrors (lasts : Bool) (values : String → Option α) (c : Cache α) : Prop where
  isOpen : c.isDisposed = false
  windows : c.windows.Lets lasts
  orderly : Orderly c.now c.entries
  value : lasts = true → ∀ key, Text.allBlank key.toList = false → c.value? key = values key

namespace Mirrors

variable {lasts : Bool} {values : String → Option α}

theorem not_disposed (h : Mirrors lasts values c) : ¬ c.isDisposed = true := by
  rw [h.isOpen]
  decide

theorem refusal?_eq_none (h : Mirrors lasts values c) (hkey : Text.allBlank key.toList = false) :
    c.refusal? key = none := by
  rw [refusal?, hkey, h.isOpen]
  rfl

/-- Gates, counts and time do not matter. -/
theorem congr (h : Mirrors lasts values c) (hentries : d.entries = c.entries)
    (hwindows : d.windows = c.windows) (hopen : d.isDisposed = c.isDisposed)
    (hnow : c.now ≤ d.now) : Mirrors lasts values d where
  isOpen := hopen.trans h.isOpen
  windows := hwindows ▸ h.windows
  orderly := hentries ▸ h.orderly.later hnow
  value hlasts key hkey := by rw [value?, hentries, ← h.value hlasts key hkey, value?]

theorem isLive (h : Mirrors lasts values c) {e : String × CacheEntry α} (he : e ∈ c.entries) :
    c.tick.isLive e.2 = lasts := by
  obtain ⟨hstored, hread⟩ := h.orderly.past e he
  have hover := h.windows e.2.storedAt e.2.readAt (c.now + 1) (by omega) (by omega)
  exact (congrArg (! ·) hover).trans (Bool.not_not lasts)

theorem live?_eq (h : Mirrors lasts values c) (hkey : Text.allBlank key.toList = false) :
    c.live? key = if lasts then values key else none := by
  unfold live?
  cases hget : c.entries.get? key with
  | none =>
      cases lasts with
      | false => rfl
      | true => rw [if_pos rfl, ← h.value rfl key hkey, value?, hget]; rfl
  | some e =>
      have hlive := h.isLive (Keyed.mem_of_get? hget)
      cases lasts with
      | false => rw [Option.filter_some, if_neg (by rw [hlive]; decide)]; rfl
      | true =>
          rw [Option.filter_some, if_pos hlive, if_pos rfl, ← h.value rfl key hkey, value?, hget]

/-- A filter that spares what lives. -/
theorem filter (h : Mirrors lasts values c) {p : String × CacheEntry α → Bool}
    (hp : ∀ e ∈ c.entries, c.tick.isLive e.2 = true → p e = true) :
    Mirrors lasts values { c with entries := c.entries.filter p } where
  isOpen := h.isOpen
  windows := h.windows
  orderly := h.orderly.filter p
  value hlasts key hkey := by
    have hall : c.entries.filter p = c.entries :=
      List.filter_eq_self.mpr fun e he => hp e he ((h.isLive he).trans hlasts)
    rw [value?, hall, ← h.value hlasts key hkey, value?]

/-- Another entry under a key. -/
theorem put (h : Mirrors lasts values c) (hkey : Text.allBlank key.toList = false)
    {e : CacheEntry α} (he : e.storedAt ≤ c.now ∧ e.readAt ≤ c.now) :
    Mirrors lasts (fun k => if k = key then some e.value else values k)
      { c with entries := c.entries.put key e } where
  isOpen := h.isOpen
  windows := h.windows
  orderly := h.orderly.put hkey he
  value hlasts k hk := by
    rw [value?, Keyed.get?_put]
    by_cases hsame : k = key
    · rw [if_pos hsame, if_pos hsame]
      rfl
    · rw [if_neg hsame, if_neg hsame, ← h.value hlasts k hk, value?]

/-- Entries are removed by their keys. -/
theorem keep (h : Mirrors lasts values c) (p : String → Bool) :
    Mirrors lasts (fun k => if p k then values k else none)
      { c with entries := c.entries.filter fun e => p e.1 } where
  isOpen := h.isOpen
  windows := h.windows
  orderly := h.orderly.filter _
  value hlasts k hk := by
    rw [value?, Keyed.get?_filter_key]
    by_cases hp : p k = true
    · rw [if_pos hp, if_pos hp, ← h.value hlasts k hk, value?]
    · rw [if_neg hp, if_neg hp]
      rfl

/-- Maps that agree on all keys but blank ones are mirrored alike. -/
theorem of_agree {values' : String → Option α} (h : Mirrors lasts values c)
    (hagree : lasts = true → ∀ key, Text.allBlank key.toList = false → values' key = values key) :
    Mirrors lasts values' c :=
  ⟨h.isOpen, h.windows, h.orderly,
    fun hlasts key hkey => (h.value hlasts key hkey).trans (hagree hlasts key hkey).symm⟩

theorem tick (h : Mirrors lasts values c) : Mirrors lasts values c.tick :=
  h.congr rfl rfl rfl (Nat.le_succ _)

/-! ## What the operations do -/

theorem lookup (h : Mirrors lasts values c) (hkey : Text.allBlank key.toList = false) :
    Mirrors lasts values (c.lookup key).2 := by
  unfold Cache.lookup
  simp only
  cases hget : c.tick.entries.get? key with
  | none => exact h.tick
  | some e =>
      have hheld : c.entries.get? key = some e := hget
      have hlive : c.tick.isLive e = lasts := h.isLive (Keyed.mem_of_get? hheld)
      simp only [hlive]
      cases lasts with
      | true =>
          obtain ⟨hstored, -⟩ := h.tick.orderly.past _ (Keyed.mem_of_get? hget)
          refine (h.tick.put hkey (e := { e with readAt := c.tick.now })
            ⟨hstored, Nat.le_refl _⟩).of_agree fun _ k hk => ?_
          by_cases hsame : k = key
          · rw [if_pos hsame, hsame, ← h.value rfl key hkey, value?, hheld]
            rfl
          · rw [if_neg hsame]
      | false => exact (h.tick.keep fun k => k != key).of_agree fun hlasts => by cases hlasts

theorem get (h : Mirrors lasts values c) (hkey : Text.allBlank key.toList = false) :
    Mirrors lasts values (c.get key).2 := by
  have hlooked := h.lookup hkey
  unfold Cache.get
  rw [h.refusal?_eq_none hkey]
  rcases hl : c.lookup key with ⟨found, d⟩
  rw [hl] at hlooked
  cases found with
  | none => exact hlooked.congr rfl rfl rfl (Nat.le_refl _)
  | some v => exact hlooked.congr rfl rfl rfl (Nat.le_refl _)

theorem set (h : Mirrors lasts values c) (hkey : Text.allBlank key.toList = false) (v : α) :
    (c.set key v).1 = .ok () ∧
      Mirrors lasts (fun k => if k = key then some v else values k) (c.set key v).2 := by
  unfold Cache.set
  rw [h.refusal?_eq_none hkey]
  refine ⟨rfl, ?_⟩
  have hswept := h.filter (p := fun e => c.tick.isLive e.2) fun _ _ hlive => hlive
  exact hswept.tick.put hkey (e := ⟨v, c.now + 1, c.now + 1⟩) ⟨Nat.le_refl _, Nat.le_refl _⟩

/-- What a factory has made is stored. -/
theorem keepMade (h : Mirrors lasts values c) (ofCacheError : CacheError → ε)
    (hkey : Text.allBlank key.toList = false) (made : Except ε α) :
    (c.keep ofCacheError key made).1 = made ∧
      Mirrors lasts (fun k => if k = key then made.toOption.or (values k) else values k)
        (c.keep ofCacheError key made).2 := by
  cases made with
  | error err =>
      refine ⟨rfl, h.of_agree fun _ k _ => ?_⟩
      by_cases hsame : k = key
      · rw [if_pos hsame]
        rfl
      · rw [if_neg hsame]
  | ok v =>
      obtain ⟨hset, hstored⟩ := h.set hkey v
      rcases hs : c.set key v with ⟨stored, d⟩
      rw [hs] at hset hstored
      obtain rfl : stored = .ok () := hset
      have hkeep : c.keep ofCacheError key (.ok v) = (.ok v, d) := by simp only [Cache.keep, hs]
      rw [hkeep]
      exact ⟨rfl, hstored⟩

theorem remove (h : Mirrors lasts values c) (hkey : Text.allBlank key.toList = false) :
    (c.remove key).1 = .ok (c.entries.get? key).isSome ∧
      Mirrors lasts (fun k => if k = key then none else values k) (c.remove key).2 := by
  unfold Cache.remove
  rw [h.refusal?_eq_none hkey]
  refine ⟨rfl, (h.keep fun k => k != key).of_agree fun _ k _ => ?_⟩
  by_cases hsame : k = key <;> simp [hsame]

theorem removeWhere (h : Mirrors lasts values c) (p : String → Bool) :
    Mirrors lasts (fun k => if p k then none else values k) (c.removeWhere p).2 := by
  rw [Cache.removeWhere, if_neg h.not_disposed]
  refine (h.keep fun k => !p k).of_agree fun _ k _ => ?_
  cases p k <;> rfl

theorem clear (h : Mirrors lasts values c) : Mirrors lasts (fun _ => none) c.clear.2 := by
  rw [Cache.clear, if_neg h.not_disposed]
  exact ⟨h.isOpen, h.windows, .nil, fun _ _ _ => rfl⟩

theorem looked (h : Mirrors lasts values c) (hkey : Text.allBlank key.toList = false) :
    Mirrors lasts values (c.looked key) := by
  have hget := h.get hkey
  unfold Cache.looked enterGate
  split
  · exact hget.congr rfl rfl rfl (Nat.le_succ _)
  · exact hget.congr rfl rfl rfl (Nat.le_succ _)

theorem leaveGate (h : Mirrors lasts values c) (key : String) :
    Mirrors lasts values (c.leaveGate key) := by
  unfold Cache.leaveGate
  split
  · split
    · exact h.congr rfl rfl rfl (Nat.le_refl _)
    · exact h.congr rfl rfl rfl (Nat.le_refl _)
  · exact h

end Mirrors

/-! ## Counts -/

/-- Hits, misses, and whether the cache was ever cleared. -/
def counts (c : Cache α) : Nat × Nat × Bool :=
  (c.hits, c.misses, c.wasCleared)

theorem lookup_counts (c : Cache α) (key : String) : (c.lookup key).2.counts = c.counts := by
  unfold lookup
  simp only
  split
  · rfl
  · split <;> rfl

theorem set_counts (c : Cache α) (key : String) (v : α) : (c.set key v).2.counts = c.counts := by
  unfold set
  split <;> rfl

theorem remove_counts (c : Cache α) (key : String) : (c.remove key).2.counts = c.counts := by
  unfold remove
  split <;> rfl

theorem removeWhere_counts (c : Cache α) (p : String → Bool) :
    (c.removeWhere p).2.counts = c.counts := by
  unfold removeWhere
  split <;> rfl

theorem statistics_counts (c : Cache α) : c.statistics.2.counts = c.counts := by
  unfold statistics
  split <;> rfl

theorem keep_counts (ofCacheError : CacheError → ε) (c : Cache α) (key : String)
    (made : Except ε α) : (c.keep ofCacheError key made).2.counts = c.counts := by
  cases made with
  | error err => rfl
  | ok v =>
      have hset := set_counts c key v
      rcases hs : c.set key v with ⟨stored, d⟩
      rw [hs] at hset
      simp only [keep, hs]
      cases stored <;> exact hset

theorem leaveGate_counts (c : Cache α) (key : String) : (c.leaveGate key).counts = c.counts := by
  unfold leaveGate
  split
  · split <;> rfl
  · rfl

theorem looked_counts (c : Cache α) (key : String) :
    (c.looked key).counts = (c.get key).2.counts := by
  unfold looked enterGate
  split <;> rfl

/-- A counted look counts what is live as a hit. -/
theorem get_counts (hopen : c.refusal? key = none) :
    (c.get key).2.counts =
      if (c.live? key).isSome then (c.hits + 1, c.misses, c.wasCleared)
      else (c.hits, c.misses + 1, c.wasCleared) := by
  have hlooked := lookup_counts c key
  have hfound := lookup_fst c key
  unfold get
  rw [hopen]
  rcases hl : c.lookup key with ⟨found, d⟩
  rw [hl] at hlooked hfound
  obtain ⟨hhits, hrest⟩ := Prod.mk.inj hlooked
  obtain ⟨hmisses, hcleared⟩ := Prod.mk.inj hrest
  rw [← hfound, ← hhits, ← hmisses, ← hcleared]
  cases found <;> rfl

/-! ## Calls -/

theorem getOrCreate_of_live (ofCacheError : CacheError → ε) (made : Except ε α) {v : α}
    (hopen : c.refusal? key = none) (hlive : c.live? key = some v) :
    c.getOrCreate ofCacheError key (fun c => (made, c)) = (⟨.ok v, false⟩, (c.get key).2) := by
  rw [getOrCreate, getOrCreateWith_of_live ofCacheError () _ hopen hlive]

theorem getOrCreate_of_missing (ofCacheError : CacheError → ε) (made : Except ε α)
    (hopen : c.refusal? key = none) (hmissing : c.live? key = none) :
    c.getOrCreate ofCacheError key (fun c => (made, c)) =
      (⟨((c.looked key).keep ofCacheError key made).1, true⟩,
        ((c.looked key).keep ofCacheError key made).2.leaveGate key) := by
  rw [getOrCreate, getOrCreateWith_of_missing ofCacheError () _ hopen hmissing]

/-- All calls with a key fail for one reason, and nothing changes. -/
structure Refuses (ofCacheError : CacheError → ε) (c : Cache α) (key : String)
    (err : CacheError) : Prop where
  get : c.get key = (.error err, c)
  set : ∀ v, c.set key v = (.error err, c)
  remove : c.remove key = (.error err, c)
  getOrCreate : ∀ factory, c.getOrCreate ofCacheError key factory =
    (⟨.error (ofCacheError err), false⟩, c)

theorem refuses_of_refusal (ofCacheError : CacheError → ε) {err : CacheError}
    (h : c.refusal? key = some err) : c.Refuses ofCacheError key err where
  get := by rw [Cache.get, h]
  set v := by rw [Cache.set, h]
  remove := by rw [Cache.remove, h]
  getOrCreate factory := by
    rw [Cache.getOrCreate, getOrCreateWith_of_refused ofCacheError () _ h]

theorem refusal?_of_blank (c : Cache α) (hblank : Text.allBlank key.toList = true) :
    c.refusal? key = some .invalidKey := by
  rw [refusal?, hblank]
  rfl

theorem refusal?_of_disposed (hd : c.isDisposed = true) (key : String) :
    ∃ err, c.refusal? key = some err := by
  cases hr : c.refusal? key with
  | some err => exact ⟨err, rfl⟩
  | none =>
      rw [isDisposed_of_not_refused hr] at hd
      cases hd

theorem after_of_disposed (ofCacheError : CacheError → ε) (hd : c.isDisposed = true)
    (call : CacheCall ε α) : (c.after ofCacheError call).isDisposed = true := by
  have hrefuses (key : String) : ∃ err, c.Refuses ofCacheError key err := by
    obtain ⟨err, hr⟩ := refusal?_of_disposed hd key
    exact ⟨err, refuses_of_refusal ofCacheError hr⟩
  cases call with
  | get key => exact (get_isDisposed c key).trans hd
  | set key v => exact (set_isDisposed c key v).trans hd
  | remove key =>
      obtain ⟨err, h⟩ := hrefuses key
      rw [after, h.remove]
      exact hd
  | removeWhere p => exact (removeWhere_isDisposed c p).trans hd
  | clear =>
      rw [after, clear, if_pos hd]
      exact hd
  | statistics =>
      rw [after, statistics, if_pos hd]
      exact hd
  | getOrCreate key made =>
      obtain ⟨err, h⟩ := hrefuses key
      rw [after, h.getOrCreate]
      exact hd
  | dispose => exact dispose_isDisposed c
  | wait _ | evict _ => exact hd

end Cache

/-! ## A cache and its history -/

open CacheCall

/-- An open cache is as its history tells. -/
structure Cache.Tells {ε α : Type} (lasts : Bool) (past : List (CacheCall ε α)) (c : Cache α) :
    Prop where
  mirrors : c.Mirrors lasts (stored? past)
  counted : c.counts = (looks lasts true past, looks lasts false past, past.any isClear)

namespace Cache.Tells

variable {ε α : Type} {lasts : Bool} {past : List (CacheCall ε α)} {c d : Cache α} {key : String}
  {call : CacheCall ε α}

/-- What the next look finds. -/
theorem live?_eq (h : c.Tells lasts past) (hkey : Text.allBlank key.toList = false) :
    c.live? key = found? lasts past key := by
  rw [h.mirrors.live?_eq hkey, found?]
  cases lasts <;> simp [hkey]

/-- A call that neither looks nor clears. -/
theorem of_quiet (h : c.Tells lasts past) (hclear : call.isClear = false)
    (hlook : call.lookedFor? = none) (hcounts : d.counts = c.counts)
    (hmirrors : d.Mirrors lasts (stored? (call :: past))) : d.Tells lasts (call :: past) := by
  refine ⟨hmirrors, ?_⟩
  simp [hcounts, h.counted, looks, hclear, hlook]

/-- A call that looks once. -/
theorem of_look (h : c.Tells lasts past) (hkey : Text.allBlank key.toList = false)
    (hclear : call.isClear = false) (hlook : call.lookedFor? = some key)
    (hcounts : d.counts = (c.get key).2.counts)
    (hmirrors : d.Mirrors lasts (stored? (call :: past))) : d.Tells lasts (call :: past) := by
  refine ⟨hmirrors, ?_⟩
  obtain ⟨hhits, hrest⟩ := Prod.mk.inj h.counted
  obtain ⟨hmisses, hcleared⟩ := Prod.mk.inj hrest
  rw [hcounts, get_counts (h.mirrors.refusal?_eq_none hkey), h.live?_eq hkey, hhits, hmisses,
    hcleared]
  cases hfound : found? lasts past key <;> simp [looks, hclear, hlook, hfound]

/-- What is stored when a value was there or was made. -/
theorem stored?_getOrCreate (key : String) (made : Except ε α) (past : List (CacheCall ε α))
    (k : String) :
    stored? (.getOrCreate key made :: past) k =
      if k = key then (stored? past k).or made.toOption else stored? past k := by
  have hcons : stored? (.getOrCreate key made :: past) k =
      (CacheCall.getOrCreate key made).leaves k (stored? past k) := rfl
  rw [hcons]
  by_cases hsame : k = key
  · cases made <;> cases stored? past k <;> simp [leaves, hsame, Except.toOption]
  · cases made <;> simp [leaves, hsame, Ne.symm hsame]

theorem after_getOrCreate (h : c.Tells lasts past) (ofCacheError : CacheError → ε)
    (hkey : Text.allBlank key.toList = false) (made : Except ε α) :
    (c.after ofCacheError (.getOrCreate key made)).Tells lasts (.getOrCreate key made :: past) := by
  have hopen := h.mirrors.refusal?_eq_none hkey
  have hlook : (CacheCall.getOrCreate key made).lookedFor? = some key := if_neg (by simp [hkey])
  have hfound := h.mirrors.live?_eq hkey
  cases hlive : c.live? key with
  | some v =>
      rw [Cache.after, getOrCreate_of_live ofCacheError made hopen hlive]
      refine h.of_look hkey rfl hlook rfl ((h.mirrors.get hkey).of_agree fun hlasts k _ => ?_)
      rw [hlive, if_pos hlasts] at hfound
      rw [stored?_getOrCreate]
      by_cases hsame : k = key
      · rw [if_pos hsame, hsame, ← hfound]
        rfl
      · rw [if_neg hsame]
  | none =>
      rw [Cache.after, getOrCreate_of_missing ofCacheError made hopen hlive]
      have hcounts := (leaveGate_counts _ key).trans ((keep_counts ofCacheError _ key made).trans
        (looked_counts c key))
      have hkept := ((h.mirrors.looked hkey).keepMade ofCacheError hkey made).2
      refine h.of_look hkey rfl hlook hcounts ((hkept.leaveGate key).of_agree fun hlasts k _ => ?_)
      rw [hlive, if_pos hlasts] at hfound
      rw [stored?_getOrCreate]
      by_cases hsame : k = key
      · rw [if_pos hsame, if_pos hsame, hsame, ← hfound, Option.or_none]
        rfl
      · rw [if_neg hsame, if_neg hsame]

/-- One call, other than the last of all. -/
theorem after (h : c.Tells lasts past) (ofCacheError : CacheError → ε)
    (hcall : call.isDispose = false) : (c.after ofCacheError call).Tells lasts (call :: past) := by
  cases call with
  | get key =>
      cases hblank : Text.allBlank key.toList with
      | true =>
          have hrefuses := refuses_of_refusal ofCacheError (c.refusal?_of_blank hblank)
          rw [Cache.after, hrefuses.get]
          exact h.of_quiet rfl (if_pos hblank) rfl h.mirrors
      | false =>
          exact h.of_look hblank rfl (if_neg (by simp [hblank])) rfl (h.mirrors.get hblank)
  | set key v =>
      cases hblank : Text.allBlank key.toList with
      | true =>
          have hrefuses := refuses_of_refusal ofCacheError (c.refusal?_of_blank hblank)
          rw [Cache.after, hrefuses.set]
          refine h.of_quiet rfl rfl rfl (h.mirrors.of_agree fun _ k hk => ?_)
          have hne : key ≠ k := fun heq => by simp [heq, hk] at hblank
          exact if_neg hne
      | false =>
          refine h.of_quiet rfl rfl (set_counts c key v)
            ((h.mirrors.set hblank v).2.of_agree fun _ k _ => ?_)
          simp only [stored?, List.foldr_cons, leaves, eq_comm]
  | remove key =>
      cases hblank : Text.allBlank key.toList with
      | true =>
          have hrefuses := refuses_of_refusal ofCacheError (c.refusal?_of_blank hblank)
          rw [Cache.after, hrefuses.remove]
          refine h.of_quiet rfl rfl rfl (h.mirrors.of_agree fun _ k hk => ?_)
          have hne : key ≠ k := fun heq => by simp [heq, hk] at hblank
          exact if_neg hne
      | false =>
          refine h.of_quiet rfl rfl (remove_counts c key)
            ((h.mirrors.remove hblank).2.of_agree fun _ k _ => ?_)
          simp only [stored?, List.foldr_cons, leaves, eq_comm]
  | removeWhere p =>
      exact h.of_quiet rfl rfl (removeWhere_counts c p) (h.mirrors.removeWhere p)
  | clear =>
      refine ⟨h.mirrors.clear, ?_⟩
      rw [Cache.after, Cache.clear, if_neg h.mirrors.not_disposed]
      rfl
  | statistics =>
      refine h.of_quiet rfl rfl (statistics_counts c) ?_
      rw [Cache.after, Cache.statistics, if_neg h.mirrors.not_disposed]
      exact h.mirrors.tick
  | getOrCreate key made =>
      cases hblank : Text.allBlank key.toList with
      | true =>
          have hrefuses := refuses_of_refusal ofCacheError (c.refusal?_of_blank hblank)
          rw [Cache.after, hrefuses.getOrCreate]
          refine h.of_quiet rfl (if_pos hblank) rfl (h.mirrors.of_agree fun _ k hk => ?_)
          have hne : k ≠ key := fun heq => by simp [heq, hblank] at hk
          rw [stored?_getOrCreate, if_neg hne]
      | false => exact h.after_getOrCreate ofCacheError hblank made
  | dispose => cases hcall
  | wait milliseconds =>
      exact h.of_quiet rfl rfl rfl (h.mirrors.congr rfl rfl rfl (Nat.le_add_right _ _))
  | evict p =>
      refine h.of_quiet rfl rfl rfl (h.mirrors.filter fun e _ hlive => ?_)
      rw [hlive, Bool.true_or]

/-! ### Answers -/

theorem get_fst (h : c.Tells lasts past) (hkey : Text.allBlank key.toList = false) :
    (c.get key).1 = .ok (found? lasts past key) := by
  rw [Cache.get_fst (h.mirrors.refusal?_eq_none hkey), h.live?_eq hkey]

/-- The factory runs exactly when nothing is found. -/
theorem getOrCreate_fst (h : c.Tells lasts past) (ofCacheError : CacheError → ε)
    (hkey : Text.allBlank key.toList = false) (made : Except ε α) :
    (c.getOrCreate ofCacheError key fun c => (made, c)).1 =
      match found? lasts past key with
      | some v => ⟨.ok v, false⟩
      | none => ⟨made, true⟩ := by
  have hopen := h.mirrors.refusal?_eq_none hkey
  have hfound := h.live?_eq hkey
  cases hlive : c.live? key with
  | some v => rw [getOrCreate_of_live ofCacheError made hopen hlive, ← hfound, hlive]
  | none =>
      have hkept := ((h.mirrors.looked hkey).keepMade ofCacheError hkey made).1
      rw [getOrCreate_of_missing ofCacheError made hopen hlive, ← hfound, hlive, hkept]

/-- What can be found is there, and where entries last nothing else is. -/
theorem isSome_get? (h : c.Tells lasts past) (hkey : Text.allBlank key.toList = false) :
    ((found? lasts past key).isSome = true → (c.entries.get? key).isSome = true) ∧
      (lasts = true → (c.entries.get? key).isSome = (found? lasts past key).isSome) := by
  have hvalue (hlasts : lasts = true) :
      (c.entries.get? key).isSome = (found? lasts past key).isSome := by
    rw [found?, if_pos ⟨hlasts, hkey⟩, ← h.mirrors.value hlasts key hkey, value?,
      Option.isSome_map]
  refine ⟨fun hsome => ?_, hvalue⟩
  cases lasts with
  | true => exact (hvalue rfl).trans hsome
  | false =>
      rw [found?, if_neg (fun hand => Bool.false_ne_true hand.1)] at hsome
      cases hsome

/-- What is counted as an item is found under one of different keys. -/
theorem items (h : c.Tells lasts past) :
    ∃ keys : List String, keys.Nodup ∧
      (∀ key, key ∈ keys ↔ (found? lasts past key).isSome = true) ∧
      c.statistics.1 = .ok ⟨keys.length, looks lasts true past, looks lasts false past,
        keys.foldl (fun n key => n + key.utf8ByteSize) 0, past.any isClear⟩ ∧
      ∀ p, ∃ count, (c.removeWhere p).1 = .ok count ∧ keys.countP p ≤ count ∧
        (lasts = true → count = keys.countP p) := by
  obtain ⟨hhits, hrest⟩ := Prod.mk.inj h.counted
  obtain ⟨hmisses, hcleared⟩ := Prod.mk.inj hrest
  let live := c.entries.filter fun e => c.tick.isLive e.2
  refine ⟨live.map Prod.fst, (h.mirrors.orderly.filter _).nodup, fun key => ⟨fun hmem => ?_,
    fun hsome => ?_⟩, ?_, fun p => ⟨c.entries.countP fun e => p e.1, ?_, ?_, fun hlasts => ?_⟩⟩
  · obtain ⟨e, he, rfl⟩ := List.mem_map.mp hmem
    obtain ⟨hin, hlive⟩ := List.mem_filter.mp he
    have hlasts : lasts = true := (h.mirrors.isLive hin).symm.trans hlive
    rw [← (h.isSome_get? (h.mirrors.orderly.named e hin)).2 hlasts]
    exact Keyed.isSome_get?_of_mem hin
  · have hfor : lasts = true ∧ Text.allBlank key.toList = false := by
      unfold found? at hsome
      split at hsome
      · assumption
      · cases hsome
    obtain ⟨e, he⟩ := Option.isSome_iff_exists.mp ((h.isSome_get? hfor.2).1 hsome)
    have hin := Keyed.mem_of_get? he
    have hlive := (h.mirrors.isLive hin).trans hfor.1
    exact List.mem_map.mpr ⟨(key, e), List.mem_filter.mpr ⟨hin, hlive⟩, rfl⟩
  · rw [Cache.statistics, if_neg h.mirrors.not_disposed, List.length_map, List.foldl_map,
      ← hhits, ← hmisses, ← hcleared]
    rfl
  · rw [Cache.removeWhere, if_neg h.mirrors.not_disposed]
  · rw [List.countP_map]
    exact List.filter_sublist.countP_le
  · have hall : live = c.entries :=
      List.filter_eq_self.mpr fun e he => (h.mirrors.isLive he).trans hlasts
    rw [hall, List.countP_map]
    rfl

theorem ofWindows_tells {windows : Windows} (hwindows : windows.Lets lasts) :
    (Cache.ofWindows windows : Cache α).Tells lasts ([] : List (CacheCall ε α)) :=
  ⟨⟨rfl, hwindows, .nil, fun _ _ _ => rfl⟩, rfl⟩

/-- All calls of a history: until the cache is disposed of it is as they tell. -/
theorem afterAll (h : c.Tells lasts ([] : List (CacheCall ε α))) (ofCacheError : CacheError → ε)
    (past : List (CacheCall ε α)) :
    if past.any isDispose then (c.afterAll ofCacheError past).isDisposed = true
    else (c.afterAll ofCacheError past).Tells lasts past := by
  induction past with
  | nil => exact h
  | cons call past ih =>
      have hcons : c.afterAll ofCacheError (call :: past) =
          (c.afterAll ofCacheError past).after ofCacheError call := rfl
      rw [hcons, List.any_cons]
      cases hpast : past.any isDispose with
      | true =>
          rw [hpast, if_pos rfl] at ih
          rw [Bool.or_true, if_pos rfl]
          exact after_of_disposed ofCacheError ih call
      | false =>
          rw [hpast, if_neg Bool.false_ne_true] at ih
          cases hcall : call.isDispose with
          | false => exact ih.after ofCacheError hcall
          | true =>
              cases call with
              | dispose => exact dispose_isDisposed _
              | _ => cases hcall

end Cache.Tells

/-- Calls on a cache with windows that let every entry live, or none until the next look; entries
that have expired may disappear at any time.  What is found, made, removed and counted is told by
the history alone. -/
theorem cache_answers_like_map {ε α : Type} (ofCacheError : CacheError → ε) (windows : Windows)
    (lasts : Bool) (hwindows : windows.Lets lasts) (past : List (CacheCall ε α)) :
    let c := (Cache.ofWindows windows).afterAll ofCacheError past
    (∀ key, Text.allBlank key.toList = true → c.Refuses ofCacheError key .invalidKey) ∧
    (past.any isDispose = true →
      (∀ key, Text.allBlank key.toList = false → c.Refuses ofCacheError key .disposed) ∧
      (∀ p, c.removeWhere p = (.error .disposed, c)) ∧ c.clear = (.error .disposed, c) ∧
      c.statistics = (.error .disposed, c) ∧ c.dispose = c) ∧
    (past.any isDispose = false →
      (∀ key, Text.allBlank key.toList = false →
        (c.get key).1 = .ok (found? lasts past key) ∧
        (∀ made, (c.getOrCreate ofCacheError key fun c => (made, c)).1 =
          match found? lasts past key with
          | some v => ⟨.ok v, false⟩
          | none => ⟨made, true⟩) ∧
        (∀ v, (c.set key v).1 = .ok ()) ∧
        ∃ wasThere, (c.remove key).1 = .ok wasThere ∧
          ((found? lasts past key).isSome = true → wasThere = true) ∧
          (lasts = true → wasThere = (found? lasts past key).isSome)) ∧
      c.clear.1 = .ok () ∧
      ∃ keys : List String, keys.Nodup ∧
        (∀ key, key ∈ keys ↔ (found? lasts past key).isSome = true) ∧
        c.statistics.1 = .ok ⟨keys.length, looks lasts true past, looks lasts false past,
          keys.foldl (fun n key => n + key.utf8ByteSize) 0, past.any isClear⟩ ∧
        ∀ p, ∃ count, (c.removeWhere p).1 = .ok count ∧ keys.countP p ≤ count ∧
          (lasts = true → count = keys.countP p)) := by
  intro c
  have hall : if past.any isDispose then c.isDisposed = true else c.Tells lasts past :=
    (Cache.Tells.ofWindows_tells hwindows).afterAll ofCacheError past
  refine ⟨fun key hblank => Cache.refuses_of_refusal ofCacheError (c.refusal?_of_blank hblank),
    fun hgone => ?_, fun hopen => ?_⟩
  · rw [if_pos hgone] at hall
    refine ⟨fun key hkey => Cache.refuses_of_refusal ofCacheError ?_, fun p => ?_, ?_, ?_, ?_⟩
    · rw [Cache.refusal?, hkey, hall]
      rfl
    · rw [Cache.removeWhere, if_pos hall]
    · rw [Cache.clear, if_pos hall]
    · rw [Cache.statistics, if_pos hall]
    · rw [Cache.dispose, if_pos hall]
  · rw [if_neg (by rw [hopen]; decide)] at hall
    refine ⟨fun key hkey => ⟨hall.get_fst hkey, hall.getOrCreate_fst ofCacheError hkey,
      fun v => (hall.mirrors.set hkey v).1, _, (hall.mirrors.remove hkey).1,
      hall.isSome_get? hkey⟩, ?_, hall.items⟩
    rw [Cache.clear, if_neg hall.mirrors.not_disposed]

/-- One history of a cache in which nothing expires, of one in which all does, and of one that is
disposed of in the end. -/
theorem cache_answers_like_map_kept_and_expired :
    let past : List (CacheCall CacheError Nat) :=
      [.get "b", .evict fun _ => true, .set "b" 2, .wait 5, .getOrCreate "a" (.ok 3), .get "a"]
    let after (windows : Windows) (past : List (CacheCall CacheError Nat)) :=
      (Cache.ofWindows windows).afterAll id past
    let kept := after ⟨none, none⟩ past
    let expired := after ⟨some 0, none⟩ past
    let gone := after ⟨none, none⟩ (.dispose :: past)
    ((kept.get "a").1 = .ok (some 3) ∧ ∃ wasThere, (kept.remove "b").1 = .ok wasThere ∧
        wasThere = true) ∧
      (expired.get "b").1 = .ok none ∧
      (expired.getOrCreate id "b" fun c => (.ok 4, c)).1 = ⟨.ok 4, true⟩ ∧
      kept.Refuses id " " .invalidKey ∧ gone.Refuses id "a" .disposed := by
  intro past after kept expired gone
  obtain ⟨hblank, -, hkept⟩ :=
    cache_answers_like_map id ⟨none, none⟩ true Windows.lets_without past
  obtain ⟨-, -, hexpired⟩ :=
    cache_answers_like_map id ⟨some 0, none⟩ false (Windows.lets_sliding_zero none) past
  obtain ⟨-, hgone, -⟩ :=
    cache_answers_like_map id ⟨none, none⟩ true Windows.lets_without (.dispose :: past)
  obtain ⟨hget, -, -, wasThere, hremove, -, hthere⟩ := (hkept rfl).1 "a" (by decide)
  obtain ⟨-, -, -, wasThere, hremove, hthere, -⟩ := (hkept rfl).1 "b" (by decide)
  obtain ⟨hmissed, hmade, -⟩ := (hexpired rfl).1 "b" (by decide)
  exact ⟨⟨hget, wasThere, hremove, hthere (by decide)⟩, hmissed, hmade (.ok 4),
    hblank " " (by decide), (hgone rfl).1 "a" (by decide)⟩

end ComponentAtlas
