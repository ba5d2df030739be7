import ComponentAtlas.Proofs.Text.Solid
import ComponentAtlas.Proofs.Text.Unquoted

/-!
# Texts between commas

A list is cut where the scan meets a comma that separates.  Texts written with commas between them
are read back just when they come apart: the scan passes no separating comma within a text, and
separates at each comma between two of them (`partsFrom_intercalate_iff`).  Both directions follow
from two facts about the parts of any text, that they come apart and that commas put them together
again.
-/

namespace ComponentAtlas.Text

open Nesting

/-- Whether a scan goes over each of some texts as one part, and separates behind each but the
last. -/
inductive ComeApart : Nesting → List (List Char) → Prop
  | last {n m : Nesting} {t : List Char} (within : t.foldlM within? n = some m) : ComeApart n [t]
  | cons {n m : Nesting} {t : List Char} {ts : List (List Char)}
      (within : t.foldlM within? n = some m) (separates : m.separates = true)
      (rest : ComeApart m ts) : ComeApart n (t :: ts)

/-! ## The parts of a text -/

theorem partsFrom_comma {n : Nesting} (h : n.separates = true) (cs : List Char) :
    partsFrom n (',' :: cs) = [] :: partsFrom n cs := by
  rw [partsFrom, if_pos ⟨rfl, h⟩]

theorem partsFrom_ne_nil (n : Nesting) (cs : List Char) : partsFrom n cs ≠ [] := by
  cases cs with
  | nil => exact List.cons_ne_nil _ _
  | cons c cs =>
      rw [partsFrom]
      split
      · exact List.cons_ne_nil _ _
      · split <;> exact List.cons_ne_nil _ _

theorem partsFrom_within {n m : Nesting} {c : Char} (h : n.within? c = some m) {cs p : List Char}
    {ps : List (List Char)} (hrest : partsFrom m cs = p :: ps) :
    partsFrom n (c :: cs) = (c :: p) :: ps := by
  unfold within? at h
  split at h
  · cases h
  · rename_i hsep
    obtain rfl := Option.some.inj h
    rw [partsFrom, if_neg hsep, hrest]

theorem within?_cases (n : Nesting) (c : Char) :
    (c = ',' ∧ n.separates = true) ∨ ∃ m, n.within? c = some m := by
  by_cases h : c = ',' ∧ n.separates = true
  · exact Or.inl h
  · exact Or.inr ⟨n.next c, if_neg h⟩

/-- A text within one part begins the first one. -/
theorem partsFrom_append {n m : Nesting} {t cs p : List Char} {ps : List (List Char)}
    (h : t.foldlM within? n = some m) (hrest : partsFrom m cs = p :: ps) :
    partsFrom n (t ++ cs) = (t ++ p) :: ps := by
  induction t generalizing n with
  | nil =>
      obtain rfl := Option.some.inj h
      exact hrest
  | cons c t ih =>
      rw [List.foldlM_cons] at h
      obtain ⟨k, hk, ht⟩ := Option.bind_eq_some_iff.mp h
      exact partsFrom_within hk (ih ht)

theorem ComeApart.cons_char {n m : Nesting} {c : Char} {p : List Char} {ps : List (List Char)}
    (hc : n.within? c = some m) (h : ComeApart m (p :: ps)) : ComeApart n ((c :: p) :: ps) := by
  have hwithin {k : Nesting} (hp : p.foldlM within? m = some k) :
      (c :: p).foldlM within? n = some k := by
    rw [List.foldlM_cons, hc]
    exact hp
  cases h with
  | last within => exact .last (hwithin within)
  | cons within separates rest => exact .cons (hwithin within) separates rest

theorem comeApart_partsFrom (n : Nesting) (cs : List Char) : ComeApart n (partsFrom n cs) := by
  induction cs generalizing n with
  | nil => exact .last rfl
  | cons c cs ih =>
      rcases within?_cases n c with ⟨rfl, hsep⟩ | ⟨m, hm⟩
      · rw [partsFrom_comma hsep]
        exact .cons rfl hsep (ih n)
      · obtain ⟨p, ps, hparts⟩ := List.exists_cons_of_ne_nil (partsFrom_ne_nil m cs)
        rw [partsFrom_within hm hparts]
        exact .cons_char hm (hparts ▸ ih m)

theorem intercalate_partsFrom (n : Nesting) (cs : List Char) :
    [','].intercalate (partsFrom n cs) = cs := by
  induction cs generalizing n with
  | nil => rfl
  | cons c cs ih =>
      rcases within?_cases n c with ⟨rfl, hsep⟩ | ⟨m, hm⟩
      · rw [partsFrom_comma hsep, List.intercalate_cons_of_ne_nil (partsFrom_ne_nil n cs), ih]
        rfl
      · obtain ⟨p, ps, hparts⟩ := List.exists_cons_of_ne_nil (partsFrom_ne_nil m cs)
        have htext := ih m
        rw [partsFrom_within hm hparts]
        rw [hparts] at htext
        cases ps with
        | nil => simpa using htext
        | cons q ps =>
            rw [List.intercalate_cons_cons] at htext ⊢
            rw [List.cons_append, List.cons_append, htext]

theorem ComeApart.ne_nil {n : Nesting} {ts : List (List Char)} (h : ComeApart n ts) : ts ≠ [] := by
  cases h <;> exact List.cons_ne_nil _ _

/-- Texts with commas between them are read back exactly when they come apart. -/
theorem partsFrom_intercalate_iff {n : Nesting} {ts : List (List Char)} :
    partsFrom n ([','].intercalate ts) = ts ↔ ComeApart n ts := by
  constructor
  · intro h
    rw [← h]
    exact comeApart_partsFrom n _
  · intro h
    induction h with
    | @last n m t within =>
        have hlast : [','].intercalate [t] = t ++ [] := by simp
        rw [hlast, partsFrom_append within rfl, List.append_nil]
    | @cons n m t ts within separates rest ih =>
        have hcomma : partsFrom m (',' :: [','].intercalate ts) = [] :: ts :=
          (partsFrom_comma separates _).trans (congrArg _ ih)
        rw [List.intercalate_cons_of_ne_nil rest.ne_nil, List.append_assoc, List.singleton_append,
          partsFrom_append within hcomma, List.append_nil]

/-- Texts behind each of which the scan stands where it began come apart. -/
theorem comeApart_of_within {ts : List (List Char)} (hne : ts ≠ [])
    (h : ∀ t ∈ ts, t.foldlM within? .start = some .start) : ComeApart .start ts := by
  induction ts with
  | nil => exact absurd rfl hne
  | cons t ts ih =>
      obtain ⟨ht, hts⟩ := List.forall_mem_cons.mp h
      by_cases hnone : ts = []
      · rw [hnone]
        exact .last ht
      · exact .cons ht rfl (ih hnone hts)

/-! ## Counting -/

/-- The characters of a list that are no blanks are those of its texts, and the commas. -/
theorem length_solid_intercalate {ts : List (List Char)} (h : ts ≠ []) :
    (solid ([','].intercalate ts)).length + 1 = (ts.flatMap solid).length + ts.length := by
  have hcomma : solid [','] = [','] := by decide
  induction ts with
  | nil => exact absurd rfl h
  | cons t ts ih =>
      by_cases hnone : ts = []
      · simp [hnone]
      · have hrest := ih hnone
        rw [List.intercalate_cons_of_ne_nil hnone, solid_append, solid_append, hcomma,
          List.flatMap_cons]
        simp only [List.length_append, List.length_cons, List.length_nil]
        omega

/-- Two lists that make the same text are the same when their texts have as many characters that
are no blanks, one by one. -/
theorem eq_of_intercalate_eq {ps ts : List (List Char)} (hps : ps ≠ [])
    (h : [','].intercalate ps = [','].intercalate ts)
    (hsize : ps.map (fun p => (solid p).length) = ts.map fun t => (solid t).length) : ps = ts := by
  induction ps generalizing ts with
  | nil => exact absurd rfl hps
  | cons p ps ih =>
      obtain ⟨t, ts, rfl⟩ := List.exists_cons_of_ne_nil (l := ts) (by rintro rfl; cases hsize)
      obtain ⟨hfirst, hrest⟩ := List.cons.inj hsize
      have hnone : ps = [] ↔ ts = [] := by
        rw [← List.map_eq_nil_iff (f := fun p => (solid p).length), hrest, List.map_eq_nil_iff]
      by_cases hps' : ps = []
      · rw [hnone.mp hps', hps'] at h ⊢
        simpa using h
      · rw [List.intercalate_cons_of_ne_nil hps',
          List.intercalate_cons_of_ne_nil (mt hnone.mpr hps'), List.append_assoc,
          List.append_assoc] at h
        obtain ⟨rfl, htail⟩ := cut_unique (by decide) h hfirst
        rw [ih hps' htail hrest]

end ComponentAtlas.Text
