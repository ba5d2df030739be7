import ComponentAtlas.Text.Occurrence

/-!
# What occurrence means

`after?` and `contains` scan a text; `<+:` and `<:+:` say that a text is a concatenation.  The
lemmas of this module lead from the one to the other, so that nothing else has to follow the scan.
-/

namespace ComponentAtlas.Text

theorem after?_eq_some_iff {p cs rest : List Char} : after? p cs = some rest ↔ cs = p ++ rest := by
  induction p generalizing cs with
  | nil => simp [after?, eq_comm]
  | cons a p ih =>
      cases cs with
      | nil => simp [after?]
      | cons c cs =>
          by_cases hac : a = c
          · subst hac
            simp [after?, ih]
          · simp [after?, hac, Ne.symm hac]

theorem after?_eq_none_iff {p cs : List Char} : after? p cs = none ↔ ¬ p <+: cs := by
  rw [Option.eq_none_iff_forall_ne_some]
  constructor
  · rintro h ⟨rest, rfl⟩
    exact h rest (after?_eq_some_iff.mpr rfl)
  · intro h rest hr
    exact h ⟨rest, (after?_eq_some_iff.mp hr).symm⟩

/-- Scanning finds a text exactly when it stands somewhere in the other. -/
theorem contains_iff {p cs : List Char} : contains p cs = true ↔ p <:+: cs := by
  unfold contains
  induction cs with
  | nil => cases p <;> simp [cut?]
  | cons c cs ih =>
      rw [List.infix_cons_iff, ← ih]
      cases h : after? p (c :: cs) with
      | some rest =>
          have hp : p <+: c :: cs := ⟨rest, (after?_eq_some_iff.mp h).symm⟩
          simp [cut?, h, hp]
      | none => simp [cut?, h, after?_eq_none_iff.mp h]

/-- A text is cut at the first place where a character stands. -/
theorem cut?_char_eq_some_iff {c : Char} {cs before behind : List Char} :
    cut? [c] cs = some (before, behind) ↔ cs = before ++ c :: behind ∧ c ∉ before := by
  induction cs generalizing before with
  | nil => simp [cut?]
  | cons d cs ih =>
      rw [cut?, after?]
      by_cases hcd : c = d
      · subst hcd
        rw [if_pos rfl]
        cases before with
        | nil => simp [after?, eq_comm]
        | cons b before =>
            refine iff_of_false (by simp [after?]) fun h => h.2 ?_
            rw [(List.cons.inj h.1).1]
            exact List.mem_cons_self
      · simp only [if_neg hcd, Option.map_eq_some_iff, Prod.exists, Prod.mk.injEq]
        constructor
        · rintro ⟨start, rest, h, rfl, rfl⟩
          obtain ⟨rfl, hnone⟩ := ih.mp h
          exact ⟨rfl, fun hmem => (List.mem_cons.mp hmem).elim hcd hnone⟩
        · rintro ⟨h, hnone⟩
          cases before with
          | nil => exact absurd (List.cons.inj h).1.symm hcd
          | cons b before =>
              obtain ⟨rfl, rfl⟩ := List.cons.inj h
              exact ⟨before, behind, ih.mpr ⟨rfl, fun hmem => hnone (List.mem_cons_of_mem _ hmem)⟩,
                rfl, rfl⟩

theorem cut?_char_eq_none_iff {c : Char} {cs : List Char} : cut? [c] cs = none ↔ c ∉ cs := by
  constructor
  · intro h hmem
    obtain ⟨before, behind, hcs, hnone⟩ := List.eq_append_cons_of_mem hmem
    rw [cut?_char_eq_some_iff.mpr ⟨hcs, hnone⟩] at h
    cases h
  · intro h
    refine Option.eq_none_iff_forall_ne_some.mpr fun cut hcut => h ?_
    obtain ⟨before, behind⟩ := cut
    rw [(cut?_char_eq_some_iff.mp hcut).1]
    exact List.mem_append_right _ List.mem_cons_self

/-! ## The end of a text -/

section

variable {c : Char} {cs ds : List Char}

theorem afterLast_append (h : c ∉ ds) : afterLast c (cs ++ ds) = afterLast c cs ++ ds := by
  have hall : ∀ d ∈ ds.reverse, decide (d ≠ c) = true := fun d hd =>
    decide_eq_true fun hdc => h (hdc ▸ List.mem_reverse.mp hd)
  rw [afterLast, List.reverse_append, List.takeWhile_append_of_pos hall, List.reverse_append,
    List.reverse_reverse, afterLast]

theorem afterLast_eq_self (h : c ∉ ds) : afterLast c ds = ds := by
  have happend : afterLast c ([] ++ ds) = afterLast c [] ++ ds := afterLast_append h
  exact happend

theorem afterLast_cons (h : c ∉ ds) : afterLast c (cs ++ c :: ds) = ds := by
  have happend : afterLast c ((cs ++ [c]) ++ ds) = afterLast c (cs ++ [c]) ++ ds :=
    afterLast_append h
  have hnone : afterLast c (cs ++ [c]) = [] := by
    rw [afterLast, List.reverse_append, List.reverse_singleton, List.singleton_append,
      List.takeWhile_cons_of_neg (by simp), List.reverse_nil]
  rwa [hnone, List.append_assoc, List.singleton_append, List.nil_append] at happend

theorem beforeEnd?_eq_some_iff {front : List Char} :
    beforeEnd? ds cs = some front ↔ cs = front ++ ds := by
  rw [beforeEnd?, Option.map_eq_some_iff]
  constructor
  · rintro ⟨rest, hrest, rfl⟩
    rw [← List.reverse_reverse cs, after?_eq_some_iff.mp hrest, List.reverse_append,
      List.reverse_reverse]
  · rintro rfl
    exact ⟨front.reverse, after?_eq_some_iff.mpr List.reverse_append, List.reverse_reverse _⟩

theorem beforeEnd?_eq_none_of_getLast? {d e : Char} (hd : cs.getLast? = some d)
    (he : ds.getLast? = some e) (hne : d ≠ e) : beforeEnd? ds cs = none := by
  refine Option.eq_none_iff_forall_ne_some.mpr fun front hfront => hne ?_
  rw [beforeEnd?_eq_some_iff.mp hfront, List.getLast?_append, he] at hd
  exact (Option.some.inj hd).symm

end

end ComponentAtlas.Text
