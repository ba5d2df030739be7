import ComponentAtlas.Text.Recogniser

/-!
# Where a recogniser matches first

The first match of a recogniser stands behind the piece in front of it, and no match begins within
that piece (`exists_first_match`).  The other way round, a text in which no match begins is passed
over as it stands.
-/

namespace ComponentAtlas.Text

theorem ofReading_eq_some {α : Type} {read : List Char → Option (α × List Char)}
    {s rest : List Char} {value : α} (h : read s = some (value, rest))
    (hshort : rest.length < s.length) :
    Recogniser.ofReading read s = some ⟨value, rest, hshort⟩ := by
  simp only [Recogniser.ofReading, h, Option.bind_some, Match.of?, dif_pos hshort]

section

variable {α : Type} {r : Recogniser α}

theorem findFirst?_append {p s : List Char} (h : ∀ v, v ≠ [] → v <:+ p → r (v ++ s) = none) :
    r.findFirst? (p ++ s) = r.findFirst? s := by
  induction p with
  | nil => rfl
  | cons c p ih =>
      have hfirst := h (c :: p) (List.cons_ne_nil _ _) List.suffix_rfl
      rw [List.cons_append] at hfirst ⊢
      rw [Recogniser.findFirst?, hfirst]
      exact ih fun v hv hsuffix => h v hv (hsuffix.trans (List.suffix_cons c p))

theorem pieces_append {p s : List Char} (h : ∀ v, v ≠ [] → v <:+ p → r (v ++ s) = none) :
    (r.pieces (p ++ s)).1 = p ++ (r.pieces s).1 := by
  induction p with
  | nil => rfl
  | cons c p ih =>
      have hfirst := h (c :: p) (List.cons_ne_nil _ _) List.suffix_rfl
      rw [List.cons_append] at hfirst ⊢
      rw [Recogniser.pieces, hfirst]
      exact congrArg (c :: ·) (ih fun v hv hsuffix => h v hv (hsuffix.trans (List.suffix_cons c p)))

theorem findFirst?_of_some {s : List Char} {m : Match α s} (h : r s = some m) :
    r.findFirst? s = some (m.value, m.rest) := by
  cases s with
  | nil => exact absurd m.shorter (Nat.not_lt_zero _)
  | cons c cs => rw [Recogniser.findFirst?, h]

theorem pieces_of_some {s : List Char} {m : Match α s} (h : r s = some m) :
    (r.pieces s).1 = [] := by
  cases s with
  | nil => exact absurd m.shorter (Nat.not_lt_zero _)
  | cons c cs => simp only [Recogniser.pieces, h]

/-- The first match stands behind the piece in front of it, and none begins within that piece. -/
theorem exists_first_match {s rest : List Char} {value : α}
    (h : r.findFirst? s = some (value, rest)) :
    ∃ (t : List Char) (m : Match α t), s = (r.pieces s).1 ++ t ∧ r t = some m ∧ m.rest = rest ∧
      ∀ v, v ≠ [] → v <:+ (r.pieces s).1 → r (v ++ t) = none := by
  induction s with
  | nil => cases h
  | cons c cs ih =>
      rw [Recogniser.findFirst?] at h
      cases hfirst : r (c :: cs) with
      | some m =>
          rw [hfirst] at h
          obtain ⟨-, rfl⟩ := Prod.mk.inj (Option.some.inj h)
          rw [pieces_of_some hfirst]
          exact ⟨_, m, rfl, hfirst, rfl, fun v hv hsuffix => absurd (List.suffix_nil.mp hsuffix) hv⟩
      | none =>
          rw [hfirst] at h
          obtain ⟨t, m, hsplit, ht, hrest, hnone⟩ := ih h
          have hpiece : (r.pieces (c :: cs)).1 = c :: (r.pieces cs).1 := by
            rw [Recogniser.pieces, hfirst]
          refine ⟨t, m, ?_, ht, hrest, fun v hv hsuffix => ?_⟩
          · rw [hpiece, List.cons_append, ← hsplit]
          · rw [hpiece] at hsuffix
            rcases List.suffix_cons_iff.mp hsuffix with rfl | hsuffix
            · rw [List.cons_append, ← hsplit]
              exact hfirst
            · exact hnone v hv hsuffix

theorem findFirst?_eq_none {s : List Char} (h : r.findFirst? s = none) :
    ∀ v, v ≠ [] → v <:+ s → r v = none := by
  induction s with
  | nil => exact fun v hv hsuffix => absurd (List.suffix_nil.mp hsuffix) hv
  | cons c cs ih =>
      intro v hv hsuffix
      rw [Recogniser.findFirst?] at h
      cases hfirst : r (c :: cs) with
      | some m => rw [hfirst] at h; cases h
      | none =>
          rw [hfirst] at h
          rcases List.suffix_cons_iff.mp hsuffix with rfl | hsuffix
          · exact hfirst
          · exact ih h v hv hsuffix

/-- A text in which no match begins is replaced by itself. -/
theorem replace_eq_self {s : List Char} (h : ∀ v, v ≠ [] → v <:+ s → r v = none)
    (f : α → List Char) : r.replace f s = s := by
  have hpieces : r.pieces s = (s, []) := by
    induction s with
    | nil => rw [Recogniser.pieces]
    | cons c cs ih =>
        rw [Recogniser.pieces, h (c :: cs) (List.cons_ne_nil _ _) List.suffix_rfl]
        simp only [ih fun v hv hsuffix => h v hv (hsuffix.trans (List.suffix_cons c cs))]
  rw [Recogniser.replace, hpieces]
  exact List.append_nil s

end

/-- A reading that finds nothing in any text of some characters replaces nothing there. -/
theorem replace_ofReading {α : Type} {read : List Char → Option (α × List Char)} {s : List Char}
    (h : ∀ v, v <:+ s → read v = none) (f : α → List Char) :
    (Recogniser.ofReading read).replace f s = s :=
  replace_eq_self (fun v _ hsuffix => by rw [Recogniser.ofReading, h v hsuffix, Option.bind_none]) f

end ComponentAtlas.Text
