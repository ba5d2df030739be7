import ComponentAtlas.Proofs.Text.Recogniser

/-!
# Matches with their places

A text is cut at the matches of a recogniser, and each match comes with the text up to the next one.
Here the matches are listed with their places instead, and the pieces are what lies between them.

Where a text is appended to another one, its matches are those of the two when it begins with a
match itself and no match runs across the border (`hits_append`).  That needs a recogniser which
looks no further than what it takes, `IsLocal`: then a match that ends before the border is one in
either text.
-/

namespace ComponentAtlas.Text

variable {α : Type}

/-- A match with its place: the text that begins with it, and the text behind it. -/
structure Hit (α : Type) where
  value : α
  here : List Char
  behind : List Char
  deriving DecidableEq, Repr

namespace Hit

/-- How much of a text is left where the first match begins; nothing when there is none. -/
def leftAtFirst (found : List (Hit α)) : Nat :=
  (found.head?.map fun h => h.here.length).getD 0

/-- The value of each match with the text up to the next one. -/
def segments : List (Hit α) → List (α × List Char)
  | [] => []
  | h :: hits =>
    (h.value, h.behind.take (h.behind.length - leftAtFirst hits)) :: segments hits

end Hit

namespace Recogniser

variable {r : Recogniser α}

/-- The matches from left to right, none of which begins within another one. -/
def hits (r : Recogniser α) : List Char → List (Hit α)
  | [] => []
  | c :: cs =>
    match r (c :: cs) with
    | some m => ⟨m.value, c :: cs, m.rest⟩ :: hits r m.rest
    | none => hits r cs
  termination_by s => s.length
  decreasing_by
    · exact m.shorter
    · simp

/-- Some matches are those that are met from left to right: no match begins in front of the first
one, in between, or behind the last one. -/
inductive Meets (r : Recogniser α) : List Char → List (Hit α) → Prop
  | last {s : List Char} (free : ∀ v, v ≠ [] → v <:+ s → r v = none) : Meets r s []
  | next {front here : List Char} {m : Match α here} {found : List (Hit α)}
      (free : ∀ v, v ≠ [] → v <:+ front → r (v ++ here) = none) (found_here : r here = some m)
      (more : Meets r m.rest found) :
      Meets r (front ++ here) (⟨m.value, here, m.rest⟩ :: found)

theorem hits_of_some {s : List Char} {m : Match α s} (h : r s = some m) :
    r.hits s = ⟨m.value, s, m.rest⟩ :: r.hits m.rest := by
  cases s with
  | nil => exact absurd m.shorter (Nat.not_lt_zero _)
  | cons c cs => rw [hits, h]

theorem hits_of_none {c : Char} {cs : List Char} (h : r (c :: cs) = none) :
    r.hits (c :: cs) = r.hits cs := by
  rw [hits, h]

theorem pieces_of_match {s : List Char} {m : Match α s} (h : r s = some m) :
    r.pieces s = ([], (m.value, (r.pieces m.rest).1) :: (r.pieces m.rest).2) := by
  cases s with
  | nil => exact absurd m.shorter (Nat.not_lt_zero _)
  | cons c cs => simp only [pieces, h]

theorem pieces_of_none {c : Char} {cs : List Char} (h : r (c :: cs) = none) :
    r.pieces (c :: cs) = (c :: (r.pieces cs).1, (r.pieces cs).2) := by
  simp only [pieces, h]

/-- Nothing is met in front of a character at which nothing begins. -/
theorem Meets.cons {c : Char} {cs : List Char} {found : List (Hit α)} (h : r.Meets cs found)
    (hnone : r (c :: cs) = none) : r.Meets (c :: cs) found := by
  cases h with
  | last free =>
      refine .last fun v hv hsuffix => ?_
      rcases List.suffix_cons_iff.mp hsuffix with rfl | hsuffix
      · exact hnone
      · exact free v hv hsuffix
  | @next front here m found free found_here more =>
      have hnext : r.Meets ((c :: front) ++ here) (⟨m.value, here, m.rest⟩ :: found) := by
        refine .next (fun v hv hsuffix => ?_) found_here more
        rcases List.suffix_cons_iff.mp hsuffix with rfl | hsuffix
        · exact hnone
        · exact free v hv hsuffix
      exact hnext

theorem meets_hits (r : Recogniser α) (s : List Char) : r.Meets s (r.hits s) := by
  induction s using Recogniser.hits.induct r with
  | case1 =>
      rw [hits]
      exact .last fun v hv hsuffix => absurd (List.suffix_nil.mp hsuffix) hv
  | case2 c cs m hfirst ih =>
      have hnext : r.Meets ([] ++ c :: cs) (⟨m.value, c :: cs, m.rest⟩ :: r.hits m.rest) :=
        .next (fun v hv hsuffix => absurd (List.suffix_nil.mp hsuffix) hv) hfirst ih
      rw [hits_of_some hfirst]
      exact hnext
  | case3 c cs hfirst ih =>
      rw [hits_of_none hfirst]
      exact ih.cons hfirst

theorem Meets.leftAtFirst_le {s : List Char} {found : List (Hit α)} (h : r.Meets s found) :
    Hit.leftAtFirst found ≤ s.length := by
  cases h with
  | last => exact Nat.zero_le _
  | next =>
      rw [List.length_append]
      exact Nat.le_add_left _ _

/-- The first piece ends where the first match begins, and the others lie between matches. -/
theorem pieces_eq (r : Recogniser α) (s : List Char) :
    r.pieces s =
      (s.take (s.length - Hit.leftAtFirst (r.hits s)), Hit.segments (r.hits s)) := by
  induction s using Recogniser.hits.induct r with
  | case1 =>
      rw [pieces, hits]
      rfl
  | case2 c cs m hfirst ih =>
      have hstart : (c :: cs).take ((c :: cs).length - (c :: cs).length) = [] := by
        rw [Nat.sub_self, List.take_zero]
      rw [pieces_of_match hfirst, hits_of_some hfirst, ih]
      exact Prod.ext hstart.symm rfl
  | case3 c cs hfirst ih =>
      have hle := (r.meets_hits cs).leftAtFirst_le
      rw [pieces_of_none hfirst, hits_of_none hfirst, ih, List.length_cons, Nat.succ_sub hle,
        List.take_succ_cons]

/-! ## Texts side by side -/

/-- A recogniser looks at nothing but what it takes. -/
def IsLocal (r : Recogniser α) : Prop :=
  ∀ (s : List Char) (m : Match α s), r s = some m → ∃ taken, s = taken ++ m.rest ∧
    ∀ other, ∃ hshorter, r (taken ++ other) = some ⟨m.value, other, hshorter⟩

/-- A reading that looks at nothing but what it takes makes a local recogniser. -/
theorem isLocal_ofReading {read : List Char → Option (α × List Char)}
    (h : ∀ s value rest, read s = some (value, rest) → ∃ taken, taken ≠ [] ∧ s = taken ++ rest ∧
      ∀ other, read (taken ++ other) = some (value, other)) :
    (ofReading read).IsLocal := by
  intro s m hm
  obtain ⟨⟨value, rest⟩, hread, hmatch⟩ := Option.bind_eq_some_iff.mp hm
  obtain ⟨taken, htaken, hs, hlocal⟩ := h s value rest hread
  have hmade : Match.of? s value rest = some m := hmatch
  unfold Match.of? at hmade
  split at hmade
  · obtain rfl := Option.some.inj hmade
    refine ⟨taken, hs, fun other => ⟨?_, ofReading_eq_some (hlocal other) ?_⟩⟩ <;>
    · rw [List.length_append]
      exact Nat.lt_add_of_pos_left (List.length_pos_iff.mpr htaken)
  · cases hmade

theorem IsLocal.append {s : List Char} {m : Match α s} (hr : r.IsLocal) (h : r s = some m)
    (other : List Char) :
    ∃ hshorter, r (s ++ other) = some ⟨m.value, m.rest ++ other, hshorter⟩ := by
  obtain ⟨taken, hs, hlocal⟩ := hr s m h
  have happend := hlocal (m.rest ++ other)
  rwa [← List.append_assoc, ← hs] at happend

/-- A match that ends within a text is one in that text alone. -/
theorem IsLocal.of_append {s other : List Char} {m : Match α (s ++ other)} (hr : r.IsLocal)
    (h : r (s ++ other) = some m) (hends : other.length ≤ m.rest.length) : r s ≠ none := by
  obtain ⟨taken, hs, hlocal⟩ := hr _ m h
  obtain ⟨rest, hrest⟩ : other <:+ m.rest :=
    List.suffix_of_suffix_length_le ⟨s, rfl⟩ ⟨taken, hs.symm⟩ hends
  rw [← hrest, ← List.append_assoc] at hs
  obtain ⟨hshorter, halone⟩ := hlocal rest
  rw [List.append_cancel_right hs, halone]
  exact Option.some_ne_none _

/-- Where one text begins with a match and none runs into it from the text in front, the matches
are those of the two, and the text up to the border belongs to the last match in front. -/
theorem pieces_append_of_local (hr : r.IsLocal) {front back : List Char}
    (hback : (r back).isSome = true)
    (hborder : ∀ h ∈ r.hits (front ++ back), back.length < h.here.length →
      back.length ≤ h.behind.length) :
    r.pieces (front ++ back) =
      ((r.pieces front).1, (r.pieces front).2 ++ (r.pieces back).2) := by
  induction front using Recogniser.hits.induct r with
  | case1 =>
      obtain ⟨m, hm⟩ := Option.isSome_iff_exists.mp hback
      rw [List.nil_append]
      have hempty : r.pieces [] = ([], []) := by rw [pieces]
      rw [hempty]
      exact Prod.ext (pieces_of_some hm) rfl
  | case2 c cs m hfirst ih =>
      obtain ⟨hshorter, hsame⟩ := hr.append hfirst back
      have hhits : r.hits ((c :: cs) ++ back) =
          ⟨m.value, (c :: cs) ++ back, m.rest ++ back⟩ :: r.hits (m.rest ++ back) :=
        hits_of_some hsame
      have hmore := ih fun h hh => hborder h (hhits ▸ List.mem_cons_of_mem _ hh)
      rw [pieces_of_match hsame, pieces_of_match hfirst, hmore]
      rfl
  | case3 c cs hfirst ih =>
      cases hboth : r ((c :: cs) ++ back) with
      | some m =>
          have hin : ⟨m.value, (c :: cs) ++ back, m.rest⟩ ∈ r.hits ((c :: cs) ++ back) := by
            rw [hits_of_some hboth]
            exact List.mem_cons_self
          have hends := hborder _ hin (by simp only [List.length_append, List.length_cons]; omega)
          exact absurd hfirst (hr.of_append hboth hends)
      | none =>
          rw [List.cons_append] at hboth ⊢
          have hmore := ih fun h hh => hborder h (by rwa [List.cons_append, hits_of_none hboth])
          rw [pieces_of_none hboth, pieces_of_none hfirst, hmore]

end Recogniser
end ComponentAtlas.Text
