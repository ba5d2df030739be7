import ComponentAtlas.Proofs.Text.Occurrence
import ComponentAtlas.Text.Blank
import ComponentAtlas.Text.Lines

/-!
# Lines of a text

The parts between the line feeds of a text make it up again (`unlines_splitAtChar`), and its lines
are these parts, the last one only if it is not empty, without the carriage returns at their ends.
So the lines of two texts with a line feed between them are those of the one and then those of the
other (`lines_append_feed`), and a text is told by its lines and what stands behind each of them
(`hasLines_lines`).
-/

namespace ComponentAtlas.Text

/-! ## Lines joined -/

theorem unlines_cons_cons (l l' : List Char) (ls : List (List Char)) :
    unlines (l :: l' :: ls) = l ++ '\n' :: unlines (l' :: ls) := by
  rw [unlines, List.intercalate_cons_cons, List.append_assoc]
  rfl

theorem unlines_flatMap {ls : List (List Char)} (h : ls ≠ []) :
    '\n' :: unlines ls = ls.flatMap ('\n' :: ·) := by
  induction ls with
  | nil => exact absurd rfl h
  | cons l ls ih =>
      cases ls with
      | nil => simp [unlines]
      | cons l' ls =>
          rw [List.flatMap_cons, ← ih (List.cons_ne_nil _ _)]
          simp [unlines]

/-! ## Parts between line feeds -/

theorem splitAtChar_ne_nil (c : Char) (cs : List Char) : splitAtChar c cs ≠ [] := by
  cases cs with
  | nil => simp [splitAtChar]
  | cons d cs =>
      rw [splitAtChar]
      split
      · simp
      · split <;> simp

theorem flatMap_splitAtChar (cs : List Char) :
    (splitAtChar '\n' cs).flatMap ('\n' :: ·) = '\n' :: cs := by
  induction cs with
  | nil => rfl
  | cons d rest ih =>
      rw [splitAtChar]
      cases hparts : splitAtChar '\n' rest with
      | nil => rw [hparts] at ih; cases ih
      | cons part parts =>
          rw [hparts, List.flatMap_cons] at ih
          have hrest := (List.cons.inj ih).2
          simp only
          split
          · rename_i hfeed
            rw [List.flatMap_cons, List.flatMap_cons, hfeed, ih]
            rfl
          · rw [List.flatMap_cons, ← hrest]
            rfl

theorem unlines_splitAtChar (cs : List Char) : unlines (splitAtChar '\n' cs) = cs :=
  (List.cons.inj ((unlines_flatMap (splitAtChar_ne_nil '\n' cs)).trans
    (flatMap_splitAtChar cs))).2

theorem splitAtChar_append (cs ds : List Char) :
    splitAtChar '\n' (cs ++ '\n' :: ds) = splitAtChar '\n' cs ++ splitAtChar '\n' ds := by
  have hfeed : splitAtChar '\n' ('\n' :: ds) = [] :: splitAtChar '\n' ds := by
    rw [splitAtChar]
    split
    · rename_i hnone
      exact absurd hnone (splitAtChar_ne_nil _ _)
    · rename_i hparts
      rw [if_pos rfl, hparts]
  induction cs with
  | nil => exact hfeed
  | cons c cs ih =>
      rw [List.cons_append, splitAtChar, ih, splitAtChar]
      cases hparts : splitAtChar '\n' cs with
      | nil => exact absurd hparts (splitAtChar_ne_nil _ _)
      | cons part parts =>
          simp only [List.cons_append]
          split <;> rfl

/-- The parts of two texts side by side: the last part of the one goes on as the first of the
other. -/
theorem exists_parts_append (cs ds : List Char) : ∃ front last first rest,
    splitAtChar '\n' cs = front ++ [last] ∧ splitAtChar '\n' ds = first :: rest ∧
      splitAtChar '\n' (cs ++ ds) = front ++ (last ++ first) :: rest := by
  obtain ⟨first, rest, hds⟩ := List.exists_cons_of_ne_nil (splitAtChar_ne_nil '\n' ds)
  induction cs with
  | nil => exact ⟨[], [], first, rest, rfl, hds, hds⟩
  | cons c cs ih =>
      obtain ⟨front, last, first', rest', hcs, hds', hboth⟩ := ih
      rw [List.cons_append]
      cases front with
      | nil =>
          rw [List.nil_append] at hcs hboth
          by_cases hc : c = '\n'
          · refine ⟨[[]], last, first', rest', ?_, hds', ?_⟩
            · rw [splitAtChar, hcs]
              simp only [if_pos hc, List.singleton_append]
            · rw [splitAtChar, hboth]
              simp only [if_pos hc, List.singleton_append]
          · refine ⟨[], c :: last, first', rest', ?_, hds', ?_⟩
            · rw [splitAtChar, hcs]
              simp only [if_neg hc, List.nil_append]
            · rw [splitAtChar, hboth]
              simp only [if_neg hc, List.nil_append, List.cons_append]
      | cons part front =>
          rw [List.cons_append] at hcs hboth
          refine ⟨(if c = '\n' then [[], part] else [c :: part]) ++ front, last, first', rest', ?_,
            hds', ?_⟩
          · rw [splitAtChar, hcs]
            by_cases hc : c = '\n' <;> simp [hc]
          · rw [splitAtChar, hboth]
            by_cases hc : c = '\n' <;> simp [hc]

theorem infix_unlines {l : List Char} {ls : List (List Char)} (h : l ∈ ls) : l <:+: unlines ls := by
  induction ls with
  | nil => cases h
  | cons k ls ih =>
      cases ls with
      | nil => simp [unlines, List.mem_singleton.mp h]
      | cons k' ls =>
          rw [unlines_cons_cons]
          rcases List.mem_cons.mp h with rfl | h
          · exact (List.prefix_append _ _).isInfix
          · exact (ih h).trans ((List.suffix_cons _ _).trans (List.suffix_append _ _)).isInfix

theorem infix_of_mem_splitAtChar {p cs : List Char} (h : p ∈ splitAtChar '\n' cs) : p <:+: cs := by
  have hinfix := infix_unlines h
  rwa [unlines_splitAtChar] at hinfix

theorem splitAtChar_of_notMem {l : List Char} (h : '\n' ∉ l) : splitAtChar '\n' l = [l] := by
  induction l with
  | nil => rfl
  | cons c l ih =>
      obtain ⟨hc, hl⟩ := not_or.mp (mt List.mem_cons.mpr h)
      rw [splitAtChar, ih hl]
      simp only [if_neg (Ne.symm hc)]

theorem notMem_of_mem_splitAtChar {p cs : List Char} (h : p ∈ splitAtChar '\n' cs) : '\n' ∉ p := by
  induction cs generalizing p with
  | nil =>
      rw [List.mem_singleton.mp h]
      exact List.not_mem_nil
  | cons c cs ih =>
      obtain ⟨part, parts, hparts⟩ := List.exists_cons_of_ne_nil (splitAtChar_ne_nil '\n' cs)
      rw [hparts] at ih
      rw [splitAtChar, hparts] at h
      by_cases hc : c = '\n'
      · simp only [if_pos hc, List.mem_cons] at h
        rcases h with rfl | h
        · exact List.not_mem_nil
        · exact ih (List.mem_cons.mpr h)
      · simp only [if_neg hc, List.mem_cons] at h
        rcases h with rfl | h
        · exact List.not_mem_cons_of_ne_of_not_mem (Ne.symm hc) (ih List.mem_cons_self)
        · exact ih (List.mem_cons_of_mem _ h)

/-- Joined lines are the parts of what they make up. -/
theorem splitAtChar_unlines {ls : List (List Char)} (hne : ls ≠ []) (h : ∀ l ∈ ls, '\n' ∉ l) :
    splitAtChar '\n' (unlines ls) = ls := by
  induction ls with
  | nil => exact absurd rfl hne
  | cons l ls ih =>
      obtain ⟨hl, hls⟩ := List.forall_mem_cons.mp h
      cases ls with
      | nil =>
          have hlast : unlines [l] = l := by simp [unlines]
          rw [hlast, splitAtChar_of_notMem hl]
      | cons l' ls =>
          rw [unlines_cons_cons, splitAtChar_append, splitAtChar_of_notMem hl,
            ih (List.cons_ne_nil _ _) hls, List.singleton_append]

/-! ## Lines -/

theorem exists_dropReturn (part : List Char) :
    ∃ r, part = dropReturn part ++ r ∧ ∀ c ∈ r, isBlank c = true := by
  unfold dropReturn beforeEnd?
  cases h : after? ['\r'].reverse part.reverse with
  | none => exact ⟨[], by simp, by simp⟩
  | some rest =>
      have hpart := congrArg List.reverse (after?_eq_some_iff.mp h)
      rw [List.reverse_reverse, List.reverse_append, List.reverse_reverse] at hpart
      exact ⟨['\r'], hpart, by simp [isBlank]⟩

theorem linesOfParts_append {ps qs : List (List Char)} (hqs : qs ≠ []) :
    linesOfParts (ps ++ qs) = ps.map dropReturn ++ linesOfParts qs := by
  induction ps with
  | nil => rfl
  | cons p ps ih =>
      obtain ⟨next, parts, hnext⟩ := List.exists_cons_of_ne_nil
        (List.append_ne_nil_of_right_ne_nil ps hqs)
      rw [List.cons_append, hnext, linesOfParts, ← hnext, ih]
      rfl

theorem lines_append_feed (cs ds : List Char) :
    lines (cs ++ '\n' :: ds) = (splitAtChar '\n' cs).map dropReturn ++ lines ds := by
  rw [lines, splitAtChar_append, linesOfParts_append (splitAtChar_ne_nil _ _)]
  rfl

/-- A line is a part without the blank that may stand at its end. -/
theorem exists_part_of_mem_lines {ps : List (List Char)} {l : List Char}
    (hl : l ∈ linesOfParts ps) : ∃ p ∈ ps, ∃ r, p = l ++ r ∧ ∀ c ∈ r, isBlank c = true := by
  induction ps using linesOfParts.induct with
  | case1 => cases hl
  | case2 last hempty => rw [linesOfParts, if_pos hempty] at hl; cases hl
  | case3 last hfull =>
      rw [linesOfParts, if_neg hfull] at hl
      obtain rfl := List.mem_singleton.mp hl
      exact ⟨l, List.mem_cons_self, [], (List.append_nil l).symm, by simp⟩
  | case4 part next parts ih =>
      rw [linesOfParts] at hl
      rcases List.mem_cons.mp hl with rfl | hl
      · exact ⟨part, List.mem_cons_self, exists_dropReturn part⟩
      · obtain ⟨p, hp, hblank⟩ := ih hl
        exact ⟨p, List.mem_cons_of_mem _ hp, hblank⟩

theorem mem_linesOfParts {ps : List (List Char)} {l : List Char} (hl : l ∈ linesOfParts ps) :
    ∃ p ∈ ps, l <+: p := by
  obtain ⟨p, hp, r, hpart, -⟩ := exists_part_of_mem_lines hl
  exact ⟨p, hp, r, hpart.symm⟩

theorem notMem_of_mem_lines {l cs : List Char} (hl : l ∈ lines cs) : '\n' ∉ l := by
  obtain ⟨p, hp, hstart⟩ := mem_linesOfParts hl
  exact fun hfeed => notMem_of_mem_splitAtChar hp (hstart.subset hfeed)

theorem dropReturn_concat (l : List Char) : dropReturn (l ++ ['\r']) = l := by
  rw [dropReturn, beforeEnd?_eq_some_iff.mpr rfl, Option.getD_some]

theorem dropReturn_of_ne {l : List Char} (h : ∀ c ∈ l.getLast?, c ≠ '\r') : dropReturn l = l := by
  cases hend : beforeEnd? ['\r'] l with
  | none => rw [dropReturn, hend, Option.getD_none]
  | some front =>
      rw [beforeEnd?_eq_some_iff.mp hend] at h
      exact absurd rfl (h '\r' List.getLast?_concat)

/-- A text and its lines.  Behind each line stands a line feed, or a carriage return and a line
feed; behind the last one there may be nothing. -/
inductive HasLines : List Char → List (List Char) → Prop
  | nil : HasLines [] []
  | last {l : List Char} (nonempty : l ≠ []) (unbroken : '\n' ∉ l) : HasLines l [l]
  | feed {l cs : List Char} {ls : List (List Char)} (unbroken : '\n' ∉ l)
      (plain : ∀ c ∈ l.getLast?, c ≠ '\r') (rest : HasLines cs ls) :
      HasLines (l ++ '\n' :: cs) (l :: ls)
  | returnFeed {l cs : List Char} {ls : List (List Char)} (unbroken : '\n' ∉ l)
      (rest : HasLines cs ls) : HasLines (l ++ '\r' :: '\n' :: cs) (l :: ls)

theorem HasLines.lines_eq {cs : List Char} {ls : List (List Char)} (h : HasLines cs ls) :
    lines cs = ls := by
  induction h with
  | nil => rfl
  | last nonempty unbroken =>
      rw [lines, splitAtChar_of_notMem unbroken, linesOfParts, if_neg (by simpa using nonempty)]
  | feed unbroken plain _ ih =>
      rw [lines_append_feed, splitAtChar_of_notMem unbroken, ih, List.map_singleton,
        dropReturn_of_ne plain, List.singleton_append]
  | @returnFeed l cs _ unbroken _ ih =>
      have hline : '\n' ∉ l ++ ['\r'] := by simpa using unbroken
      have htext : l ++ '\r' :: '\n' :: cs = (l ++ ['\r']) ++ '\n' :: cs := by simp
      rw [htext, lines_append_feed, splitAtChar_of_notMem hline, ih, List.map_singleton,
        dropReturn_concat, List.singleton_append]

theorem hasLines_lines (cs : List Char) : HasLines cs (lines cs) := by
  by_cases hfeed : '\n' ∈ cs
  · obtain ⟨l, ds, rfl, hl⟩ := List.eq_append_cons_of_mem hfeed
    have hrest := hasLines_lines ds
    rw [lines_append_feed, splitAtChar_of_notMem hl, List.map_singleton, List.singleton_append]
    by_cases hreturn : l.getLast? = some '\r'
    · obtain ⟨front, rfl⟩ := List.getLast?_eq_some_iff.mp hreturn
      rw [dropReturn_concat, List.append_assoc, List.singleton_append]
      exact .returnFeed (fun h => hl (List.mem_append_left _ h)) hrest
    · have hplain : ∀ c ∈ l.getLast?, c ≠ '\r' := by
        rintro c hc rfl
        exact hreturn hc
      rw [dropReturn_of_ne hplain]
      exact .feed hl hplain hrest
  · by_cases hempty : cs = []
    · rw [hempty]
      exact .nil
    · rw [lines, splitAtChar_of_notMem hfeed, linesOfParts, if_neg (by simpa using hempty)]
      exact .last hempty hfeed
termination_by cs.length

end ComponentAtlas.Text
