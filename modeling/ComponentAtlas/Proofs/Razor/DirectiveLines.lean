import ComponentAtlas.Proofs.CSharp.Names
import ComponentAtlas.Proofs.Text.Blank
import ComponentAtlas.Proofs.Text.Lines
import ComponentAtlas.Razor.Directive

/-!
# What stripping directives leaves

Directive lines are left out, the others are joined, and the whole is trimmed.  A directive stays
one when blanks are put around it (`IsDirective.between`), and a line of what is left is one of the
joined lines without some blanks at its ends (`exists_kept_of_mem_lines`): trimming may shorten the
first and the last of them, and a carriage return at the end of a line goes as well.  So no line of
what is left is a directive, and nothing but blanks around the joined lines is lost
(`strip_leaves_content`).
-/

namespace ComponentAtlas.Razor

open Text

/-! ## Directive lines -/

/-- A line that is a directive without content: blanks, an at sign, and one of the words, with no
word character behind it. -/
def IsDirective (line : List Char) : Prop :=
  ∃ blanks word rest, line = blanks ++ '@' :: (word.toList ++ rest) ∧
    (∀ c ∈ blanks, isBlank c = true) ∧ word ∈ strippedWords ∧
    ∀ c ∈ rest.head?, Unicode.isWord c = false

theorem isWord_of_mem_strippedWords :
    ∀ word ∈ strippedWords, ∀ c ∈ word.toList, Unicode.isWord c = true := by
  have hwords : ∀ word ∈ strippedWords, word.toList.all Unicode.isWord = true := by decide
  exact fun word hword => List.all_eq_true.mp (hwords word hword)

theorem isDirectiveLine_iff {line : List Char} :
    isDirectiveLine line = true ↔ IsDirective line := by
  constructor
  · intro h
    have hsplit := List.takeWhile_append_dropWhile (p := isBlank) (l := line)
    unfold isDirectiveLine at h
    split at h
    · rename_i rest hrest
      obtain ⟨word, hword, heq⟩ := List.any_eq_true.mp h
      refine ⟨line.takeWhile isBlank, word, rest.dropWhile Unicode.isWord, ?_,
        List.all_eq_true.mp List.all_takeWhile, hword, fun c hc => ?_⟩
      · rw [beq_iff_eq.mp heq, List.takeWhile_append_dropWhile, ← hrest, hsplit]
      · have hnot := List.head?_dropWhile_not Unicode.isWord rest
        rw [Option.mem_def.mp hc] at hnot
        exact hnot
    · cases h
  · rintro ⟨blanks, word, rest, rfl, hblanks, hword, hrest⟩
    have htake : (word.toList ++ rest).takeWhile Unicode.isWord = word.toList := by
      rw [List.takeWhile_append_of_pos (isWord_of_mem_strippedWords word hword)]
      cases rest with
      | nil => exact List.append_nil _
      | cons c rest =>
          rw [List.takeWhile_cons_of_neg (by simp [hrest c rfl]), List.append_nil]
    rw [isDirectiveLine, List.dropWhile_append_of_pos hblanks,
      List.dropWhile_cons_of_neg (by decide)]
    exact List.any_eq_true.mpr ⟨word, hword, beq_iff_eq.mpr htake.symm⟩

instance decidableIsDirective (line : List Char) : Decidable (IsDirective line) :=
  decidable_of_decidable_of_iff isDirectiveLine_iff

/-- A directive is one with blanks around it as well. -/
theorem IsDirective.between {before line behind : List Char}
    (hbefore : ∀ c ∈ before, isBlank c = true) (hbehind : ∀ c ∈ behind, isBlank c = true)
    (h : IsDirective line) : IsDirective (before ++ (line ++ behind)) := by
  obtain ⟨blanks, word, rest, rfl, hblanks, hword, hrest⟩ := h
  refine ⟨before ++ blanks, word, rest ++ behind, by simp, ?_, hword, fun c hc => ?_⟩
  · intro c hc
    exact (List.mem_append.mp hc).elim (hbefore c) (hblanks c)
  · cases rest with
    | nil => exact isWord_eq_false_of_blank (hbehind c (List.mem_of_head? hc))
    | cons d rest => exact hrest c hc

/-! ## The lines that are left -/

/-- A part of a text is one of the same text between blanks, some of them at the part's ends. -/
theorem exists_part_between {before cs behind p : List Char}
    (hbefore : ∀ c ∈ before, isBlank c = true) (hbehind : ∀ c ∈ behind, isBlank c = true)
    (hp : p ∈ splitAtChar '\n' cs) :
    ∃ q ∈ splitAtChar '\n' (before ++ (cs ++ behind)), ∃ x y, q = x ++ (p ++ y) ∧
      (∀ c ∈ x, isBlank c = true) ∧ ∀ c ∈ y, isBlank c = true := by
  -- blanks behind the text go on its last part
  have hend : ∃ y, p ++ y ∈ splitAtChar '\n' (cs ++ behind) ∧ ∀ c ∈ y, isBlank c = true := by
    obtain ⟨front, last, first, rest, hcs, hfirst, hboth⟩ := exists_parts_append cs behind
    rw [hcs] at hp
    rw [hboth]
    rcases List.mem_append.mp hp with hp | hp
    · exact ⟨[], by simp [hp], by simp⟩
    · obtain rfl := List.mem_singleton.mp hp
      have hpart : first <:+: behind := infix_of_mem_splitAtChar (hfirst ▸ List.mem_cons_self)
      exact ⟨first, by simp, fun c hc => hbehind c (hpart.subset hc)⟩
  obtain ⟨y, hy, hyblank⟩ := hend
  -- blanks in front of it go on its first part
  obtain ⟨front, last, first, rest, hfront, hsplit, hboth⟩ :=
    exists_parts_append before (cs ++ behind)
  rw [hsplit] at hy
  rw [hboth]
  rcases List.mem_cons.mp hy with hy | hy
  · have hpart : last <:+: before := infix_of_mem_splitAtChar (hfront ▸ by simp)
    exact ⟨last ++ first, by simp, last, y, by rw [hy],
      fun c hc => hbefore c (hpart.subset hc), hyblank⟩
  · exact ⟨p ++ y, by simp [hy], [], y, rfl, by simp, hyblank⟩

/-- A line of some lines joined and trimmed is one of them without some blanks at its ends. -/
theorem exists_kept_of_mem_lines {ls : List (List Char)} (hunbroken : ∀ l ∈ ls, '\n' ∉ l)
    {l : List Char} (hl : l ∈ lines (trim (unlines ls))) :
    ∃ k ∈ ls, ∃ x y, k = x ++ (l ++ y) ∧ (∀ c ∈ x, isBlank c = true) ∧
      ∀ c ∈ y, isBlank c = true := by
  have hne : ls ≠ [] := by
    rintro rfl
    cases hl
  obtain ⟨before, behind, hsplit, hbefore, hbehind⟩ := exists_trim (unlines ls)
  obtain ⟨p, hp, r, rfl, hr⟩ := exists_part_of_mem_lines hl
  obtain ⟨q, hq, x, y, rfl, hx, hy⟩ := exists_part_between hbefore hbehind hp
  rw [← hsplit, splitAtChar_unlines hne hunbroken] at hq
  refine ⟨_, hq, x, r ++ y, by rw [List.append_assoc], hx, fun c hc => ?_⟩
  exact (List.mem_append.mp hc).elim (hr c) (hy c)

/-- What is stripped of a text is its directive lines and the blanks around the others: these are
joined by line feeds, and what is left of them begins and ends with something else than a blank.
None of its lines is a directive. -/
theorem strip_leaves_content (cs : List Char) :
    ∃ ls, HasLines cs ls ∧
      (∃ before behind,
        unlines (ls.filter fun l => ¬ IsDirective l) = before ++ (stripDirectives cs ++ behind) ∧
          (∀ c ∈ before, isBlank c = true) ∧ (∀ c ∈ behind, isBlank c = true) ∧
          (stripDirectives cs ≠ [] → IsTrimmed (stripDirectives cs))) ∧
      ∀ left, HasLines (stripDirectives cs) left → ∀ l ∈ left, ¬ IsDirective l := by
  have hkept : (lines cs).filter (fun l => !isDirectiveLine l) =
      (lines cs).filter fun l => ¬ IsDirective l := by
    refine List.filter_congr fun l _ => ?_
    by_cases h : IsDirective l
    · simp [h, isDirectiveLine_iff.mpr h]
    · simp [h, mt isDirectiveLine_iff.mp h]
  have hstrip : stripDirectives cs =
      trim (unlines ((lines cs).filter fun l => ¬ IsDirective l)) := by
    rw [stripDirectives, hkept]
  rw [hstrip]
  refine ⟨lines cs, hasLines_lines cs, ?_, fun left hleft l hl hdirective => ?_⟩
  · obtain ⟨before, behind, hsplit, hbefore, hbehind⟩ := exists_trim
      (unlines ((lines cs).filter fun l => ¬ IsDirective l))
    exact ⟨before, behind, hsplit, hbefore, hbehind, isTrimmed_trim⟩
  · rw [← hleft.lines_eq] at hl
    obtain ⟨k, hk, x, y, rfl, hx, hy⟩ := exists_kept_of_mem_lines
      (fun k hk => notMem_of_mem_lines (List.mem_filter.mp hk).1) hl
    exact of_decide_eq_true (List.mem_filter.mp hk).2 (hdirective.between hx hy)

/-- A page with a word that only begins like a directive's, and an indented directive at its end. -/
def lookalikePage : List Char :=
  "@page \"/x\"\r\n\r\n  <p>a</p>\r\n@pages\n\t@using X".toList

theorem strip_leaves_lookalike :
    stripDirectives lookalikePage = "<p>a</p>\n@pages".toList ∧
      IsTrimmed (stripDirectives lookalikePage) ∧ ¬ IsDirective "@pages".toList := by
  have hleft : stripDirectives lookalikePage = "<p>a</p>\n@pages".toList := by decide
  have hlines : lines (stripDirectives lookalikePage) = ["<p>a</p>".toList, "@pages".toList] := by
    rw [hleft]
    decide
  obtain ⟨-, -, ⟨-, -, -, -, -, htrimmed⟩, hnone⟩ := strip_leaves_content lookalikePage
  refine ⟨hleft, htrimmed ?_, hnone _ (hasLines_lines _) _ ?_⟩
  · rw [hleft]
    decide
  · rw [hlines]
    exact List.mem_cons_of_mem _ List.mem_cons_self

end ComponentAtlas.Razor
