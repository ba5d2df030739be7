import ComponentAtlas.Example.Basic
import ComponentAtlas.Proofs.Razor.CodeBlock

/-!
# Openers left in the markup of an example

The first code block of a file is taken out, and what follows it is markup, with further blocks if
there are any.  Directive lines are taken out as well, so that an opener may also come about between
two lines that were apart.  Which openers are left is therefore told by the lines
(`opensBlock_unlines_contentLines`): one line holds an opener, or a line ends with the opener's word
and the next one that is neither blank nor a directive begins with its brace.
-/

namespace ComponentAtlas

open Text

namespace Razor

/-- Whether a line ends with the word of an opener, blanks aside. -/
def EndsWithCode (line : List Char) : Prop :=
  ∃ start blanks, line = start ++ ("@code".toList ++ blanks) ∧ ∀ c ∈ blanks, isBlank c = true

/-- Whether a text begins with the brace of an opener, blanks aside. -/
def BeginsWithBrace (cs : List Char) : Prop :=
  ∃ blanks rest, cs = blanks ++ '\x7b' :: rest ∧ ∀ c ∈ blanks, isBlank c = true

/-- Whether the first of some lines that is neither blank nor a directive begins with a brace. -/
def ReachesBrace (ls : List (List Char)) : Prop :=
  ∃ skipped line rest, ls = skipped ++ line :: rest ∧
    (∀ l ∈ skipped, allBlank l = true ∨ isDirectiveLine l = true) ∧
    isDirectiveLine line = false ∧ BeginsWithBrace line

theorem not_opensBlock_nil : ¬ OpensBlock [] := by
  rintro ⟨op, hop, hpart⟩
  exact ne_nil_of_isOpener hop (List.infix_nil.mp hpart)

theorem not_beginsWithBrace_nil : ¬ BeginsWithBrace [] := by
  rintro ⟨blanks, rest, h, -⟩
  simp at h

theorem OpensBlock.mono {cs ds : List Char} (h : OpensBlock cs) (hpart : cs <:+: ds) :
    OpensBlock ds := by
  obtain ⟨op, hop, hcs⟩ := h
  exact ⟨op, hop, hcs.trans hpart⟩

/-! ## Openers over a line end -/

/-- An opener that goes on over a line end has its word before it and its brace behind it. -/
theorem opener_feed {op x y : List Char} (hop : IsOpener op) (h : op = x ++ '\n' :: y) :
    EndsWithCode x ∧ ∃ blanks, y = blanks ++ ['\x7b'] ∧ ∀ c ∈ blanks, isBlank c = true := by
  obtain ⟨blanks, rfl, hblanks⟩ := hop
  rcases cut_cases h with ⟨w, rfl, hw⟩ | ⟨w, hword, -⟩
  · rcases cut_cases hw with ⟨v, -, hv⟩ | ⟨v, rfl, rfl⟩
    · -- the brace is no line end
      have hmem : '\n' ∈ ['\x7b'] := by
        rw [hv]
        exact List.mem_append_right _ List.mem_cons_self
      simp at hmem
    · refine ⟨⟨[], w, rfl, fun c hc => hblanks c (List.mem_append_left _ hc)⟩, v, rfl, ?_⟩
      exact fun c hc => hblanks c (List.mem_append_right _ (List.mem_cons_of_mem _ hc))
  · -- neither is anything in the word
    have hmem : '\n' ∈ "@code".toList := by
      rw [hword]
      exact List.mem_append_right _ List.mem_cons_self
    exact absurd hmem (by decide +kernel)

theorem opensBlock_append_feed {l rest : List Char} : OpensBlock (l ++ '\n' :: rest) ↔
    OpensBlock l ∨ OpensBlock rest ∨ EndsWithCode l ∧ BeginsWithBrace rest := by
  constructor
  · rintro ⟨op, hop, u, w, h⟩
    rw [List.append_assoc] at h
    rcases cut_cases h with ⟨v, rfl, hv⟩ | ⟨v, -, rfl⟩
    · rcases cut_cases hv with ⟨v', rfl, -⟩ | ⟨v', hop', rfl⟩
      · exact Or.inl ⟨op, hop, u, v', by rw [List.append_assoc]⟩
      · obtain ⟨⟨start, blanks, rfl, hblanks⟩, more, rfl, hmore⟩ := opener_feed hop hop'
        refine Or.inr (Or.inr ⟨⟨u ++ start, blanks, ?_, hblanks⟩, more, w, ?_, hmore⟩)
        · rw [List.append_assoc]
        · rw [List.append_assoc, List.singleton_append]
    · exact Or.inr (Or.inl ⟨op, hop, v, w, List.append_assoc ..⟩)
  · rintro (h | h | ⟨⟨start, blanks, rfl, hblanks⟩, more, w, rfl, hmore⟩)
    · exact h.mono (List.prefix_append _ _).isInfix
    · exact h.mono ((List.suffix_cons _ _).trans (List.suffix_append _ _)).isInfix
    · refine ⟨_, ⟨blanks ++ '\n' :: more, rfl, fun c hc => ?_⟩, start, w, ?_⟩
      · rcases List.mem_append.mp hc with hc | hc
        · exact hblanks c hc
        · rcases List.mem_cons.mp hc with rfl | hc
          · rfl
          · exact hmore c hc
      · simp

theorem beginsWithBrace_append_feed {l rest : List Char} : BeginsWithBrace (l ++ '\n' :: rest) ↔
    BeginsWithBrace l ∨ allBlank l = true ∧ BeginsWithBrace rest := by
  constructor
  · rintro ⟨blanks, w, h, hblanks⟩
    rcases cut_cases h with ⟨v, rfl, hv⟩ | ⟨v, rfl, -⟩
    · cases v with
      | nil => simp at hv
      | cons d v =>
          obtain ⟨rfl, rfl⟩ := List.cons.inj hv
          have hl : allBlank l = true :=
            List.all_eq_true.mpr fun c hc => hblanks c (List.mem_append_left _ hc)
          refine Or.inr ⟨hl, v, w, rfl, fun c hc => ?_⟩
          exact hblanks c (List.mem_append_right _ (List.mem_cons_of_mem _ hc))
    · exact Or.inl ⟨blanks, v, rfl, hblanks⟩
  · rintro (⟨blanks, w, rfl, hblanks⟩ | ⟨hl, blanks, w, rfl, hblanks⟩)
    · exact ⟨blanks, w ++ '\n' :: rest, by simp, hblanks⟩
    · refine ⟨l ++ '\n' :: blanks, w, by simp, fun c hc => ?_⟩
      rcases List.mem_append.mp hc with hc | hc
      · exact List.all_eq_true.mp hl c hc
      · rcases List.mem_cons.mp hc with rfl | hc
        · rfl
        · exact hblanks c hc

/-! ## Openers among lines -/

theorem opensBlock_unlines_cons {l : List Char} {ls : List (List Char)} :
    OpensBlock (unlines (l :: ls)) ↔
      OpensBlock l ∨ OpensBlock (unlines ls) ∨ EndsWithCode l ∧ BeginsWithBrace (unlines ls) := by
  cases ls with
  | nil =>
      have hlast : unlines [l] = l := by simp [unlines]
      have hnone : unlines [] = [] := rfl
      rw [hlast, hnone]
      simp [not_opensBlock_nil, not_beginsWithBrace_nil]
  | cons l' ls => rw [unlines_cons_cons, opensBlock_append_feed]

theorem beginsWithBrace_unlines_cons {l : List Char} {ls : List (List Char)} :
    BeginsWithBrace (unlines (l :: ls)) ↔
      BeginsWithBrace l ∨ allBlank l = true ∧ BeginsWithBrace (unlines ls) := by
  cases ls with
  | nil =>
      have hlast : unlines [l] = l := by simp [unlines]
      have hnone : unlines [] = [] := rfl
      rw [hlast, hnone]
      simp [not_beginsWithBrace_nil]
  | cons l' ls => rw [unlines_cons_cons, beginsWithBrace_append_feed]

theorem reachesBrace_cons {l : List Char} {ls : List (List Char)} : ReachesBrace (l :: ls) ↔
    isDirectiveLine l = false ∧ BeginsWithBrace l ∨
      (allBlank l = true ∨ isDirectiveLine l = true) ∧ ReachesBrace ls := by
  constructor
  · rintro ⟨skipped, line, rest, h, hskipped, hline⟩
    cases skipped with
    | nil =>
        obtain ⟨rfl, -⟩ := List.cons.inj h
        exact Or.inl hline
    | cons l' skipped =>
        obtain ⟨rfl, rfl⟩ := List.cons.inj h
        obtain ⟨hl, hskipped⟩ := List.forall_mem_cons.mp hskipped
        exact Or.inr ⟨hl, skipped, line, rest, rfl, hskipped, hline⟩
  · rintro (hl | ⟨hl, skipped, line, rest, rfl, hskipped, hline⟩)
    · exact ⟨[], l, ls, rfl, by simp, hl⟩
    · exact ⟨l :: skipped, line, rest, rfl, List.forall_mem_cons.mpr ⟨hl, hskipped⟩, hline⟩

/-- The lines of a text that are no directives. -/
def contentLines (ls : List (List Char)) : List (List Char) :=
  ls.filter fun l => !isDirectiveLine l

theorem beginsWithBrace_unlines_contentLines {ls : List (List Char)} :
    BeginsWithBrace (unlines (contentLines ls)) ↔ ReachesBrace ls := by
  induction ls with
  | nil =>
      refine iff_of_false not_beginsWithBrace_nil ?_
      rintro ⟨skipped, line, rest, h, -⟩
      simp at h
  | cons l ls ih =>
      rw [reachesBrace_cons, ← ih]
      cases hl : isDirectiveLine l with
      | true =>
          have hdrop : contentLines (l :: ls) = contentLines ls := by simp [contentLines, hl]
          simp [hdrop]
      | false =>
          have hkeep : contentLines (l :: ls) = l :: contentLines ls := by simp [contentLines, hl]
          rw [hkeep, beginsWithBrace_unlines_cons]
          simp

/-- The openers in lines of which the directives are left out. -/
theorem opensBlock_unlines_contentLines {ls : List (List Char)} :
    OpensBlock (unlines (contentLines ls)) ↔
      (∃ l ∈ ls, isDirectiveLine l = false ∧ OpensBlock l) ∨
        ∃ l rest, l :: rest <:+ ls ∧ isDirectiveLine l = false ∧ EndsWithCode l ∧
          ReachesBrace rest := by
  induction ls with
  | nil =>
      refine iff_of_false not_opensBlock_nil ?_
      rintro (⟨l, hl, -⟩ | ⟨l, rest, h, -⟩)
      · cases hl
      · simp at h
  | cons l ls ih =>
      have hsuffix (p : List Char → List (List Char) → Prop) :
          (∃ k rest, k :: rest <:+ l :: ls ∧ p k rest) ↔
            p l ls ∨ ∃ k rest, k :: rest <:+ ls ∧ p k rest := by
        constructor
        · rintro ⟨k, rest, h, hp⟩
          rcases List.suffix_cons_iff.mp h with h | h
          · obtain ⟨rfl, rfl⟩ := List.cons.inj h
            exact Or.inl hp
          · exact Or.inr ⟨k, rest, h, hp⟩
        · rintro (hp | ⟨k, rest, h, hp⟩)
          · exact ⟨l, ls, List.suffix_rfl, hp⟩
          · exact ⟨k, rest, h.trans (List.suffix_cons l ls), hp⟩
      have hmem : (∃ k ∈ l :: ls, isDirectiveLine k = false ∧ OpensBlock k) ↔
          isDirectiveLine l = false ∧ OpensBlock l ∨
            ∃ k ∈ ls, isDirectiveLine k = false ∧ OpensBlock k := by
        simp
      rw [hmem, hsuffix]
      cases hl : isDirectiveLine l with
      | true =>
          have hdrop : contentLines (l :: ls) = contentLines ls := by simp [contentLines, hl]
          rw [hdrop, ih]
          simp
      | false =>
          have hkeep : contentLines (l :: ls) = l :: contentLines ls := by simp [contentLines, hl]
          rw [hkeep, opensBlock_unlines_cons, ih, beginsWithBrace_unlines_contentLines]
          simp only [true_and, or_assoc]
          exact or_congr_right (or_congr_right or_comm)

/-! ## The lines of a cut file -/

theorem not_opensBlock_of_mem {l : List Char} {ls : List (List Char)} (hl : l ∈ ls)
    (h : ¬ OpensBlock (unlines ls)) : ¬ OpensBlock l := by
  induction ls with
  | nil => cases hl
  | cons k ls ih =>
      rw [opensBlock_unlines_cons, not_or, not_or] at h
      rcases List.mem_cons.mp hl with rfl | hl
      · exact h.1
      · exact ih hl h.2.1

/-- What a line of a text opens is opened in the text. -/
theorem opensBlock_of_part {cs l p : List Char} (hp : p ∈ splitAtChar '\n' cs) (hl : l <+: p)
    (h : OpensBlock l) : OpensBlock cs := by
  refine Classical.byContradiction fun hnone => ?_
  rw [← unlines_splitAtChar cs] at hnone
  exact not_opensBlock_of_mem hp hnone (h.mono hl.isInfix)

theorem not_allBlank_of_opensBlock {cs : List Char} (h : OpensBlock cs) : allBlank cs = false := by
  obtain ⟨op, ⟨blanks, rfl, -⟩, u, w, rfl⟩ := h
  simp [allBlank, isBlank]

theorem not_opensBlock_front (source : List Char) : ¬ OpensBlock (front source) := by
  by_cases h : OpensBlock source
  · obtain ⟨-, -, -, -, -, hfront, -⟩ := exists_block h
    exact hfront
  · rwa [(split_of_not_opensBlock h).2.1]

theorem markup_split (source : List Char) :
    (split source).markup = aroundBlock (front source) (behind source) := by
  by_cases h : OpensBlock source
  · obtain ⟨_, raw, _, -, -, -, hsplit, -⟩ := exists_block h
    rw [hsplit]
  · obtain ⟨hsplit, hfront, hbehind⟩ := split_of_not_opensBlock h
    rw [hsplit, hfront, hbehind]
    rfl

/-- In the markup of a cut file the lines that hold an opener are those behind the first block. -/
theorem mem_lines_markup_iff {source l : List Char} (hl : OpensBlock l) :
    l ∈ lines (split source).markup ↔ l ∈ lines (behind source) := by
  have hbehind : l ∈ lines (behind source) → allBlank (behind source) = false := fun hmem => by
    obtain ⟨p, hp, hprefix⟩ := mem_linesOfParts hmem
    exact not_allBlank_of_opensBlock (opensBlock_of_part hp hprefix hl)
  rw [markup_split, aroundBlock]
  split
  · rename_i hblank
    refine iff_of_false (fun hmem => ?_) fun hmem => ?_
    · obtain ⟨p, hp, hprefix⟩ := mem_linesOfParts hmem
      exact not_opensBlock_front source (opensBlock_of_part hp hprefix hl)
    · rw [hbehind hmem] at hblank
      cases hblank
  · rw [lines_append_feed, List.mem_append]
    refine ⟨fun hmem => hmem.resolve_left fun hfront => ?_, Or.inr⟩
    obtain ⟨p, hp, rfl⟩ := List.mem_map.mp hfront
    obtain ⟨r, hpart, -⟩ := exists_dropReturn p
    exact not_opensBlock_front source (opensBlock_of_part hp ⟨r, hpart.symm⟩ hl)

/-! ## Trimming -/

theorem isTrimmed_of_isOpener {op : List Char} (h : IsOpener op) : IsTrimmed op := by
  obtain ⟨blanks, rfl, -⟩ := h
  have hword : IsTrimmed "@code".toList := by decide +kernel
  have hbrace : IsTrimmed ['\x7b'] := by decide
  exact hword.between hbrace blanks

theorem opensBlock_trim {cs : List Char} : OpensBlock (trim cs) ↔ OpensBlock cs :=
  exists_congr fun _ => and_congr_right fun hop => infix_trim_iff (isTrimmed_of_isOpener hop)

end Razor

/-! ## The markup of an example -/

namespace Example

open Razor

/-- The first code block of a file is taken out of its example, whatever follows it.  The markup
opens a block after all exactly when a line behind that block does, directive lines apart, or a line
ends with an opener's word and the next line that is neither blank nor a directive begins with its
brace. -/
theorem markup_opens_iff {path source : String} {e : Example} (h : ofFile? path source = some e) :
    OpensBlock e.markup.toList ↔
      (∃ l ∈ lines (behind source.toList), isDirectiveLine l = false ∧ OpensBlock l) ∨
        ∃ l rest, l :: rest <:+ lines (split source.toList).markup ∧ isDirectiveLine l = false ∧
          EndsWithCode l ∧ ReachesBrace rest := by
  have hmarkup : e.markup.toList = stripDirectives (split source.toList).markup := by
    obtain ⟨name, -, hexample⟩ := Option.bind_eq_some_iff.mp h
    dsimp only at hexample
    split at hexample
    · cases hexample
    · rw [← Option.some.inj hexample, String.toList_ofList]
  have hstrip (cs : List Char) :
      stripDirectives cs = trim (unlines (contentLines (lines cs))) := rfl
  rw [hmarkup, hstrip, opensBlock_trim, opensBlock_unlines_contentLines]
  refine or_congr_left (exists_congr fun l => ?_)
  constructor
  · rintro ⟨hmem, hcontent, hopens⟩
    exact ⟨(mem_lines_markup_iff hopens).mp hmem, hcontent, hopens⟩
  · rintro ⟨hmem, hcontent, hopens⟩
    exact ⟨(mem_lines_markup_iff hopens).mpr hmem, hcontent, hopens⟩

/-- A file with a directive between an opener's word and its brace. -/
def partedOpener : String :=
  "<p>a</p>\n@code\n@page \"/x\"\n\x7b int x; \x7d\n"

/-- No block is taken out, and with the directive gone one opens. -/
theorem markup_opens_parted :
    ∃ e, ofFile? "Examples/A.razor" partedOpener = some e ∧ e.code = none ∧
      OpensBlock e.markup.toList := by
  have hfile : ofFile? "Examples/A.razor" partedOpener = some
      ⟨"A", none, "<p>a</p>\n@code\n\x7b int x; \x7d", none, "Examples/A.razor", []⟩ := by
    decide +kernel
  have hlines : ["@code".toList, "@page \"/x\"".toList, "\x7b int x; \x7d".toList] <:+
      lines (split partedOpener.toList).markup := ⟨["<p>a</p>".toList], by decide +kernel⟩
  have hword : EndsWithCode "@code".toList := ⟨[], [], by decide +kernel, by simp⟩
  have hbrace : ReachesBrace ["@page \"/x\"".toList, "\x7b int x; \x7d".toList] := by
    refine ⟨["@page \"/x\"".toList], _, [], rfl, ?_, by decide +kernel, [], " int x; \x7d".toList,
      by decide +kernel, by simp⟩
    exact List.forall_mem_singleton.mpr (Or.inr (by decide +kernel))
  refine ⟨_, hfile, rfl, (markup_opens_iff hfile).mpr (Or.inr ⟨_, _, hlines, ?_, hword, hbrace⟩)⟩
  decide +kernel

/-- A second block stays in the markup. -/
theorem markup_keeps_second_block :
    ∃ e, ofFile? "Examples/A.razor" "<p>a</p>\n@code \x7b int x; \x7d\n<p>b</p>\n@code \x7b \x7d\n" =
      some e ∧ e.code = some "int x;" ∧ OpensBlock e.markup.toList := by
  have hfile : ofFile? "Examples/A.razor"
      "<p>a</p>\n@code \x7b int x; \x7d\n<p>b</p>\n@code \x7b \x7d\n" = some
        ⟨"A", none, "<p>a</p>\n\n\n<p>b</p>\n@code \x7b \x7d", some "int x;", "Examples/A.razor",
          []⟩ := by
    decide +kernel
  refine ⟨_, hfile, rfl, "@code \x7b".toList, ⟨[' '], by decide +kernel, by simp [isBlank]⟩,
    "<p>a</p>\n\n\n<p>b</p>\n".toList, " \x7d".toList, by decide +kernel⟩

end Example
end ComponentAtlas
