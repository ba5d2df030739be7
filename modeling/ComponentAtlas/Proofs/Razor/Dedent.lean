import ComponentAtlas.Proofs.CSharp.Layout
import ComponentAtlas.Proofs.Text.Blank
import ComponentAtlas.Proofs.Text.Lines
import ComponentAtlas.Razor.CodeBlock

/-!
# What dedenting changes

Dedenting a body changes its blanks around line feeds, and nothing else (`reindented_dedent`).  A
text is looked at as its characters that are no blanks and the gaps between them; so what changes is
told gap by gap, and changes that follow one another are one change (`Reindented.trans`).  A gap
that changes holds a line feed, so it lies between lexemes when no lexeme goes on over a line end
(`relaid_of_reindented`).
-/

namespace ComponentAtlas.Razor

open Text CSharp

/-! ## Texts with other blanks around their line feeds -/

/-- A gap between characters before and after: it changes only when it holds a line feed, and then
it keeps one. -/
structure Rebroken (old new : List Char) : Prop where
  respaced : Respaced old new
  kept : '\n' ∉ old → new = old

/-- A text before and after: the same characters in the same order, and other gaps where a line
ends. -/
inductive Reindented : List Char → List Char → Prop
  | last {w w' : List Char} (blank : ∀ c ∈ w, isBlank c = true) (gap : Rebroken w w') :
      Reindented w w'
  | cons {w w' x y : List Char} {c : Char} (blank : ∀ c ∈ w, isBlank c = true)
      (gap : Rebroken w w') (solid : isBlank c = false) (rest : Reindented x y) :
      Reindented (w ++ c :: x) (w' ++ c :: y)

namespace Rebroken

variable {old new newer old' new' : List Char}

theorem refl (w : List Char) : Rebroken w w :=
  ⟨.refl w, fun _ => rfl⟩

theorem append (h : Rebroken old new) (h' : Rebroken old' new') :
    Rebroken (old ++ old') (new ++ new') where
  respaced := h.respaced.append h'.respaced
  kept hnone := by
    rw [List.mem_append, not_or] at hnone
    rw [h.kept hnone.1, h'.kept hnone.2]

theorem trans (h : Rebroken old new) (h' : Rebroken new newer) : Rebroken old newer where
  respaced := h.respaced.trans h'.respaced
  kept hnone := by
    have hsame := h.kept hnone
    rw [h'.kept (by rwa [hsame]), hsame]

/-- Blanks with a line feed, and fewer of them behind a line feed. -/
theorem of_subset {w v : List Char} (hw : '\n' ∈ w) (hv : v ⊆ w) : Rebroken w ('\n' :: v) where
  respaced :=
    { chars := fun _ hc => (List.mem_cons.mp hc).elim Or.inr fun hc => Or.inl (hv hc)
      text := Or.inr ⟨[], v, rfl⟩
      head := Or.inr rfl }
  kept hnone := absurd hw hnone

theorem isBlank (h : Rebroken old new) (hold : ∀ c ∈ old, isBlank c = true) :
    ∀ c ∈ new, Text.isBlank c = true := by
  intro c hc
  rcases h.respaced.chars c hc with hc | rfl
  · exact hold c hc
  · rfl

end Rebroken

/-- The first character that is no blank stands at one place. -/
theorem gap_unique {w w' x x' : List Char} {c c' : Char} (hw : ∀ d ∈ w, isBlank d = true)
    (hw' : ∀ d ∈ w', isBlank d = true) (hc : isBlank c = false) (hc' : isBlank c' = false)
    (h : w ++ c :: x = w' ++ c' :: x') : w = w' ∧ c = c' ∧ x = x' := by
  have hrun := congrArg (List.takeWhile isBlank) h
  rw [takeWhile_run hw hc, takeWhile_run hw' hc'] at hrun
  subst hrun
  exact ⟨rfl, List.cons.inj (List.append_cancel_left h)⟩

namespace Reindented

variable {x y z : List Char}

theorem prepend {u u' : List Char} (hu : ∀ c ∈ u, isBlank c = true) (hgap : Rebroken u u')
    (h : Reindented x y) : Reindented (u ++ x) (u' ++ y) := by
  have hblank {w : List Char} (hw : ∀ c ∈ w, isBlank c = true) : ∀ c ∈ u ++ w, isBlank c = true :=
    fun c hc => (List.mem_append.mp hc).elim (hu c) (hw c)
  cases h with
  | last blank gap => exact .last (hblank blank) (hgap.append gap)
  | cons blank gap solid rest =>
      rw [← List.append_assoc, ← List.append_assoc]
      exact .cons (hblank blank) (hgap.append gap) solid rest

theorem keep (c : Char) (h : Reindented x y) : Reindented (c :: x) (c :: y) := by
  cases hc : isBlank c with
  | true => exact prepend (u := [c]) (by simpa using hc) (.refl [c]) h
  | false => exact .cons (w := []) (by simp) (.refl []) hc h

theorem append_left (t : List Char) (h : Reindented x y) : Reindented (t ++ x) (t ++ y) := by
  induction t with
  | nil => exact h
  | cons c t ih => exact ih.keep c

theorem refl (x : List Char) : Reindented x x := by
  have hnil : Reindented [] [] := .last (by simp) (.refl [])
  have h := hnil.append_left x
  rwa [List.append_nil] at h

/-- The gap in front of a character that is no blank. -/
theorem of_solid {p : List Char} {c : Char} (hp : ∀ d ∈ p, isBlank d = true)
    (hc : isBlank c = false) (h : Reindented (p ++ c :: x) y) :
    ∃ p' y', y = p' ++ c :: y' ∧ Rebroken p p' ∧ Reindented x y' := by
  generalize hold : p ++ c :: x = old at h
  cases h with
  | last blank gap =>
      have hmem : c ∈ old := by
        rw [← hold]
        exact List.mem_append_right _ List.mem_cons_self
      rw [blank c hmem] at hc
      cases hc
  | cons blank gap solid rest =>
      obtain ⟨rfl, rfl, rfl⟩ := gap_unique hp blank hc solid hold
      exact ⟨_, _, rfl, gap, rest⟩

theorem trans (h : Reindented x y) (h' : Reindented y z) : Reindented x z := by
  induction h generalizing z with
  | last blank gap =>
      have hblank := gap.isBlank blank
      cases h' with
      | last _ gap' => exact .last blank (gap.trans gap')
      | cons _ _ solid _ =>
          rw [hblank _ (List.mem_append_right _ List.mem_cons_self)] at solid
          cases solid
  | cons blank gap solid _ ih =>
      obtain ⟨p', y', rfl, hgap, hrest⟩ := of_solid (gap.isBlank blank) solid h'
      exact .cons blank (gap.trans hgap) solid (ih hrest)

theorem of_nil (h : Reindented [] y) : y = [] := by
  generalize hold : [] = old at h
  cases h with
  | last _ gap =>
      subst hold
      exact gap.kept List.not_mem_nil
  | cons => simp at hold

/-- A part on one line that does not end with a blank stays. -/
theorem of_line {t x y : List Char} (hline : '\n' ∉ t) (hlast : ∀ c ∈ t.getLast?, isBlank c = false)
    (h : Reindented (t ++ x) y) : ∃ y', y = t ++ y' ∧ Reindented x y' := by
  by_cases hnone : t = []
  · exact ⟨y, by rw [hnone, List.nil_append], by rwa [hnone] at h⟩
  have hstop : ∃ d ∈ t, isBlank d = false :=
    ⟨t.getLast hnone, List.getLast_mem hnone, hlast _ (List.getLast?_eq_some_getLast hnone)⟩
  obtain ⟨g, c, v, rfl, hg, hc⟩ := exists_stop hstop
  rw [List.append_assoc, List.cons_append] at h
  obtain ⟨g', y', rfl, hgap, hrest⟩ := of_solid hg hc h
  obtain rfl := hgap.kept fun hfeed => hline (List.mem_append_left _ hfeed)
  have hlast' : ∀ d ∈ v.getLast?, isBlank d = false := by
    intro d hd
    obtain ⟨front, rfl⟩ := List.getLast?_eq_some_iff.mp hd
    refine hlast d ?_
    rw [← List.cons_append, ← List.append_assoc]
    exact List.getLast?_concat
  have hline' : '\n' ∉ v := fun hfeed =>
    hline (List.mem_append_right _ (List.mem_cons_of_mem c hfeed))
  obtain ⟨y'', rfl, hrest'⟩ := of_line hline' hlast' hrest
  exact ⟨y'', by rw [List.append_assoc, List.cons_append], hrest'⟩
termination_by t.length

/-- A part on one line behind a gap, with no blank at either end. -/
theorem of_part {p u : List Char} (hp : ∀ c ∈ p, isBlank c = true) (hu : u ≠ [])
    (hline : '\n' ∉ u) (hhead : ∀ c ∈ u.head?, isBlank c = false)
    (hlast : ∀ c ∈ u.getLast?, isBlank c = false) (h : Reindented (p ++ (u ++ x)) y) :
    ∃ p' y', y = p' ++ (u ++ y') ∧ Rebroken p p' ∧ Reindented x y' := by
  obtain ⟨c, t, rfl⟩ := List.exists_cons_of_ne_nil hu
  rw [List.cons_append] at h
  obtain ⟨p', y', rfl, hgap, hrest⟩ := of_solid hp (hhead c rfl) h
  have hlast' : ∀ d ∈ t.getLast?, isBlank d = false := by
    intro d hd
    obtain ⟨front, rfl⟩ := List.getLast?_eq_some_iff.mp hd
    refine hlast d ?_
    rw [← List.cons_append]
    exact List.getLast?_concat
  obtain ⟨y'', rfl, hrest'⟩ :=
    of_line (fun hfeed => hline (List.mem_cons_of_mem c hfeed)) hlast' hrest
  exact ⟨p', y'', rfl, hgap, hrest'⟩

end Reindented

/-! ## Lines -/

/-- A line behind others, with less in front of it. -/
theorem Reindented.line {r u x y : List Char} (hr : ∀ c ∈ r, isBlank c = true)
    (hu : ∀ c ∈ u, isBlank c = true) (v : List Char) (h : Reindented x y) :
    Reindented (r ++ '\n' :: (u ++ v ++ x)) ('\n' :: (v ++ y)) := by
  have hblank : ∀ c ∈ r ++ '\n' :: u, isBlank c = true := by
    intro c hc
    rcases List.mem_append.mp hc with hc | hc
    · exact hr c hc
    · rcases List.mem_cons.mp hc with rfl | hc
      · rfl
      · exact hu c hc
  have hgap : Rebroken (r ++ '\n' :: u) ['\n'] := .of_subset (by simp) (List.nil_subset _)
  have hline := (h.append_left v).prepend hblank hgap
  simpa only [List.append_assoc, List.cons_append, List.nil_append] using hline

/-- The lines of a text joined again, each without some of its leading blanks. -/
theorem reindented_lines {ps : List (List Char)} {r : List Char} {shorten : List Char → List Char}
    (hr : ∀ c ∈ r, isBlank c = true)
    (hshorten : ∀ l ∈ linesOfParts ps, ∃ u, l = u ++ shorten l ∧ ∀ c ∈ u, isBlank c = true)
    (t : List Char) :
    Reindented (r ++ (ps.flatMap ('\n' :: ·) ++ '\n' :: t))
      ((linesOfParts ps).flatMap (fun l => '\n' :: shorten l) ++ '\n' :: t) := by
  have hnone : ∀ c ∈ ([] : List Char), isBlank c = true := by simp
  induction ps using linesOfParts.induct generalizing r with
  | case1 => exact Reindented.line hr hnone [] (.refl t)
  | case2 last hempty =>
      obtain rfl := List.isEmpty_iff.mp hempty
      have hline := Reindented.line hr (u := ['\n']) (by simp [isBlank]) [] (.refl t)
      exact hline
  | case3 last hfull =>
      rw [linesOfParts, if_neg hfull] at hshorten ⊢
      obtain ⟨u, hu, hblank⟩ := hshorten last List.mem_cons_self
      have hline := Reindented.line hr hblank (shorten last) ((Reindented.refl t).keep '\n')
      rw [← hu] at hline
      simpa using hline
  | case4 part next parts ih =>
      rw [linesOfParts] at hshorten ⊢
      obtain ⟨u, hu, hblank⟩ := hshorten _ List.mem_cons_self
      obtain ⟨r', hpart, hr'⟩ := exists_dropReturn part
      have hline := Reindented.line hr hblank (shorten (dropReturn part))
        (ih hr' fun l hl => hshorten l (List.mem_cons_of_mem _ hl))
      rw [← hu, ← List.append_assoc, ← hpart] at hline
      simpa using hline

/-! ## Dedenting -/

theorem byteLength_cons (c : Char) (cs : List Char) :
    byteLength (c :: cs) = c.utf8Size + byteLength cs := by
  have hfold (n : Nat) (cs : List Char) :
      cs.foldl (fun n c => n + c.utf8Size) n = n + byteLength cs := by
    unfold byteLength
    induction cs generalizing n with
    | nil => rfl
    | cons c cs ih =>
        rw [List.foldl_cons, List.foldl_cons, ih, ih (0 + c.utf8Size)]
        omega
  rw [byteLength, List.foldl_cons, hfold]
  omega

theorem byteLength_append (cs ds : List Char) :
    byteLength (cs ++ ds) = byteLength cs + byteLength ds := by
  induction cs with
  | nil => exact (Nat.zero_add _).symm
  | cons c cs ih =>
      rw [List.cons_append, byteLength_cons, byteLength_cons, ih]
      omega

theorem dropBytes?_eq_some {n : Nat} {cs rest : List Char} (h : dropBytes? n cs = some rest) :
    ∃ u, cs = u ++ rest ∧ byteLength u = n := by
  fun_induction dropBytes? with
  | case1 cs =>
      obtain rfl := Option.some.inj h
      exact ⟨[], rfl, rfl⟩
  | case2 => cases h
  | case3 n c cs hsize ih =>
      obtain ⟨u, rfl, hu⟩ := ih h
      refine ⟨c :: u, rfl, ?_⟩
      rw [byteLength_cons, hu]
      omega
  | case4 => cases h

/-- What takes no more bytes than the blanks at the start of a line are some of these blanks. -/
theorem isBlank_of_byteLength {u v : List Char} (h : byteLength u ≤ indentation (u ++ v)) :
    ∀ c ∈ u, isBlank c = true := by
  have hsplit : (u ++ v).takeWhile isBlank ++ (u ++ v).dropWhile isBlank = u ++ v :=
    List.takeWhile_append_dropWhile
  have hblank : ∀ c ∈ (u ++ v).takeWhile isBlank, isBlank c = true := fun c hc =>
    List.all_eq_true.mp List.all_takeWhile c hc
  unfold indentation at h
  generalize (u ++ v).takeWhile isBlank = blanks at h hsplit hblank
  rcases List.append_eq_append_iff.mp hsplit with ⟨more, rfl, -⟩ | ⟨more, rfl, -⟩
  · rw [byteLength_append] at h
    cases more with
    | nil => simpa using hblank
    | cons c more =>
        rw [byteLength_cons] at h
        have := c.utf8Size_pos
        omega
  · exact fun c hc => hblank c (List.mem_append_left _ hc)

/-- Dedenting takes blanks off the start of a line. -/
theorem exists_dedented {ls : List (List Char)} {l : List Char} (hl : l ∈ ls) :
    ∃ u, l = u ++ (dropBytes? (commonIndentation ls) l).getD (trimStart l) ∧
      ∀ c ∈ u, isBlank c = true := by
  cases hdrop : dropBytes? (commonIndentation ls) l with
  | none => exact exists_trimStart l
  | some rest =>
      obtain ⟨u, rfl, hu⟩ := dropBytes?_eq_some hdrop
      refine ⟨u, rfl, ?_⟩
      cases hblank : allBlank (u ++ rest) with
      | true => exact fun c hc => List.all_eq_true.mp hblank c (List.mem_append_left _ hc)
      | false =>
          refine isBlank_of_byteLength (v := rest) ?_
          rw [hu]
          exact List.min?_getD_le_of_mem
            (List.mem_map_of_mem (List.mem_filter.mpr ⟨hl, by rw [hblank]; rfl⟩))

/-- A text between line feeds, trimmed. -/
theorem reindented_trim (cs t : List Char) :
    Reindented ('\n' :: (cs ++ '\n' :: t)) ('\n' :: (trim cs ++ '\n' :: t)) := by
  obtain ⟨before, behind, hsplit, hbefore, hbehind⟩ := exists_trim cs
  have hnone : ∀ c ∈ ([] : List Char), isBlank c = true := by simp
  have hend := Reindented.line hbehind hnone [] (.refl t)
  have hstart := Reindented.line hnone hbefore (trim cs) hend
  have htext : [] ++ '\n' :: (before ++ trim cs ++ (behind ++ '\n' :: ([] ++ [] ++ t))) =
      '\n' :: (cs ++ '\n' :: t) := by
    conv_rhs => rw [hsplit]
    simp
  rwa [htext] at hstart

/-- A body between line feeds, dedented: only gaps with line feeds are others. -/
theorem reindented_dedent (body t : List Char) :
    Reindented ('\n' :: (body ++ '\n' :: t)) ('\n' :: (dedent body ++ '\n' :: t)) := by
  have hlines : Reindented ('\n' :: (body ++ '\n' :: t))
      ((lines body).flatMap (fun l =>
        '\n' :: (dropBytes? (commonIndentation (lines body)) l).getD (trimStart l)) ++
          '\n' :: t) := by
    rw [← List.cons_append, ← flatMap_splitAtChar]
    exact reindented_lines (r := []) (by simp) (fun l hl => exists_dedented hl) t
  refine (hlines.trans ?_).trans (reindented_trim _ t)
  -- no lines at all leave an empty one
  cases lines body with
  | nil =>
      have hgap : Rebroken ['\n'] ['\n', '\n'] := .of_subset (by simp) (by simp)
      exact (Reindented.refl t).prepend (by simp [isBlank]) hgap
  | cons l ls =>
      rw [← List.cons_append, unlines_flatMap (by simp), List.flatMap_map]
      exact .refl _

/-! ## The lexemes of a dedented body -/

theorem kind_ne_space_behind {l l' : Lexeme} {ls : List Lexeme} {rest : List Char}
    (h : lexemes (l.text ++ (l'.text ++ rest)) = l :: l' :: ls) (hkind : l.kind = .space) :
    l'.kind ≠ .space := by
  intro hkind'
  have hmem : l' ∈ lexemes (l.text ++ (l'.text ++ rest)) := by
    rw [h]
    exact List.mem_cons_of_mem _ List.mem_cons_self
  obtain ⟨c, t, htext⟩ := List.exists_cons_of_ne_nil (text_ne_nil_of_mem_lexemes hmem)
  have hspace := isSpace_of_mem_text hmem hkind' c (by rw [htext]; exact List.mem_cons_self)
  rw [htext, List.cons_append] at h
  have htakes := takes_behind h (Or.inl hkind)
  simp only [Lexeme.takes, hkind, hspace] at htakes
  cases htakes

/-- A text that is another only around its line feeds has the same lexemes, with other blanks
between them.  In front of the lexemes stand the blanks `q`, and `p` where the body is between line
feeds. -/
theorem relaid_of_reindented {ls : List Lexeme} {q p y : List Char}
    (h : lexemes (ls.flatMap (·.text) ++ ['}']) = ls ++ [closingBrace])
    (htidy : ∀ l ∈ ls, l.isTidy = true) (hspace : ∀ c ∈ q, isSpace c = true)
    (hmaximal : q ≠ [] → ∀ l ∈ ls.head?, l.kind ≠ .space)
    (hblank : ∀ c ∈ p, isBlank c = true) (hgap : Respaced q p)
    (hr : Reindented (p ++ (ls.flatMap (·.text) ++ ['\n', '}'])) y) :
    ∃ ls', y = ls'.flatMap (·.text) ∧ Relaid (blankLexemes q ++ (ls ++ [closingBrace])) ls' := by
  induction ls generalizing q p y with
  | nil =>
      have hbrace : p ++ ([] ++ ['\n', '}']) = (p ++ ['\n']) ++ '}' :: [] := by simp
      rw [List.flatMap_nil, hbrace] at hr
      have hblank' : ∀ c ∈ p ++ ['\n'], isBlank c = true := by
        intro c hc
        rcases List.mem_append.mp hc with hc | hc
        · exact hblank c hc
        · rw [List.mem_singleton.mp hc]
          rfl
      obtain ⟨p', y', rfl, hgap', hrest⟩ := Reindented.of_solid hblank' (by decide) hr
      obtain rfl := hrest.of_nil
      have hspaced := (hgap.append (.feed [])).trans hgap'.respaced
      rw [List.append_nil] at hspaced
      refine ⟨blankLexemes p' ++ [closingBrace], ?_, .cons hspace hspaced (by decide) .nil⟩
      rw [List.flatMap_append, flatMap_blankLexemes]
      rfl
  | cons l ls ih =>
      rw [List.flatMap_cons, List.append_assoc] at h hr
      have htidy' : ∀ l ∈ ls, l.isTidy = true := fun l hl => htidy l (List.mem_cons_of_mem _ hl)
      have hbehind : lexemes (ls.flatMap (·.text) ++ ['}']) = ls ++ [closingBrace] := by
        have hfirst : [l].flatMap (·.text) = l.text := List.flatMap_singleton _ _
        rw [← hfirst] at h
        exact lexemes_behind h (by simp)
      have hmem : l ∈ lexemes (l.text ++ (ls.flatMap (·.text) ++ ['}'])) := by
        rw [h]
        exact List.mem_cons_self
      by_cases hkind : l.kind = .space
      · obtain rfl : q = [] := Classical.byContradiction fun hq => hmaximal hq l rfl hkind
        have hmaximal' : l.text ≠ [] → ∀ l' ∈ ls.head?, l'.kind ≠ .space := by
          intro _ l' hl'
          obtain ⟨ls', rfl⟩ := List.head?_eq_some_iff.mp hl'
          rw [List.flatMap_cons, List.append_assoc] at h
          exact kind_ne_space_behind h hkind
        have hblank' : ∀ c ∈ p ++ l.text, isBlank c = true := by
          intro c hc
          rcases List.mem_append.mp hc with hc | hc
          · exact hblank c hc
          · exact Lexeme.isBlank_of_isTidy (htidy l List.mem_cons_self) hkind c hc
        rw [← List.append_assoc] at hr
        obtain ⟨ls', hy, hrelaid⟩ := ih hbehind htidy' (isSpace_of_mem_text hmem hkind) hmaximal'
          hblank' (hgap.append (.refl l.text)) hr
        have hl : blankLexemes l.text = [l] := by
          unfold blankLexemes
          rw [if_neg (by simpa using text_ne_nil_of_mem_lexemes hmem), ← hkind]
        rw [hl] at hrelaid
        exact ⟨ls', hy, hrelaid⟩
      · obtain ⟨hline, hhead, hlast⟩ := Lexeme.solid_of_isTidy (htidy l List.mem_cons_self) hkind
        obtain ⟨p', y', rfl, hgap', hrest⟩ :=
          Reindented.of_part hblank (text_ne_nil_of_mem_lexemes hmem) hline hhead hlast hr
        have hnone : ∀ c ∈ ([] : List Char), isSpace c = true := by simp
        have hnone' : ∀ c ∈ ([] : List Char), isBlank c = true := by simp
        obtain ⟨ls', rfl, hrelaid⟩ :=
          ih hbehind htidy' hnone (fun hnil => absurd rfl hnil) hnone' (.refl []) hrest
        refine ⟨blankLexemes p' ++ l :: ls', ?_,
          .cons hspace (hgap.trans hgap'.respaced) hkind hrelaid⟩
        rw [List.flatMap_append, flatMap_blankLexemes, List.flatMap_cons]

/-- The lexemes of a dedented body between line feeds. -/
theorem exists_relaid_dedent {body : List Char} (h : IsTidy body) :
    ∃ ls, '\n' :: (dedent body ++ ['\n', '}']) = ls.flatMap (·.text) ∧
      Relaid (lexemes (body ++ ['}'])) ls := by
  have hlexed : lexemes ((codeLexemes body).flatMap (·.text) ++ ['}']) =
      codeLexemes body ++ [closingBrace] := by
    rw [h.flatMap_codeLexemes, h.lexemes_eq]
  have hr : Reindented (['\n'] ++ ((codeLexemes body).flatMap (·.text) ++ ['\n', '}']))
      ('\n' :: (dedent body ++ ['\n', '}'])) := by
    rw [h.flatMap_codeLexemes]
    exact reindented_dedent body ['}']
  rw [h.lexemes_eq]
  exact relaid_of_reindented hlexed (fun l hl => h.isTidy_of_mem hl) (by simp)
    (fun hnil => absurd rfl hnil) (by simp [isBlank]) (.feed []) hr

end ComponentAtlas.Razor
