import ComponentAtlas.Proofs.CSharp.LexemeCut
import ComponentAtlas.Proofs.CSharp.Layout
import ComponentAtlas.Proofs.CSharp.Names
import ComponentAtlas.Proofs.Text.Unquoted

/-!
# Brackets among the marks of a source

A scan that knows of string literals only sees the brackets that are marks of a C# text, and in
addition what the other lexemes hold that are not read sign by sign: character literals, verbatim,
raw and interpolated ones, comments, preprocessor lines, and signs that begin nothing
(`Lexeme.hidesSigns`).  Where each of these is level by itself, a text is level as soon as its marks
are (`isLevelUnquoted_of_marks`).
-/

namespace ComponentAtlas.CSharp

open Text

/-- The characters that mean something to a scan for brackets. -/
def signs : List Char :=
  ['"', '<', '(', '[', '\x7b', '>', ')', ']', '}', ',']

/-- The marks of a list of lexemes, one after another. -/
def marks (ls : List Lexeme) : List Char :=
  (ls.filter fun l => l.kind = .mark).flatMap (·.text)

/-- Whether a text begins as a string literal with backslash escapes does. -/
def opensRegular (cs : List Char) : Bool :=
  List.isPrefixOf ['"'] cs && !List.isPrefixOf ['"', '"', '"'] cs

/-- Whether a lexeme may hold signs that are none of the source: all but blanks, words, numbers,
marks and string literals with backslash escapes. -/
def Lexeme.hidesSigns (l : Lexeme) : Bool :=
  match l.kind with
  | .space | .word | .number | .mark => false
  | .literal => !opensRegular l.text
  | .comment | .directive | .conditional | .stray => true

theorem exists_measure {cs : List Char} {l : Lexeme} (hl : l ∈ lexemes cs) :
    ∃ c rest n, measure c rest = (l.kind, n) ∧ l.text = c :: rest.take (n - 1) := by
  induction cs using lexemes.induct with
  | case1 => rw [lexemes] at hl; cases hl
  | case2 c cs kind length h ih =>
      rw [lexemes, h] at hl
      rcases List.mem_cons.mp hl with rfl | hl
      · exact ⟨c, cs, length, h, rfl⟩
      · exact ih hl

/-! ## Blanks, words and numbers -/

theorem isWord_sign : ∀ c ∈ signs, Unicode.isWord c = false := by
  have hall : signs.all (fun c => !Unicode.isWord c) = true := by decide +kernel
  simpa using hall

theorem isSpace_sign : ∀ c ∈ signs, isSpace c = false := by
  have hall : signs.all (fun c => !isSpace c) = true := by decide +kernel
  simpa using hall

theorem isDecimalDigit_sign : ∀ c ∈ signs, Unicode.isDecimalDigit c = false := by
  have hall : signs.all (fun c => !Unicode.isDecimalDigit c) = true := by decide +kernel
  simpa using hall

theorem not_sign_of_isWord {c : Char} (h : Unicode.isWord c = true) : c ∉ signs :=
  fun hsign => by rw [isWord_sign c hsign] at h; cases h

theorem not_sign_of_isName {cs : List Char} (h : IsName cs) : ∀ c ∈ cs, c ∉ signs := by
  obtain ⟨d, rest, hcs, hd, hrest⟩ := h
  have hfirst : d ∉ signs := not_sign_of_isWord (Bool.and_eq_true .. |>.mp hd).1
  have hword : ∀ c ∈ d :: rest, c ∉ signs := by
    intro c hc
    rcases List.mem_cons.mp hc with rfl | hc
    · exact hfirst
    · exact not_sign_of_isWord (hrest c hc)
  rcases hcs with rfl | rfl
  · exact hword
  · intro c hc
    rcases List.mem_cons.mp hc with rfl | hc
    · decide
    · exact hword c hc

/-- Numbers and marks begin with a character of their own, but for the slash. -/
theorem measure_cases {c : Char} {rest : List Char} {kind : LexemeKind} {n : Nat}
    (h : measure c rest = (kind, n)) (hkind : kind = .number ∨ kind = .mark) :
    (c = '/' ∧ kind = .mark ∧ n = 1) ∨ c ∉ ['/', '#', '"', '$', '\'', '@'] := by
  refine Classical.or_iff_not_imp_right.mpr fun hmem => ?_
  have hnot {kind' : LexemeKind} {n' : Nat} (h' : (kind', n') = (kind, n))
      (hother : kind' ≠ .number ∧ kind' ≠ .mark) : False := by
    obtain ⟨rfl, -⟩ := Prod.mk.inj h'
    exact hkind.elim hother.1 hother.2
  simp only [List.mem_cons, List.not_mem_nil, or_false, Classical.not_not] at hmem
  rcases hmem with rfl | rfl | rfl | rfl | rfl | rfl
  · rw [measure_slash] at h
    split at h
    · exact (hnot h (by simp)).elim
    · obtain ⟨rfl, rfl⟩ := Prod.mk.inj h
      exact ⟨rfl, rfl, rfl⟩
  · rw [measure_hash] at h
    cases hfound : directiveLength? ('#' :: rest) with
    | none =>
        rw [hfound] at h
        exact (hnot h (by simp)).elim
    | some found =>
        rw [hfound] at h
        obtain rfl : found = (kind, n) := h
        have := directiveLength?_kind hfound
        rcases hkind with rfl | rfl <;> simp at this
  · rw [measure_quote (Or.inl rfl)] at h
    split at h <;> exact (hnot h (by simp)).elim
  · rw [measure_quote (Or.inr rfl)] at h
    split at h <;> exact (hnot h (by simp)).elim
  · rw [measure_apostrophe] at h
    split at h <;> exact (hnot h (by simp)).elim
  · rw [measure_at] at h
    split at h
    · exact (hnot h (by simp)).elim
    split at h
    · split at h <;> exact (hnot h (by simp)).elim
    · exact (hnot h (by simp)).elim

theorem not_sign_of_number {cs : List Char} {l : Lexeme} (hl : l ∈ lexemes cs)
    (hkind : l.kind = .number) : ∀ c ∈ l.text, c ∉ signs := by
  obtain ⟨c, rest, n, h, htext⟩ := exists_measure hl
  rcases measure_cases h (Or.inl hkind) with ⟨-, hmark, -⟩ | hc
  · rw [hkind] at hmark
    cases hmark
  rw [hkind, measure_plain hc] at h
  split at h
  · cases h
  split at h
  · cases h
  split at h
  · rename_i hdigit
    obtain ⟨-, rfl⟩ := Prod.mk.inj h
    rw [htext, Nat.add_sub_cancel, take_length_takeWhile]
    intro d hd
    rcases List.mem_cons.mp hd with rfl | hd
    · exact fun hsign => by rw [isDecimalDigit_sign d hsign] at hdigit; cases hdigit
    · exact not_sign_of_isWord (List.all_eq_true.mp List.all_takeWhile d hd)
  split at h
  · cases h
  split at h <;> cases h

/-- Blanks, words and numbers hold no signs. -/
theorem not_sign_of_kind {cs : List Char} {l : Lexeme} (hl : l ∈ lexemes cs)
    (hkind : l.kind = .space ∨ l.kind = .word ∨ l.kind = .number) : ∀ c ∈ l.text, c ∉ signs := by
  rcases hkind with hkind | hkind | hkind
  · intro c hc hsign
    have hspace := isSpace_of_mem_text hl hkind c hc
    rw [isSpace_sign c hsign] at hspace
    cases hspace
  · exact not_sign_of_isName (isName_of_mem_lexemes hl hkind)
  · exact not_sign_of_number hl hkind

/-! ## Marks -/

theorem quote_not_mem_mark {cs : List Char} {l : Lexeme} (hl : l ∈ lexemes cs)
    (hkind : l.kind = .mark) : '"' ∉ l.text := by
  obtain ⟨c, rest, n, h, htext⟩ := exists_measure hl
  rw [htext]
  rcases measure_cases h (Or.inr hkind) with ⟨rfl, -, rfl⟩ | hc
  · simp
  have hfirst : '"' ≠ c := by
    rintro rfl
    exact hc (by decide)
  rw [hkind, measure_plain hc] at h
  split at h
  · cases h
  split at h
  · cases h
  split at h
  · cases h
  split at h
  · rename_i hdouble
    obtain ⟨-, rfl⟩ := Prod.mk.inj h
    cases rest with
    | nil => simpa using hfirst
    | cons d rest =>
        have hsecond : '"' ≠ d := by
          rintro rfl
          simp [doubleMarks] at hdouble
        simp [hfirst, hsecond]
  · split at h
    · obtain ⟨-, rfl⟩ := Prod.mk.inj h
      simpa using hfirst
    · cases h

/-! ## String literals -/

/-- The lexer closes a string literal where its first mark without a backslash is. -/
theorem isQuotation_take {cs : List Char} {n : Nat}
    (h : closingLength? 0 [.quote .plain 0] cs = some n) : IsQuotation (cs.take n) := by
  match cs with
  | [] => cases h
  | c :: cs =>
    by_cases hescape : c = '\\'
    · subst hescape
      match cs with
      | [] => cases h
      | d :: cs =>
        have hnext : closingLength? 0 [.quote .plain 0] ('\\' :: d :: cs) =
            ((closingLength? 0 [.quote .plain 0] cs).map (· + 1)).map (· + 1) := rfl
        rw [hnext] at h
        obtain ⟨k, hk, rfl⟩ := Option.map_eq_some_iff.mp h
        obtain ⟨m, hm, rfl⟩ := Option.map_eq_some_iff.mp hk
        exact .escape d (isQuotation_take hm)
    rw [closingLength?] at h
    by_cases hline : c = '\n' ∨ c = '\r'
    · simp [Open.next, hescape, hline] at h
    by_cases hmark : c = '"'
    · subst hmark
      simp only [Open.next, Char.reduceEq, and_false, if_false, if_true, reduceCtorEq,
        false_and] at h
      obtain ⟨k, hk, rfl⟩ := Option.map_eq_some_iff.mp h
      rw [closingLength?] at hk
      obtain rfl := Option.some.inj hk
      exact .close
    · simp only [Open.next, hescape, hline, hmark, and_false, if_false, reduceCtorEq, false_and,
        true_or, if_true] at h
      obtain ⟨k, hk, rfl⟩ := Option.map_eq_some_iff.mp h
      exact .char hmark hescape (isQuotation_take hk)

/-- A literal that begins with three marks. -/
theorem exists_of_runLength {rest : List Char} (h : 3 ≤ runLength '"' rest + 1) :
    ∃ more, rest = '"' :: '"' :: more := by
  have hcons (c : Char) (cs : List Char) (hpos : 0 < runLength '"' (c :: cs)) : c = '"' := by
    refine Classical.byContradiction fun hc => ?_
    simp [runLength, hc] at hpos
  cases rest with
  | nil => simp [runLength] at h
  | cons a rest =>
      obtain rfl := hcons a rest (by omega)
      have hrun : runLength '"' ('"' :: rest) = runLength '"' rest + 1 := by simp [runLength]
      cases rest with
      | nil => simp [runLength] at h
      | cons b more =>
          obtain rfl := hcons b more (by omega)
          exact ⟨more, rfl⟩

theorem isQuotation_of_literal {cs : List Char} {l : Lexeme} (hl : l ∈ lexemes cs)
    (hkind : l.kind = .literal) (hregular : opensRegular l.text = true) :
    ∃ q, l.text = '"' :: q ∧ IsQuotation q := by
  obtain ⟨c, rest, n, h, htext⟩ := exists_measure hl
  rw [opensRegular, Bool.and_eq_true, Bool.not_eq_true', htext] at hregular
  obtain ⟨hopen, hraw⟩ := hregular
  obtain rfl : '"' = c := by simpa [List.isPrefixOf] using hopen
  rw [hkind, measure_quote (Or.inl rfl)] at h
  split at h
  case h_2 => cases h
  rename_i m hlength
  obtain ⟨-, rfl⟩ := Prod.mk.inj h
  refine ⟨_, htext, ?_⟩
  have hdollars : runLength '$' ('"' :: rest) = 0 := rfl
  rw [stringLength?, opening?, hdollars, List.drop_zero] at hlength
  simp only [Nat.zero_add, Nat.zero_le, if_true] at hlength
  by_cases hquotes : 3 ≤ runLength '"' rest + 1
  · -- three marks would have been seen in the text
    rw [if_pos hquotes] at hlength
    obtain ⟨k, -, rfl⟩ := Option.map_eq_some_iff.mp hlength
    obtain ⟨more, rfl⟩ := exists_of_runLength hquotes
    obtain ⟨j, hj⟩ := Nat.exists_eq_add_of_le hquotes
    have hsize : runLength '"' ('"' :: '"' :: more) + 1 + k - 1 = j + k + 2 := by omega
    rw [hsize, List.take_succ_cons, List.take_succ_cons] at hraw
    simp [List.isPrefixOf] at hraw
  · rw [if_neg hquotes] at hlength
    obtain ⟨k, hk, rfl⟩ := Option.map_eq_some_iff.mp hlength
    rw [Nat.add_sub_cancel_left]
    exact isQuotation_take hk

/-! ## All lexemes -/

section

variable {b : Bracketing}

theorem isLevelUnquoted_of_not_sign (hb : b.opening ++ b.closing ++ b.inner ⊆ signs)
    {cs : List Char} (h : ∀ c ∈ cs, c ∉ signs) : b.IsLevelUnquoted cs :=
  Bracketing.isLevelUnquoted_of_plain (fun hmark => h _ hmark (by decide)) fun c hc hmem =>
    h c hc (hb hmem)

theorem isLevelUnquoted_of_kind (hb : b.opening ++ b.closing ++ b.inner ⊆ signs) {cs : List Char}
    {l : Lexeme} (hl : l ∈ lexemes cs) (hmark : l.kind ≠ .mark) (hhides : l.hidesSigns = false) :
    b.IsLevelUnquoted l.text := by
  unfold Lexeme.hidesSigns at hhides
  split at hhides
  · exact isLevelUnquoted_of_not_sign hb (not_sign_of_kind hl (Or.inl ‹_›))
  · exact isLevelUnquoted_of_not_sign hb (not_sign_of_kind hl (Or.inr (Or.inl ‹_›)))
  · exact isLevelUnquoted_of_not_sign hb (not_sign_of_kind hl (Or.inr (Or.inr ‹_›)))
  · exact absurd ‹_› hmark
  · obtain ⟨q, htext, hq⟩ := isQuotation_of_literal hl ‹_› (by simpa using hhides)
    rw [htext]
    exact ⟨[], .of_quotation hq, Bracketing.isLevel_nil⟩
  all_goals cases hhides

theorem exists_unquoted_lexemes {ls : List Lexeme}
    (hmark : ∀ l ∈ ls, l.kind = .mark → '"' ∉ l.text)
    (hother : ∀ l ∈ ls, l.kind ≠ .mark → b.IsLevelUnquoted l.text) :
    ∃ out, Unquoted (ls.flatMap (·.text)) out ∧
      ∀ d, out.foldlM b.next? d = (marks ls).foldlM b.next? d := by
  induction ls with
  | nil => exact ⟨[], .nil, fun _ => rfl⟩
  | cons l ls ih =>
      obtain ⟨out, hout, hsame⟩ := ih (fun l hl => hmark l (List.mem_cons_of_mem _ hl))
        fun l hl => hother l (List.mem_cons_of_mem _ hl)
      rw [List.flatMap_cons]
      by_cases hkind : l.kind = .mark
      · have hquote := hmark l List.mem_cons_self hkind
        have hmarks : marks (l :: ls) = l.text ++ marks ls := by simp [marks, hkind]
        refine ⟨l.text ++ out, .append (.refl fun c hc => ?_) hout, fun d => ?_⟩
        · rintro rfl
          exact hquote hc
        · rw [hmarks, List.foldlM_append, List.foldlM_append]
          exact congrArg _ (funext hsame)
      · obtain ⟨out', hout', hlevel⟩ := hother l List.mem_cons_self hkind
        have hmarks : marks (l :: ls) = marks ls := by simp [marks, hkind]
        refine ⟨out' ++ out, hout'.append hout, fun d => ?_⟩
        rw [hmarks, List.foldlM_append, hlevel.foldlM_eq d]
        exact hsame d

/-- A source whose marks are level is level outside of string literals, if what hides signs is level
by itself. -/
theorem isLevelUnquoted_of_marks (hb : b.opening ++ b.closing ++ b.inner ⊆ signs) {cs : List Char}
    (hmarks : b.IsLevel (marks (lexemes cs)))
    (hhides : ∀ l ∈ lexemes cs, l.hidesSigns = true → b.IsLevelUnquoted l.text) :
    b.IsLevelUnquoted cs := by
  obtain ⟨out, hout, hsame⟩ := @exists_unquoted_lexemes b (lexemes cs)
    (fun l hl hkind => quote_not_mem_mark hl hkind) fun l hl hkind => by
      cases hl' : l.hidesSigns with
      | true => exact hhides l hl hl'
      | false => exact isLevelUnquoted_of_kind hb hl hkind hl'
  rw [flatMap_text_lexemes] at hout
  exact ⟨out, hout, (hsame 0).trans hmarks⟩

end

theorem braces_subset_signs : braces.opening ++ braces.closing ++ braces.inner ⊆ signs := by
  simp [braces, signs]

theorem brackets_subset_signs :
    brackets.opening ++ brackets.closing ++ brackets.inner ⊆ signs := by
  simp [brackets, signs]

end ComponentAtlas.CSharp
