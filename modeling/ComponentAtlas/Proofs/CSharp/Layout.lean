import ComponentAtlas.Proofs.CSharp.Gap
import ComponentAtlas.Proofs.Text.Blank
import Mathlib.Data.List.Infix

/-!
# Blanks laid out otherwise

When only the blanks between the lexemes of a source change, and changed blanks hold a line feed,
the lexer stops at the same places (`lexemes_relaid`), and every token stays as it is but for the
blanks in front of it (`tokensFrom_relaid`).  So a text that is copied from the source is the same
as before, or it holds a line feed.

No lexeme may depend on the blanks behind it, so the sources are tidy: they hold nothing that goes
on over a line end, and no comment that ends with blanks.
-/

namespace ComponentAtlas.CSharp

/-! ## What stands behind a lexeme -/

theorem measure_space {c : Char} (h : isSpace c = true) (cs : List Char) :
    measure c cs = (.space, (cs.takeWhile isSpace).length + 1) := by
  unfold measure
  rw [if_pos h]

theorem kind_of_directiveLength? {cs : List Char} {kind : LexemeKind} {n : Nat}
    (h : directiveLength? cs = some (kind, n)) : kind ≠ .space := by
  unfold directiveLength? at h
  split at h
  · simp only at h
    split at h
    · cases h; decide
    split at h
    · cases h; decide
    split at h
    · cases h; decide
    · cases h
  · cases h

theorem isSpace_of_kind {c : Char} {cs : List Char} (h : (measure c cs).1 = .space) :
    isSpace c = true := by
  refine Classical.byContradiction fun hspace => ?_
  unfold measure at h
  rw [if_neg hspace] at h
  split at h
  · cases h
  split at h
  · rename_i hfound
    exact kind_of_directiveLength? hfound h
  repeat' split at h
  all_goals cases h

theorem isSpace_of_mem_text {cs : List Char} {l : Lexeme} (hl : l ∈ lexemes cs)
    (hkind : l.kind = .space) : ∀ c ∈ l.text, isSpace c = true := by
  induction cs using lexemes.induct with
  | case1 => rw [lexemes] at hl; cases hl
  | case2 c cs kind length hmeasure ih =>
      rw [lexemes, hmeasure] at hl
      rcases List.mem_cons.mp hl with rfl | hl
      · obtain rfl : kind = .space := hkind
        have hspace : isSpace c = true := isSpace_of_kind (by rw [hmeasure])
        rw [measure_space hspace] at hmeasure
        obtain ⟨-, rfl⟩ := Prod.mk.inj hmeasure
        have htake : cs.take ((cs.takeWhile isSpace).length + 1 - 1) = cs.takeWhile isSpace := by
          rw [Nat.add_sub_cancel]
          exact (List.prefix_iff_eq_take.mp (List.takeWhile_prefix isSpace)).symm
        intro d hd
        simp only [htake] at hd
        rcases List.mem_cons.mp hd with rfl | hd
        · exact hspace
        · exact List.all_eq_true.mp List.all_takeWhile d hd
      · exact ih hl

theorem stop_of_length_takeWhile {p : Char → Bool} {t r : List Char} {c : Char}
    (h : ((t ++ c :: r).takeWhile p).length = t.length) : p c = false := by
  induction t with
  | nil =>
      cases hc : p c with
      | false => rfl
      | true => rw [List.nil_append, List.takeWhile_cons_of_pos hc] at h; cases h
  | cons d t ih =>
      rw [List.cons_append, List.takeWhile_cons] at h
      split at h
      · exact ih (Nat.succ.inj h)
      · cases h

/-- Blanks and comments end in front of what they do not take in. -/
theorem takes_behind {l : Lexeme} {ls : List Lexeme} {c : Char} {r : List Char}
    (h : lexemes (l.text ++ c :: r) = l :: ls) (hkind : l.kind = .space ∨ l.kind = .comment) :
    l.takes c = false := by
  have hls : ls ≠ [] := by
    rintro rfl
    have htext := flatMap_text_lexemes (l.text ++ c :: r)
    rw [h, List.flatMap_singleton] at htext
    simp at htext
  obtain ⟨d, t, rest, n, hsplit, htext, hmeasure, hn, -⟩ := lexemes_eq_cons h hls
  rw [htext, List.cons_append] at hsplit
  obtain rfl := List.append_cancel_left (List.cons.inj hsplit).2
  unfold Lexeme.takes
  rcases hkind with hkind | hkind
  · simp only [hkind] at hmeasure ⊢
    have hspace : isSpace d = true := isSpace_of_kind (by rw [hmeasure])
    rw [measure_space hspace] at hmeasure
    obtain ⟨-, rfl⟩ := Prod.mk.inj hmeasure
    exact stop_of_length_takeWhile hn
  · simp only [hkind] at hmeasure ⊢
    cases hline : ['/', '/'].isPrefixOf l.text with
    | false => rfl
    | true =>
        obtain ⟨t', ht'⟩ := List.isPrefixOf_iff_prefix.mp hline
        rw [htext] at ht'
        obtain ⟨rfl, rfl⟩ : '/' = d ∧ '/' :: t' = t := List.cons.inj ht'
        rw [measure_slash] at hmeasure
        simp only [List.cons_append, commentLength?] at hmeasure
        obtain ⟨-, rfl⟩ := Prod.mk.inj hmeasure
        have := stop_of_length_takeWhile (p := fun c => c ≠ '\n' && c ≠ '\r') (t := t') (c := c)
          (r := r) (by simpa using hn)
        simpa using this

/-! ## Tidy sources -/

/-- Whether a lexeme is the same whatever blanks follow: it is on one line, and it begins and ends
with something else than a blank.  Blanks must not hold byte order marks. -/
def Lexeme.isTidy (l : Lexeme) : Bool :=
  match l.kind with
  | .stray | .directive | .conditional => false
  | .space => Text.allBlank l.text
  | _ => !l.text.contains '\n' && !l.text.head?.any Text.isBlank &&
      !l.text.getLast?.any Text.isBlank

def closingBrace : Lexeme := ⟨.mark, ['}']⟩

/-- A text of tidy lexemes that leaves nothing open in front of a closing brace. -/
structure IsTidy (cs : List Char) : Prop where
  ends : (lexemes (cs ++ ['}'])).getLast? = some closingBrace
  tidy : ∀ l ∈ lexemes (cs ++ ['}']), l.isTidy = true
  closed : ¬ [⟨.mark, ['/']⟩, ⟨.mark, ['*']⟩] <:+: lexemes (cs ++ ['}'])

instance decidableIsTidy (cs : List Char) : Decidable (IsTidy cs) :=
  decidable_of_iff ((lexemes (cs ++ ['}'])).getLast? = some closingBrace ∧
      (∀ l ∈ lexemes (cs ++ ['}']), l.isTidy = true) ∧
      ¬ [⟨.mark, ['/']⟩, ⟨.mark, ['*']⟩] <:+: lexemes (cs ++ ['}']))
    ⟨fun h => ⟨h.1, h.2.1, h.2.2⟩, fun h => ⟨h.ends, h.tidy, h.closed⟩⟩

/-- The lexemes of a text in front of a closing brace. -/
def codeLexemes (cs : List Char) : List Lexeme :=
  (lexemes (cs ++ ['}'])).dropLast

namespace Lexeme

variable {l : Lexeme} {e : Char}

theorem kind_of_isTidy (h : l.isTidy = true) :
    l.kind ≠ .stray ∧ l.kind ≠ .directive ∧ l.kind ≠ .conditional := by
  unfold isTidy at h
  refine ⟨?_, ?_, ?_⟩ <;> intro hkind <;> simp [hkind] at h

theorem isBlank_of_isTidy (h : l.isTidy = true) (hkind : l.kind = .space) :
    ∀ c ∈ l.text, Text.isBlank c = true := by
  simp only [isTidy, hkind] at h
  exact List.all_eq_true.mp h

/-- A tidy lexeme other than blanks is on one line, with no blank at either end. -/
theorem solid_of_isTidy (h : l.isTidy = true) (hkind : l.kind ≠ .space) :
    '\n' ∉ l.text ∧ (∀ c ∈ l.text.head?, Text.isBlank c = false) ∧
      ∀ c ∈ l.text.getLast?, Text.isBlank c = false := by
  have hsolid : (!l.text.contains '\n' && !l.text.head?.any Text.isBlank &&
      !l.text.getLast?.any Text.isBlank) = true := by
    unfold isTidy at h
    split at h
    · cases h
    · cases h
    · cases h
    · exact absurd ‹_› hkind
    · exact h
  simpa [Option.any_eq_false, and_assoc] using hsolid

/-- A tidy lexeme takes in no mark and no blank, but for blanks and line comments. -/
theorem takes_of_isTidy (h : l.isTidy = true) (he : e ≠ '/' ∧ e ≠ '*')
    (hopen : l.kind = .space ∨ l.kind = .comment → l.takes e = false) : l.takes e = false := by
  obtain ⟨-, hdirective, hconditional⟩ := kind_of_isTidy h
  cases hkind : l.kind with
  | space => exact hopen (Or.inl hkind)
  | comment => exact hopen (Or.inr hkind)
  | directive => exact absurd hkind hdirective
  | conditional => exact absurd hkind hconditional
  | mark => simp [takes, hkind, he]
  | word => simp [takes, hkind]
  | number => simp [takes, hkind]
  | literal => simp [takes, hkind]
  | stray => simp [takes, hkind]

theorem takes_feed (hkind : l.kind = .comment) : l.takes '\n' = false := by
  simp [takes, hkind]

end Lexeme

namespace IsTidy

variable {cs : List Char}

theorem lexemes_eq (h : IsTidy cs) :
    lexemes (cs ++ ['}']) = codeLexemes cs ++ [closingBrace] := by
  obtain ⟨front, hfront⟩ := List.getLast?_eq_some_iff.mp h.ends
  rw [codeLexemes, hfront, List.dropLast_concat]

theorem flatMap_codeLexemes (h : IsTidy cs) : (codeLexemes cs).flatMap (·.text) = cs := by
  have htext := flatMap_text_lexemes (cs ++ ['}'])
  rw [h.lexemes_eq, List.flatMap_append, List.flatMap_singleton] at htext
  exact List.append_cancel_right htext

theorem isTidy_of_mem (h : IsTidy cs) {l : Lexeme} (hl : l ∈ codeLexemes cs) : l.isTidy = true :=
  h.tidy l (by rw [h.lexemes_eq]; exact List.mem_append_left _ hl)

theorem closed_codeLexemes (h : IsTidy cs) :
    ¬ [⟨.mark, ['/']⟩, ⟨.mark, ['*']⟩] <:+: codeLexemes cs := by
  intro hpair
  refine h.closed (hpair.trans ?_)
  rw [h.lexemes_eq]
  exact (List.prefix_append _ _).isInfix

end IsTidy

theorem isCut_of_isSpace {e : Char} (h : isSpace e = true) : IsCut e := by
  have hcases : e = ' ' ∨ e = '\t' ∨ e = '\n' ∨ e = '\r' ∨ e = '\x0b' ∨ e = '\x0c' ∨
      e = '\u00a0' ∨ e = '\ufeff' ∨ e = '\u3000' := by
    simpa [isSpace, or_assoc] using h
  rcases hcases with rfl | rfl | rfl | rfl | rfl | rfl | rfl | rfl | rfl <;>
    exact ⟨⟨by decide, by decide⟩, by decide +kernel, by decide⟩

/-! ## Other blanks between the same lexemes -/

/-- Blanks that stand for others: nothing but line feeds is new, and unless they are the same they
hold a line feed and begin as the others or with one. -/
structure Respaced (old new : List Char) : Prop where
  chars : ∀ c ∈ new, c ∈ old ∨ c = '\n'
  text : Reread ['\n'] old new
  head : new.head? = old.head? ∨ new.head? = some '\n'

/-- Lexemes with other blanks between them. -/
inductive Relaid : List Lexeme → List Lexeme → Prop
  | nil : Relaid [] []
  | cons {w w' : List Char} {l : Lexeme} {ls ls' : List Lexeme} (blank : ∀ c ∈ w, isSpace c = true)
      (gap : Respaced w w') (tight : l.kind ≠ .space) (rest : Relaid ls ls') :
      Relaid (blankLexemes w ++ l :: ls) (blankLexemes w' ++ l :: ls')

namespace Respaced

variable {old new newer : List Char}

theorem refl (w : List Char) : Respaced w w :=
  ⟨fun _ hc => Or.inl hc, .refl w, Or.inl rfl⟩

/-- A line feed in place of anything. -/
theorem feed (w : List Char) : Respaced w ['\n'] :=
  ⟨fun _ hc => Or.inr (List.mem_singleton.mp hc), Or.inr List.infix_rfl, Or.inr rfl⟩

theorem append {old' new' : List Char} (h : Respaced old new) (h' : Respaced old' new') :
    Respaced (old ++ old') (new ++ new') where
  chars c hc := by
    rcases List.mem_append.mp hc with hc | hc
    · exact (h.chars c hc).imp_left (List.mem_append_left _)
    · exact (h'.chars c hc).imp_left (List.mem_append_right _)
  text := h.text.append h'.text
  head := by
    have htext := h.text
    cases new with
    | nil =>
        rcases htext with rfl | hfeed
        · exact h'.head
        · exact absurd (List.infix_nil.mp hfeed) (List.cons_ne_nil _ _)
    | cons c new =>
        rcases h.head with hhead | hhead
        · obtain ⟨rest, rfl⟩ := List.head?_eq_some_iff.mp hhead.symm
          exact Or.inl rfl
        · exact Or.inr hhead

theorem trans (h : Respaced old new) (h' : Respaced new newer) : Respaced old newer where
  chars c hc := by
    rcases h'.chars c hc with hc | hc
    · exact h.chars c hc
    · exact Or.inr hc
  text := by
    rcases h'.text with rfl | hfeed
    · exact h.text
    · exact Or.inr hfeed
  head := by
    rcases h'.head with hhead | hhead
    · rw [hhead]
      exact h.head
    · exact Or.inr hhead

theorem isSpace (h : Respaced old new) (hold : ∀ c ∈ old, isSpace c = true) :
    ∀ c ∈ new, CSharp.isSpace c = true := by
  intro c hc
  rcases h.chars c hc with hc | rfl
  · exact hold c hc
  · rfl

end Respaced

section

variable {before after : List Lexeme} {l : Lexeme}

/-- The last of the lexemes in front of a place, and what stands behind it. -/
theorem lexemes_last {rest : List Char}
    (h : lexemes (before.flatMap (·.text) ++ rest) = before ++ after) (hl : l ∈ before.getLast?) :
    lexemes (l.text ++ rest) = l :: after := by
  obtain ⟨front, rfl⟩ := List.getLast?_eq_some_iff.mp hl
  rw [List.flatMap_append, List.flatMap_singleton, List.append_assoc, List.append_assoc] at h
  exact lexemes_behind h (by simp)

/-- Tidy lexemes in front of a place where the last of them ends. -/
theorem lexemes_append_tidy {e : Char} {z : List Char} (he : IsCut e)
    (h : lexemes (before.flatMap (·.text) ++ z) = before ++ after) (hafter : after ≠ [])
    (htidy : ∀ l ∈ before, l.isTidy = true)
    (hclosed : ¬ [⟨.mark, ['/']⟩, ⟨.mark, ['*']⟩] <:+: before)
    (hfree : ∀ l ∈ before.getLast?, l.takes e = false) (y : List Char) :
    lexemes (before.flatMap (·.text) ++ e :: y) = before ++ lexemes (e :: y) := by
  have hnone : ∀ c ∈ ([] : List Char), isSpace c = true := by simp
  exact lexemes_append_cut he h hafter hnone
    (fun l hl => (Lexeme.kind_of_isTidy (htidy l hl)).1) hclosed (fun _ => hfree) y

/-- In front of a blank that begins a gap, or a line feed, every tidy lexeme ends. -/
theorem takes_gap {w w' r : List Char} {e : Char} (hgap : Respaced w (e :: w'))
    (h : lexemes (before.flatMap (·.text) ++ (w ++ r)) = before ++ after)
    (hspace : isSpace e = true) (hl : l ∈ before.getLast?) (htidy : l.isTidy = true)
    (hkind : l.kind ≠ .space) : l.takes e = false := by
  refine Lexeme.takes_of_isTidy htidy ?_ fun hopen => ?_
  · constructor <;> rintro rfl <;> cases hspace
  have hcomment := hopen.resolve_left hkind
  rcases hgap.head with hhead | hhead
  · obtain ⟨v, rfl⟩ := List.head?_eq_some_iff.mp hhead.symm
    exact takes_behind (lexemes_last h hl) (Or.inr hcomment)
  · obtain rfl : e = '\n' := Option.some.inj hhead
    exact Lexeme.takes_feed hcomment

end

theorem isCut_brace : IsCut '}' :=
  ⟨⟨by decide, by decide⟩, by decide +kernel, by decide⟩

theorem lexemes_brace : lexemes ['}', '\n'] = [closingBrace, ⟨.space, ['\n']⟩] := by
  decide +kernel

/-- Lexemes with other blanks between them are the lexemes of their text, a line feed more at the
end.  The induction goes along the gaps; `run` is what stands in front of the next gap and has not
changed since the last one that has. -/
theorem lexemes_relaid {ls ls' run : List Lexeme} (hs : Relaid ls ls')
    (h : lexemes ((run ++ ls).flatMap (·.text)) = run ++ ls)
    (hrun : ∀ l ∈ run.getLast?, l.kind ≠ .space) (htidy : ∀ l ∈ run ++ ls, l.isTidy = true)
    (hclosed : ¬ [⟨.mark, ['/']⟩, ⟨.mark, ['*']⟩] <:+: run ++ ls)
    (hends : (run ++ ls).getLast? = some closingBrace) :
    lexemes ((run ++ ls').flatMap (·.text) ++ ['\n']) = run ++ ls' ++ [⟨.space, ['\n']⟩] := by
  induction hs generalizing run with
  | nil =>
      rw [List.append_nil] at h htidy hclosed hends ⊢
      obtain ⟨front, rfl⟩ := List.getLast?_eq_some_iff.mp hends
      rw [List.flatMap_append, List.flatMap_singleton] at h ⊢
      have hfree : ∀ l ∈ front.getLast?, l.takes '}' = false := by
        intro l hl
        refine Lexeme.takes_of_isTidy (htidy l ?_) (by decide) fun hopen => ?_
        · exact List.mem_append_left _ (List.mem_of_getLast? hl)
        · exact takes_behind (lexemes_last h hl) hopen
      have hcut := lexemes_append_tidy isCut_brace h (List.cons_ne_nil _ _)
        (fun l hl => htidy l (List.mem_append_left _ hl))
        (fun hpair => hclosed (hpair.trans (List.prefix_append _ _).isInfix)) hfree ['\n']
      rw [lexemes_brace] at hcut
      rw [List.append_assoc, List.append_assoc]
      exact hcut
  | @cons w w' l ls ls' blank gap tight rest ih =>
      by_cases hsame : w' = w
      · subst hsame
        have hassoc (ls : List Lexeme) : run ++ (blankLexemes w' ++ l :: ls) =
            (run ++ blankLexemes w' ++ [l]) ++ ls := by simp
        rw [hassoc] at h htidy hclosed hends ⊢
        refine ih h ?_ htidy hclosed hends
        intro l' hl'
        rw [List.getLast?_concat] at hl'
        obtain rfl := Option.some.inj hl'
        exact tight
      · obtain ⟨e, v, rfl⟩ : ∃ e v, w' = e :: v := by
          refine List.exists_cons_of_ne_nil ?_
          rintro rfl
          rcases gap.text with htext | htext
          · exact hsame htext
          · exact absurd (List.infix_nil.mp htext) (List.cons_ne_nil _ _)
        have hspace := gap.isSpace blank
        have hcons : run ++ (blankLexemes w ++ l :: ls) = (run ++ blankLexemes w) ++ l :: ls := by
          rw [List.append_assoc]
        have hbehind : lexemes ((l :: ls).flatMap (·.text)) = l :: ls := by
          rw [hcons, List.flatMap_append] at h
          exact lexemes_behind h (List.cons_ne_nil _ _)
        have hgap : lexemes (run.flatMap (·.text) ++ (w ++ (l :: ls).flatMap (·.text))) =
            run ++ (blankLexemes w ++ l :: ls) := by
          rw [← h]
          simp only [List.flatMap_append, flatMap_blankLexemes]
        have hcut := lexemes_append_tidy (isCut_of_isSpace (hspace e List.mem_cons_self)) hgap
          (by simp) (fun l hl => htidy l (List.mem_append_left _ hl))
          (fun hpair => hclosed (hpair.trans (List.prefix_append _ _).isInfix))
          (fun l hl => takes_gap gap hgap (hspace e List.mem_cons_self) hl
            (htidy l (List.mem_append_left _ (List.mem_of_getLast? hl))) (hrun l hl))
        have hrest : lexemes ((l :: ls').flatMap (·.text) ++ ['\n']) =
            l :: ls' ++ [⟨.space, ['\n']⟩] := by
          rw [hcons] at htidy hclosed hends
          rw [List.getLast?_append_of_ne_nil _ (List.cons_ne_nil _ _)] at hends
          exact @ih [l] hbehind (by simpa using tight)
            (fun l hl => htidy l (List.mem_append_right _ hl))
            (fun hpair => hclosed (hpair.trans (List.suffix_append _ _).isInfix)) hends
        calc lexemes ((run ++ (blankLexemes (e :: v) ++ l :: ls')).flatMap (·.text) ++ ['\n'])
            = lexemes (run.flatMap (·.text) ++
                e :: (v ++ ((l :: ls').flatMap (·.text) ++ ['\n']))) := by
              simp only [List.flatMap_append, flatMap_blankLexemes, List.append_assoc,
                List.cons_append]
          _ = run ++ lexemes ((e :: v) ++ ((l :: ls').flatMap (·.text) ++ ['\n'])) := hcut _
          _ = run ++ (blankLexemes (e :: v) ++ (l :: ls' ++ [⟨.space, ['\n']⟩])) := by
              rw [lexemes_blanks hspace (isSpace_head_of_kind hrest tight), hrest]
          _ = run ++ (blankLexemes (e :: v) ++ l :: ls') ++ [⟨.space, ['\n']⟩] := by
              simp only [List.append_assoc, List.cons_append]

/-! ## Tidy sources put together -/

/-- Two marks that follow each other in two parts stand in one of them or meet at the cut. -/
theorem pair_infix_append {x y : Lexeme} {ls ls' : List Lexeme} (h : [x, y] <:+: ls ++ ls') :
    [x, y] <:+: ls ∨ [x, y] <:+: ls' ∨ (ls.getLast? = some x ∧ ls'.head? = some y) := by
  induction ls with
  | nil => exact Or.inr (Or.inl h)
  | cons l ls ih =>
      rw [List.cons_append, List.infix_cons_iff] at h
      rcases h with hfirst | h
      · obtain ⟨rfl, hsecond⟩ := List.cons_prefix_cons.mp hfirst
        cases ls with
        | nil =>
            refine Or.inr (Or.inr ⟨rfl, ?_⟩)
            obtain ⟨rest, hrest⟩ := hsecond
            rw [List.nil_append] at hrest
            rw [← hrest]
            rfl
        | cons l' ls =>
            rw [List.cons_append, List.cons_prefix_cons] at hsecond
            rw [← hsecond.1]
            exact Or.inl (List.prefix_append [x, y] ls).isInfix
      · rcases ih h with hin | hin | ⟨hlast, hhead⟩
        · exact Or.inl (hin.trans (List.suffix_cons _ _).isInfix)
        · exact Or.inr (Or.inl hin)
        · refine Or.inr (Or.inr ⟨?_, hhead⟩)
          rw [List.getLast?_cons, hlast]
          rfl

/-- A tidy text with no blank at either end. -/
structure IsPhrase (cs : List Char) : Prop extends IsTidy cs, Text.IsTrimmed cs

instance decidableIsPhrase (cs : List Char) : Decidable (IsPhrase cs) :=
  decidable_of_iff (IsTidy cs ∧ Text.IsTrimmed cs)
    ⟨fun h => ⟨h.1, h.2⟩, fun h => ⟨h.toIsTidy, h.toIsTrimmed⟩⟩

/-- A tidy text begins with no byte order mark. -/
theorem IsTidy.isSpace_head {c : Char} {cs : List Char} (h : IsTidy (c :: cs))
    (hc : Text.isBlank c = false) : isSpace c = false := by
  refine Bool.eq_false_iff.mpr fun hspace => ?_
  have htidy := h.tidy
  rw [List.cons_append, lexemes, measure_space hspace] at htidy
  have hblank := Lexeme.isBlank_of_isTidy (htidy _ List.mem_cons_self) rfl c List.mem_cons_self
  rw [hc] at hblank
  cases hblank

namespace IsPhrase

variable {cs ds : List Char} {e : Char}

theorem isSpace_head_append (h : IsPhrase cs) (rest : List Char) :
    ∀ c ∈ (cs ++ rest).head?, isSpace c = false := by
  obtain ⟨d, hhead, hd⟩ := h.first
  obtain ⟨ds, rfl⟩ := List.head?_eq_some_iff.mp hhead
  intro c hc
  obtain rfl := Option.some.inj hc
  exact h.isSpace_head hd

theorem kind_of_last (h : IsPhrase cs) {l : Lexeme} (hl : l ∈ (codeLexemes cs).getLast?) :
    l.kind ≠ .space := by
  intro hkind
  obtain ⟨c, hlast, hc⟩ := h.last
  obtain ⟨front, hfront⟩ := List.getLast?_eq_some_iff.mp hl
  have htext := h.flatMap_codeLexemes
  rw [hfront, List.flatMap_append, List.flatMap_singleton] at htext
  have hmem : l ∈ lexemes (cs ++ ['}']) := by
    rw [h.lexemes_eq, hfront]
    simp
  have htidy := h.tidy l hmem
  rw [← htext, List.getLast?_append_of_ne_nil _ (text_ne_nil_of_mem_lexemes hmem)] at hlast
  rw [Lexeme.isBlank_of_isTidy htidy hkind c (List.mem_of_getLast? hlast)] at hc
  cases hc

/-- A phrase is read to its end in front of a blank, or of a mark that opens no comment. -/
theorem lexemes_append (h : IsPhrase cs) (he : IsCut e) (hmark : e ≠ '/' ∧ e ≠ '*')
    (rest : List Char) : lexemes (cs ++ e :: rest) = codeLexemes cs ++ lexemes (e :: rest) := by
  have hlexed : lexemes ((codeLexemes cs).flatMap (·.text) ++ ['}']) =
      codeLexemes cs ++ [closingBrace] := by
    rw [h.flatMap_codeLexemes, h.lexemes_eq]
  have hfree : ∀ l ∈ (codeLexemes cs).getLast?, l.takes e = false := by
    intro l hl
    have htidy := h.isTidy_of_mem (List.mem_of_getLast? hl)
    refine Lexeme.takes_of_isTidy htidy hmark fun hopen => ?_
    have hcomment := hopen.resolve_left (h.kind_of_last hl)
    -- a line comment would have taken in the brace as well
    have hbrace := takes_behind (lexemes_last hlexed hl) (Or.inr hcomment)
    simp only [Lexeme.takes, hcomment] at hbrace ⊢
    have hline : ['/', '/'].isPrefixOf l.text = false := by
      rwa [show ('}' != '\n' && '}' != '\r') = true from rfl, Bool.and_true] at hbrace
    rw [hline, Bool.false_and]
  have hcut := lexemes_append_tidy he hlexed (List.cons_ne_nil _ _)
    (fun l hl => h.isTidy_of_mem hl) h.closed_codeLexemes hfree rest
  rwa [h.flatMap_codeLexemes] at hcut

/-- A blank in front of a phrase is a lexeme of its own. -/
theorem lexemes_blank (h : IsPhrase ds) (hblank : isSpace e = true) (rest : List Char) :
    lexemes (e :: (ds ++ rest)) = ⟨.space, [e]⟩ :: lexemes (ds ++ rest) :=
  @lexemes_blanks [e] (ds ++ rest) (by simpa using hblank) (h.isSpace_head_append rest)

theorem isTidy_blank (h : IsPhrase ds) : IsTidy (' ' :: ds) := by
  have hlexed : lexemes (' ' :: ds ++ ['}']) = ⟨.space, [' ']⟩ :: lexemes (ds ++ ['}']) :=
    h.lexemes_blank rfl ['}']
  refine ⟨?_, ?_, ?_⟩
  · rw [hlexed, h.lexemes_eq, ← List.cons_append]
    exact List.getLast?_concat
  · intro l hl
    rw [hlexed] at hl
    rcases List.mem_cons.mp hl with rfl | hl
    · rfl
    · exact h.tidy l hl
  · intro hpair
    rw [hlexed] at hpair
    rcases List.infix_cons_iff.mp hpair with hin | hin
    · cases (List.cons_prefix_cons.mp hin).1
    · exact h.closed hin

/-- A phrase that goes on with a blank, or with a mark that opens no comment. -/
theorem append (h : IsPhrase cs) (h' : IsTidy (e :: ds)) (he : IsCut e) (hmark : e ≠ '/' ∧ e ≠ '*')
    (hlast : ∃ c, (e :: ds).getLast? = some c ∧ Text.isBlank c = false) :
    IsPhrase (cs ++ e :: ds) := by
  have hlexed : lexemes ((cs ++ e :: ds) ++ ['}']) =
      codeLexemes cs ++ lexemes (e :: ds ++ ['}']) := by
    rw [List.append_assoc]
    exact h.lexemes_append he hmark (ds ++ ['}'])
  refine ⟨⟨?_, ?_, ?_⟩, ⟨?_, ?_⟩⟩
  · rw [hlexed, h'.lexemes_eq, ← List.append_assoc]
    exact List.getLast?_concat
  · intro l hl
    rw [hlexed] at hl
    rcases List.mem_append.mp hl with hl | hl
    · exact h.isTidy_of_mem hl
    · exact h'.tidy l hl
  · intro hpair
    rw [hlexed] at hpair
    rcases pair_infix_append hpair with hin | hin | ⟨-, hhead⟩
    · exact h.closed_codeLexemes hin
    · exact h'.closed hin
    · -- the second mark would be the one that the phrase goes on with
      rw [List.cons_append, lexemes] at hhead
      have htext := congrArg Lexeme.text (Option.some.inj hhead)
      exact hmark.2 (List.cons.inj htext).1
  · obtain ⟨c, hhead, hc⟩ := h.first
    obtain ⟨rest, rfl⟩ := List.head?_eq_some_iff.mp hhead
    exact ⟨c, rfl, hc⟩
  · obtain ⟨c, hend, hc⟩ := hlast
    exact ⟨c, by rw [List.getLast?_append_of_ne_nil _ (List.cons_ne_nil _ _), hend], hc⟩

theorem space (h : IsPhrase cs) (h' : IsPhrase ds) : IsPhrase (cs ++ ' ' :: ds) := by
  refine h.append h'.isTidy_blank (isCut_of_isSpace rfl) (by decide) ?_
  obtain ⟨c, hlast, hc⟩ := h'.last
  obtain ⟨front, rfl⟩ := List.getLast?_eq_some_iff.mp hlast
  exact ⟨c, by rw [← List.cons_append]; exact List.getLast?_concat, hc⟩

theorem semicolon (h : IsPhrase cs) : IsPhrase (cs ++ [';']) :=
  h.append (by decide +kernel) ⟨⟨by decide, by decide⟩, by decide +kernel, by decide⟩ (by decide)
    ⟨';', rfl, by decide⟩

end IsPhrase

/-! ## Tokens -/

theorem alikeLeading_blanks {w w' : List Char} (h : Respaced w w') :
    AlikeLeading ['\n'] (blankLexemes w) (blankLexemes w') where
  documentation := by rw [line?_blankLexemes, line?_blankLexemes]
  text := by
    rw [flatMap_blankLexemes, flatMap_blankLexemes]
    exact h.text
  first := Or.inl (by rw [find?_blankLexemes, find?_blankLexemes])

/-- Other blanks in front of lexemes. -/
theorem tokensFrom_gap {w w' : List Char} {old new waiting waiting' : List Lexeme}
    (hgap : Respaced w w')
    (h : ∀ p q, AlikeLeading ['\n'] p q →
      List.Forall₂ (Token.Alike ['\n']) (tokensFrom p old) (tokensFrom q new))
    (hwaiting : AlikeLeading ['\n'] waiting waiting') :
    List.Forall₂ (Token.Alike ['\n']) (tokensFrom waiting (blankLexemes w ++ old))
      (tokensFrom waiting' (blankLexemes w' ++ new)) := by
  rw [tokensFrom_trivia (fun _ => isTrivia_of_mem_blankLexemes),
    tokensFrom_trivia (fun _ => isTrivia_of_mem_blankLexemes)]
  exact h _ _ (hwaiting.append (alikeLeading_blanks hgap))

/-- Other blanks between the lexemes are other blanks in front of the tokens; what stands at the
end is dropped. -/
theorem tokensFrom_relaid {ls ls' : List Lexeme} (hs : Relaid ls ls') {old new : List Lexeme}
    (h : AlikeLeading ['\n'] old new) :
    List.Forall₂ (Token.Alike ['\n']) (tokensFrom old ls)
      (tokensFrom new (ls' ++ [⟨.space, ['\n']⟩])) := by
  induction hs generalizing old new with
  | nil => exact .nil
  | @cons w w' l ls ls' blank gap tight rest ih =>
      rw [List.append_assoc, List.cons_append]
      exact tokensFrom_gap gap
        (fun _ _ => @tokensFrom_append_alike _ [l] _ _ _ _ fun _ _ hpq => ih hpq) h

end ComponentAtlas.CSharp
