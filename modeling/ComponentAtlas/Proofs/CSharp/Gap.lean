import ComponentAtlas.Proofs.CSharp.LexemeCut
import ComponentAtlas.Proofs.CSharp.Rereading

/-!
# A comment between two lexemes

A plain comment put at a place between two lexemes of a source is one lexeme more, and all others
stay as they are, but for the blanks around the place (`Gap.lexemes_withComment`).  So every token
stays as it is, and the comment stands in front of the one behind the place (`Gap.tokens_alike`).
-/

namespace ComponentAtlas.CSharp

variable {comment ending : List Char}

/-! ## Plain comments -/

/-- A comment that is no documentation, and the line end that has to follow it. -/
inductive IsPlainComment : List Char → List Char → Prop
  | block {body : List Char} (open_ : ¬ ['*', '/'] <:+: body) :
      IsPlainComment ('/' :: '*' :: (body ++ ['*', '/'])) []
  | line {body ending : List Char} (oneLine : ∀ c ∈ body, c ≠ '\n' ∧ c ≠ '\r')
      (plain : body.head? ≠ some '/') (lineEnd : ending = ['\n'] ∨ ending = ['\r', '\n']) :
      IsPlainComment ('/' :: '/' :: body) ending

theorem blockCommentLength?_of_open {body : List Char} (h : ¬ ['*', '/'] <:+: body)
    (rest : List Char) :
    blockCommentLength? (body ++ '*' :: '/' :: rest) = some (body.length + 2) := by
  induction body with
  | nil => rfl
  | cons c body ih =>
      have hopen : ¬ (c = '*' ∧ (body ++ '*' :: '/' :: rest).head? = some '/') := by
        rintro ⟨rfl, hhead⟩
        cases body with
        | nil => cases hhead
        | cons d body =>
            cases hhead
            exact h (List.prefix_append ['*', '/'] body).isInfix
      rw [List.cons_append, blockCommentLength?_cons, if_neg hopen,
        ih fun hbody => h (hbody.trans (List.suffix_cons _ _).isInfix)]
      rfl

namespace IsPlainComment

theorem exists_slash (h : IsPlainComment comment ending) : ∃ body, comment = '/' :: body := by
  cases h <;> exact ⟨_, rfl⟩

theorem isSpace_of_mem_ending (h : IsPlainComment comment ending) :
    ∀ c ∈ ending, isSpace c = true := by
  cases h with
  | block _ => simp
  | line _ _ hend => rcases hend with rfl | rfl <;> simp [isSpace]

theorem line?_eq (h : IsPlainComment comment ending) :
    Documentation.line? ⟨.comment, comment⟩ = none := by
  have hslashes : Text.after? "///".toList comment = none := by
    cases h with
    | block _ => rfl
    | @line body ending hline hplain hend =>
        cases body with
        | nil => rfl
        | cons c body =>
            have hc : '/' ≠ c := fun hc => hplain (congrArg some hc.symm)
            simp [Text.after?, hc]
  rw [Documentation.line?, hslashes]
  rfl

theorem lexemes_eq (h : IsPlainComment comment ending) (rest : List Char) :
    lexemes (comment ++ (ending ++ rest)) = ⟨.comment, comment⟩ :: lexemes (ending ++ rest) := by
  cases h with
  | @block body hopen =>
      have hmeasure : measure '/' (('*' :: (body ++ ['*', '/'])) ++ ([] ++ rest)) =
          (.comment, body.length + 4) := by
        rw [measure_slash]
        simp only [List.nil_append, List.cons_append, List.append_assoc, commentLength?,
          blockCommentLength?_of_open hopen]
        rfl
      exact lexemes_cons hmeasure (by simp)
  | @line body ending hline hplain hend =>
      have hstop : (body ++ (ending ++ rest)).takeWhile (fun c => c ≠ '\n' && c ≠ '\r') = body := by
        rcases hend with rfl | rfl <;> exact takeWhile_run (by simpa using hline) rfl _
      have hmeasure : measure '/' (('/' :: body) ++ (ending ++ rest)) =
          (.comment, body.length + 2) := by
        rw [measure_slash]
        simp only [List.cons_append, commentLength?, hstop]
      exact lexemes_cons hmeasure (by simp)

end IsPlainComment

/-! ## Places for a comment -/

/-- The lexemes of a run of blanks. -/
def blankLexemes (cs : List Char) : List Lexeme :=
  if cs.isEmpty then [] else [⟨.space, cs⟩]

/-- A place in a source where a comment can be put: behind some lexemes and in front of another,
with blanks perhaps on either side.  What stands before it is read to its end, and its last lexeme
would not take a slash in. -/
structure Gap where
  before : List Lexeme
  left : List Char
  right : List Char
  next : Lexeme
  after : List Lexeme
  blank : ∀ c ∈ left ++ right, isSpace c = true
  lexed : lexemes ((before ++ blankLexemes (left ++ right) ++ next :: after).flatMap (·.text)) =
    before ++ blankLexemes (left ++ right) ++ next :: after
  tight : next.kind ≠ .space
  clean : ∀ l ∈ before, l.kind ≠ .stray
  closed : ¬ [⟨.mark, ['/']⟩, ⟨.mark, ['*']⟩] <:+: before
  free : left = [] → ∀ l ∈ before.getLast?, l.takesSlash = false

theorem flatMap_blankLexemes (cs : List Char) : (blankLexemes cs).flatMap (·.text) = cs := by
  unfold blankLexemes
  cases cs with
  | nil => rfl
  | cons c cs => exact List.flatMap_singleton _ _

theorem lexemes_blanks {blanks rest : List Char} (hblanks : ∀ c ∈ blanks, isSpace c = true)
    (hrest : ∀ c ∈ rest.head?, isSpace c = false) :
    lexemes (blanks ++ rest) = blankLexemes blanks ++ lexemes rest := by
  cases blanks with
  | nil => rfl
  | cons c blanks =>
      have hstop : (blanks ++ rest).takeWhile isSpace = blanks := by
        rw [List.takeWhile_append_of_pos fun d hd => hblanks d (List.mem_cons_of_mem _ hd)]
        cases rest with
        | nil => rw [List.takeWhile_nil, List.append_nil]
        | cons d rest =>
            rw [List.takeWhile_cons_of_neg (by simp [hrest d rfl]), List.append_nil]
      have hmeasure : measure c (blanks ++ rest) = (.space, blanks.length + 1) := by
        unfold measure
        rw [if_pos (hblanks c List.mem_cons_self), hstop]
      exact lexemes_cons hmeasure rfl

/-- Behind the first lexemes of a text the others follow. -/
theorem lexemes_behind {before after : List Lexeme} {rest : List Char}
    (h : lexemes (before.flatMap (·.text) ++ rest) = before ++ after) (hafter : after ≠ []) :
    lexemes rest = after := by
  induction before with
  | nil => exact h
  | cons l before ih =>
      obtain ⟨c, t, rest', n, hsplit, htext, -, -, hrest⟩ := lexemes_eq_cons h (by simp [hafter])
      rw [List.flatMap_cons, htext, List.cons_append, List.cons_append, List.append_assoc] at hsplit
      obtain rfl := List.append_cancel_left (List.cons.inj hsplit).2
      exact ih hrest

theorem kind_eq_of_lexemes {c : Char} {cs : List Char} {l : Lexeme} {ls : List Lexeme}
    (h : lexemes (c :: cs) = l :: ls) : l.kind = (measure c cs).1 := by
  rw [lexemes] at h
  cases hmeasure : measure c cs with
  | mk kind n =>
      rw [hmeasure] at h
      obtain ⟨rfl, -⟩ := List.cons.inj h
      rfl

/-- A text that begins with another lexeme than blanks begins with no blank. -/
theorem isSpace_head_of_kind {cs : List Char} {l : Lexeme} {ls : List Lexeme}
    (h : lexemes cs = l :: ls) (hkind : l.kind ≠ .space) :
    ∀ c ∈ cs.head?, isSpace c = false := by
  intro c hc
  obtain ⟨rest, rfl⟩ := List.head?_eq_some_iff.mp hc
  refine Bool.eq_false_iff.mpr fun hspace => hkind ?_
  rw [kind_eq_of_lexemes h, isSpace_of_measure hspace]

namespace Gap

variable (g : Gap)

/-- The text in front of the place. -/
def front : List Char :=
  g.before.flatMap (·.text) ++ g.left

/-- The text behind the place. -/
def back : List Char :=
  g.right ++ (g.next :: g.after).flatMap (·.text)

def source : List Char :=
  g.front ++ g.back

/-- The source with a comment at the place. -/
def withComment (comment ending : List Char) : List Char :=
  g.front ++ (comment ++ (ending ++ g.back))

theorem lexemes_source :
    lexemes g.source = g.before ++ blankLexemes (g.left ++ g.right) ++ g.next :: g.after := by
  rw [← g.lexed]
  simp only [source, front, back, List.flatMap_append, flatMap_blankLexemes, List.append_assoc]

theorem lexemes_next :
    lexemes ((g.next :: g.after).flatMap (·.text)) = g.next :: g.after := by
  have hsource : lexemes ((g.before ++ blankLexemes (g.left ++ g.right)).flatMap (·.text) ++
      (g.next :: g.after).flatMap (·.text)) =
        g.before ++ blankLexemes (g.left ++ g.right) ++ g.next :: g.after := by
    rw [← List.flatMap_append]
    exact g.lexed
  exact lexemes_behind hsource (List.cons_ne_nil _ _)

theorem isSpace_head_next :
    ∀ c ∈ ((g.next :: g.after).flatMap (·.text)).head?, isSpace c = false :=
  isSpace_head_of_kind g.lexemes_next g.tight

theorem lexemes_withComment (h : IsPlainComment comment ending) :
    lexemes (g.withComment comment ending) = g.before ++ (blankLexemes g.left ++
      ⟨.comment, comment⟩ :: (blankLexemes (ending ++ g.right) ++ g.next :: g.after)) := by
  obtain ⟨body, hbody⟩ := h.exists_slash
  have hleft : ∀ c ∈ g.left, isSpace c = true := fun c hc => g.blank c (List.mem_append_left _ hc)
  have hright : ∀ c ∈ ending ++ g.right, isSpace c = true := by
    intro c hc
    rcases List.mem_append.mp hc with hc | hc
    · exact h.isSpace_of_mem_ending c hc
    · exact g.blank c (List.mem_append_right _ hc)
  have hold : lexemes (g.before.flatMap (·.text) ++ (g.left ++ g.back)) =
      g.before ++ (blankLexemes (g.left ++ g.right) ++ g.next :: g.after) := by
    rw [← List.append_assoc, ← List.append_assoc]
    exact g.lexemes_source
  have hnew := lexemes_append_slash hold (by simp) hleft g.clean g.closed g.free
    (body ++ (ending ++ g.back))
  have hcomment : '/' :: (body ++ (ending ++ g.back)) = comment ++ (ending ++ g.back) := by
    rw [hbody, List.cons_append]
  rw [hcomment] at hnew
  have hslash : ∀ c ∈ (comment ++ (ending ++ g.back)).head?, isSpace c = false := by
    rw [hbody]
    intro c hc
    cases hc
    decide
  rw [withComment, front, List.append_assoc, hnew, lexemes_blanks hleft hslash, h.lexemes_eq, back,
    ← List.append_assoc ending, lexemes_blanks hright g.isSpace_head_next, g.lexemes_next]

end Gap

/-! ## Tokens -/

theorem AlikeLeading.append {old new old' new' : List Lexeme} (h : AlikeLeading comment old new)
    (h' : AlikeLeading comment old' new') :
    AlikeLeading comment (old ++ old') (new ++ new') where
  documentation := by
    rw [List.filterMap_append, List.filterMap_append, h.documentation, h'.documentation]
  text := by
    rw [List.flatMap_append, List.flatMap_append]
    exact h.text.append h'.text
  first := by
    rw [List.find?_append, List.find?_append]
    rcases h.first with hfirst | ⟨l, hfirst, htext⟩
    · rw [hfirst]
      cases old.find? fun l => l.kind != .space with
      | some l => exact Or.inl rfl
      | none => exact h'.first
    · exact Or.inr ⟨l, by rw [hfirst, Option.some_or], htext⟩

theorem line?_blankLexemes (cs : List Char) :
    (blankLexemes cs).filterMap Documentation.line? = [] := by
  unfold blankLexemes
  split <;> rfl

theorem find?_blankLexemes (cs : List Char) :
    (blankLexemes cs).find? (fun l => l.kind != .space) = none := by
  unfold blankLexemes
  split <;> rfl

theorem isTrivia_of_mem_blankLexemes {cs : List Char} {l : Lexeme} (hl : l ∈ blankLexemes cs) :
    l.kind.isTrivia = true := by
  unfold blankLexemes at hl
  split at hl
  · cases hl
  · obtain rfl := List.mem_singleton.mp hl
    rfl

/-- A comment among blanks. -/
theorem alikeLeading_comment (h : IsPlainComment comment ending) (blanks left right : List Char) :
    AlikeLeading comment (blankLexemes blanks)
      (blankLexemes left ++ ⟨.comment, comment⟩ :: blankLexemes right) := by
  constructor
  · simp only [List.filterMap_append, List.filterMap_cons, line?_blankLexemes, h.line?_eq,
      List.append_nil]
  · refine Or.inr ?_
    simp only [List.flatMap_append, List.flatMap_cons, flatMap_blankLexemes]
    exact ⟨left, right, by simp only [List.append_assoc]⟩
  · simp only [List.find?_append, List.find?_cons, find?_blankLexemes]
    exact Or.inr ⟨⟨.comment, comment⟩, rfl, rfl⟩

theorem tokensFrom_trivia {waiting trivia ls : List Lexeme}
    (h : ∀ l ∈ trivia, l.kind.isTrivia = true) :
    tokensFrom waiting (trivia ++ ls) = tokensFrom (waiting ++ trivia) ls := by
  induction trivia generalizing waiting with
  | nil => rw [List.nil_append, List.append_nil]
  | cons l trivia ih =>
      rw [List.cons_append, tokensFrom, if_pos (h l List.mem_cons_self),
        ih fun l hl => h l (List.mem_cons_of_mem _ hl), List.append_assoc]
      rfl

/-- The same lexemes in front of others, when what is waiting and the others are alike. -/
theorem tokensFrom_append_alike {ls old new waiting waiting' : List Lexeme}
    (h : ∀ p q, AlikeLeading comment p q →
      List.Forall₂ (Token.Alike comment) (tokensFrom p old) (tokensFrom q new))
    (hwaiting : AlikeLeading comment waiting waiting') :
    List.Forall₂ (Token.Alike comment) (tokensFrom waiting (ls ++ old))
      (tokensFrom waiting' (ls ++ new)) := by
  induction ls generalizing waiting waiting' with
  | nil => exact h _ _ hwaiting
  | cons l ls ih =>
      rw [List.cons_append, List.cons_append, tokensFrom, tokensFrom]
      split
      · exact ih (hwaiting.append (.refl [l]))
      · exact .cons ⟨hwaiting, rfl⟩ (ih (.refl []))

theorem tokensFrom_alike {old new ls : List Lexeme} (h : AlikeLeading comment old new) :
    List.Forall₂ (Token.Alike comment) (tokensFrom old ls) (tokensFrom new ls) := by
  have hend := @tokensFrom_append_alike comment ls [] [] old new (fun _ _ _ => .nil) h
  rwa [List.append_nil] at hend

/-- A plain comment at a place between lexemes leaves the tokens as they are, but for what stands in
front of the one behind it. -/
theorem Gap.tokens_alike (g : Gap) (h : IsPlainComment comment ending) :
    List.Forall₂ (Token.Alike comment) (tokens g.source)
      (tokens (g.withComment comment ending)) := by
  have hcommented : ∀ l ∈ blankLexemes g.left ++
      ⟨.comment, comment⟩ :: blankLexemes (ending ++ g.right), l.kind.isTrivia = true := by
    intro l hl
    rcases List.mem_append.mp hl with hl | hl
    · exact isTrivia_of_mem_blankLexemes hl
    · rcases List.mem_cons.mp hl with rfl | hl
      · rfl
      · exact isTrivia_of_mem_blankLexemes hl
  have hnew : blankLexemes g.left ++
        ⟨.comment, comment⟩ :: (blankLexemes (ending ++ g.right) ++ g.next :: g.after) =
      (blankLexemes g.left ++ ⟨.comment, comment⟩ :: blankLexemes (ending ++ g.right)) ++
        g.next :: g.after := by
    rw [List.append_assoc, List.cons_append]
  unfold tokens
  rw [g.lexemes_source, g.lexemes_withComment h, hnew, List.append_assoc]
  refine tokensFrom_append_alike (fun p q hpq => ?_) (.refl [])
  rw [tokensFrom_trivia (fun _ => isTrivia_of_mem_blankLexemes), tokensFrom_trivia hcommented]
  exact tokensFrom_alike (hpq.append (alikeLeading_comment h _ _ _))

end ComponentAtlas.CSharp
