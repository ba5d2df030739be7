import ComponentAtlas.Declaration.Basic
import Mathlib.Data.List.Forall2

/-!
# Reading a source again with a comment more

A comment between two tokens belongs to what stands in front of the second.  The grammar looks at
lexemes only, so both readings take the same path: brackets nest alike, every declaration begins
and ends at the same token, and names, modifiers and kinds are the same.  What differs is text that
is copied from the source from its first token to its last; such a text is the same as before, or
it holds the comment.

The relations below compare the two readings stage by stage, and each stage has one lemma that
takes the relation of its input to that of its result.
-/

namespace ComponentAtlas.CSharp

/-- A text of the source before and after a comment is put in: the same, or it holds the comment. -/
def Reread (comment old new : List Char) : Prop :=
  new = old ∨ comment <:+: new

variable {comment : List Char}

namespace Reread

variable {a a' b b' : List Char}

theorem refl (cs : List Char) : Reread comment cs cs :=
  Or.inl rfl

theorem append (ha : Reread comment a a') (hb : Reread comment b b') :
    Reread comment (a ++ b) (a' ++ b') := by
  rcases ha with rfl | ha
  · rcases hb with rfl | hb
    · exact refl _
    · exact Or.inr (hb.trans (List.suffix_append _ _).isInfix)
  · exact Or.inr (ha.trans (List.prefix_append _ _).isInfix)

end Reread

/-- Texts that do not hold the comment are the texts before. -/
theorem eq_of_reread {old new : List (List Char)} (h : List.Forall₂ (Reread comment) old new)
    (hnone : ∀ text ∈ new, ¬ comment <:+: text) : new = old := by
  induction h with
  | nil => rfl
  | cons h _ ih =>
      rw [h.resolve_right (hnone _ List.mem_cons_self),
        ih fun text htext => hnone text (List.mem_cons_of_mem _ htext)]

/-- What stands in front of a token before and after a comment is put in.  The comment is no
documentation; and when it is what comes first but for blanks, it is found there. -/
structure AlikeLeading (comment : List Char) (old new : List Lexeme) : Prop where
  documentation : new.filterMap Documentation.line? = old.filterMap Documentation.line?
  text : Reread comment (old.flatMap (·.text)) (new.flatMap (·.text))
  first : new.find? (fun l => l.kind != .space) = old.find? (fun l => l.kind != .space) ∨
    ∃ l, new.find? (fun l => l.kind != .space) = some l ∧ l.text = comment

theorem AlikeLeading.refl (ls : List Lexeme) : AlikeLeading comment ls ls :=
  ⟨rfl, .refl _, Or.inl rfl⟩

/-- A token before and after. -/
structure Token.Alike (comment : List Char) (old new : Token) : Prop where
  leading : AlikeLeading comment old.leading new.leading
  lexeme : new.lexeme = old.lexeme

namespace Token.Alike

variable {t u : Token}

theorem text_eq (h : Token.Alike comment t u) : u.text = t.text := by
  rw [Token.text, h.lexeme, Token.text]

theorem is_eq (h : Token.Alike comment t u) (s : String) : u.is s = t.is s := by
  rw [Token.is, h.lexeme, Token.is]

theorem isWord_eq (h : Token.Alike comment t u) : u.isWord = t.isWord := by
  rw [Token.isWord, h.lexeme, Token.isWord]

theorem isOneOf_eq (h : Token.Alike comment t u) (words : List String) :
    u.isOneOf words = t.isOneOf words := by
  rw [Token.isOneOf, h.isWord_eq, h.text_eq, Token.isOneOf]

theorem opensBracket_eq (h : Token.Alike comment t u) : u.opensBracket = t.opensBracket := by
  rw [Token.opensBracket, h.lexeme, h.text_eq, Token.opensBracket]

theorem closesBracket_eq (h : Token.Alike comment t u) : u.closesBracket = t.closesBracket := by
  rw [Token.closesBracket, h.lexeme, h.text_eq, Token.closesBracket]

theorem fullText (h : Token.Alike comment t u) : Reread comment t.fullText u.fullText := by
  unfold Token.fullText
  rw [h.lexeme]
  exact h.leading.text.append (.refl _)

end Token.Alike

/-- The text between tokens holds the comment as soon as one of them does. -/
theorem reread_flatMap {ts us : List Token} (h : List.Forall₂ (Token.Alike comment) ts us) :
    Reread comment (ts.flatMap (·.fullText)) (us.flatMap (·.fullText)) := by
  induction h with
  | nil => exact .refl _
  | cons h _ ih =>
      rw [List.flatMap_cons, List.flatMap_cons]
      exact h.fullText.append ih

theorem reread_spanText {ts us : List Token} (h : List.Forall₂ (Token.Alike comment) ts us) :
    Reread comment (spanText ts) (spanText us) := by
  cases h with
  | nil => exact .refl _
  | cons h hs =>
      rw [spanText, spanText, h.text_eq]
      exact Reread.append (.refl _) (reread_flatMap hs)

/-! ## Trees -/

/-- A bracket tree before and after. -/
inductive Tree.Alike (comment : List Char) : Tree → Tree → Prop
  | leaf {t u : Token} (h : Token.Alike comment t u) : Alike comment (.leaf t) (.leaf u)
  | group {o o' c c' : Token} {ts us : List Tree} (opening : Token.Alike comment o o')
      (inside : List.Forall₂ (Alike comment) ts us) (closing : Token.Alike comment c c') :
      Alike comment (.group o ts c) (.group o' us c')

abbrev AlikeTrees (comment : List Char) : List Tree → List Tree → Prop :=
  List.Forall₂ (Tree.Alike comment)

namespace Tree.Alike

variable {t u : Tree}

theorem head (h : Tree.Alike comment t u) : Token.Alike comment t.head u.head := by
  cases h with
  | leaf h => exact h
  | group ho _ _ => exact ho

theorem inside? (h : Tree.Alike comment t u) (bracket : Char) :
    Option.Rel (AlikeTrees comment) (t.inside? bracket) (u.inside? bracket) := by
  cases h with
  | leaf _ => exact .none
  | group ho hs _ =>
      rw [Tree.inside?, Tree.inside?, ho.text_eq]
      split
      · exact .some hs
      · exact .none

theorem word? (h : Tree.Alike comment t u) :
    Option.Rel (Token.Alike comment) t.word? u.word? := by
  cases h with
  | leaf h =>
      rw [Tree.word?, Tree.word?, h.isWord_eq]
      split
      · exact .some h
      · exact .none
  | group _ _ _ => exact .none

theorem is_eq (h : Tree.Alike comment t u) (s : String) : u.is s = t.is s := by
  cases h with
  | leaf h => exact h.is_eq s
  | group _ _ _ => rfl

theorem isOneOf_eq (h : Tree.Alike comment t u) (words : List String) :
    u.isOneOf words = t.isOneOf words := by
  cases h with
  | leaf h => exact h.isOneOf_eq words
  | group _ _ _ => rfl

theorem isSome_word?_eq (h : Tree.Alike comment t u) : u.word?.isSome = t.word?.isSome := by
  have hw := h.word?
  generalize t.word? = x, u.word? = y at hw
  cases hw <;> rfl

theorem opens_eq (h : Tree.Alike comment t u) (bracket : Char) :
    u.opens bracket = t.opens bracket := by
  have hi := h.inside? bracket
  unfold Tree.opens
  generalize t.inside? bracket = x, u.inside? bracket = y at hi
  cases hi <;> rfl

theorem namesType_eq (h : Tree.Alike comment t u) : u.namesType = t.namesType := by
  rw [Tree.namesType, h.isSome_word?_eq, h.isOneOf_eq, Tree.namesType]

theorem isIdentifier_eq (h : Tree.Alike comment t u) : u.isIdentifier = t.isIdentifier := by
  rw [Tree.isIdentifier, h.namesType_eq, h.isOneOf_eq, Tree.isIdentifier]

theorem isConditional_eq (h : Tree.Alike comment t u) : u.isConditional = t.isConditional := by
  cases h with
  | leaf h => rw [Tree.isConditional, h.lexeme, Tree.isConditional]
  | group _ _ _ => rfl

theorem isCondition_eq (h : Tree.Alike comment t u) (name : String) :
    u.isCondition name = t.isCondition name := by
  cases h with
  | leaf h => rw [Tree.isCondition, h.lexeme, h.text_eq, Tree.isCondition]
  | group _ _ _ => rfl

theorem isLost_eq (h : Tree.Alike comment t u) : u.isLost = t.isLost := by
  cases h with
  | leaf h => rw [Tree.isLost, h.opensBracket_eq, h.closesBracket_eq, h.lexeme, Tree.isLost]
  | group _ _ _ => rfl

end Tree.Alike

mutual

theorem Tree.Alike.tokens {t u : Tree} (h : Tree.Alike comment t u) :
    List.Forall₂ (Token.Alike comment) t.tokens u.tokens := by
  match t, u, h with
  | .leaf _, .leaf _, .leaf h => exact .cons h .nil
  | .group _ _ _, .group _ _ _, .group ho hs hc =>
      rw [Tree.tokens, Tree.tokens]
      exact .cons ho (List.rel_append (AlikeTrees.allTokens hs) (.cons hc .nil))

theorem AlikeTrees.allTokens {ts us : List Tree} (hs : AlikeTrees comment ts us) :
    List.Forall₂ (Token.Alike comment) (Tree.allTokens ts) (Tree.allTokens us) := by
  match ts, us, hs with
  | [], [], .nil => exact .nil
  | _ :: _, _ :: _, .cons h hs =>
      rw [Tree.allTokens, Tree.allTokens]
      exact List.rel_append h.tokens (AlikeTrees.allTokens hs)

end

theorem AlikeTrees.span {ts us : List Tree} (hs : AlikeTrees comment ts us) :
    Reread comment (Tree.span ts) (Tree.span us) :=
  reread_spanText hs.allTokens

/-- An open bracket before and after. -/
structure OpenBracket.Alike (comment : List Char) (b b' : OpenBracket) : Prop where
  opening : Token.Alike comment b.opening b'.opening
  before : AlikeTrees comment b.before b'.before

theorem OpenBracket.Alike.givenUp {b b' : OpenBracket} {level level' : List Tree}
    (hb : b.Alike comment b') (hl : AlikeTrees comment level level') :
    AlikeTrees comment (level ++ .leaf b.opening :: b.before)
      (level' ++ .leaf b'.opening :: b'.before) :=
  List.rel_append hl (.cons (.leaf hb.opening) hb.before)

theorem closeBracket_alike {c c' : Token} {bs bs' : List OpenBracket} {level level' : List Tree}
    (hc : Token.Alike comment c c') (hb : List.Forall₂ (OpenBracket.Alike comment) bs bs')
    (hl : AlikeTrees comment level level') :
    Option.Rel (fun x y => List.Forall₂ (OpenBracket.Alike comment) x.1 y.1 ∧
        AlikeTrees comment x.2 y.2)
      (closeBracket c bs level) (closeBracket c' bs' level') := by
  induction hb generalizing level level' with
  | nil => exact .none
  | cons h hs ih =>
      rw [closeBracket, closeBracket, h.opening.text_eq, hc.text_eq]
      split
      · exact .some ⟨hs, .cons (.group h.opening (List.rel_reverse hl) hc) h.before⟩
      · split
        · exact .none
        · exact ih (h.givenUp hl)

/-- Bracketing takes the same turns: at every token the same brackets are open. -/
theorem nest_alike {bs bs' : List OpenBracket} {level level' : List Tree} {ts us : List Token}
    (hb : List.Forall₂ (OpenBracket.Alike comment) bs bs') (hl : AlikeTrees comment level level')
    (hts : List.Forall₂ (Token.Alike comment) ts us) :
    AlikeTrees comment (nest bs level ts) (nest bs' level' us) := by
  induction hts generalizing bs bs' level level' with
  | nil =>
      rw [nest, nest]
      refine List.rel_reverse ?_
      induction hb generalizing level level' with
      | nil => exact hl
      | cons h _ ih => exact ih (h.givenUp hl)
  | cons h _ ih =>
      rw [nest, nest, h.opensBracket_eq, h.closesBracket_eq]
      split
      · exact ih (.cons ⟨h, hl⟩ hb) .nil
      · split
        · have hclosed := closeBracket_alike h hb hl
          revert hclosed
          generalize closeBracket _ bs level = x, closeBracket _ bs' level' = y
          rintro (⟨hb, hl⟩ | _)
          · exact ih hb hl
          · exact ih hb (.cons (.leaf h) hl)
        · exact ih hb (.cons (.leaf h) hl)

theorem trees_alike {ts us : List Token} (hts : List.Forall₂ (Token.Alike comment) ts us) :
    AlikeTrees comment (trees ts) (trees us) :=
  nest_alike .nil .nil hts

/-! ## The same decisions -/

section

variable {p : Tree → Bool} {ts us : List Tree}

theorem takeWhile_alike (hp : ∀ t u, Tree.Alike comment t u → p u = p t)
    (hs : AlikeTrees comment ts us) : AlikeTrees comment (ts.takeWhile p) (us.takeWhile p) := by
  induction hs with
  | nil => exact .nil
  | cons h _ ih =>
      rw [List.takeWhile_cons, List.takeWhile_cons, hp _ _ h]
      split
      · exact .cons h ih
      · exact .nil

theorem dropWhile_alike (hp : ∀ t u, Tree.Alike comment t u → p u = p t)
    (hs : AlikeTrees comment ts us) : AlikeTrees comment (ts.dropWhile p) (us.dropWhile p) := by
  induction hs with
  | nil => exact .nil
  | cons h hs ih =>
      rw [List.dropWhile_cons, List.dropWhile_cons, hp _ _ h]
      split
      · exact ih
      · exact .cons h hs

theorem any_alike (hp : ∀ t u, Tree.Alike comment t u → p u = p t)
    (hs : AlikeTrees comment ts us) : us.any p = ts.any p := by
  induction hs with
  | nil => rfl
  | cons h _ ih => rw [List.any_cons, List.any_cons, hp _ _ h, ih]

end

section

variable {ts us : List Tree}

theorem argumentsLength?_alike {depth : Nat} (hs : AlikeTrees comment ts us) :
    argumentsLength? depth us = argumentsLength? depth ts := by
  induction hs generalizing depth with
  | nil => rfl
  | cons h _ ih =>
      simp only [argumentsLength?, h.is_eq, h.opens_eq, h.isSome_word?_eq, ih]

theorem nameLength?_alike {place : NamePlace} (hs : AlikeTrees comment ts us) :
    nameLength? place us = nameLength? place ts := by
  induction hs generalizing place with
  | nil => rfl
  | cons h hs ih =>
      cases place <;>
        simp only [nameLength?, h.is_eq, h.namesType_eq, argumentsLength?_alike hs, ih]

theorem suffixLength_alike (hs : AlikeTrees comment ts us) : suffixLength us = suffixLength ts := by
  unfold suffixLength
  refine (takeWhile_alike (fun t u h => ?_) hs).length_eq.symm
  rw [h.is_eq, h.is_eq, h.opens_eq]

theorem lastPart?_alike (depth : Nat) (hs : AlikeTrees comment ts us) :
    Option.Rel (Token.Alike comment) (lastPart? depth ts) (lastPart? depth us) := by
  induction hs generalizing depth with
  | nil => exact .none
  | cons h _ ih =>
      rw [lastPart?, lastPart?, h.is_eq, h.is_eq]
      split
      · exact ih _
      · split
        · exact ih _
        · split
          · have hlast := ih 0
            revert hlast
            generalize lastPart? 0 _ = x, lastPart? 0 _ = y
            rintro (hlast | _)
            · exact .some hlast
            · exact h.word?
          · exact ih _

theorem headD_alike {t u : Tree} (h : Tree.Alike comment t u) (hs : AlikeTrees comment ts us) :
    Tree.Alike comment (ts.headD t) (us.headD u) := by
  cases hs with
  | nil => exact h
  | cons h _ => exact h

theorem typeLength?_alike (hs : AlikeTrees comment ts us) : typeLength? us = typeLength? ts := by
  have hrefs : AlikeTrees comment (ts.takeWhile (Tree.isOneOf ["ref", "readonly", "scoped"]))
      (us.takeWhile (Tree.isOneOf ["ref", "readonly", "scoped"])) :=
    takeWhile_alike (fun _ _ h => h.isOneOf_eq _) hs
  unfold typeLength?
  simp only [← hrefs.length_eq]
  have hnamed := List.forall₂_drop
    (ts.takeWhile (Tree.isOneOf ["ref", "readonly", "scoped"])).length hs
  generalize (ts.takeWhile (Tree.isOneOf ["ref", "readonly", "scoped"])).length = refs at hnamed ⊢
  have hsuffix (n : Nat) := suffixLength_alike (List.forall₂_drop n hnamed)
  simp only [hsuffix]
  congr 1
  generalize ts.drop refs = named, us.drop refs = named' at hnamed
  cases hnamed with
  | nil => rfl
  | cons h hrest =>
      simp only [h.opens_eq, h.is_eq, (headD_alike h hrest).is_eq,
        nameLength?_alike (List.forall₂_drop 1 hrest), nameLength?_alike (.cons h hrest)]

/-- The commas of a list cut it at the same places. -/
theorem commaParts_alike (skip : Nat) (hs : AlikeTrees comment ts us) :
    List.Forall₂ (AlikeTrees comment) (commaParts skip ts) (commaParts skip us) := by
  induction hs generalizing skip with
  | nil => exact .cons .nil .nil
  | cons h hs ih =>
      rw [commaParts, commaParts]
      simp only [h.is_eq, argumentsLength?_alike hs]
      split
      · exact .cons .nil (ih 0)
      · generalize (if 0 < skip then _ else _ : Nat) = skip'
        have hparts := ih skip'
        revert hparts
        generalize commaParts _ _ = x, commaParts _ _ = y
        rintro (_ | ⟨hp, hps⟩)
        · exact .cons (.cons h .nil) .nil
        · exact .cons (.cons h hp) hps

theorem commaSpans_alike (hs : AlikeTrees comment ts us) :
    List.Forall₂ (Reread comment)
      ((commaParts 0 ts).filterMap fun part => if part.isEmpty then none else some (Tree.span part))
      ((commaParts 0 us).filterMap fun part =>
        if part.isEmpty then none else some (Tree.span part)) := by
  refine List.rel_filterMap (fun part part' h => ?_) (commaParts_alike 0 hs)
  cases h with
  | nil => exact .none
  | cons h hs => exact .some (AlikeTrees.span (.cons h hs))

theorem attributesOf_alike (hs : AlikeTrees comment ts us) :
    List.Forall₂ (Reread comment) (attributesOf ts) (attributesOf us) := by
  unfold attributesOf
  cases hs with
  | nil => exact commaSpans_alike .nil
  | cons h hs =>
      cases hs with
      | nil => exact commaSpans_alike (.cons h .nil)
      | cons hcolon hrest =>
          simp only [h.isSome_word?_eq, hcolon.is_eq]
          split
          · exact commaSpans_alike hrest
          · exact commaSpans_alike (.cons h (.cons hcolon hrest))

theorem isGlobalAttributes_alike {t u : Tree} (h : Tree.Alike comment t u) :
    isGlobalAttributes u = isGlobalAttributes t := by
  unfold isGlobalAttributes
  have hinside := h.inside? '['
  revert hinside
  generalize t.inside? '[' = x, u.inside? '[' = y
  rintro (hs | _)
  · cases hs with
    | nil => rfl
    | cons h hs =>
        cases hs with
        | nil => rfl
        | cons hcolon _ => simp only [h.isOneOf_eq, hcolon.is_eq]
  · rfl

theorem isModifierBefore_alike {t u : Tree} (h : Tree.Alike comment t u)
    (hs : AlikeTrees comment ts us) : isModifierBefore u us = isModifierBefore t ts := by
  unfold isModifierBefore
  rw [h.is_eq, h.isOneOf_eq, h.isOneOf_eq, (headD_alike h hs).isOneOf_eq]
  cases hs with
  | nil => rfl
  | cons hnext hmore =>
      simp only [hnext.isSome_word?_eq, hnext.opens_eq, (headD_alike hnext hmore).isSome_word?_eq]

theorem takeModifiers_alike (hs : AlikeTrees comment ts us) :
    (takeModifiers us).1 = (takeModifiers ts).1 ∧
      AlikeTrees comment (takeModifiers ts).2 (takeModifiers us).2 := by
  induction hs with
  | nil => exact ⟨rfl, .nil⟩
  | cons h hs ih =>
      rw [takeModifiers, takeModifiers, isModifierBefore_alike h hs]
      split
      · simp only [h.head.text_eq, ih.1, ih.2, and_self]
      · exact ⟨rfl, .cons h hs⟩

theorem takeAttributes_alike (hs : AlikeTrees comment ts us) :
    List.Forall₂ (Reread comment) (takeAttributes ts).1 (takeAttributes us).1 ∧
      AlikeTrees comment (takeAttributes ts).2 (takeAttributes us).2 := by
  induction hs with
  | nil => exact ⟨.nil, .nil⟩
  | cons h hs ih =>
      rw [takeAttributes, takeAttributes]
      have hinside := h.inside? '['
      revert hinside
      generalize Tree.inside? '[' _ = x, Tree.inside? '[' _ = y
      rintro (hinside | _)
      · exact ⟨List.rel_append (attributesOf_alike hinside) ih.1, ih.2⟩
      · exact ⟨.nil, .cons h hs⟩

theorem extent?_alike {inExpression : Bool} (hs : AlikeTrees comment ts us) :
    extent? inExpression us = extent? inExpression ts := by
  induction hs generalizing inExpression with
  | nil => rfl
  | cons h _ ih =>
      simp only [extent?, h.isConditional_eq, h.isLost_eq, h.is_eq, h.opens_eq, ih]

theorem memberExtent?_alike (hs : AlikeTrees comment ts us) :
    memberExtent? us = memberExtent? ts := by
  unfold memberExtent?
  rw [extent?_alike hs]
  cases extent? false ts with
  | none => rfl
  | some n =>
      have hbehind := List.forall₂_drop n hs
      simp only
      generalize ts.drop n = x, us.drop n = y at hbehind
      cases hbehind with
      | nil => rfl
      | cons h hrest => simp only [h.is_eq, extent?_alike hrest]

theorem regionLength?_alike {depth : Nat} (hs : AlikeTrees comment ts us) :
    regionLength? depth us = regionLength? depth ts := by
  induction hs generalizing depth with
  | nil => rfl
  | cons h _ ih => simp only [regionLength?, h.isCondition_eq, ih]

theorem isRegion_alike (hs : AlikeTrees comment ts us) : isRegion us = isRegion ts := by
  cases hs with
  | nil => rfl
  | cons h hs => rw [isRegion, h.isCondition_eq, regionLength?_alike hs, ← hs.length_eq, isRegion]

theorem beginsHead_alike (hs : AlikeTrees comment ts us) : beginsHead us = beginsHead ts := by
  cases hs with
  | nil => rfl
  | cons h _ =>
      simp only [beginsHead, List.head?_cons, Option.all_some, h.is_eq, h.opens_eq]

theorem dropSemicolon_alike (hs : AlikeTrees comment ts us) :
    AlikeTrees comment (dropSemicolon ts) (dropSemicolon us) := by
  cases hs with
  | nil => exact .nil
  | cons h hs =>
      rw [dropSemicolon, dropSemicolon, h.is_eq]
      split
      · exact hs
      · exact .cons h hs

theorem typeKeyword?_alike (hs : AlikeTrees comment ts us) :
    Option.Rel (fun x y => y.1 = x.1 ∧ AlikeTrees comment x.2 y.2) (typeKeyword? ts)
      (typeKeyword? us) := by
  cases hs with
  | nil => exact .none
  | cons h hs =>
      simp only [typeKeyword?, h.is_eq]
      split
      · exact .some ⟨rfl, hs⟩
      split
      · exact .some ⟨rfl, hs⟩
      split
      · exact .some ⟨rfl, hs⟩
      split
      · exact .some ⟨rfl, hs⟩
      split
      · cases hs with
        | nil => exact .none
        | cons hnext hmore =>
            simp only [hnext.is_eq, hnext.isIdentifier_eq]
            split
            · exact .some ⟨rfl, hmore⟩
            · split
              · exact .some ⟨rfl, .cons hnext hmore⟩
              · exact .none
      · exact .none

theorem typeDeclaration?_alike (hs : AlikeTrees comment ts us) :
    Option.Rel (fun x y => Token.Alike comment x.1 y.1 ∧ AlikeTrees comment x.2.1 y.2.1 ∧
        AlikeTrees comment x.2.2.1 y.2.2.1 ∧ AlikeTrees comment x.2.2.2 y.2.2.2)
      (typeDeclaration? ts) (typeDeclaration? us) := by
  cases hs with
  | nil => exact .none
  | @cons name name' rest rest' hname hrest =>
      have hhead := takeWhile_alike (p := fun t => !t.opens '{' && !t.is ";")
        (fun _ _ h => by rw [h.opens_eq, h.is_eq]) hrest
      rw [typeDeclaration?, typeDeclaration?]
      generalize rest.takeWhile _ = head, rest'.takeWhile _ = head' at hhead ⊢
      rw [← hhead.length_eq]
      have hbehind := List.forall₂_drop head.length hrest
      generalize rest.drop _ = behind, rest'.drop _ = behind' at hbehind ⊢
      have hword : Option.Rel (Token.Alike comment) (if name.isIdentifier then name.word? else none)
          (if name'.isIdentifier then name'.word? else none) := by
        rw [hname.isIdentifier_eq]
        split
        · exact hname.word?
        · exact .none
      rw [any_alike (p := fun t => t.isLost || t.isConditional || t.isOneOf accessWords)
        (fun _ _ h => by rw [h.isLost_eq, h.isConditional_eq, h.isOneOf_eq]) hhead,
        beginsHead_alike hhead]
      split
      · exact .none
      · revert hword
        generalize (if name.isIdentifier then _ else _ : Option Token) = x,
          (if name'.isIdentifier then _ else _ : Option Token) = y
        rintro (hword | _)
        · cases hbehind with
          | nil => exact .none
          | cons hbody hafter =>
              have hinside := hbody.inside? '{'
              simp only
              revert hinside
              generalize Tree.inside? '{' _ = x, Tree.inside? '{' _ = y
              rintro (hinside | _)
              · exact .some ⟨hword, hhead, hinside, dropSemicolon_alike hafter⟩
              · simp only
                split
                · exact .some ⟨hword, hhead, .nil, hafter⟩
                · exact .none
        · exact .none

end

/-! ## Items -/

/-- The header of a declaration before and after. -/
structure Header.Alike (comment : List Char) (h k : Header) : Prop where
  leading : AlikeLeading comment h.leading k.leading
  attributes : List.Forall₂ (Reread comment) h.attributes k.attributes
  modifiers : k.modifiers = h.modifiers

/-- What a type is declared as before and after; a comment may have become the base. -/
structure TypeHead.Alike (comment : List Char) (h k : TypeHead) : Prop where
  header : Header.Alike comment h.header k.header
  kind : k.kind = h.kind
  name : k.name = h.name
  base : Reread comment (h.base.getD []) (k.base.getD [])

structure EnumMember.Alike (comment : List Char) (m n : EnumMember) : Prop where
  leading : AlikeLeading comment m.leading n.leading
  text : Reread comment m.text n.text
  name : n.name = m.name
  value : Option.Rel (Reread comment) m.value n.value

structure PropertyHead.Alike (comment : List Char) (h k : PropertyHead) : Prop where
  header : Header.Alike comment h.header k.header
  type : Reread comment h.type k.type
  name : k.name = h.name
  afterAccessors : Option.Rel (Reread comment) h.afterAccessors k.afterAccessors

structure MethodHead.Alike (comment : List Char) (h k : MethodHead) : Prop where
  header : Header.Alike comment h.header k.header
  returns : Reread comment h.returns k.returns
  name : k.name = h.name
  parameters : Reread comment h.parameters k.parameters

/-- An item before and after: of the same kind, with alike parts. -/
inductive Item.Alike (comment : List Char) : Item → Item → Prop
  | namespaceBlock {l l' : List Lexeme} {name name' : List Char} {body body' : List Item}
      (leading : AlikeLeading comment l l') (names : Reread comment name name')
      (bodies : List.Forall₂ (Alike comment) body body') :
      Alike comment (.namespaceBlock l name body) (.namespaceBlock l' name' body')
  | fileNamespace {l l' : List Lexeme} {name name' : List Char} {closed : Bool}
      (leading : AlikeLeading comment l l') (names : Reread comment name name') :
      Alike comment (.fileNamespace l name closed) (.fileNamespace l' name' closed)
  | type {h k : TypeHead} {members members' : List Item} {values values' : List EnumMember}
      (heads : TypeHead.Alike comment h k) (bodies : List.Forall₂ (Alike comment) members members')
      (enums : List.Forall₂ (EnumMember.Alike comment) values values') :
      Alike comment (.type h members values) (.type k members' values')
  | property {h k : PropertyHead} (heads : PropertyHead.Alike comment h k) :
      Alike comment (.property h) (.property k)
  | method {h k : MethodHead} (heads : MethodHead.Alike comment h k) :
      Alike comment (.method h) (.method k)
  | conditional {l l' : List Lexeme} {body body' : List Item}
      (leading : AlikeLeading comment l l') (bodies : List.Forall₂ (Alike comment) body body') :
      Alike comment (.conditional l body) (.conditional l' body')
  | other {l l' : List Lexeme} (leading : AlikeLeading comment l l') :
      Alike comment (.other l) (.other l')
  | skipped {l l' : List Lexeme} (leading : AlikeLeading comment l l') :
      Alike comment (.skipped l) (.skipped l')

abbrev AlikeItems (comment : List Char) : List Item → List Item → Prop :=
  List.Forall₂ (Item.Alike comment)

theorem Item.Alike.leading {i j : Item} (h : Item.Alike comment i j) :
    AlikeLeading comment i.leading j.leading := by
  cases h with
  | namespaceBlock h _ _ => exact h
  | fileNamespace h _ => exact h
  | type h _ _ => exact h.header.leading
  | property h => exact h.header.leading
  | method h => exact h.header.leading
  | conditional h _ => exact h
  | other h => exact h
  | skipped h => exact h

section

variable {ts us : List Tree}

theorem enumMember?_alike (hs : AlikeTrees comment ts us) :
    Option.Rel (EnumMember.Alike comment) (enumMember? ts) (enumMember? us) := by
  have hspan := AlikeTrees.span hs
  have hnamed := (takeAttributes_alike hs).2
  unfold enumMember?
  generalize takeAttributes ts = x, takeAttributes us = y at hnamed ⊢
  obtain ⟨_, named⟩ := x
  obtain ⟨_, named'⟩ := y
  cases (show AlikeTrees comment named named' from hnamed) with
  | nil => exact .none
  | cons hname hrest =>
      have hword := hname.word?
      simp only
      revert hword
      generalize Tree.word? _ = x, Tree.word? _ = y
      rintro (hword | _)
      · cases hs with
        | nil => exact .none
        | cons h _ =>
            refine .some ⟨h.head.leading, hspan, hword.text_eq, ?_⟩
            cases hrest with
            | nil => exact .none
            | cons hmark hvalue =>
                simp only [hmark.is_eq]
                cases hvalue with
                | nil => simp only [List.isEmpty_nil, Bool.not_true, Bool.and_false]; exact .none
                | cons h hvalue =>
                    simp only [List.isEmpty_cons, Bool.not_false, Bool.and_true]
                    split
                    · exact .some (AlikeTrees.span (.cons h hvalue))
                    · exact .none
      · exact .none

theorem enumMembers_alike (hs : AlikeTrees comment ts us) :
    List.Forall₂ (EnumMember.Alike comment) (enumMembers ts) (enumMembers us) := by
  have hparts := List.rel_filter (p := fun part => !isRegion part) (q := fun part => !isRegion part)
    (fun part part' h => by simp only [isRegion_alike h]) (commaParts_alike 0 hs)
  unfold enumMembers
  simp only
  generalize (commaParts 0 ts).filter _ = parts, (commaParts 0 us).filter _ = parts' at hparts ⊢
  have hany : (parts'.any fun part => part.any Tree.isConditional) =
      parts.any fun part => part.any Tree.isConditional := by
    induction hparts with
    | nil => rfl
    | cons h _ ih =>
        rw [List.any_cons, List.any_cons, ih, any_alike (fun _ _ h => h.isConditional_eq) h]
  rw [hany]
  split
  · exact .nil
  · exact List.rel_filterMap (fun _ _ h => enumMember?_alike h) hparts

/-- The base is read alike, unless the comment directly behind the colon is taken for it. -/
theorem baseOf_alike (hs : AlikeTrees comment ts us) :
    Reread comment ((baseOf ts).getD []) ((baseOf us).getD []) := by
  have hbases := dropWhile_alike (p := fun t => !t.is ":") (fun _ _ h => by rw [h.is_eq])
    (takeWhile_alike (p := fun t => !t.is "where") (fun _ _ h => by rw [h.is_eq]) hs)
  unfold baseOf
  generalize List.dropWhile _ (List.takeWhile _ ts) = x, List.dropWhile _ (List.takeWhile _ us) = y
    at hbases ⊢
  cases hbases with
  | nil => exact .refl _
  | cons _ hbases =>
      cases hbases with
      | nil => exact .refl _
      | cons h hrest =>
          rcases h.head.leading.first with hfirst | ⟨l, hfirst, rfl⟩
          · simp only [hfirst]
            split
            · exact .refl _
            · rw [typeLength?_alike (.cons h hrest)]
              cases typeLength? _ with
              | none => exact .refl _
              | some n => exact AlikeTrees.span (List.forall₂_take n (.cons h hrest))
          · simp only [hfirst]
            exact Or.inr List.infix_rfl

theorem member?_alike {h k : Header} (hheader : Header.Alike comment h k)
    (hs : AlikeTrees comment ts us) :
    Option.Rel (Item.Alike comment) (member? h ts) (member? k us) := by
  unfold member?
  rw [typeLength?_alike hs]
  cases typeLength? ts with
  | none => exact .none
  | some n =>
      have htype := AlikeTrees.span (List.forall₂_take n hs)
      have hnamed := List.forall₂_drop n hs
      simp only [Option.bind_eq_bind, Option.bind_some]
      generalize ts.drop n = named, us.drop n = named' at hnamed ⊢
      rw [nameLength?_alike hnamed]
      cases nameLength? .part named with
      | none => exact .none
      | some m =>
          have hname := lastPart?_alike 0 (List.forall₂_take m hnamed)
          have hbehind := List.forall₂_drop m hnamed
          simp only [Option.bind_some]
          revert hname
          generalize lastPart? 0 (named.take m) = x, lastPart? 0 (named'.take m) = y
          rintro (hname | _)
          · simp only [Option.bind_some, (Tree.Alike.leaf hname).isIdentifier_eq]
            split
            · exact .none
            · generalize named.drop m = x, named'.drop m = y at hbehind ⊢
              cases hbehind with
              | nil => exact .none
              | cons hnext hafter =>
                  simp only [hnext.opens_eq, hnext.is_eq]
                  split
                  · exact .some (.method ⟨hheader, htype, hname.text_eq,
                      AlikeTrees.span (.cons hnext .nil)⟩)
                  split
                  · exact .some (.property ⟨hheader, htype, hname.text_eq,
                      .some (reread_flatMap (AlikeTrees.allTokens hafter))⟩)
                  split
                  · exact .some (.property ⟨hheader, htype, hname.text_eq, .none⟩)
                  · exact .none
          · exact .none

/-- What a step of reading gives before and after: alike items, and alike trees left over. -/
structure AlikeSteps (comment : List Char) (old new : Item × List Tree) : Prop where
  item : Item.Alike comment old.1 new.1
  rest : AlikeTrees comment old.2 new.2

theorem readItem_alike {read : List Tree → List Item} {t u : Tree}
    (hread : ∀ ts us, AlikeTrees comment ts us → AlikeItems comment (read ts) (read us))
    (h : Tree.Alike comment t u) (hs : AlikeTrees comment ts us) :
    AlikeSteps comment (readItem read t ts) (readItem read u us) := by
  have hleading := h.head.leading
  have hskipped : AlikeSteps comment (.skipped t.head.leading, ts) (.skipped u.head.leading, us) :=
    ⟨.skipped hleading, hs⟩
  unfold readItem
  simp only [h.isConditional_eq, h.isCondition_eq, isGlobalAttributes_alike h, h.is_eq,
    regionLength?_alike hs]
  split
  · split
    · cases regionLength? 0 ts with
      | none => exact hskipped
      | some n =>
          exact ⟨.conditional hleading (hread _ _ (List.forall₂_take _ hs)),
            List.forall₂_drop n hs⟩
    · exact ⟨.other hleading, hs⟩
  split
  · exact ⟨.other hleading, hs⟩
  obtain ⟨hattributes, hunattributed⟩ := takeAttributes_alike (.cons h hs)
  generalize takeAttributes (t :: ts) = x, takeAttributes (u :: us) = y
    at hattributes hunattributed ⊢
  obtain ⟨attributes, unattributed⟩ := x
  obtain ⟨attributes', unattributed'⟩ := y
  obtain ⟨hmodifiers, hbare⟩ := takeModifiers_alike hunattributed
  simp only
  generalize takeModifiers unattributed = x, takeModifiers unattributed' = y at hmodifiers hbare ⊢
  obtain ⟨modifiers, bare⟩ := x
  obtain ⟨modifiers', bare'⟩ := y
  obtain rfl : modifiers' = modifiers := hmodifiers
  have hheader : Header.Alike comment ⟨t.head.leading, attributes, modifiers'⟩
      ⟨u.head.leading, attributes', modifiers'⟩ := ⟨hleading, hattributes, rfl⟩
  have hkeyword := typeKeyword?_alike hbare
  simp only
  revert hkeyword
  generalize typeKeyword? bare = x, typeKeyword? bare' = y
  rintro (⟨hkind, hnamed⟩ | _)
  · rename_i found found'
    obtain ⟨kind, named⟩ := found
    obtain ⟨kind', named'⟩ := found'
    obtain rfl : kind' = kind := hkind
    have htype := typeDeclaration?_alike hnamed
    simp only
    revert htype
    generalize typeDeclaration? named = x, typeDeclaration? named' = y
    rintro (⟨hname, hhead, hbody, hafter⟩ | _)
    · have htypeHead : TypeHead.Alike comment
          ⟨⟨t.head.leading, attributes, modifiers'⟩, kind', _, baseOf _⟩
          ⟨⟨u.head.leading, attributes', modifiers'⟩, kind', _, baseOf _⟩ :=
        ⟨hheader, rfl, hname.text_eq, baseOf_alike hhead⟩
      simp only
      split
      · exact ⟨.type htypeHead .nil (enumMembers_alike hbody), hafter⟩
      · exact ⟨.type htypeHead (hread _ _ hbody) .nil, hafter⟩
    · exact hskipped
  · simp only [(headD_alike h hbare).is_eq, memberExtent?_alike hbare]
    split
    · -- a namespace, as a block or for the whole file
      have hnamed := List.forall₂_drop 1 hbare
      rw [nameLength?_alike hnamed]
      cases nameLength? .part (bare.drop 1) with
      | none => exact hskipped
      | some n =>
          have hname := AlikeTrees.span (List.forall₂_take n hnamed)
          have hbehind := List.forall₂_drop n hnamed
          simp only
          generalize (bare.drop 1).drop n = x, (bare'.drop 1).drop n = y at hbehind ⊢
          cases hbehind with
          | nil => exact ⟨.fileNamespace hleading hname, .nil⟩
          | cons hnext hafter =>
              have hinside := hnext.inside? '{'
              simp only [hnext.is_eq]
              revert hinside
              generalize Tree.inside? '{' _ = x, Tree.inside? '{' _ = y
              rintro (hinside | _)
              · exact ⟨.namespaceBlock hleading hname (hread _ _ hinside),
                  dropSemicolon_alike hafter⟩
              · simp only
                split
                · exact ⟨.fileNamespace hleading hname, hafter⟩
                · exact ⟨.fileNamespace hleading hname, .cons hnext hafter⟩
    · -- a member or a statement
      cases memberExtent? bare with
      | none => exact hskipped
      | some n =>
          have htrees := List.forall₂_take n hbare
          simp only [any_alike (fun _ _ h => h.isOneOf_eq accessWords) htrees]
          split
          · exact hskipped
          · refine ⟨?_, List.forall₂_drop n hbare⟩
            have hmember := member?_alike hheader htrees
            revert hmember
            generalize member? _ (bare.take n) = x, member? _ (bare'.take n) = y
            rintro (hmember | _)
            · exact hmember
            · exact .other hleading

/-- Both readings take the same steps, so level by level they find alike items. -/
theorem readItems_alike {fuel : Nat} (hs : AlikeTrees comment ts us) :
    AlikeItems comment (readItems fuel ts) (readItems fuel us) := by
  induction fuel generalizing ts us with
  | zero => exact .nil
  | succ fuel ih =>
      cases hs with
      | nil => exact .nil
      | cons h hs =>
          rw [readItems, readItems]
          have hstep := readItem_alike (fun _ _ hs => ih hs) h hs
          exact .cons hstep.item (ih hstep.rest)

theorem items_alike (hs : AlikeTrees comment ts us) : AlikeItems comment (items ts) (items us) := by
  unfold items
  rw [← (AlikeTrees.allTokens hs).length_eq]
  exact readItems_alike hs

end

end ComponentAtlas.CSharp
