import ComponentAtlas.CSharp.Reading
import ComponentAtlas.Declaration.ComponentFile
import ComponentAtlas.Proofs.Text.Blank

/-!
# Names in C# sources

The name of a declared type is one word of its source, written as it stands there: a verbatim sign
perhaps, a letter, and then word characters.  This is seen by following the word from the lexer to
the items: tokens keep the text of their lexemes, brackets lose no token and bring in none, and a
declaration takes its name from a leaf.
-/

namespace ComponentAtlas

theorem isWord_eq_false_of_blank {c : Char} (h : Text.isBlank c = true) :
    Unicode.isWord c = false := by
  have hcodes : ∀ n ∈ Text.blankCodes, Unicode.isWord (Char.ofNat n) = false := by decide +kernel
  have hc := hcodes c.toNat (Text.toNat_mem_blankCodes h)
  rwa [Char.ofNat_toNat] at hc

namespace CSharp

/-- A text that can be the name of something. -/
def IsName (cs : List Char) : Prop :=
  ∃ c rest, (cs = c :: rest ∨ cs = '@' :: c :: rest) ∧ startsWord c = true ∧
    ∀ d ∈ rest, Unicode.isWord d = true

namespace IsName

variable {cs : List Char}

theorem ne_nil (h : IsName cs) : cs ≠ [] := by
  obtain ⟨c, rest, rfl | rfl, -⟩ := h <;> simp

theorem isWord_or_at (h : IsName cs) : ∀ c ∈ cs, Unicode.isWord c = true ∨ c = '@' := by
  obtain ⟨c, rest, hcs, hstart, hrest⟩ := h
  have hc : Unicode.isWord c = true := (Bool.and_eq_true_iff.mp hstart).1
  have hword : ∀ d ∈ c :: rest, Unicode.isWord d = true := List.forall_mem_cons.mpr ⟨hc, hrest⟩
  intro d hd
  rcases hcs with rfl | rfl
  · exact Or.inl (hword d hd)
  · rcases List.mem_cons.mp hd with rfl | hd
    · exact Or.inr rfl
    · exact Or.inl (hword d hd)

theorem not_blank (h : IsName cs) : ∀ c ∈ cs, Text.isBlank c = false := by
  intro c hc
  cases hblank : Text.isBlank c with
  | false => rfl
  | true =>
      rcases h.isWord_or_at c hc with hword | rfl
      · rw [isWord_eq_false_of_blank hblank] at hword
        cases hword
      · exact absurd hblank (by decide)

theorem ne_of_not_word (h : IsName cs) {mark : Char} (hmark : Unicode.isWord mark = false)
    (hat : mark ≠ '@') : ∀ c ∈ cs, c ≠ mark := by
  rintro c hc rfl
  rcases h.isWord_or_at c hc with hword | rfl
  · rw [hmark] at hword
    cases hword
  · exact hat rfl

end IsName

/-! ## Lexemes -/

theorem take_length_takeWhile (p : Char → Bool) (cs : List Char) :
    cs.take (cs.takeWhile p).length = cs.takeWhile p :=
  (List.prefix_iff_eq_take.mp (List.takeWhile_prefix p)).symm

theorem directiveLength?_kind {cs : List Char} {found : LexemeKind × Nat}
    (h : directiveLength? cs = some found) : found.1 = .directive ∨ found.1 = .conditional := by
  unfold directiveLength? at h
  split at h
  · simp only at h
    split at h
    · obtain rfl := Option.some.inj h
      exact Or.inl rfl
    · split at h
      · obtain rfl := Option.some.inj h
        exact Or.inr rfl
      · split at h
        · obtain rfl := Option.some.inj h
          exact Or.inr rfl
        · cases h
  · cases h

theorem isName_of_measure {c : Char} {cs : List Char} {n : Nat}
    (h : measure c cs = (.word, n)) : IsName (c :: cs.take (n - 1)) := by
  unfold measure at h
  split at h
  · cases h
  split at h
  · cases h
  split at h
  · rename_i found hdirective
    rcases directiveLength?_kind hdirective with hkind | hkind
    · rw [h] at hkind
      cases hkind
    · rw [h] at hkind
      cases hkind
  split at h
  · cases h
  split at h
  · cases h
  split at h
  · rename_i hc
    obtain ⟨-, rfl⟩ := Prod.mk.inj h
    rw [Nat.add_sub_cancel, take_length_takeWhile]
    exact ⟨c, _, Or.inl rfl, hc, List.all_eq_true.mp List.all_takeWhile⟩
  split at h
  · rename_i hat
    split at h
    · split at h
      · rename_i d rest _ _ _ _ hd
        obtain ⟨-, rfl⟩ := Prod.mk.inj h
        rw [hat, Nat.add_succ_sub_one, List.take_succ_cons, take_length_takeWhile]
        exact ⟨d, _, Or.inr rfl, hd, List.all_eq_true.mp List.all_takeWhile⟩
      · cases h
    · cases h
  split at h
  · cases h
  split at h
  · cases h
  split at h <;> cases h

theorem isName_of_mem_lexemes {cs : List Char} {l : Lexeme} (hl : l ∈ lexemes cs)
    (hword : l.kind = .word) : IsName l.text := by
  induction cs using lexemes.induct with
  | case1 => rw [lexemes] at hl; cases hl
  | case2 c cs kind length h ih =>
      rw [lexemes, h] at hl
      rcases List.mem_cons.mp hl with rfl | hl
      · exact isName_of_measure (h.trans (Prod.ext_iff.mpr ⟨hword, rfl⟩))
      · exact ih hl

/-! ## Tokens and trees -/

theorem lexeme_mem_of_mem_tokensFrom {waiting ls : List Lexeme} {t : Token}
    (ht : t ∈ tokensFrom waiting ls) : t.lexeme ∈ ls := by
  induction ls generalizing waiting with
  | nil => cases ht
  | cons l rest ih =>
      unfold tokensFrom at ht
      split at ht
      · exact List.mem_cons_of_mem _ (ih ht)
      · rcases List.mem_cons.mp ht with rfl | ht
        · exact List.mem_cons_self
        · exact List.mem_cons_of_mem _ (ih ht)

namespace Tree

theorem mem_allTokens {ts : List Tree} {w : Token} :
    w ∈ allTokens ts ↔ ∃ t ∈ ts, w ∈ t.tokens := by
  induction ts with
  | nil => simp [allTokens]
  | cons t ts ih => simp [allTokens, ih]

theorem allTokens_subset {ts us : List Tree} (h : ts ⊆ us) : allTokens ts ⊆ allTokens us := by
  intro w hw
  obtain ⟨t, ht, hw⟩ := mem_allTokens.mp hw
  exact mem_allTokens.mpr ⟨t, h ht, hw⟩

/-- What a group holds it holds between its brackets. -/
theorem allTokens_inside {bracket : Char} {t : Tree} {inside : List Tree}
    (h : t.inside? bracket = some inside) : allTokens inside ⊆ t.tokens := by
  cases t with
  | leaf w => cases h
  | group o within c =>
      simp only [inside?] at h
      split at h
      · obtain rfl := Option.some.inj h
        intro w hw
        exact List.mem_cons_of_mem _ (List.mem_append_left _ hw)
      · cases h

end Tree

section

variable {p : Token → Prop}

theorem forall_allTokens_cons {t : Tree} {ts : List Tree} :
    (∀ w ∈ Tree.allTokens (t :: ts), p w) ↔
      (∀ w ∈ t.tokens, p w) ∧ ∀ w ∈ Tree.allTokens ts, p w := by
  rw [Tree.allTokens, List.forall_mem_append]

theorem forall_allTokens_append {ts us : List Tree} :
    (∀ w ∈ Tree.allTokens (ts ++ us), p w) ↔
      (∀ w ∈ Tree.allTokens ts, p w) ∧ ∀ w ∈ Tree.allTokens us, p w := by
  induction ts with
  | nil => simp [Tree.allTokens]
  | cons t ts ih =>
      rw [List.cons_append, forall_allTokens_cons, forall_allTokens_cons, ih, and_assoc]

theorem forall_allTokens_reverse {ts : List Tree} :
    (∀ w ∈ Tree.allTokens ts.reverse, p w) ↔ ∀ w ∈ Tree.allTokens ts, p w := by
  simp only [Tree.mem_allTokens, List.mem_reverse]

/-- What is said of all tokens holds of an open bracket and of those before it. -/
def OpenBracket.AllTokens (p : Token → Prop) (b : OpenBracket) : Prop :=
  p b.opening ∧ ∀ w ∈ Tree.allTokens b.before, p w

theorem closeBracket_allTokens {closing : Token} {brackets outer : List OpenBracket}
    {level level' : List Tree} (h : closeBracket closing brackets level = some (outer, level'))
    (hclosing : p closing) (hbrackets : ∀ b ∈ brackets, b.AllTokens p)
    (hlevel : ∀ w ∈ Tree.allTokens level, p w) :
    (∀ b ∈ outer, b.AllTokens p) ∧ ∀ w ∈ Tree.allTokens level', p w := by
  induction brackets generalizing level with
  | nil => cases h
  | cons b brackets ih =>
      obtain ⟨⟨hopening, hbefore⟩, hrest⟩ := List.forall_mem_cons.mp hbrackets
      unfold closeBracket at h
      split at h
      · obtain ⟨rfl, rfl⟩ := Prod.mk.inj (Option.some.inj h)
        refine ⟨hrest, forall_allTokens_cons.mpr ⟨fun w hw => ?_, hbefore⟩⟩
        rcases List.mem_cons.mp hw with rfl | hw
        · exact hopening
        · rcases List.mem_append.mp hw with hw | hw
          · exact forall_allTokens_reverse.mpr hlevel w hw
          · obtain rfl := List.mem_singleton.mp hw
            exact hclosing
      · split at h
        · cases h
        · refine ih h hrest (forall_allTokens_append.mpr ⟨hlevel, forall_allTokens_cons.mpr
            ⟨fun w hw => ?_, hbefore⟩⟩)
          obtain rfl := List.mem_singleton.mp hw
          exact hopening

/-- Nesting brings in no token. -/
theorem nest_allTokens {ts : List Token} {brackets : List OpenBracket} {level : List Tree}
    (hts : ∀ w ∈ ts, p w) (hbrackets : ∀ b ∈ brackets, b.AllTokens p)
    (hlevel : ∀ w ∈ Tree.allTokens level, p w) :
    ∀ w ∈ Tree.allTokens (nest brackets level ts), p w := by
  induction ts generalizing brackets level with
  | nil =>
      refine forall_allTokens_reverse.mpr ?_
      induction brackets generalizing level with
      | nil => exact hlevel
      | cons b brackets ih =>
          obtain ⟨⟨hopening, hbefore⟩, hrest⟩ := List.forall_mem_cons.mp hbrackets
          refine ih hrest (forall_allTokens_append.mpr ⟨hlevel, forall_allTokens_cons.mpr
            ⟨fun w hw => ?_, hbefore⟩⟩)
          obtain rfl := List.mem_singleton.mp hw
          exact hopening
  | cons t ts ih =>
      obtain ⟨ht, hrest⟩ := List.forall_mem_cons.mp hts
      have hleaf : ∀ w ∈ Tree.allTokens (.leaf t :: level), p w := by
        refine forall_allTokens_cons.mpr ⟨fun w hw => ?_, hlevel⟩
        obtain rfl := List.mem_singleton.mp hw
        exact ht
      unfold nest
      split
      · exact ih hrest (List.forall_mem_cons.mpr ⟨⟨ht, hlevel⟩, hbrackets⟩)
          (fun _ hw => absurd hw List.not_mem_nil)
      · split
        · split
          · rename_i outer level' hclosed
            obtain ⟨houter, hlevel'⟩ := closeBracket_allTokens hclosed ht hbrackets hlevel
            exact ih hrest houter hlevel'
          · exact ih hrest hbrackets hleaf
        · exact ih hrest hbrackets hleaf

end

/-- A word of a source is a name. -/
theorem isName_of_mem_trees {cs : List Char} {w : Token}
    (hw : w ∈ Tree.allTokens (trees (tokens cs))) (hword : w.isWord = true) : IsName w.text := by
  have htokens : ∀ w ∈ tokens cs, w.isWord = true → IsName w.text := fun w hw hword =>
    isName_of_mem_lexemes (lexeme_mem_of_mem_tokensFrom hw) (beq_iff_eq.mp hword)
  exact nest_allTokens htokens (fun _ hb => absurd hb List.not_mem_nil)
    (fun _ hw => absurd hw List.not_mem_nil) w hw hword

/-! ## Items -/

/-- What some trees name: a word of theirs is the text. -/
def Names (ts : List Tree) (text : List Char) : Prop :=
  ∃ w ∈ Tree.allTokens ts, w.isWord = true ∧ w.text = text

theorem Names.mono {ts us : List Tree} {text : List Char} (h : Names ts text)
    (hsub : Tree.allTokens ts ⊆ Tree.allTokens us) : Names us text := by
  obtain ⟨w, hw, hword⟩ := h
  exact ⟨w, hsub hw, hword⟩

theorem takeAttributes_suffix (ts : List Tree) : (takeAttributes ts).2 <:+ ts := by
  induction ts with
  | nil => exact List.suffix_refl _
  | cons t ts ih =>
      unfold takeAttributes
      split
      · exact ih.trans (List.suffix_cons t ts)
      · exact List.suffix_refl _

theorem takeModifiers_suffix (ts : List Tree) : (takeModifiers ts).2 <:+ ts := by
  induction ts with
  | nil => exact List.suffix_refl _
  | cons t ts ih =>
      unfold takeModifiers
      split
      · exact ih.trans (List.suffix_cons t ts)
      · exact List.suffix_refl _

theorem dropSemicolon_suffix (ts : List Tree) : dropSemicolon ts <:+ ts := by
  cases ts with
  | nil => exact List.suffix_refl _
  | cons t ts =>
      simp only [dropSemicolon]
      split
      · exact List.suffix_cons t ts
      · exact List.suffix_refl _

theorem typeKeyword?_suffix {ts named : List Tree} {kind : TypeKind}
    (h : typeKeyword? ts = some (kind, named)) : named <:+ ts := by
  cases ts with
  | nil => cases h
  | cons t rest =>
      have hfound {k : TypeKind} {us : List Tree} (hsuffix : us <:+ t :: rest)
          (heq : some (k, us) = some (kind, named)) : named <:+ t :: rest := by
        obtain ⟨-, rfl⟩ := Prod.mk.inj (Option.some.inj heq)
        exact hsuffix
      have hrest := List.suffix_cons t rest
      simp only [typeKeyword?] at h
      split at h
      · exact hfound hrest h
      split at h
      · exact hfound hrest h
      split at h
      · exact hfound hrest h
      split at h
      · exact hfound hrest h
      split at h
      · cases rest with
        | nil => cases h
        | cons next more =>
            simp only at h
            split at h
            · exact hfound ((List.suffix_cons next more).trans hrest) h
            split at h
            · exact hfound hrest h
            · cases h
      · cases h

/-- What a type declaration consists of comes from the trees that it is read from. -/
theorem typeDeclaration?_parts {ts head body after : List Tree} {name : Token}
    (h : typeDeclaration? ts = some (name, head, body, after)) :
    Names ts name.text ∧ after <:+ ts ∧ Tree.allTokens body ⊆ Tree.allTokens ts := by
  cases ts with
  | nil => cases h
  | cons first rest =>
      simp only [typeDeclaration?] at h
      split at h
      · cases h
      split at h
      · rename_i word opening behind hword hbehind
        have hleaf : Names (first :: rest) word.text := by
          split at hword
          · cases first with
            | leaf w =>
                simp only [Tree.word?] at hword
                split at hword
                · obtain rfl := Option.some.inj hword
                  exact ⟨w, List.mem_cons_self, ‹_›, rfl⟩
                · cases hword
            | group o inside c => cases hword
          · cases hword
        have hbody : opening :: behind <:+ first :: rest :=
          hbehind ▸ (List.drop_suffix _ rest).trans (List.suffix_cons first rest)
        have hafter : behind <:+ first :: rest := (List.suffix_cons opening behind).trans hbody
        split at h
        · rename_i inside hinside
          simp only [Option.some.injEq, Prod.mk.injEq] at h
          obtain ⟨rfl, -, rfl, rfl⟩ := h
          refine ⟨hleaf, (dropSemicolon_suffix behind).trans hafter, fun w hw => ?_⟩
          exact Tree.mem_allTokens.mpr
            ⟨opening, hbody.subset List.mem_cons_self, Tree.allTokens_inside hinside hw⟩
        · split at h
          · simp only [Option.some.injEq, Prod.mk.injEq] at h
            obtain ⟨rfl, -, rfl, rfl⟩ := h
            exact ⟨hleaf, hafter, fun _ hw => absurd hw List.not_mem_nil⟩
          · cases h
      · cases h

/-- A property or a method declares no type. -/
theorem declaredIn_member? {header : Header} {ts : List Tree} {item : Item}
    (h : member? header ts = some item) (namespaces : List String) (leading : List Lexeme) :
    declaredIn namespaces leading item = [] := by
  unfold member? at h
  obtain ⟨n, -, h⟩ := Option.bind_eq_some_iff.mp h
  obtain ⟨m, -, h⟩ := Option.bind_eq_some_iff.mp h
  obtain ⟨name, -, h⟩ := Option.bind_eq_some_iff.mp h
  split at h
  · cases h
  split at h
  · cases h
  split at h
  · obtain rfl := Option.some.inj h
    rfl
  split at h
  · obtain rfl := Option.some.inj h
    rfl
  split at h
  · obtain rfl := Option.some.inj h
    rfl
  · cases h

/-- The types that an item declares are named by its trees, and what follows it is what follows
those. -/
theorem readItem_names {read : List Tree → List Item} {first : Tree} {rest after : List Tree}
    {item : Item} (h : readItem read first rest = (item, after))
    (hread : ∀ us namespaces passed, ∀ t ∈ declaredTypes namespaces passed (read us),
      Names us t.head.name) :
    after <:+ first :: rest ∧
      ∀ namespaces leading, ∀ t ∈ declaredIn namespaces leading item,
        Names (first :: rest) t.head.name := by
  have hrest := List.suffix_cons first rest
  have hnone {item : Item} (heq : ∀ namespaces leading, declaredIn namespaces leading item = []) :
      ∀ namespaces leading, ∀ t ∈ declaredIn namespaces leading item,
        Names (first :: rest) t.head.name := fun namespaces leading t ht => by
    rw [heq] at ht
    cases ht
  have hbare := (takeModifiers_suffix _).trans (takeAttributes_suffix (first :: rest))
  unfold readItem at h
  simp only at h
  split at h
  · split at h
    · split at h
      · rename_i n hn
        obtain ⟨rfl, rfl⟩ := Prod.mk.inj h
        refine ⟨(List.drop_suffix n rest).trans hrest, fun namespaces leading t ht => ?_⟩
        have hsub := (List.take_sublist (n - 1) rest).trans hrest.sublist
        exact (hread _ _ _ t ht).mono (Tree.allTokens_subset hsub.subset)
      · obtain ⟨rfl, rfl⟩ := Prod.mk.inj h
        exact ⟨hrest, hnone fun _ _ => rfl⟩
    · obtain ⟨rfl, rfl⟩ := Prod.mk.inj h
      exact ⟨hrest, hnone fun _ _ => rfl⟩
  split at h
  · obtain ⟨rfl, rfl⟩ := Prod.mk.inj h
    exact ⟨hrest, hnone fun _ _ => rfl⟩
  split at h
  · rename_i kind named hkeyword
    have hnamed := (typeKeyword?_suffix hkeyword).trans hbare
    split at h
    · rename_i name head body behind htype
      obtain ⟨hname, hafter, hbody⟩ := typeDeclaration?_parts htype
      have htypes {members : List Item} {values : List EnumMember} :
          ∀ namespaces leading, ∀ t ∈ declaredIn namespaces leading
            (.type ⟨⟨first.head.leading, (takeAttributes (first :: rest)).1,
              (takeModifiers (takeAttributes (first :: rest)).2).1⟩, kind, name.text,
              baseOf head⟩ members values), Names (first :: rest) t.head.name := by
        intro namespaces leading t ht
        obtain rfl := List.mem_singleton.mp ht
        exact hname.mono (Tree.allTokens_subset hnamed.subset)
      split at h
      · obtain ⟨rfl, rfl⟩ := Prod.mk.inj h
        exact ⟨hafter.trans hnamed, htypes⟩
      · obtain ⟨rfl, rfl⟩ := Prod.mk.inj h
        exact ⟨hafter.trans hnamed, htypes⟩
    · obtain ⟨rfl, rfl⟩ := Prod.mk.inj h
      exact ⟨hrest, hnone fun _ _ => rfl⟩
  split at h
  · split at h
    · rename_i n hn
      split at h
      · rename_i next behind hbehind
        have hnext : next :: behind <:+ first :: rest :=
          hbehind ▸ (List.drop_suffix _ _).trans ((List.drop_suffix _ _).trans hbare)
        have hbehind := (List.suffix_cons next behind).trans hnext
        split at h
        · rename_i body hbody
          obtain ⟨rfl, rfl⟩ := Prod.mk.inj h
          refine ⟨(dropSemicolon_suffix behind).trans hbehind, fun namespaces leading t ht => ?_⟩
          refine (hread _ _ _ t ht).mono fun w hw => Tree.mem_allTokens.mpr ?_
          exact ⟨next, hnext.subset List.mem_cons_self, Tree.allTokens_inside hbody hw⟩
        · split at h
          · obtain ⟨rfl, rfl⟩ := Prod.mk.inj h
            exact ⟨hbehind, hnone fun _ _ => rfl⟩
          · obtain ⟨rfl, rfl⟩ := Prod.mk.inj h
            exact ⟨hnext, hnone fun _ _ => rfl⟩
      · obtain ⟨rfl, rfl⟩ := Prod.mk.inj h
        exact ⟨List.nil_suffix, hnone fun _ _ => rfl⟩
    · obtain ⟨rfl, rfl⟩ := Prod.mk.inj h
      exact ⟨hrest, hnone fun _ _ => rfl⟩
  · split at h
    · obtain ⟨rfl, rfl⟩ := Prod.mk.inj h
      exact ⟨hrest, hnone fun _ _ => rfl⟩
    · split at h
      · obtain ⟨rfl, rfl⟩ := Prod.mk.inj h
        exact ⟨hrest, hnone fun _ _ => rfl⟩
      · obtain ⟨rfl, rfl⟩ := Prod.mk.inj h
        refine ⟨(List.drop_suffix _ _).trans hbare, hnone fun namespaces leading => ?_⟩
        cases hmember : member? _ _ with
        | none => rfl
        | some item => exact declaredIn_member? hmember namespaces leading

theorem readItems_names (fuel : Nat) (ts : List Tree) :
    ∀ namespaces passed, ∀ t ∈ declaredTypes namespaces passed (readItems fuel ts),
      Names ts t.head.name := by
  induction fuel generalizing ts with
  | zero =>
      intro namespaces passed t ht
      simp [readItems, declaredTypes] at ht
  | succ fuel ih =>
      cases ts with
      | nil =>
          intro namespaces passed t ht
          simp [readItems, declaredTypes] at ht
      | cons first rest =>
          intro namespaces passed t ht
          rcases hitem : readItem (readItems fuel) first rest with ⟨item, after⟩
          obtain ⟨hafter, hnames⟩ := readItem_names hitem ih
          rw [readItems, hitem] at ht
          simp only [declaredTypes] at ht
          rcases List.mem_append.mp ht with ht | ht
          · exact hnames _ _ t ht
          · exact (ih after _ _ t ht).mono (Tree.allTokens_subset hafter.subset)

/-- The types that a source declares have names. -/
theorem isName_of_mem_parse {source : String} {namespaces : List String} {passed : List Lexeme}
    {t : DeclaredType} (ht : t ∈ declaredTypes namespaces passed (parse source)) :
    IsName t.head.name := by
  obtain ⟨w, hw, hword, htext⟩ := readItems_names _ _ _ _ t ht
  exact htext ▸ isName_of_mem_trees hw hword

end CSharp

/-! ## Declarations -/

open CSharp (IsName)

namespace Declaration

/-- All that a declaration names has a name, and the component is one of the types. -/
theorem isName_of_ofClassFile? {includeInternal : Bool} {path source : String} {d : Declaration}
    (h : ofClassFile? includeInternal path source = some d) :
    IsName d.component.name.toList ∧ ∀ t ∈ d.types, IsName t.name.toList := by
  unfold ofClassFile? ofItems? at h
  obtain ⟨first, hfirst, rfl⟩ := Option.map_eq_some_iff.mp h
  have hname {t : DeclaredType} (ht : t ∈ (declaredTypes [] [] (CSharp.parse source)).filter
      fun t => isVisibleType includeInternal t.head.header) :
      IsName (String.ofList t.head.name).toList := by
    rw [String.toList_ofList]
    exact CSharp.isName_of_mem_parse (List.mem_filter.mp ht).1
  refine ⟨hname (List.mem_of_mem_head? hfirst), fun t ht => ?_⟩
  obtain ⟨u, hu, rfl⟩ := List.mem_map.mp ht
  exact hname hu

theorem isName_of_ofFile? {includeInternal : Bool} {path source : String} {d : Declaration}
    (h : ofFile? includeInternal path source = some d) :
    IsName d.component.name.toList ∧ ∀ t ∈ d.types, IsName t.name.toList := by
  unfold ofFile? at h
  split at h
  · obtain ⟨name, -, hclass⟩ := Option.bind_eq_some_iff.mp h
    exact isName_of_ofClassFile? hclass
  · exact isName_of_ofClassFile? h

end Declaration
end ComponentAtlas
