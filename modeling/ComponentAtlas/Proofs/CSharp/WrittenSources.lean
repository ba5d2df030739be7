import ComponentAtlas.Proofs.CSharp.WrittenMembers

/-!
# Sources are read back

A source that consists of declarations is read as these declarations (`parse_eq`), nested to any
depth.  Each item is read in front of those that follow it.  These could change it only by beginning
with an equals sign or a semicolon, and no item does; and each item takes as much of the reader's
fuel as it has tokens, so that there is always enough for its body and for what follows.
-/

namespace ComponentAtlas.CSharp

/-! ## Type declarations -/

namespace WrittenTypeHead

variable (h : WrittenTypeHead) (rest : List Tree)

theorem typeKeyword?_bare :
    typeKeyword? (h.bare ++ rest) = some (h.kind, .leaf h.name :: (h.between ++ rest)) := by
  have hkeyword (s : String) :
      (Tree.leaf h.keyword.1).is s = (h.kind.name.toList == s.toList) := h.keyword.is_eq s
  have hname {s : String} (hs : s ∈ reservedWords) : (Tree.leaf h.name).is s = false :=
    Tree.is_of_namesType (Bool.and_eq_true_iff.mp h.isIdentifier).1 hs
  rw [bare, keywords]
  cases hsecond : h.second with
  | none =>
      have hclass : (Tree.leaf h.name).is "class" = false := hname (by decide)
      have hstruct : (Tree.leaf h.name).is "struct" = false := hname (by decide)
      simp only [Option.map_none, Option.getD_none, List.nil_append, List.cons_append,
        typeKeyword?, hkeyword, hclass, hstruct, h.isIdentifier]
      cases h.kind <;> rfl
  | some t =>
      obtain ⟨hkind, hword, htext⟩ := h.isSecond t hsecond
      have hclass : ((Tree.leaf t).is "class" || (Tree.leaf t).is "struct") = true := by
        rcases htext with htext | htext
        · rw [Tree.is_leaf, Keyword.is_eq ⟨t, hword, htext⟩]
          rfl
        · rw [Bool.or_eq_true, Tree.is_leaf, Tree.is_leaf, Keyword.is_eq ⟨t, hword, htext⟩ "struct"]
          exact Or.inr rfl
      simp only [Option.map_some, Option.getD_some, List.cons_append, List.nil_append,
        typeKeyword?, hkeyword, hkind, hclass]
      rfl

/-- What stands between the name and the body ends with the body or the semicolon in its place. -/
theorem takeWhile_between {body : Tree} (hbody : body.opens '{' = true ∨ body.is ";" = true) :
    (h.between ++ body :: rest).takeWhile (fun t => !t.opens '{' && !t.is ";") = h.between := by
  have hall : ∀ t ∈ h.between, (!t.opens '{' && !t.is ";") = true := by
    intro t ht
    obtain ⟨-, hbrace, hsemicolon⟩ := h.goesOn t ht
    rw [hbrace, hsemicolon]
    rfl
  have hstop : (body :: rest).takeWhile (fun t => !t.opens '{' && !t.is ";") = [] :=
    List.takeWhile_cons_of_neg (by rcases hbody with hbody | hbody <;> simp [hbody])
  rw [List.takeWhile_append_of_pos hall, hstop, List.append_nil]

theorem between_any : (h.between.any fun t => t.isLost || t.isConditional || t.isOneOf accessWords)
    = false := by
  rw [List.any_eq_false]
  intro t ht
  rw [show (t.isLost || t.isConditional || t.isOneOf accessWords) = false from (h.goesOn t ht).1]
  exact Bool.false_ne_true

theorem isWord_name : h.name.isWord = true :=
  isWord_of_namesType (Bool.and_eq_true_iff.mp h.isIdentifier).1

theorem typeDeclaration?_body (b : Brackets '{') (inside : List Tree) :
    typeDeclaration? (.leaf h.name :: (h.between ++ b.around inside :: rest))
      = some (h.name, h.between, inside, dropSemicolon rest) := by
  have hopens : (b.around inside).opens '{' = true := by rw [b.opens_eq]; rfl
  have hinside : (b.around inside).inside? '{' = some inside := by
    rw [b.inside?_eq, if_pos rfl]
  have hword : (Tree.leaf h.name).word? = some h.name := by
    rw [Tree.word?_leaf, if_pos h.isWord_name]
  simp only [typeDeclaration?, h.takeWhile_between rest (.inl hopens), h.between_any,
    List.drop_left, h.isIdentifier, hword, Bool.false_eq_true, if_false, if_true, hinside]

theorem typeDeclaration?_semicolon (m : Mark ";") (hbegins : beginsHead h.between = true) :
    typeDeclaration? (.leaf h.name :: (h.between ++ .leaf m.1 :: rest))
      = some (h.name, h.between, [], rest) := by
  have hsemicolon : (Tree.leaf m.1).is ";" = true := m.is_eq ";"
  have hinside : (Tree.leaf m.1).inside? '{' = none := rfl
  have hword : (Tree.leaf h.name).word? = some h.name := by
    rw [Tree.word?_leaf, if_pos h.isWord_name]
  simp only [typeDeclaration?, h.takeWhile_between rest (.inr hsemicolon), h.between_any,
    List.drop_left, h.isIdentifier, hword, Bool.false_eq_true, if_false, if_true, hinside, hbegins]

end WrittenTypeHead

/-! ## One item -/

/-- Whether some trees take nothing to the declaration in front of them. -/
def StandApart (rest : List Tree) : Prop :=
  ∀ t ∈ rest.head?, t.is "=" = false ∧ t.is ";" = false

theorem dropSemicolon_endingTrees (ending : Option (Mark ";")) {rest : List Tree}
    (hrest : StandApart rest) :
    dropSemicolon (WrittenItem.endingTrees ending ++ rest) = rest := by
  cases ending with
  | some m =>
      have hsemicolon : (Tree.leaf m.1).is ";" = true := m.is_eq ";"
      simp [WrittenItem.endingTrees, dropSemicolon, hsemicolon]
  | none =>
      cases rest with
      | nil => rfl
      | cons t ts =>
          have ht : t.is ";" = false := (hrest t rfl).2
          simp [WrittenItem.endingTrees, dropSemicolon, ht]

theorem typeKeyword?_append {ts : List Tree} (hts : 2 ≤ ts.length) (h : typeKeyword? ts = none)
    (rest : List Tree) : typeKeyword? (ts ++ rest) = none := by
  cases ts with
  | nil => exact absurd hts (by simp)
  | cons first ts =>
      cases ts with
      | nil => exact absurd hts (by simp)
      | cons next more =>
          simp only [typeKeyword?, List.cons_append] at h ⊢
          split at h <;> try cases h
          split at h <;> try cases h
          split at h <;> try cases h
          split at h <;> try cases h
          split at h
          · split at h <;> try cases h
            split at h <;> try cases h
            simp_all
          · simp_all

section

variable (read : List Tree → List Item) {h : WrittenHeader} {first : Tree} {others : List Tree}

/-- What the reader has found out when it has passed the header of a declaration. -/
theorem readItem_header {bare : List Tree} (hfits : h.fits bare = true) {rest : List Tree}
    (hts : h.trees ++ (bare ++ rest) = first :: others) :
    first.isConditional = false ∧ (isGlobalAttributes first || first.is ";") = false ∧
      takeAttributes (first :: others)
        = (h.attributes.map fun a => Tree.span a.trees, h.modifiers.map .leaf ++ (bare ++ rest)) ∧
      takeModifiers (h.modifiers.map .leaf ++ (bare ++ rest))
        = (h.modifiers.map Token.text, bare ++ rest) ∧
      h.header bare = ⟨first.head.leading, h.attributes.map fun a => Tree.span a.trees,
        h.modifiers.map Token.text⟩ := by
  obtain ⟨first', others', hsame, hleading, hcondition, hglobal, hsemicolon, -⟩ :=
    WrittenHeader.exists_first hfits rest
  obtain ⟨rfl, rfl⟩ := List.cons.inj (hts.symm.trans hsame)
  refine ⟨hcondition, ?_, ?_, WrittenHeader.takeModifiers_append hfits rest, ?_⟩
  · rw [hglobal, hsemicolon]
    rfl
  · rw [← hts]
    exact WrittenHeader.takeAttributes_append hfits rest
  · rw [WrittenHeader.header, hleading]

theorem readItem_member {front : List Tree} {e : Ending}
    (hfits : h.fits (front ++ e.trees) = true) (hmember : typeKeyword? (front ++ e.trees) = none)
    (hfront : ∀ t ∈ front, t.goesOn = true) {rest : List Tree} (hrest : StandApart rest)
    (hts : h.trees ++ (front ++ e.trees ++ rest) = first :: others) :
    readItem read first others
      = ((member? (h.header (front ++ e.trees)) (front ++ e.trees)).getD
          (.other (h.header (front ++ e.trees)).leading), rest) := by
  obtain ⟨hcondition, hglobal, hattributes, hmodifiers, hheader⟩ := readItem_header hfits hts
  obtain ⟨-, bareFirst, next, more, hbare, -, -, -, -, -, -, hnamespace⟩ :=
    WrittenHeader.fits_iff.mp hfits
  have hkeyword : typeKeyword? (front ++ e.trees ++ rest) = none :=
    typeKeyword?_append (by rw [hbare]; simp) hmember rest
  have hhead : ((front ++ e.trees ++ rest).headD first).is "namespace" = false := by
    rw [hbare]
    exact hnamespace
  have hextent := memberExtent?_append hfront e fun t ht => (hrest t ht).1
  have haccess : ((front ++ e.trees).any (Tree.isOneOf accessWords)) = false := by
    rw [List.any_eq_false]
    intro t ht
    have hbreaks : t.breaksOff = false := by
      rcases List.mem_append.mp ht with ht | ht
      · exact (Tree.goesOn_iff.mp (hfront t ht)).1
      · exact e.breaksOff_of_mem t ht
    simp [(Tree.breaksOff_iff.mp hbreaks).2.2]
  simp only [readItem, hcondition, hglobal, hattributes, hmodifiers, hkeyword, hhead, hextent,
    List.take_left, List.drop_left, haccess, hheader]
  rfl

/-- A type with a body is read with what its body is read as. -/
theorem readItem_type {t : WrittenTypeHead} (hfits : t.header.fits t.bare = true)
    (b : Brackets '{') (inside : List Tree) (ending : Option (Mark ";")) {rest : List Tree}
    (hrest : StandApart rest)
    (hts : t.header.trees ++ (t.bare ++ b.around inside :: (WrittenItem.endingTrees ending ++ rest))
      = first :: others) :
    readItem read first others
      = (if t.kind = .enumType then .type t.head [] (enumMembers inside)
          else .type t.head (read inside) [], rest) := by
  obtain ⟨hcondition, hglobal, hattributes, hmodifiers, hheader⟩ := readItem_header hfits hts
  simp only [readItem, hcondition, hglobal, hattributes, hmodifiers, t.typeKeyword?_bare,
    t.typeDeclaration?_body, dropSemicolon_endingTrees ending hrest, WrittenTypeHead.head, hheader,
    Bool.false_eq_true, if_false]
  by_cases hkind : t.kind = .enumType
  · rw [if_pos hkind, if_pos hkind]
  · rw [if_neg hkind, if_neg hkind]

theorem readItem_bodiless {t : WrittenTypeHead} (hfits : t.header.fits t.bare = true)
    (hclass : t.kind ≠ .enumType) (hbegins : beginsHead t.between = true) (m : Mark ";")
    (hread : read [] = []) {rest : List Tree}
    (hts : t.header.trees ++ (t.bare ++ .leaf m.1 :: rest) = first :: others) :
    readItem read first others = (.type t.head [] [], rest) := by
  obtain ⟨hcondition, hglobal, hattributes, hmodifiers, hheader⟩ := readItem_header hfits hts
  simp only [readItem, hcondition, hglobal, hattributes, hmodifiers, t.typeKeyword?_bare,
    t.typeDeclaration?_semicolon rest m hbegins, WrittenTypeHead.head, hheader, if_neg hclass,
    hread]
  rfl

end

/-! ## Namespaces -/

theorem NamespaceName.nameLength?_append (n : NamespaceName) {next : Tree} (rest : List Tree)
    (hends : next.endsType = true) :
    nameLength? .part (n.name.trees ++ next :: rest) = some n.name.trees.length := by
  obtain ⟨hdot, hcolons, hopen, -⟩ := Tree.endsType_iff.mp hends
  rw [n.name.nameLength?_append, nameLength?_afterPart_of_ends hdot hcolons hopen, Option.map_some,
    Nat.zero_add]

/-- The word `namespace` begins neither a header nor a type. -/
theorem namespace_begins (k : Keyword "namespace") (ts : List Tree) :
    (Tree.leaf k.1).isConditional = false ∧
      (isGlobalAttributes (.leaf k.1) || (Tree.leaf k.1).is ";") = false ∧
      takeAttributes (.leaf k.1 :: ts) = ([], .leaf k.1 :: ts) ∧
      takeModifiers (.leaf k.1 :: ts) = ([], .leaf k.1 :: ts) ∧
      typeKeyword? (.leaf k.1 :: ts) = none ∧ (Tree.leaf k.1).is "namespace" = true := by
  have his (s : String) : (Tree.leaf k.1).is s = ("namespace".toList == s.toList) := k.is_eq s
  have hone : (Tree.leaf k.1).isOneOf modifierWords = false := by
    have htext : k.1.text = "namespace".toList := k.2.2
    rw [Tree.isOneOf, Token.isOneOf, htext]
    simp [modifierWords]
  have hmodifier : isModifierBefore (.leaf k.1) ts = false := by
    simp only [isModifierBefore, his, hone]
    rfl
  refine ⟨isConditional_of_isWord k.2.1, his ";", rfl, ?_, ?_, his "namespace"⟩
  · rw [takeModifiers, hmodifier]
    rfl
  · simp only [typeKeyword?, his]
    rfl

section

variable (read : List Tree → List Item) (k : Keyword "namespace") (n : NamespaceName)

theorem readItem_namespaceBlock (b : Brackets '{') (inside : List Tree)
    (ending : Option (Mark ";")) {rest : List Tree} (hrest : StandApart rest) :
    readItem read (.leaf k.1)
        (n.name.trees ++ b.around inside :: (WrittenItem.endingTrees ending ++ rest))
      = (.namespaceBlock k.1.leading (Tree.span n.name.trees) (read inside), rest) := by
  obtain ⟨hcondition, hglobal, hattributes, hmodifiers, hkeyword, hnamespace⟩ :=
    namespace_begins k (n.name.trees ++ b.around inside :: (WrittenItem.endingTrees ending ++ rest))
  have hends : (b.around inside).endsType = true := by
    rw [Tree.endsType_iff, Tree.isTypeMark, b.opens_eq]
    exact ⟨rfl, rfl, rfl, rfl⟩
  have hinside : (b.around inside).inside? '{' = some inside := by rw [b.inside?_eq, if_pos rfl]
  simp only [readItem, hcondition, hglobal, hattributes, hmodifiers, hkeyword, List.headD_cons,
    hnamespace, List.drop_one, List.tail_cons, n.nameLength?_append _ hends, List.take_left,
    List.drop_left, hinside, dropSemicolon_endingTrees ending hrest]
  rfl

theorem readItem_fileNamespace (m : Mark ";") (rest : List Tree) :
    readItem read (.leaf k.1) (n.name.trees ++ .leaf m.1 :: rest)
      = (.fileNamespace k.1.leading (Tree.span n.name.trees) true, rest) := by
  obtain ⟨hcondition, hglobal, hattributes, hmodifiers, hkeyword, hnamespace⟩ :=
    namespace_begins k (n.name.trees ++ .leaf m.1 :: rest)
  have his (s : String) : (Tree.leaf m.1).is s = (";".toList == s.toList) := m.is_eq s
  have hends : (Tree.leaf m.1).endsType = true := by
    simp only [Tree.endsType_iff, Tree.isTypeMark, his]
    exact ⟨rfl, rfl, rfl, rfl⟩
  have hinside : (Tree.leaf m.1).inside? '{' = none := rfl
  simp only [readItem, hcondition, hglobal, hattributes, hmodifiers, hkeyword, List.headD_cons,
    hnamespace, List.drop_one, List.tail_cons, n.nameLength?_append _ hends, List.take_left,
    List.drop_left, hinside, his]
  rfl

end

/-! ## Conditional regions -/

theorem Condition.endif_ne_if (closing : Condition "endif") :
    (Tree.leaf closing.1).isCondition "if" = false := by
  have hclosing := closing.2
  rw [Tree.isCondition, Bool.and_eq_true, beq_iff_eq, beq_iff_eq] at hclosing
  rw [Tree.isCondition, hclosing.2, Bool.and_eq_false_iff]
  exact Or.inr rfl

/-- Whether some trees open and close the conditional regions in them. -/
def KeepRegions (ts : List Tree) : Prop :=
  ∀ depth rest, regionLength? depth (ts ++ rest)
    = (regionLength? depth rest).map (· + ts.length)

namespace KeepRegions

variable {ts us : List Tree}

theorem append (hts : KeepRegions ts) (hus : KeepRegions us) : KeepRegions (ts ++ us) := by
  intro depth rest
  rw [List.append_assoc, hts, hus, Option.map_map, List.length_append]
  simp [Function.comp_def, Nat.add_comm, Nat.add_left_comm]

theorem cons {t : Tree} (hif : t.isCondition "if" = false) (hendif : t.isCondition "endif" = false)
    (hts : KeepRegions ts) : KeepRegions (t :: ts) := by
  intro depth rest
  rw [List.cons_append, regionLength?.eq_def]
  simp only [hif, hendif, Bool.false_eq_true, if_false, hts depth rest, Option.map_map]
  rfl

theorem nil : KeepRegions [] := by
  intro depth rest
  simp

theorem of_not_isConditional (h : ∀ t ∈ ts, t.isConditional = false) : KeepRegions ts := by
  have hnot {t : Tree} (ht : t.isConditional = false) (name : String) :
      t.isCondition name = false := by
    cases t with
    | group o inside c => rfl
    | leaf w =>
        have hkind : (w.lexeme.kind == .conditional) = false := ht
        rw [Tree.isCondition, hkind, Bool.false_and]
  induction ts with
  | nil => exact nil
  | cons t ts ih =>
      obtain ⟨ht, hts⟩ := List.forall_mem_cons.mp h
      exact cons (hnot ht "if") (hnot ht "endif") (ih hts)

/-- A region that is opened is closed by its own line. -/
theorem region (opening : Condition "if") (closing : Condition "endif") (hts : KeepRegions ts) :
    KeepRegions (.leaf opening.1 :: (ts ++ [Tree.leaf closing.1])) := by
  have hnot := Condition.endif_ne_if closing
  intro depth rest
  rw [List.cons_append, List.append_assoc, List.singleton_append, regionLength?.eq_def]
  simp only [opening.2, if_true]
  rw [hts, regionLength?.eq_def]
  simp only [hnot, closing.2, Bool.false_eq_true, if_false, if_true, Option.map_map]
  simp [Function.comp_def, Nat.add_comm, Nat.add_left_comm]

end KeepRegions

/-- A region is read with what the trees between its lines are read as. -/
theorem readItem_region (read : List Tree → List Item) (opening : Condition "if")
    (closing : Condition "endif") {ts : List Tree} (hts : KeepRegions ts) (rest : List Tree) :
    readItem read (.leaf opening.1) (ts ++ .leaf closing.1 :: rest)
      = (.conditional opening.1.leading (read ts), rest) := by
  have hconditional : (Tree.leaf opening.1).isConditional = true :=
    (Bool.and_eq_true_iff.mp opening.2).1
  have hnot : (Tree.leaf closing.1).isCondition "if" = false := Condition.endif_ne_if closing
  have hlength : regionLength? 0 (ts ++ .leaf closing.1 :: rest) = some (ts.length + 1) := by
    rw [hts, regionLength?.eq_def]
    simp [hnot, closing.2, Nat.add_comm]
  have hdrop : (ts ++ .leaf closing.1 :: rest).drop (ts.length + 1) = rest := by
    rw [← List.drop_drop, List.drop_left]
    rfl
  simp only [readItem, hconditional, opening.2, if_true, hlength, Nat.add_sub_cancel,
    List.take_left, hdrop]
  rfl

theorem not_isConditional_of_member {front : List Tree} {e : Ending}
    (hfront : ∀ t ∈ front, t.goesOn = true) : ∀ t ∈ front ++ e.trees, t.isConditional = false := by
  intro t ht
  rcases List.mem_append.mp ht with ht | ht
  · exact (Tree.breaksOff_iff.mp (Tree.goesOn_iff.mp (hfront t ht)).1).2.1
  · exact (Tree.breaksOff_iff.mp (e.breaksOff_of_mem t ht)).2.1

theorem WrittenTypeHead.not_isConditional (h : WrittenTypeHead) :
    ∀ t ∈ h.bare, t.isConditional = false := by
  refine List.forall_mem_append.mpr ⟨?_, List.forall_mem_cons.mpr
    ⟨isConditional_of_isWord h.isWord_name,
      fun t ht => (Tree.breaksOff_iff.mp (h.goesOn t ht).1).2.1⟩⟩
  refine List.forall_mem_cons.mpr ⟨isConditional_of_isWord h.keyword.2.1, fun t ht => ?_⟩
  cases hsecond : h.second with
  | none => simp [hsecond] at ht
  | some w =>
      obtain rfl : t = .leaf w := by simpa [hsecond] using ht
      exact isConditional_of_isWord (h.isSecond w hsecond).2.1

/-! ## Items -/

namespace WrittenMethod

variable (m : WrittenMethod)

/-- The trees of a method in front of its body. -/
def front : List Tree :=
  m.type.trees ++ m.name.trees ++ m.list :: m.constraints

theorem bare_eq : m.bare = m.front ++ m.ending.trees := by
  simp [bare, front]

theorem goesOn_front : ∀ t ∈ m.front, t.goesOn = true := by
  have hlist : m.list.goesOn = true := by
    rw [Tree.goesOn_iff, list, m.brackets.opens_eq]
    exact ⟨rfl, rfl, rfl, rfl, rfl⟩
  intro t ht
  rcases List.mem_append.mp ht with ht | ht
  · exact m.goesOn t (List.mem_append_left _ ht)
  · rcases List.mem_cons.mp ht with rfl | ht
    · exact hlist
    · exact m.goesOn t (List.mem_append_right _ ht)

end WrittenMethod

theorem endingTrees_not_isConditional (ending : Option (Mark ";")) :
    ∀ t ∈ WrittenItem.endingTrees ending, t.isConditional = false := by
  intro t ht
  cases ending with
  | none => cases ht
  | some m =>
      obtain rfl : t = .leaf m.1 := by simpa [WrittenItem.endingTrees] using ht
      exact isConditional_of_is (m.is_eq ";")

theorem exists_group_of_isGlobalAttributes {t : Tree} (h : isGlobalAttributes t = true) :
    ∃ o inside c, t = .group o inside c := by
  cases t with
  | leaf w => cases h
  | group o inside c => exact ⟨o, inside, c, rfl⟩

namespace WrittenItem

mutual

theorem keepRegions (w : WrittenItem) : KeepRegions w.trees := by
  cases w with
  | namespaceBlock k n b body e =>
      refine .of_not_isConditional (List.forall_mem_cons.mpr ⟨isConditional_of_isWord k.2.1,
        List.forall_mem_append.mpr ⟨n.name.not_isConditional, List.forall_mem_cons.mpr
          ⟨rfl, endingTrees_not_isConditional e⟩⟩⟩)
  | fileNamespace k n e =>
      refine .of_not_isConditional (List.forall_mem_cons.mpr ⟨isConditional_of_isWord k.2.1,
        List.forall_mem_append.mpr ⟨n.name.not_isConditional, List.forall_mem_singleton.mpr
          (isConditional_of_is (e.is_eq ";"))⟩⟩)
  | type h hfits _ b body e =>
      refine .of_not_isConditional (List.forall_mem_append.mpr ⟨List.forall_mem_append.mpr
        ⟨WrittenHeader.not_isConditional hfits, h.not_isConditional⟩, List.forall_mem_cons.mpr
          ⟨rfl, endingTrees_not_isConditional e⟩⟩)
  | bodiless h hfits _ _ e =>
      refine .of_not_isConditional (List.forall_mem_append.mpr ⟨List.forall_mem_append.mpr
        ⟨WrittenHeader.not_isConditional hfits, h.not_isConditional⟩, List.forall_mem_singleton.mpr
          (isConditional_of_is (e.is_eq ";"))⟩)
  | enumeration h hfits _ b members e =>
      refine .of_not_isConditional (List.forall_mem_append.mpr ⟨List.forall_mem_append.mpr
        ⟨WrittenHeader.not_isConditional hfits, h.not_isConditional⟩, List.forall_mem_cons.mpr
          ⟨rfl, endingTrees_not_isConditional e⟩⟩)
  | property p =>
      exact .of_not_isConditional (List.forall_mem_append.mpr
        ⟨WrittenHeader.not_isConditional p.fits, not_isConditional_of_member p.goesOn⟩)
  | method m =>
      refine .of_not_isConditional (List.forall_mem_append.mpr
        ⟨WrittenHeader.not_isConditional m.fits, ?_⟩)
      rw [m.bare_eq]
      exact not_isConditional_of_member m.goesOn_front
  | other o =>
      exact .of_not_isConditional (List.forall_mem_append.mpr
        ⟨WrittenHeader.not_isConditional o.fits, not_isConditional_of_member o.goesOn⟩)
  | globalAttributes t hglobal =>
      obtain ⟨o, inside, c, rfl⟩ := exists_group_of_isGlobalAttributes hglobal
      exact .of_not_isConditional (List.forall_mem_singleton.mpr rfl)
  | region o body c => exact (keepRegions_allTrees body).region o c
  | divider t _ hdivides => exact .cons hdivides.1 hdivides.2 .nil

theorem keepRegions_allTrees (ws : List WrittenItem) : KeepRegions (allTrees ws) := by
  cases ws with
  | nil => exact .nil
  | cons w ws => exact (keepRegions w).append (keepRegions_allTrees ws)

end

/-- No item begins with a sign that could belong to the item in front of it. -/
theorem standApart (w : WrittenItem) (rest : List Tree) : StandApart (w.trees ++ rest) := by
  have hfits {h : WrittenHeader} {bare us : List Tree} (hfits : h.fits bare = true) :
      StandApart (h.trees ++ bare ++ us) := by
    obtain ⟨first, others, hts, -, -, -, hsemicolon, hequals⟩ := WrittenHeader.exists_first hfits us
    intro t ht
    rw [List.append_assoc, hts] at ht
    obtain rfl := Option.some.inj ht
    exact ⟨hequals, hsemicolon⟩
  have hcondition {w : Token} {us : List Tree} (hw : w.lexeme.kind = .conditional) :
      StandApart (.leaf w :: us) := by
    intro t ht
    obtain rfl := Option.some.inj ht
    have hnot (s : String) : w.is s = false := by
      rw [Token.is, hw, Bool.and_eq_false_iff]
      exact Or.inr rfl
    exact ⟨hnot "=", hnot ";"⟩
  have hkeyword (k : Keyword "namespace") {us : List Tree} : StandApart (.leaf k.1 :: us) := by
    intro t ht
    obtain rfl := Option.some.inj ht
    exact ⟨k.is_eq "=", k.is_eq ";"⟩
  cases w with
  | namespaceBlock k n b body e => exact hkeyword k
  | fileNamespace k n e => exact hkeyword k
  | type h hh _ b body e =>
      rw [trees, List.append_assoc (h.header.trees ++ h.bare)]
      exact hfits hh
  | bodiless h hh _ _ e =>
      rw [trees, List.append_assoc (h.header.trees ++ h.bare)]
      exact hfits hh
  | enumeration h hh _ b members e =>
      rw [trees, List.append_assoc (h.header.trees ++ h.bare)]
      exact hfits hh
  | property p => exact hfits p.fits
  | method m => exact hfits m.fits
  | other o => exact hfits o.fits
  | globalAttributes t hglobal =>
      obtain ⟨o, inside, c, rfl⟩ := exists_group_of_isGlobalAttributes hglobal
      intro t ht
      obtain rfl := Option.some.inj ht
      exact ⟨rfl, rfl⟩
  | region o body c => exact hcondition (beq_iff_eq.mp (Bool.and_eq_true_iff.mp o.2).1)
  | divider t ht _ => exact hcondition ht

theorem standApart_allTrees (ws : List WrittenItem) : StandApart (allTrees ws) := by
  cases ws with
  | nil => intro t ht; cases ht
  | cons w ws => exact w.standApart (allTrees ws)

end WrittenItem

/-! ## Enough fuel -/

namespace Tree

theorem allTokens_append (ts us : List Tree) :
    allTokens (ts ++ us) = allTokens ts ++ allTokens us := by
  induction ts with
  | nil => rfl
  | cons t ts ih => rw [List.cons_append, allTokens, allTokens, ih, List.append_assoc]

theorem length_tokens_pos (t : Tree) : 0 < t.tokens.length := by
  cases t <;> simp [tokens]

end Tree

theorem Brackets.length_tokens_around {bracket : Char} (b : Brackets bracket) (inside : List Tree) :
    (b.around inside).tokens.length = (Tree.allTokens inside).length + 2 := by
  simp [Brackets.around, Tree.tokens]

namespace WrittenItem

/-- How many tokens an item has. -/
def size (w : WrittenItem) : Nat :=
  (Tree.allTokens w.trees).length

/-- How many tokens some items have. -/
def totalSize (ws : List WrittenItem) : Nat :=
  (Tree.allTokens (allTrees ws)).length

theorem totalSize_cons (w : WrittenItem) (ws : List WrittenItem) :
    totalSize (w :: ws) = w.size + totalSize ws := by
  rw [totalSize, allTrees, Tree.allTokens_append, List.length_append]
  rfl

theorem size_pos (w : WrittenItem) : 0 < w.size := by
  have hne : w.trees ≠ [] := by
    have hfits {h : WrittenHeader} {bare : List Tree} (hfits : h.fits bare = true) :
        h.trees ++ bare ≠ [] := by
      obtain ⟨-, first, next, rest, rfl, -⟩ := WrittenHeader.fits_iff.mp hfits
      simp
    cases w with
    | property p => exact hfits p.fits
    | method m => exact hfits m.fits
    | other o => exact hfits o.fits
    | _ => simp [trees]
  obtain ⟨t, ts, htrees⟩ := List.exists_cons_of_ne_nil hne
  rw [size, htrees, Tree.allTokens, List.length_append]
  exact Nat.add_pos_left t.length_tokens_pos _

theorem size_of_body {w : WrittenItem} {body : List WrittenItem} {front behind : List Tree}
    {b : Brackets '{'} (h : w.trees = front ++ b.around (allTrees body) :: behind) :
    totalSize body + 2 ≤ w.size := by
  rw [size, h, Tree.allTokens_append, Tree.allTokens, List.length_append, List.length_append,
    b.length_tokens_around, totalSize]
  omega

/-- A member is read as what it is, whatever the bodies of types are read as. -/
theorem readItem_of_member (read : List Tree → List Item) {h : WrittenHeader} {front : List Tree}
    {e : Ending} (hfits : h.fits (front ++ e.trees) = true)
    (hmember : typeKeyword? (front ++ e.trees) = none) (hfront : ∀ t ∈ front, t.goesOn = true)
    {rest : List Tree} (hrest : StandApart rest) :
    ∃ first others, h.trees ++ (front ++ e.trees) ++ rest = first :: others ∧
      readItem read first others
        = ((member? (h.header (front ++ e.trees)) (front ++ e.trees)).getD
            (.other (h.header (front ++ e.trees)).leading), rest) := by
  obtain ⟨first, others, hts, -⟩ := WrittenHeader.exists_first hfits rest
  exact ⟨first, others, by rw [List.append_assoc, hts],
    readItem_member read hfits hmember hfront hrest hts⟩

theorem readItem_property (read : List Tree → List Item) (p : WrittenProperty) {rest : List Tree}
    (hrest : StandApart rest) :
    ∃ first others, (WrittenItem.property p).trees ++ rest = first :: others ∧
      readItem read first others = (.property p.head, rest) := by
  obtain ⟨first, others, hts, hread⟩ := readItem_of_member read p.fits p.isMember p.goesOn hrest
  have hproperty := p.member?_bare (p.header.header p.bare) rfl
  rw [WrittenProperty.bare] at hproperty
  rw [hproperty] at hread
  exact ⟨first, others, hts, hread⟩

theorem readItem_method (read : List Tree → List Item) (m : WrittenMethod) {rest : List Tree}
    (hrest : StandApart rest) :
    ∃ first others, (WrittenItem.method m).trees ++ rest = first :: others ∧
      readItem read first others = (.method m.head, rest) := by
  have hbare : m.type.trees ++ m.name.trees ++ m.brackets.around
      (m.parameters.trees WrittenParameter.trees) :: (m.constraints ++ m.ending.trees)
        = m.front ++ m.ending.trees := m.bare_eq
  have hfits := m.fits
  have hmember := m.isMember
  rw [hbare] at hfits hmember
  obtain ⟨first, others, hts, hread⟩ :=
    readItem_of_member read hfits hmember m.goesOn_front hrest
  rw [← m.bare_eq] at hts hread
  rw [m.member?_bare _ rfl] at hread
  exact ⟨first, others, hts, hread⟩

theorem readItem_other (read : List Tree → List Item) (o : WrittenOther) {rest : List Tree}
    (hrest : StandApart rest) :
    ∃ first others, (WrittenItem.other o).trees ++ rest = first :: others ∧
      readItem read first others = (.other (leadingOf (o.header.trees ++ o.bare)), rest) := by
  obtain ⟨first, others, hts, hread⟩ := readItem_of_member read o.fits o.isMember o.goesOn hrest
  rw [o.isNoMember.member?_eq] at hread
  exact ⟨first, others, hts, hread⟩

mutual

/-- An item is read in front of what stands apart from it, when the fuel suffices for its body. -/
theorem readItem_eq (w : WrittenItem) (fuel : Nat) (rest : List Tree) (hrest : StandApart rest)
    (hfuel : w.size ≤ fuel) :
    ∃ first others, w.trees ++ rest = first :: others ∧
      readItem (readItems fuel) first others = (w.item, rest) := by
  cases w with
  | namespaceBlock k n b body e =>
      have htrees : (WrittenItem.namespaceBlock k n b body e).trees
          = (.leaf k.1 :: n.name.trees) ++ b.around (allTrees body) :: endingTrees e := rfl
      have hsize := size_of_body htrees
      have hbody := readItems_eq body fuel (by omega)
      refine ⟨.leaf k.1, n.name.trees ++ b.around (allTrees body) :: (endingTrees e ++ rest),
        by simp [trees], ?_⟩
      rw [readItem_namespaceBlock _ k n b _ e hrest, hbody]
      rfl
  | fileNamespace k n e =>
      refine ⟨.leaf k.1, n.name.trees ++ .leaf e.1 :: rest, by simp [trees], ?_⟩
      rw [readItem_fileNamespace]
      rfl
  | type h hfits hclass b body e =>
      have htrees : (WrittenItem.type h hfits hclass b body e).trees
          = (h.header.trees ++ h.bare) ++ b.around (allTrees body) :: endingTrees e := rfl
      have hsize := size_of_body htrees
      have hbody := readItems_eq body fuel (by omega)
      obtain ⟨first, others, hts, -⟩ := WrittenHeader.exists_first hfits
        (b.around (allTrees body) :: (endingTrees e ++ rest))
      refine ⟨first, others, by rw [← hts, htrees]; simp, ?_⟩
      rw [readItem_type _ hfits b _ e hrest hts, if_neg hclass, hbody]
      rfl
  | bodiless h hfits hclass hbegins e =>
      have hempty : readItems fuel [] = [] := by cases fuel <;> rfl
      obtain ⟨first, others, hts, -⟩ := WrittenHeader.exists_first hfits (.leaf e.1 :: rest)
      refine ⟨first, others, by rw [← hts, trees]; simp, ?_⟩
      exact readItem_bodiless _ hfits hclass hbegins e hempty hts
  | enumeration h hfits henum b members e =>
      obtain ⟨first, others, hts, -⟩ := WrittenHeader.exists_first hfits
        (b.around (members.trees WrittenEnumMember.trees) :: (endingTrees e ++ rest))
      refine ⟨first, others, by rw [← hts, trees]; simp, ?_⟩
      rw [readItem_type _ hfits b _ e hrest hts, if_pos henum, enumMembers_trees]
      rfl
  | property p => exact readItem_property _ p hrest
  | method m => exact readItem_method _ m hrest
  | other o => exact readItem_other _ o hrest
  | globalAttributes t hglobal =>
      obtain ⟨o, inside, c, rfl⟩ := exists_group_of_isGlobalAttributes hglobal
      refine ⟨_, rest, rfl, ?_⟩
      have hcondition : (Tree.group o inside c).isConditional = false := rfl
      simp only [readItem, hcondition, hglobal]
      rfl
  | region o body c =>
      have hsize : totalSize body + 2 ≤ (WrittenItem.region o body c).size := by
        simp [size, trees, totalSize, Tree.allTokens, Tree.allTokens_append, Tree.tokens]
      have hbody := readItems_eq body fuel (by omega)
      refine ⟨.leaf o.1, allTrees body ++ .leaf c.1 :: rest, by simp [trees], ?_⟩
      rw [readItem_region _ o c (keepRegions_allTrees body), hbody]
      rfl
  | divider t hkind hdivides =>
      have hconditional : (Tree.leaf t).isConditional = true := beq_iff_eq.mpr hkind
      refine ⟨.leaf t, rest, rfl, ?_⟩
      simp only [readItem, hconditional, hdivides.1]
      rfl

theorem readItems_eq (ws : List WrittenItem) (fuel : Nat) (hfuel : totalSize ws < fuel) :
    readItems fuel (allTrees ws) = items ws := by
  cases fuel with
  | zero => exact absurd hfuel (Nat.not_lt_zero _)
  | succ fuel =>
      cases ws with
      | nil => rfl
      | cons w ws =>
          rw [totalSize_cons] at hfuel
          obtain ⟨first, others, hts, hread⟩ :=
            readItem_eq w fuel (allTrees ws) (standApart_allTrees ws) (by omega)
          have hrest := readItems_eq ws fuel (by have hpos := w.size_pos; omega)
          rw [allTrees, hts, readItems, hread]
          simp only [hrest, items]

end

end WrittenItem

/-- A source that consists of some items is read as these items. -/
theorem parse_eq {source : String} {ws : List WrittenItem} (h : ConsistsOf source ws) :
    parse source = WrittenItem.items ws := by
  rw [parse, h, items]
  exact WrittenItem.readItems_eq ws _ (Nat.lt_succ_self _)

end ComponentAtlas.CSharp
