import ComponentAtlas.Proofs.CSharp.WrittenHeaders

/-!
# Members of a body are read back

A member runs up to its semicolon or through its braces, and what stands in it decides that alone:
no tree in front of the end ends it, and in an expression braces do not count.  Only an initialiser
behind the braces is looked for in the trees that follow, so these must not begin with an equals
sign.
-/

namespace ComponentAtlas.CSharp

/-! ## Extents -/

namespace Tree

theorem breaksOff_iff {t : Tree} : t.breaksOff = false ↔
    t.isLost = false ∧ t.isConditional = false ∧ t.isOneOf accessWords = false := by
  simp only [breaksOff, Bool.or_eq_false_iff, and_assoc]

theorem goesOn_iff {t : Tree} : t.goesOn = true ↔
    t.breaksOff = false ∧ t.is ";" = false ∧ t.is "=" = false ∧ t.is "=>" = false ∧
      t.opens '{' = false := by
  simp only [goesOn, Bool.and_eq_true, Bool.not_eq_true', and_assoc]

end Tree

theorem Mark.breaksOff_eq {s : String} (m : Mark s)
    (h : ["\x7b".toList, "(".toList, "[".toList, "\x7d".toList, ")".toList,
      "]".toList].contains s.toList = false) : (Tree.leaf m.1).breaksOff = false := by
  have hkind : m.1.lexeme.kind = .mark := m.2.1
  have htext : m.1.text = s.toList := m.2.2
  have hword : m.1.isWord = false := m.isWord_eq
  have hall : ∀ cs ∈ ["\x7b".toList, "(".toList, "[".toList, "\x7d".toList, ")".toList, "]".toList],
      (m.1.text == cs) = false := by
    intro cs hcs
    rw [htext, beq_eq_false_iff_ne]
    intro hsame
    rw [hsame, List.contains_eq_mem, decide_eq_false_iff_not] at h
    exact h hcs
  simp only [List.mem_cons, List.not_mem_nil, or_false, forall_eq_or_imp, forall_eq] at hall
  obtain ⟨hbrace, hround, hsquare, hbrace', hround', hsquare'⟩ := hall
  rw [Tree.breaksOff_iff]
  refine ⟨?_, ?_, m.1.isOneOf_of_not_isWord hword _⟩
  · simp only [Tree.isLost, Token.opensBracket, Token.closesBracket, hkind]
    simp_all
  · rw [Tree.isConditional, hkind]
    rfl

/-- In front of the end of a declaration the trees are counted. -/
theorem extent?_goesOn {front : List Tree} (h : ∀ t ∈ front, t.goesOn = true) (rest : List Tree) :
    extent? false (front ++ rest) = (extent? false rest).map (· + front.length) := by
  induction front with
  | nil => simp
  | cons t front ih =>
      obtain ⟨ht, hfront⟩ := List.forall_mem_cons.mp h
      obtain ⟨hbreaks, hsemicolon, hequals, harrow, hbrace⟩ := Tree.goesOn_iff.mp ht
      obtain ⟨hlost, hcondition, -⟩ := Tree.breaksOff_iff.mp hbreaks
      simp only [List.cons_append, extent?, hcondition, hlost, hsemicolon, hequals, harrow, hbrace,
        Bool.or_self, Bool.and_false, Bool.false_eq_true, if_false, ih hfront, Option.map_map,
        List.length_cons]
      rfl

/-- An expression is counted up to the semicolon behind it, braces and all. -/
theorem extent?_expression (e : Expression) (m : Mark ";") (rest : List Tree) :
    extent? true (e.1 ++ .leaf m.1 :: rest) = some (e.1.length + 1) := by
  obtain ⟨ts, hts⟩ := e
  induction ts with
  | nil =>
      obtain ⟨hlost, hcondition, -⟩ := Tree.breaksOff_iff.mp (m.breaksOff_eq (by decide))
      have hsemicolon : (Tree.leaf m.1).is ";" = true := m.is_eq ";"
      simp [extent?, hlost, hcondition, hsemicolon]
  | cons t ts ih =>
      obtain ⟨⟨hbreaks, hsemicolon⟩, hrest⟩ := List.forall_mem_cons.mp hts
      obtain ⟨hlost, hcondition, -⟩ := Tree.breaksOff_iff.mp hbreaks
      simp only [List.cons_append, extent?, hcondition, hlost, hsemicolon, Bool.or_self,
        Bool.not_true, Bool.false_and, Bool.false_eq_true, if_false, ih hrest, Option.map_some,
        List.length_cons, ite_self]

namespace Ending

theorem breaksOff_of_mem (e : Ending) : ∀ t ∈ e.trees, t.breaksOff = false := by
  have hsemicolon (m : Mark ";") : (Tree.leaf m.1).breaksOff = false := m.breaksOff_eq (by decide)
  have hequals (m : Mark "=") : (Tree.leaf m.1).breaksOff = false := m.breaksOff_eq (by decide)
  have harrow (m : Mark "=>") : (Tree.leaf m.1).breaksOff = false := m.breaksOff_eq (by decide)
  have hgroup (b : Brackets '{') (inside : List Tree) : (b.around inside).breaksOff = false := rfl
  have hvalue (v : Expression) (m : Mark ";") :
      ∀ t ∈ v.1 ++ [Tree.leaf m.1], t.breaksOff = false := by
    intro t ht
    rcases List.mem_append.mp ht with ht | ht
    · exact (v.2 t ht).1
    · obtain rfl := List.mem_singleton.mp ht
      exact hsemicolon m
  cases e with
  | semicolon m => simpa [trees, first, rest] using hsemicolon m
  | braces b inside => simpa [trees, first, rest] using hgroup b inside
  | value m v s => exact List.forall_mem_cons.mpr ⟨hequals m, hvalue v s⟩
  | arrow m v s => exact List.forall_mem_cons.mpr ⟨harrow m, hvalue v s⟩
  | bracesValue b inside m v s =>
      exact List.forall_mem_cons.mpr
        ⟨hgroup b inside, List.forall_mem_cons.mpr ⟨hequals m, hvalue v s⟩⟩

/-- How much of its end the first look at a declaration takes: not a value behind braces. -/
def firstExtent (e : Ending) : Nat :=
  match e with
  | .semicolon _ | .braces _ _ | .bracesValue .. => 1
  | .value _ v _ | .arrow _ v _ => v.1.length + 2

theorem extent?_trees (e : Ending) (rest : List Tree) :
    extent? false (e.trees ++ rest) = some e.firstExtent := by
  cases e with
  | semicolon m =>
      obtain ⟨hlost, hcondition, -⟩ := Tree.breaksOff_iff.mp (m.breaksOff_eq (by decide))
      have hsemicolon : (Tree.leaf m.1).is ";" = true := m.is_eq ";"
      simp [trees, first, extent?, firstExtent, hlost, hcondition, hsemicolon]
  | braces b inside =>
      have hopens : (b.around inside).opens '{' = true := by rw [b.opens_eq]; rfl
      simp only [trees, first, List.cons_append, extent?, hopens]
      rfl
  | bracesValue b inside m v s =>
      have hopens : (b.around inside).opens '{' = true := by rw [b.opens_eq]; rfl
      simp only [trees, first, List.cons_append, extent?, hopens]
      rfl
  | value m v s =>
      obtain ⟨hlost, hcondition, -⟩ := Tree.breaksOff_iff.mp (m.breaksOff_eq (by decide))
      have hsemicolon : (Tree.leaf m.1).is ";" = false := m.is_eq ";"
      have hequals : (Tree.leaf m.1).is "=" = true := m.is_eq "="
      simp [trees, first, Ending.rest, extent?, firstExtent, hlost, hcondition, hsemicolon, hequals,
        extent?_expression]
  | arrow m v s =>
      obtain ⟨hlost, hcondition, -⟩ := Tree.breaksOff_iff.mp (m.breaksOff_eq (by decide))
      have hsemicolon : (Tree.leaf m.1).is ";" = false := m.is_eq ";"
      have harrow : (Tree.leaf m.1).is "=>" = true := m.is_eq "=>"
      simp [trees, first, Ending.rest, extent?, firstExtent, hlost, hcondition, hsemicolon, harrow,
        extent?_expression]

end Ending

/-- A member is read up to its end when no equals sign follows. -/
theorem memberExtent?_append {front : List Tree} (hfront : ∀ t ∈ front, t.goesOn = true)
    (e : Ending) {rest : List Tree} (hrest : ∀ t ∈ rest.head?, t.is "=" = false) :
    memberExtent? (front ++ e.trees ++ rest) = some (front ++ e.trees).length := by
  have hextent : extent? false (front ++ e.trees ++ rest)
      = some (front.length + e.firstExtent) := by
    rw [List.append_assoc, extent?_goesOn hfront, e.extent?_trees, Option.map_some, Nat.add_comm]
  have hstops (k : Nat) (hk : k = (front ++ e.trees).length)
      (hextent : extent? false (front ++ e.trees ++ rest) = some k) :
      memberExtent? (front ++ e.trees ++ rest) = some (front ++ e.trees).length := by
    have hdrop : (front ++ e.trees ++ rest).drop k = rest := by rw [hk, List.drop_left]
    simp only [memberExtent?, hextent, hdrop, ← hk]
    cases rest with
    | nil => rfl
    | cons next more => simp [hrest next rfl]
  cases e with
  | semicolon m => exact hstops _ (by simp [Ending.trees, Ending.rest, Ending.firstExtent]) hextent
  | braces b inside =>
      exact hstops _ (by simp [Ending.trees, Ending.rest, Ending.firstExtent]) hextent
  | value m v s =>
      exact hstops _ (by simp [Ending.trees, Ending.rest, Ending.firstExtent]) hextent
  | arrow m v s =>
      exact hstops _ (by simp [Ending.trees, Ending.rest, Ending.firstExtent]) hextent
  | bracesValue b inside m v s =>
      have hequals : (Tree.leaf m.1).is "=" = true := m.is_eq "="
      have hdrop : (front ++ (Ending.bracesValue b inside m v s).trees ++ rest).drop
          (front.length + 1) = .leaf m.1 :: (v.1 ++ .leaf s.1 :: rest) := by
        have hsplit : front ++ (Ending.bracesValue b inside m v s).trees ++ rest
            = (front ++ [b.around inside]) ++ .leaf m.1 :: (v.1 ++ .leaf s.1 :: rest) := by
          simp [Ending.trees, Ending.first, Ending.rest]
        have hlength : front.length + 1 = (front ++ [b.around inside]).length := by simp
        rw [hsplit, hlength, List.drop_left]
      rw [Ending.firstExtent] at hextent
      simp only [memberExtent?, hextent, hdrop, hequals, if_true, extent?_expression,
        Option.map_some]
      simp [Ending.trees, Ending.rest]
      omega

/-! ## Properties and methods -/

theorem WrittenName.endsType (n : WrittenName) (rest : List Tree) :
    ∃ next more, n.trees ++ rest = next :: more ∧ next.endsType = true := by
  obtain ⟨ts, hts⟩ := n.exists_trees_eq
  exact ⟨.leaf n.firstPart.word, ts ++ rest, by rw [hts]; rfl,
    Tree.endsType_of_isName n.firstPart.isName⟩

/-- A type and a name are read up to the tree that ends the name. -/
theorem member?_step (header : Header) (type : WrittenType) (name : WrittenName) {next : Tree}
    (rest : List Tree) (hends : next.endsType = true) :
    member? header (type.trees ++ (name.trees ++ next :: rest))
      = if (Tree.leaf name.last.word).isIdentifier then
          (if next.opens '(' then
            some (.method ⟨header, Tree.span type.trees, name.last.word.text, Tree.span [next]⟩)
          else if next.opens '{' then
            some (.property ⟨header, Tree.span type.trees, name.last.word.text,
              some ((Tree.allTokens rest).flatMap (·.fullText))⟩)
          else if next.is "=>" then
            some (.property ⟨header, Tree.span type.trees, name.last.word.text, none⟩)
          else none)
        else none := by
  have htype : typeLength? (type.trees ++ (name.trees ++ next :: rest))
      = some type.trees.length := by
    obtain ⟨first, more, hname, hfirst⟩ := name.endsType (next :: rest)
    rw [hname]
    exact type.typeLength?_append more hfirst
  have hname : nameLength? .part (name.trees ++ next :: rest) = some name.trees.length := by
    obtain ⟨hdot, hcolons, hopen, -⟩ := Tree.endsType_iff.mp hends
    rw [name.nameLength?_append, nameLength?_afterPart_of_ends hdot hcolons hopen, Option.map_some,
      Nat.zero_add]
  simp only [member?, htype, Option.bind_eq_bind, Option.bind_some, List.drop_left, hname,
    List.take_left, name.lastPart?_trees]
  cases (Tree.leaf name.last.word).isIdentifier <;> rfl

/-- What opens a group or is an arrow ends a name. -/
theorem Tree.endsType_of_body {t : Tree} (h : (t.opens '{' || t.is "=>") = true) :
    t.endsType = true := by
  rw [Bool.or_eq_true] at h
  rcases h with h | h
  · cases t with
    | leaf w => cases h
    | group o inside c =>
        have hbrace : o.text = ['{'] := by
          simp only [opens, inside?] at h
          split at h
          · assumption
          · cases h
        simp [endsType_iff, isTypeMark, opens, inside?, is, hbrace]
  · have hmark {s : String} (hs : "=>".toList ≠ s.toList) : t.is s = false := is_eq_false h hs
    have hsquare : t.opens '[' = false := by
      cases t with
      | leaf w => rfl
      | group o inside c => cases h
    simp [endsType_iff, isTypeMark, hmark, hsquare]

theorem WrittenProperty.member?_bare (p : WrittenProperty) (header : Header)
    (hheader : header = p.header.header p.bare) :
    member? header p.bare = some (.property p.head) := by
  have hends : p.ending.first.endsType = true := Tree.endsType_of_body p.hasBody
  have hround : p.ending.first.opens '(' = false := by
    cases p.ending with
    | semicolon m => rfl
    | braces b inside => exact b.opens_eq inside '('
    | value m v s => rfl
    | arrow m v s => rfl
    | bracesValue b inside m v s => exact b.opens_eq inside '('
  have hbare : p.bare = p.type.trees ++ (p.name.trees ++ p.ending.first :: p.ending.rest) := by
    rw [bare, List.append_assoc]
    rfl
  rw [hbare, member?_step header p.type p.name p.ending.rest hends, if_pos p.isIdentifier, hround,
    hheader, head]
  have hbody := p.hasBody
  cases hbrace : p.ending.first.opens '{' with
  | true => simp
  | false =>
      rw [hbrace, Bool.false_or] at hbody
      simp [hbody]

theorem WrittenMethod.member?_bare (m : WrittenMethod) (header : Header)
    (hheader : header = m.header.header m.bare) :
    member? header m.bare = some (.method m.head) := by
  have hopens : m.list.opens '(' = true := by
    rw [list, m.brackets.opens_eq]
    rfl
  have hends : m.list.endsType = true := by
    rw [Tree.endsType_iff, Tree.isTypeMark, list, m.brackets.opens_eq]
    exact ⟨rfl, rfl, rfl, rfl⟩
  have hbare : m.bare = m.type.trees ++ (m.name.trees ++ m.list ::
      (m.constraints ++ m.ending.trees)) := by
    rw [bare, List.append_assoc]
  rw [hbare, member?_step header m.type m.name _ hends, if_pos m.isIdentifier, hopens, if_pos rfl,
    hheader, head]

theorem IsNoMember.member?_eq {ts : List Tree} (h : IsNoMember ts) (header : Header) :
    member? header ts = none := by
  cases h with
  | @untyped first rest hname href htuple hpointer =>
      have htype : typeLength? (first :: rest) = none := by
        rw [typeLength?_cons href, htuple, hpointer, nameLength?, hname]
        rfl
      simp [member?, htype]
  | @unnamed next rest type hends hname =>
      have hnone : nameLength? .part (next :: rest) = none := by
        rw [nameLength?, hname]
        rfl
      simp [member?, type.typeLength?_append rest hends, hnone]
  | @bodiless next rest type name hends hnext =>
      rw [List.append_assoc, member?_step header type name rest hends]
      simp only [Bool.or_eq_false_iff] at hnext
      obtain ⟨⟨hround, hbrace⟩, harrow⟩ := hnext
      simp [hround, hbrace, harrow]

/-! ## Enumerations -/

/-- Whether angle brackets opened in front of some trees stay open in them. -/
def NeverCloses (ts : List Tree) : Prop :=
  ∀ depth, argumentsLength? depth ts = none

theorem argumentsLength?_append_none {ts rest : List Tree} (hrest : NeverCloses rest) {depth : Nat}
    (h : argumentsLength? depth ts = none) : argumentsLength? depth (ts ++ rest) = none := by
  induction ts generalizing depth with
  | nil => exact hrest depth
  | cons t ts ih =>
      rw [List.cons_append]
      cases hopen : t.is "<" with
      | true =>
          rw [argumentsLength?_open _ _ hopen, Option.map_eq_none_iff] at h ⊢
          exact ih h
      | false =>
          cases hclose : t.is ">" with
          | true =>
              cases depth with
              | zero => rw [(argumentsLength?_close 0 _ hclose).1] at h; cases h
              | succ depth =>
                  rw [(argumentsLength?_close depth _ hclose).2, Option.map_eq_none_iff] at h ⊢
                  exact ih h
          | false =>
              rw [argumentsLength?_pass _ _ hopen hclose] at h ⊢
              split
              · rename_i hpass
                rw [if_pos hpass, Option.map_eq_none_iff] at h
                rw [ih h, Option.map_none]
              · rfl

theorem NeverCloses.pass {t : Tree} {rest : List Tree} (hopen : t.is "<" = false)
    (hclose : t.is ">" = false) (hrest : NeverCloses rest) : NeverCloses (t :: rest) := by
  intro depth
  rw [argumentsLength?_pass _ _ hopen hclose, hrest depth, Option.map_none, ite_self]

/-- An equals sign stands in no type arguments. -/
theorem NeverCloses.equals (m : Mark "=") (rest : List Tree) :
    NeverCloses (.leaf m.1 :: rest) := by
  intro depth
  have his (s : String) : (Tree.leaf m.1).is s = ("=".toList == s.toList) := m.is_eq s
  have hword : (Tree.leaf m.1).word? = none := by
    rw [Tree.word?_leaf, m.isWord_eq]
    rfl
  rw [argumentsLength?_pass _ _ (his "<") (his ">"), if_neg]
  simp [hword, his, Tree.opens_leaf]

theorem IsValue.stayTogether {ts : List Tree} (h : IsValue ts) {rest : List Tree}
    (hrest : NeverCloses rest) : StayTogether ts rest := by
  induction h with
  | nil => exact .nil
  | cons hcomma hless _ _ ih => exact .cons hcomma hless ih
  | @less ts mark hnone _ ih =>
      have hcomma : (Tree.leaf mark.1).is "," = false := mark.is_eq ","
      have hopen : (Tree.leaf mark.1).is "<" = true := mark.is_eq "<"
      rw [StayTogether, List.cons_append, commaParts_step _ (by simp [hcomma]), if_neg (by simp),
        if_pos hopen, argumentsLength?_append_none hrest hnone, Option.getD_none, ih,
        List.modifyHead_modifyHead]
      rfl
  | @arguments ts a _ ih => exact (a.stayTogether _).append ih

theorem IsValue.not_isConditional {ts : List Tree} (h : IsValue ts) :
    ∀ t ∈ ts, t.isConditional = false := by
  induction h with
  | nil => intro t ht; cases ht
  | cons _ _ hcondition _ ih => exact List.forall_mem_cons.mpr ⟨hcondition, ih⟩
  | less mark _ _ ih => exact List.forall_mem_cons.mpr ⟨mark.isConditional_eq, ih⟩
  | @arguments ts a _ ih => exact List.forall_mem_append.mpr ⟨a.not_isConditional, ih⟩

namespace WrittenEnumMember

variable (m : WrittenEnumMember)

theorem name_is_eq_false {s : String} (hs : s ∈ nameMarks) : (Tree.leaf m.name).is s = false :=
  is_of_isName m.isName hs

/-- The trees behind the name. -/
def valueTrees : List Tree :=
  (m.value.map fun x => Tree.leaf x.1.1 :: x.2).getD []

theorem stayTogether {rest : List Tree} (hrest : NeverCloses rest) : StayTogether m.trees rest := by
  have hlists (ts : List AttributeList) (us : List Tree) :
      StayTogether (ts.map AttributeList.tree) us := by
    induction ts with
    | nil => exact .nil
    | cons l ts ih => exact .cons rfl rfl ih
  have hvalue : StayTogether m.valueTrees rest := by
    rw [valueTrees]
    cases hx : m.value with
    | none => exact .nil
    | some x =>
        have hmark (s : String) : (Tree.leaf x.1.1).is s = ("=".toList == s.toList) := x.1.is_eq s
        exact .cons (hmark ",") (hmark "<") ((m.isValue x hx).stayTogether hrest)
  exact (hlists m.lists _).append
    (.cons (m.name_is_eq_false (by decide)) (m.name_is_eq_false (by decide)) hvalue)

/-- The commas in front of a member stand in no type arguments. -/
theorem neverCloses {rest : List Tree} (hrest : NeverCloses rest) :
    NeverCloses (m.trees ++ rest) := by
  have hvalue : NeverCloses (m.valueTrees ++ rest) := by
    rw [valueTrees]
    cases m.value with
    | none => exact hrest
    | some x => exact NeverCloses.equals x.1 _
  have hname : NeverCloses (.leaf m.name :: (m.valueTrees ++ rest)) :=
    hvalue.pass (m.name_is_eq_false (by decide)) (m.name_is_eq_false (by decide))
  rw [trees, List.append_assoc, List.cons_append]
  induction m.lists with
  | nil => exact hname
  | cons l ts ih => exact NeverCloses.pass rfl rfl ih

theorem not_isConditional : ∀ t ∈ m.trees, t.isConditional = false := by
  refine List.forall_mem_append.mpr ⟨fun t ht => ?_, List.forall_mem_cons.mpr
    ⟨isConditional_of_isWord m.isWord, fun t ht => ?_⟩⟩
  · obtain ⟨l, -, rfl⟩ := List.mem_map.mp ht
    rfl
  · cases hx : m.value with
    | none => simp [hx] at ht
    | some x =>
        rw [hx] at ht
        rcases List.mem_cons.mp ht with rfl | ht
        · exact x.1.isConditional_eq
        · exact (m.isValue x hx).not_isConditional t ht

theorem enumMember?_trees : enumMember? m.trees = some m.member := by
  have hattributes : takeAttributes m.trees
      = (m.lists.flatMap AttributeList.texts, .leaf m.name :: m.valueTrees) :=
    takeAttributes_lists m.lists (fun t ht => by cases ht; rfl)
  have hword : (Tree.leaf m.name).word? = some m.name := by
    rw [Tree.word?_leaf, if_pos m.isWord]
  obtain ⟨first, hfirst⟩ : ∃ first, m.trees.head? = some first := by
    rw [trees]
    cases m.lists with
    | nil => exact ⟨_, rfl⟩
    | cons l ts => exact ⟨_, rfl⟩
  have hleading : leadingOf m.trees = first.head.leading := by rw [leadingOf, hfirst]; rfl
  simp only [enumMember?, hattributes, hword, hfirst, Option.map_some, member, hleading, valueTrees]
  cases hx : m.value with
  | none => rfl
  | some x =>
      have hmark : (Tree.leaf x.1.1).is "=" = true := x.1.is_eq "="
      have hne : x.2 ≠ [] := by
        intro hempty
        have hblank := m.notBlank x hx
        rw [hempty] at hblank
        cases hblank
      simp [hmark, hne]

end WrittenEnumMember

/-- The members of an enumeration are what stands between the commas of its body. -/
theorem enumMembers_trees (members : CommaList WrittenEnumMember) :
    enumMembers (members.trees WrittenEnumMember.trees)
      = members.elements.map WrittenEnumMember.member := by
  have hparts := CommaList.commaParts_trees NeverCloses (fun _ => rfl)
    (fun m rest hrest => hrest.pass (m.is_eq "<") (m.is_eq ">"))
    (fun (m : WrittenEnumMember) rest hrest => ⟨m.neverCloses hrest, m.stayTogether hrest⟩) members
  have hplain : ∀ part ∈ members.parts WrittenEnumMember.trees, ∀ t ∈ part,
      t.isConditional = false := by
    intro part hpart
    rcases List.mem_append.mp hpart with hpart | hpart
    · obtain ⟨x, -, rfl⟩ := List.mem_map.mp hpart
      exact x.1.not_isConditional
    · obtain rfl := List.mem_singleton.mp hpart
      cases members.last with
      | none => intro t ht; cases ht
      | some m => exact m.not_isConditional
  have hregion : ∀ part ∈ members.parts WrittenEnumMember.trees, (!isRegion part) = true := by
    intro part hpart
    cases part with
    | nil => rfl
    | cons t ts =>
        have ht := hplain _ hpart t List.mem_cons_self
        have hnot : t.isCondition "if" = false := by
          cases t with
          | group o inside c => rfl
          | leaf w =>
              rw [Tree.isCondition, show (w.lexeme.kind == .conditional) = false from ht]
              rfl
        rw [isRegion, hnot]
        rfl
  have hnone : (members.parts WrittenEnumMember.trees).any (·.any Tree.isConditional) = false := by
    rw [List.any_eq_false]
    intro part hpart
    rw [List.any_eq_true]
    rintro ⟨t, ht, hcondition⟩
    rw [hplain part hpart t ht] at hcondition
    cases hcondition
  rw [enumMembers, hparts, List.filter_eq_self.mpr hregion, hnone]
  exact CommaList.filterMap_parts rfl WrittenEnumMember.enumMember?_trees members

end ComponentAtlas.CSharp
