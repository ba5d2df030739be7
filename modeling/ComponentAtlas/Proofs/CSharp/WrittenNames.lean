import ComponentAtlas.Proofs.CSharp.Written

/-!
# Names and types are read back

The reader counts the trees of a name or a type without knowing where it ends.  It stops at the
right tree for two reasons: angle brackets are counted by depth, and what follows a name is no mark
that a name or a type could go on with.  So each lemma reads a piece in front of any trees, and
leaves to them what they add.
-/

namespace ComponentAtlas.CSharp

/-! ## Words and marks -/

theorem Keyword.is_eq {s : String} (k : Keyword s) (s' : String) :
    k.1.is s' = (s.toList == s'.toList) := by
  have hword : (k.1.lexeme.kind == .word) = true := k.2.1
  have htext : k.1.lexeme.text = s.toList := k.2.2
  rw [Token.is, hword, htext, Bool.true_or, Bool.and_true]

theorem Mark.is_eq {s : String} (m : Mark s) (s' : String) :
    m.1.is s' = (s.toList == s'.toList) := by
  have hmark : (m.1.lexeme.kind == .mark) = true := beq_iff_eq.mpr m.2.1
  have htext : m.1.lexeme.text = s.toList := m.2.2
  rw [Token.is, hmark, htext, Bool.or_true, Bool.and_true]

theorem Mark.isWord_eq {s : String} (m : Mark s) : m.1.isWord = false := by
  rw [Token.isWord, m.2.1]
  rfl

theorem Token.isOneOf_of_not_isWord {t : Token} (h : t.isWord = false) (words : List String) :
    t.isOneOf words = false := by
  rw [Token.isOneOf, h, Bool.false_and]

theorem Tree.word?_leaf (t : Token) : (Tree.leaf t).word? = if t.isWord then some t else none :=
  rfl

theorem Tree.opens_leaf (t : Token) (c : Char) : (Tree.leaf t).opens c = false :=
  rfl

theorem Tree.is_leaf (t : Token) (s : String) : (Tree.leaf t).is s = t.is s :=
  rfl

/-- One tree is not two different words or marks. -/
theorem Tree.is_eq_false {t : Tree} {s s' : String} (h : t.is s = true)
    (hne : s.toList ≠ s'.toList) : t.is s' = false := by
  cases t with
  | group o inside c => rfl
  | leaf w =>
      have htext : w.lexeme.text = s.toList := beq_iff_eq.mp (Bool.and_eq_true_iff.mp h).1
      rw [Tree.is_leaf, Token.is, htext, beq_eq_false_iff_ne.mpr hne, Bool.false_and]

theorem isConditional_of_isWord {w : Token} (h : w.isWord = true) :
    (Tree.leaf w).isConditional = false := by
  have hkind : w.lexeme.kind = .word := beq_iff_eq.mp h
  rw [Tree.isConditional, hkind]
  rfl

/-- A word or a mark is no conditional line. -/
theorem isConditional_of_is {w : Token} {s : String} (h : w.is s = true) :
    (Tree.leaf w).isConditional = false := by
  have hkind := (Bool.and_eq_true_iff.mp h).2
  rw [Bool.or_eq_true, beq_iff_eq, beq_iff_eq] at hkind
  rcases hkind with hkind | hkind <;> rw [Tree.isConditional, hkind] <;> rfl

theorem Mark.isConditional_eq {s : String} (m : Mark s) : (Tree.leaf m.1).isConditional = false :=
  isConditional_of_is ((m.is_eq s).trans (beq_self_eq_true s.toList))

/-- Marks that no name is. -/
def nameMarks : List String :=
  [".", "::", "<", ">", ",", ";", "=", "=>", "?", "*", ":"]

theorem is_of_isName {t : Token} (h : IsName t.text) {s : String} (hs : s ∈ nameMarks) :
    t.is s = false := by
  have hmarks : ∀ s ∈ nameMarks, ∃ c ∈ s.toList, Unicode.isWord c = false ∧ c ≠ '@' := by
    have hall : (nameMarks.all fun s => s.toList.any fun c =>
        !Unicode.isWord c && decide (c ≠ '@')) = true := by decide +kernel
    simpa using hall
  obtain ⟨c, hc, hword, hat⟩ := hmarks s hs
  rw [Token.is, Bool.and_eq_false_iff]
  refine Or.inl (beq_eq_false_iff_ne.mpr fun htext => ?_)
  have htext : t.text = s.toList := htext
  rw [htext] at h
  exact h.ne_of_not_word hword hat c hc rfl

namespace Brackets

variable {bracket : Char} (b : Brackets bracket) (inside : List Tree)

theorem inside?_eq (c : Char) :
    (b.around inside).inside? c = if bracket = c then some inside else none := by
  rw [Brackets.around, Tree.inside?, b.opens]
  simp

theorem opens_eq (c : Char) : (b.around inside).opens c = decide (bracket = c) := by
  rw [Tree.opens, b.inside?_eq]
  split <;> simp_all

theorem is_eq (s : String) : (b.around inside).is s = false :=
  rfl

end Brackets

/-! ## Type arguments -/

section

variable {t : Tree} (depth : Nat) (rest : List Tree)

theorem argumentsLength?_open (h : t.is "<" = true) :
    argumentsLength? depth (t :: rest) = (argumentsLength? (depth + 1) rest).map (· + 1) := by
  rw [argumentsLength?.eq_def]
  simp only [h, if_true]

theorem argumentsLength?_close (h : t.is ">" = true) :
    argumentsLength? 0 (t :: rest) = some 1 ∧
      argumentsLength? (depth + 1) (t :: rest) = (argumentsLength? depth rest).map (· + 1) := by
  have hopen : t.is "<" = false := Tree.is_eq_false h (by decide)
  rw [argumentsLength?.eq_def, argumentsLength?.eq_def]
  simp only [h, hopen, Bool.false_eq_true, if_false, if_true, and_self]

theorem argumentsLength?_pass (hopen : t.is "<" = false) (hclose : t.is ">" = false) :
    argumentsLength? depth (t :: rest)
      = if t.word?.isSome || t.opens '(' || t.opens '[' || t.is "," || t.is "." || t.is "::" ||
          t.is "?" || t.is "*" then (argumentsLength? depth rest).map (· + 1) else none := by
  rw [argumentsLength?.eq_def]
  simp only [hopen, hclose, Bool.false_eq_true, if_false]

theorem lastPart?_open (h : t.is "<" = true) :
    lastPart? depth (t :: rest) = lastPart? (depth + 1) rest := by
  rw [lastPart?.eq_def]
  simp only [h, if_true]

theorem lastPart?_close (h : t.is ">" = true) :
    lastPart? depth (t :: rest) = lastPart? (depth - 1) rest := by
  have hopen : t.is "<" = false := Tree.is_eq_false h (by decide)
  rw [lastPart?.eq_def]
  simp only [h, hopen, Bool.false_eq_true, if_false, if_true]

theorem lastPart?_pass (hopen : t.is "<" = false) (hclose : t.is ">" = false) :
    lastPart? depth (t :: rest)
      = if depth = 0 then (lastPart? 0 rest).or t.word? else lastPart? depth rest := by
  rw [lastPart?.eq_def]
  simp only [hopen, hclose, Bool.false_eq_true, if_false]

end

theorem argumentsLength?_append {inside : List Tree} (h : IsArguments inside) (depth : Nat)
    (rest : List Tree) :
    argumentsLength? depth (inside ++ rest)
      = (argumentsLength? depth rest).map (· + inside.length) := by
  induction h generalizing depth rest with
  | nil => simp
  | cons hopen hclose hpass _ ih =>
      rw [List.cons_append, argumentsLength?_pass _ _ hopen hclose, if_pos hpass, ih,
        Option.map_map]
      rfl
  | @nested inside ts opening closing _ _ ihInside ihRest =>
      have hopen : (Tree.leaf opening.1).is "<" = true := opening.is_eq "<"
      have hclose : (Tree.leaf closing.1).is ">" = true := closing.is_eq ">"
      rw [List.cons_append, argumentsLength?_open _ _ hopen, List.append_assoc, ihInside,
        List.cons_append, (argumentsLength?_close depth _ hclose).2, ihRest, Option.map_map,
        Option.map_map, Option.map_map]
      congr 1
      funext n
      simp only [Function.comp_apply, List.length_cons, List.length_append]
      omega

theorem lastPart?_arguments {inside : List Tree} (h : IsArguments inside) (depth : Nat)
    (rest : List Tree) : lastPart? (depth + 1) (inside ++ rest) = lastPart? (depth + 1) rest := by
  induction h generalizing depth rest with
  | nil => rfl
  | cons hopen hclose _ _ ih =>
      rw [List.cons_append, lastPart?_pass _ _ hopen hclose, if_neg (Nat.succ_ne_zero depth), ih]
  | @nested inside ts opening closing _ _ ihInside ihRest =>
      have hopen : (Tree.leaf opening.1).is "<" = true := opening.is_eq "<"
      have hclose : (Tree.leaf closing.1).is ">" = true := closing.is_eq ">"
      rw [List.cons_append, lastPart?_open _ _ hopen, List.append_assoc, ihInside,
        List.cons_append, lastPart?_close _ _ hclose, Nat.add_sub_cancel, ihRest]

theorem IsArguments.not_isConditional {ts : List Tree} (h : IsArguments ts) :
    ∀ t ∈ ts, t.isConditional = false := by
  induction h with
  | nil => intro t ht; cases ht
  | @cons t ts _ _ hpass _ ih =>
      refine List.forall_mem_cons.mpr ⟨?_, ih⟩
      cases t with
      | group o inside c => rfl
      | leaf w =>
          cases hword : w.isWord with
          | true => exact isConditional_of_isWord hword
          | false =>
              simp only [Tree.word?_leaf, hword, Tree.opens_leaf, Bool.or_eq_true] at hpass
              simp at hpass
              rcases hpass with (((h | h) | h) | h) | h <;> exact isConditional_of_is h
  | nested opening closing _ _ ihInside ihRest =>
      refine List.forall_mem_cons.mpr ⟨opening.isConditional_eq, fun t ht => ?_⟩
      rcases List.mem_append.mp ht with ht | ht
      · exact ihInside t ht
      · rcases List.mem_cons.mp ht with rfl | ht
        · exact closing.isConditional_eq
        · exact ihRest t ht

namespace WrittenArguments

variable (a : WrittenArguments) (rest : List Tree)

theorem is_opening : (Tree.leaf a.opening.1).is "<" = true :=
  a.opening.is_eq "<"

theorem is_closing : (Tree.leaf a.closing.1).is ">" = true :=
  a.closing.is_eq ">"

/-- The argument list is closed by its own bracket, whatever follows it. -/
theorem argumentsLength?_inside :
    argumentsLength? 0 (a.inside ++ .leaf a.closing.1 :: rest) = some (a.inside.length + 1) := by
  rw [argumentsLength?_append a.isArguments, (argumentsLength?_close 0 rest a.is_closing).1,
    Option.map_some, Nat.add_comm]

/-- No word in an argument list is a part of the name in front of it. -/
theorem lastPart?_append : lastPart? 0 (a.trees ++ rest) = lastPart? 0 rest := by
  rw [trees, List.cons_append, List.append_assoc, lastPart?_open _ _ a.is_opening,
    lastPart?_arguments a.isArguments, List.singleton_append, lastPart?_close _ _ a.is_closing]

theorem trees_append :
    a.trees ++ rest = .leaf a.opening.1 :: (a.inside ++ .leaf a.closing.1 :: rest) := by
  simp [trees]

theorem length_trees : a.trees.length = a.inside.length + 2 := by
  simp [trees]

theorem not_isConditional : ∀ t ∈ a.trees, t.isConditional = false :=
  List.forall_mem_cons.mpr ⟨a.opening.isConditional_eq, List.forall_mem_append.mpr
    ⟨a.isArguments.not_isConditional, List.forall_mem_singleton.mpr a.closing.isConditional_eq⟩⟩

end WrittenArguments

theorem nameLength?_arguments {ts : List Tree} (hts : ts ≠ []) (rest : List Tree) :
    nameLength? (.arguments ts.length) (ts ++ rest)
      = (nameLength? .afterPart rest).map (· + ts.length) := by
  induction ts with
  | nil => exact absurd rfl hts
  | cons t ts ih =>
      cases ts with
      | nil => simp [nameLength?]
      | cons u us =>
          rw [List.cons_append, nameLength?, List.length_cons, if_neg (by simp),
            Nat.add_sub_cancel, ih (by simp), Option.map_map]
          rfl

theorem WrittenArguments.nameLength?_append (a : WrittenArguments) (rest : List Tree) :
    nameLength? .afterPart (a.trees ++ rest)
      = (nameLength? .afterPart rest).map (· + a.trees.length) := by
  have hdot : (Tree.leaf a.opening.1).is "." = false := a.opening.is_eq "."
  have hcolons : (Tree.leaf a.opening.1).is "::" = false := a.opening.is_eq "::"
  have hinside : a.inside ++ .leaf a.closing.1 :: rest
      = (a.inside ++ [Tree.leaf a.closing.1]) ++ rest := by simp
  have hlength : a.inside.length + 1 = (a.inside ++ [Tree.leaf a.closing.1]).length := by simp
  rw [a.trees_append, nameLength?, hdot, hcolons, a.is_opening, a.argumentsLength?_inside rest]
  simp only [Bool.or_self, Bool.false_eq_true, if_false, if_true]
  rw [hinside, hlength, nameLength?_arguments (by simp), Option.map_map, a.length_trees]
  simp [Function.comp_def, Nat.add_assoc]

/-! ## Dotted names -/

theorem isWord_of_namesType {w : Token} (h : (Tree.leaf w).namesType = true) :
    w.isWord = true := by
  have hword := (Bool.and_eq_true_iff.mp h).1
  rw [Tree.word?_leaf] at hword
  split at hword
  · assumption
  · cases hword

namespace NamePart

variable (p : NamePart) (rest : List Tree)

theorem nameLength?_append :
    nameLength? .part (p.trees ++ rest)
      = (nameLength? .afterPart rest).map (· + p.trees.length) := by
  rw [trees, List.cons_append, nameLength?, if_pos p.namesType]
  cases p.arguments with
  | none => simp
  | some a =>
      rw [Option.map_some, Option.getD_some, a.nameLength?_append, Option.map_map]
      rfl

theorem isWord : p.word.isWord = true :=
  isWord_of_namesType p.namesType

/-- The word of a part counts, its type arguments do not. -/
theorem lastPart?_append :
    lastPart? 0 (p.trees ++ rest) = (lastPart? 0 rest).or (some p.word) := by
  have hopen : (Tree.leaf p.word).is "<" = false := is_of_isName p.isName (by decide)
  have hclose : (Tree.leaf p.word).is ">" = false := is_of_isName p.isName (by decide)
  rw [trees, List.cons_append, lastPart?_pass _ _ hopen hclose, if_pos rfl, Tree.word?_leaf,
    if_pos p.isWord]
  cases p.arguments with
  | none => rfl
  | some a => rw [Option.map_some, Option.getD_some, a.lastPart?_append]

end NamePart

theorem IsSeparator.is_dot_or_colons {t : Token} (h : IsSeparator t) :
    ((Tree.leaf t).is "." || (Tree.leaf t).is "::") = true := by
  obtain ⟨hkind, htext | htext⟩ := h
  · rw [Tree.is_leaf, Mark.is_eq ⟨t, hkind, htext⟩]
    rfl
  · rw [Tree.is_leaf, Tree.is_leaf, Mark.is_eq ⟨t, hkind, htext⟩, Mark.is_eq ⟨t, hkind, htext⟩]
    rfl

theorem IsSeparator.is_eq_false {t : Token} (h : IsSeparator t) {s : String}
    (hdot : (".".toList == s.toList) = false) (hcolons : ("::".toList == s.toList) = false) :
    (Tree.leaf t).is s = false := by
  obtain ⟨hkind, htext | htext⟩ := h
  · exact (Mark.is_eq ⟨t, hkind, htext⟩ s).trans hdot
  · exact (Mark.is_eq ⟨t, hkind, htext⟩ s).trans hcolons

namespace WrittenName

theorem trees_cons {x : NamePart × Token} {front : List (NamePart × Token)} {last : NamePart}
    (h : ∀ y ∈ x :: front, IsSeparator y.2) :
    (WrittenName.mk (x :: front) last h).trees = x.1.trees ++ .leaf x.2 ::
      (WrittenName.mk front last fun y hy => h y (List.mem_cons_of_mem x hy)).trees := by
  simp [trees]

variable (n : WrittenName) (rest : List Tree)

/-- A dotted name is read up to its last part, and goes on only if what follows goes on. -/
theorem nameLength?_append :
    nameLength? .part (n.trees ++ rest)
      = (nameLength? .afterPart rest).map (· + n.trees.length) := by
  obtain ⟨front, last, hseparated⟩ := n
  induction front with
  | nil => exact last.nameLength?_append rest
  | cons x front ih =>
      have hsep : ((Tree.leaf x.2).is "." || (Tree.leaf x.2).is "::") = true :=
        IsSeparator.is_dot_or_colons (hseparated x List.mem_cons_self)
      rw [trees_cons hseparated, List.append_assoc, List.cons_append, x.1.nameLength?_append,
        nameLength?, if_pos hsep, ih, Option.map_map, Option.map_map]
      simp [Function.comp_def, Nat.add_assoc, Nat.add_comm, Nat.add_left_comm]

theorem lastPart?_trees : lastPart? 0 n.trees = some n.last.word := by
  obtain ⟨front, last, hseparated⟩ := n
  induction front with
  | nil =>
      have hlast := last.lastPart?_append []
      rwa [List.append_nil] at hlast
  | cons x front ih =>
      have hx := hseparated x List.mem_cons_self
      have hopen : (Tree.leaf x.2).is "<" = false :=
        IsSeparator.is_eq_false hx (by decide) (by decide)
      have hclose : (Tree.leaf x.2).is ">" = false :=
        IsSeparator.is_eq_false hx (by decide) (by decide)
      rw [trees_cons hseparated, x.1.lastPart?_append, lastPart?_pass _ _ hopen hclose, if_pos rfl,
        ih]
      rfl

theorem not_isConditional : ∀ t ∈ n.trees, t.isConditional = false := by
  have hpart (p : NamePart) : ∀ t ∈ p.trees, t.isConditional = false := by
    refine List.forall_mem_cons.mpr ⟨isConditional_of_isWord p.isWord, ?_⟩
    cases p.arguments with
    | none => intro t ht; cases ht
    | some a => exact a.not_isConditional
  obtain ⟨front, last, hseparated⟩ := n
  induction front with
  | nil => exact hpart last
  | cons x front ih =>
      have hx := (hseparated x List.mem_cons_self).is_dot_or_colons
      have hcondition : (Tree.leaf x.2).isConditional = false := by
        rcases Bool.or_eq_true_iff.mp hx with hx | hx <;> exact isConditional_of_is hx
      rw [trees_cons hseparated]
      exact List.forall_mem_append.mpr ⟨hpart x.1, List.forall_mem_cons.mpr ⟨hcondition, ih _⟩⟩

/-- The first part of a name. -/
def firstPart : NamePart :=
  (n.front.head?.map Prod.fst).getD n.last

/-- A name begins with the word of its first part. -/
theorem exists_trees_eq : ∃ ts, n.trees = .leaf n.firstPart.word :: ts := by
  obtain ⟨front, last, hseparated⟩ := n
  cases front with
  | nil => exact ⟨_, rfl⟩
  | cons x front => exact ⟨_, rfl⟩

theorem trees_ne_nil : n.trees ≠ [] := by
  obtain ⟨ts, hts⟩ := n.exists_trees_eq
  simp [hts]

end WrittenName

/-! ## Types -/

theorem nameLength?_afterPart_of_ends {t : Tree} {rest : List Tree} (hdot : t.is "." = false)
    (hcolons : t.is "::" = false) (hopen : t.is "<" = false) :
    nameLength? .afterPart (t :: rest) = some 0 := by
  rw [nameLength?, hdot, hcolons, hopen]
  rfl

namespace Tree

/-- A nullable, pointer or array mark. -/
def isTypeMark (t : Tree) : Bool :=
  t.is "?" || t.is "*" || t.opens '['

theorem isTypeMark_ends {t : Tree} (h : t.isTypeMark = true) {s : String}
    (hquestion : "?".toList ≠ s.toList) (hstar : "*".toList ≠ s.toList) : t.is s = false := by
  rw [isTypeMark, Bool.or_eq_true, Bool.or_eq_true] at h
  obtain (h | h) | h := h
  · exact is_eq_false h hquestion
  · exact is_eq_false h hstar
  · cases t with
    | leaf w => cases h
    | group o inside c => rfl

theorem endsType_iff {t : Tree} : t.endsType = true ↔
    t.is "." = false ∧ t.is "::" = false ∧ t.is "<" = false ∧ t.isTypeMark = false := by
  simp only [endsType, isTypeMark, Bool.not_eq_true', Bool.or_eq_false_iff, and_assoc]

/-- A name, like what stands behind a type, is none of the marks that a type goes on with. -/
theorem endsType_of_isName {w : Token} (h : IsName w.text) : (Tree.leaf w).endsType = true := by
  have hmark {s : String} (hs : s ∈ nameMarks) : (Tree.leaf w).is s = false := is_of_isName h hs
  rw [endsType_iff]
  refine ⟨hmark (by decide), hmark (by decide), hmark (by decide), ?_⟩
  rw [isTypeMark, hmark (by decide), hmark (by decide)]
  rfl

end Tree

namespace WrittenType

variable {next : Tree} (rest : List Tree)

theorem base_trees_ne_nil (b : TypeBase) : b.trees ≠ [] := by
  cases b with
  | named n => exact n.trees_ne_nil
  | tuple b inside => exact List.cons_ne_nil _ _
  | functionPointer k s a => exact List.cons_ne_nil _ _

/-- The marks of a type end its name. -/
theorem afterPart_marks {marks : List Tree} (hmarks : ∀ t ∈ marks, t.isTypeMark = true)
    (hends : next.endsType = true) :
    nameLength? .afterPart (marks ++ next :: rest) = some 0 := by
  cases marks with
  | nil =>
      obtain ⟨hdot, hcolons, hopen, -⟩ := Tree.endsType_iff.mp hends
      exact nameLength?_afterPart_of_ends hdot hcolons hopen
  | cons t ts =>
      have ht := hmarks t List.mem_cons_self
      exact nameLength?_afterPart_of_ends (Tree.isTypeMark_ends ht (by decide) (by decide))
        (Tree.isTypeMark_ends ht (by decide) (by decide))
        (Tree.isTypeMark_ends ht (by decide) (by decide))

theorem suffixLength_append {marks : List Tree} (hmarks : ∀ t ∈ marks, t.isTypeMark = true)
    (hends : next.endsType = true) : suffixLength (marks ++ next :: rest) = marks.length := by
  have hnext : next.isTypeMark = false := (Tree.endsType_iff.mp hends).2.2.2
  have hall : ∀ t ∈ marks, (t.is "?" || t.is "*" || t.opens '[') = true := hmarks
  rw [suffixLength, List.takeWhile_append_of_pos hall,
    List.takeWhile_cons_of_neg (by simpa [Tree.isTypeMark] using hnext), List.append_nil]

end WrittenType

/-- The words in front of a type are counted apart. -/
theorem typeLength?_refs {refs : List Token} {t : Tree}
    (hrefs : ∀ w ∈ refs, w.isOneOf passedBy = true) (ht : t.isOneOf passedBy = false)
    (ts : List Tree) :
    typeLength? (refs.map .leaf ++ t :: ts) = (typeLength? (t :: ts)).map (refs.length + ·) := by
  have hall : ∀ u ∈ refs.map Tree.leaf, u.isOneOf ["ref", "readonly", "scoped"] = true := by
    intro u hu
    obtain ⟨w, hw, rfl⟩ := List.mem_map.mp hu
    exact hrefs w hw
  have hnone : (t :: ts).takeWhile (Tree.isOneOf ["ref", "readonly", "scoped"]) = [] :=
    List.takeWhile_cons_of_neg (by simpa [passedBy] using ht)
  have hcount : (refs.map Tree.leaf ++ t :: ts).takeWhile
      (Tree.isOneOf ["ref", "readonly", "scoped"]) = refs.map .leaf := by
    rw [List.takeWhile_append_of_pos hall, hnone, List.append_nil]
  have hdrop : (refs.map Tree.leaf ++ t :: ts).drop refs.length = t :: ts := by
    rw [← List.length_map Tree.leaf, List.drop_left]
  simp only [typeLength?, hcount, hnone, List.length_nil, List.drop_zero, Option.map_map,
    List.length_map, hdrop, Nat.zero_add, Function.comp_def, Nat.add_assoc]

/-- A type without words in front of it is a tuple, a function pointer or a name, and its marks. -/
theorem typeLength?_cons {t : Tree} (ht : t.isOneOf passedBy = false) (ts : List Tree) :
    typeLength? (t :: ts)
      = (if t.opens '(' then some 1
        else if t.is "delegate" && (ts.headD t).is "*" then
          (nameLength? .afterPart (ts.drop 1)).map (· + 2)
        else nameLength? .part (t :: ts)).map fun n => n + suffixLength ((t :: ts).drop n) := by
  have hnone : (t :: ts).takeWhile (Tree.isOneOf ["ref", "readonly", "scoped"]) = [] :=
    List.takeWhile_cons_of_neg (by simpa [passedBy] using ht)
  simp only [typeLength?, hnone, List.length_nil, List.drop_zero, Nat.zero_add]

theorem Tree.is_of_namesType {t : Tree} (h : t.namesType = true) {s : String}
    (hs : s ∈ reservedWords) : t.is s = false := by
  obtain ⟨-, hreserved⟩ := Bool.and_eq_true_iff.mp h
  cases t with
  | group o inside c => rfl
  | leaf w =>
      cases his : (Tree.leaf w).is s with
      | false => rfl
      | true =>
          have hword : w.isWord = true := isWord_of_namesType h
          have htext : (w.text == s.toList) = true := (Bool.and_eq_true_iff.mp his).1
          have hone : (Tree.leaf w).isOneOf reservedWords = true := by
            rw [Tree.isOneOf, Token.isOneOf, hword, Bool.true_and]
            exact List.any_eq_true.mpr ⟨s, hs, htext⟩
          rw [hone] at hreserved
          cases hreserved

/-- The base of a type is read up to its end when no name goes on behind it. -/
theorem TypeBase.typeLength?_append (b : TypeBase) {behind : List Tree}
    (hbegins : ∀ t ∈ b.trees.head?, t.isOneOf passedBy = false)
    (hends : nameLength? .afterPart behind = some 0) :
    typeLength? (b.trees ++ behind) = some (b.trees.length + suffixLength behind) := by
  cases b with
  | named n =>
      obtain ⟨ts, hts⟩ := n.exists_trees_eq
      have hfirst : (Tree.leaf n.firstPart.word).isOneOf passedBy = false :=
        hbegins _ (by rw [trees, hts]; rfl)
      have hdelegate : (Tree.leaf n.firstPart.word).is "delegate" = false :=
        Tree.is_of_namesType n.firstPart.namesType (by decide)
      have hlength : nameLength? .part (.leaf n.firstPart.word :: (ts ++ behind))
          = some (ts.length + 1) := by
        rw [← List.cons_append, ← hts, n.nameLength?_append, hends, hts]
        simp
      rw [trees, hts, List.cons_append, typeLength?_cons hfirst, Tree.opens_leaf, hdelegate,
        hlength]
      simp
  | tuple b inside =>
      have hfirst : (b.around inside).isOneOf passedBy = false := rfl
      rw [trees, List.singleton_append, typeLength?_cons hfirst, b.opens_eq]
      simp
  | functionPointer k s a =>
      have hfirst : (Tree.leaf k.1).isOneOf passedBy = false := hbegins _ rfl
      have hkeyword : (Tree.leaf k.1).is "delegate" = true := k.is_eq "delegate"
      have hstar : (Tree.leaf s.1).is "*" = true := s.is_eq "*"
      rw [trees, List.cons_append, List.cons_append, typeLength?_cons hfirst, Tree.opens_leaf,
        hkeyword, List.headD_cons, hstar, List.drop_one, List.tail_cons, a.nameLength?_append,
        hends]
      simp

/-- A type is read up to the tree behind it that ends it. -/
theorem WrittenType.typeLength?_append (t : WrittenType) {next : Tree} (rest : List Tree)
    (hends : next.endsType = true) :
    typeLength? (t.trees ++ next :: rest) = some t.trees.length := by
  obtain ⟨refs, base, marks, hrefs, hbegins, hmarks⟩ := t
  have hbase := base.typeLength?_append hbegins (afterPart_marks rest hmarks hends)
  cases htrees : base.trees with
  | nil => exact absurd htrees (base_trees_ne_nil base)
  | cons u us =>
      have hu : u.isOneOf passedBy = false := hbegins u (by rw [htrees]; rfl)
      rw [htrees, List.cons_append] at hbase
      simp only [trees, htrees, List.append_assoc, List.cons_append]
      rw [typeLength?_refs hrefs hu, hbase, suffixLength_append rest hmarks hends]
      simp only [Option.map_some, List.length_append, List.length_map, List.length_cons]
      rw [Nat.add_right_comm]

end ComponentAtlas.CSharp
