import ComponentAtlas.Proofs.CSharp.WrittenNames

/-!
# Attribute lists and modifiers are read back

A list is cut at its commas, but not at those of type arguments, which are counted off when their
bracket comes up.  Of a part of a list it is asked that it stays together in front of what follows
it: then the parts are the elements again.

Behind the attribute lists stand the modifiers.  Whether a word is one hangs on at most two trees
behind it, so a header is read in the same way whatever follows the declaration.
-/

namespace ComponentAtlas.CSharp

/-! ## Lists with commas -/

theorem commaParts_ne_nil (skip : Nat) (ts : List Tree) : commaParts skip ts ≠ [] := by
  cases ts with
  | nil => simp [commaParts]
  | cons t rest =>
      rw [commaParts]
      split
      · simp
      · simp only
        split <;> simp

section

variable {t : Tree} (rest : List Tree)

theorem commaParts_comma (h : t.is "," = true) :
    commaParts 0 (t :: rest) = [] :: commaParts 0 rest := by
  rw [commaParts, if_pos ⟨rfl, h⟩]

theorem commaParts_step {skip : Nat} (h : ¬(skip = 0 ∧ t.is "," = true)) :
    commaParts skip (t :: rest)
      = (commaParts (if 0 < skip then skip - 1
          else if t.is "<" then (argumentsLength? 0 rest).getD 0
          else 0) rest).modifyHead (t :: ·) := by
  rw [commaParts, if_neg h]
  simp only
  cases hparts : commaParts _ rest with
  | nil => exact absurd hparts (commaParts_ne_nil _ _)
  | cons part parts => rfl

/-- What is neither a comma nor an opening angle bracket belongs to its part. -/
theorem commaParts_cons (hcomma : t.is "," = false) (hopen : t.is "<" = false) :
    commaParts 0 (t :: rest) = (commaParts 0 rest).modifyHead (t :: ·) := by
  rw [commaParts_step rest (by simp [hcomma]), hopen]
  rfl

end

theorem commaParts_skip (ts rest : List Tree) :
    commaParts ts.length (ts ++ rest) = (commaParts 0 rest).modifyHead (ts ++ ·) := by
  induction ts with
  | nil => exact (congrFun List.modifyHead_id (commaParts 0 rest)).symm
  | cons t ts ih =>
      rw [List.length_cons, List.cons_append, commaParts_step _ (by simp), if_pos (Nat.succ_pos _),
        Nat.add_sub_cancel, ih, List.modifyHead_modifyHead]
      rfl

/-- Whether some trees are in one part of a list that goes on with `rest`. -/
def StayTogether (ts rest : List Tree) : Prop :=
  commaParts 0 (ts ++ rest) = (commaParts 0 rest).modifyHead (ts ++ ·)

namespace StayTogether

variable {ts us rest : List Tree}

theorem nil : StayTogether [] rest :=
  (congrFun List.modifyHead_id (commaParts 0 rest)).symm

theorem append (hts : StayTogether ts (us ++ rest)) (hus : StayTogether us rest) :
    StayTogether (ts ++ us) rest := by
  rw [StayTogether, List.append_assoc, hts, hus, List.modifyHead_modifyHead]
  simp [Function.comp_def]

theorem cons {t : Tree} (hcomma : t.is "," = false) (hopen : t.is "<" = false)
    (hts : StayTogether ts rest) : StayTogether (t :: ts) rest := by
  rw [StayTogether, List.cons_append, commaParts_cons _ hcomma hopen, hts,
    List.modifyHead_modifyHead]
  rfl

end StayTogether

theorem WrittenArguments.stayTogether (a : WrittenArguments) (rest : List Tree) :
    StayTogether a.trees rest := by
  have hcomma : (Tree.leaf a.opening.1).is "," = false := a.opening.is_eq ","
  have hinside : a.inside ++ .leaf a.closing.1 :: rest
      = (a.inside ++ [Tree.leaf a.closing.1]) ++ rest := by simp
  have hlength : a.inside.length + 1 = (a.inside ++ [Tree.leaf a.closing.1]).length := by simp
  rw [StayTogether, a.trees_append, commaParts_step _ (by simp [hcomma]), if_neg (by simp),
    if_pos a.is_opening, a.argumentsLength?_inside, Option.getD_some, hinside, hlength,
    commaParts_skip, List.modifyHead_modifyHead]
  simp [Function.comp_def, a.trees_append]

theorem NamePart.stayTogether (p : NamePart) (rest : List Tree) : StayTogether p.trees rest := by
  refine StayTogether.cons (is_of_isName p.isName (by decide))
    (is_of_isName p.isName (by decide)) ?_
  cases p.arguments with
  | none => exact StayTogether.nil
  | some a => exact a.stayTogether rest

theorem WrittenName.stayTogether (n : WrittenName) (rest : List Tree) :
    StayTogether n.trees rest := by
  obtain ⟨front, last, hseparated⟩ := n
  induction front with
  | nil => exact last.stayTogether rest
  | cons x front ih =>
      have hx := hseparated x List.mem_cons_self
      rw [trees_cons hseparated]
      exact (x.1.stayTogether _).append (.cons (hx.is_eq_false (by decide) (by decide))
        (hx.is_eq_false (by decide) (by decide)) (ih _))

theorem WrittenAttribute.stayTogether (a : WrittenAttribute) (rest : List Tree) :
    StayTogether a.trees rest := by
  refine (a.name.stayTogether _).append ?_
  cases a.arguments with
  | none => exact StayTogether.nil
  | some x => exact .cons rfl rfl .nil

namespace CommaList

variable {α : Type} {write : α → List Tree}

/-- What is written between the commas, and behind the last one. -/
def parts (write : α → List Tree) (l : CommaList α) : List (List Tree) :=
  l.front.map (fun x => write x.1) ++ [(l.last.map write).getD []]

/-- A list is cut at its commas when each element stays together.  What follows an element matters
for that, so some property of it may be used that goes from the end of the list to the front. -/
theorem commaParts_trees (follows : List Tree → Prop) (hnil : follows [])
    (hcomma : ∀ (m : Mark ",") rest, follows rest → follows (.leaf m.1 :: rest))
    (helement : ∀ x rest, follows rest → follows (write x ++ rest) ∧ StayTogether (write x) rest)
    (l : CommaList α) : commaParts 0 (l.trees write) = l.parts write := by
  obtain ⟨front, last⟩ := l
  have hlast : follows ((last.map write).getD []) ∧
      commaParts 0 ((last.map write).getD []) = [(last.map write).getD []] := by
    cases last with
    | none => exact ⟨hnil, rfl⟩
    | some x =>
        obtain ⟨hfollows, htogether⟩ := helement x [] hnil
        rw [StayTogether, List.append_nil] at htogether
        rw [List.append_nil] at hfollows
        exact ⟨hfollows, by simpa [commaParts] using htogether⟩
  have hall : follows ((CommaList.mk front last).trees write) ∧
      commaParts 0 ((CommaList.mk front last).trees write)
        = (CommaList.mk front last).parts write := by
    induction front with
    | nil => exact hlast
    | cons x front ih =>
        obtain ⟨hfollows, hparts⟩ := ih
        have htrees : (CommaList.mk (x :: front) last).trees write
            = write x.1 ++ .leaf x.2.1 :: (CommaList.mk front last).trees write := by
          simp [trees]
        have hmark : (Tree.leaf x.2.1).is "," = true := x.2.is_eq ","
        obtain ⟨hwritten, htogether⟩ := helement x.1 _ (hcomma x.2 _ hfollows)
        rw [htrees]
        refine ⟨hwritten, ?_⟩
        rw [htogether, commaParts_comma _ hmark, hparts]
        simp [parts]
  exact hall.2

/-- The parts that hold something are the elements. -/
theorem filterMap_parts {β : Type} {read : List Tree → Option β} {result : α → β}
    (hempty : read [] = none) (hread : ∀ x, read (write x) = some (result x)) (l : CommaList α) :
    (l.parts write).filterMap read = l.elements.map result := by
  obtain ⟨front, last⟩ := l
  have hfront : (front.map fun x => write x.1).filterMap read
      = (front.map Prod.fst).map result := by
    simp [List.filterMap_map, Function.comp_def, hread]
  rw [parts, List.filterMap_append, hfront]
  cases last with
  | none => simp [elements, hempty]
  | some x => simp [elements, hread]

end CommaList

/-! ## Attribute lists -/

theorem WrittenAttribute.trees_ne_nil (a : WrittenAttribute) : a.trees ≠ [] :=
  List.append_ne_nil_of_left_ne_nil a.name.trees_ne_nil _

/-- What follows the first word of a name is no colon, unless what follows the name is one. -/
theorem WrittenName.tail_not_colon (n : WrittenName) {rest : List Tree}
    (hrest : ∀ t ∈ rest.head?, t.is ":" = false) :
    ∀ t ∈ (n.trees ++ rest).tail.head?, t.is ":" = false := by
  have hpart (p : NamePart) {us : List Tree} (hus : ∀ t ∈ us.head?, t.is ":" = false) :
      ∀ t ∈ (p.trees ++ us).tail.head?, t.is ":" = false := by
    intro t ht
    cases hargs : p.arguments with
    | none => exact hus t (by simpa [NamePart.trees, hargs] using ht)
    | some a =>
        have hopening : t = .leaf a.opening.1 := by
          simpa [NamePart.trees, hargs, WrittenArguments.trees, eq_comm] using ht
        exact hopening ▸ a.opening.is_eq ":"
  obtain ⟨front, last, hseparated⟩ := n
  cases front with
  | nil => exact hpart last hrest
  | cons x front =>
      rw [trees_cons hseparated, List.append_assoc, List.cons_append]
      refine hpart x.1 fun t ht => ?_
      obtain rfl : .leaf x.2 = t := by simpa using ht
      exact (hseparated x List.mem_cons_self).is_eq_false (by decide) (by decide)

namespace AttributeList

variable (l : AttributeList)

theorem attributes_tail_not_colon :
    ∀ t ∈ (l.attributes.trees WrittenAttribute.trees).tail.head?, t.is ":" = false := by
  have hgroup (a : WrittenAttribute) (rest : List Tree)
      (hrest : ∀ t ∈ rest.head?, t.is ":" = false) :
      ∀ t ∈ (a.trees ++ rest).tail.head?, t.is ":" = false := by
    rw [WrittenAttribute.trees, List.append_assoc]
    refine a.name.tail_not_colon fun t ht => ?_
    cases hargs : a.arguments with
    | none => exact hrest t (by simpa [hargs] using ht)
    | some x =>
        obtain rfl : x.1.around x.2 = t := by simpa [hargs] using ht
        rfl
  obtain ⟨front, last⟩ := l.attributes
  cases front with
  | nil =>
      cases last with
      | none => intro t ht; cases ht
      | some a =>
          have hlast := hgroup a [] (fun t ht => by cases ht)
          simpa [CommaList.trees] using hlast
  | cons x front =>
      simp only [CommaList.trees, List.flatMap_cons, List.append_assoc, List.singleton_append]
      refine hgroup x.1 _ fun t ht => ?_
      obtain rfl : .leaf x.2.1 = t := by simpa using ht
      exact x.2.is_eq ":"

theorem commaParts_attributes :
    (commaParts 0 (l.attributes.trees WrittenAttribute.trees)).filterMap
      (fun part => if part.isEmpty then none else some (Tree.span part)) = l.texts := by
  rw [CommaList.commaParts_trees (fun _ => True) trivial (fun _ _ _ => trivial)
    fun a rest _ => ⟨trivial, a.stayTogether rest⟩]
  refine CommaList.filterMap_parts (by simp) (fun a => ?_) l.attributes
  simp [a.trees_ne_nil]

/-- The attributes of a list are read without its target. -/
theorem attributesOf_inside : attributesOf l.inside = l.texts := by
  have htail := l.attributes_tail_not_colon
  have hparts := l.commaParts_attributes
  rw [inside]
  cases htarget : l.target with
  | some x =>
      have hword : (Tree.leaf x.1).word?.isSome = true := by
        rw [Tree.word?_leaf, if_pos (l.isTarget x htarget).1]
        rfl
      have hcolon : (Tree.leaf x.2.1).is ":" = true := x.2.is_eq ":"
      simpa [attributesOf, hword, hcolon] using hparts
  | none =>
      cases hinside : l.attributes.trees WrittenAttribute.trees with
      | nil => rw [hinside] at hparts; exact hparts
      | cons t ts =>
          cases ts with
          | nil => rw [hinside] at hparts; exact hparts
          | cons u us =>
              have hu : u.is ":" = false := htail u (by rw [hinside]; rfl)
              rw [hinside] at hparts
              simpa [attributesOf, hu] using hparts

theorem isGlobalAttributes_tree : isGlobalAttributes l.tree = false := by
  have htail := l.attributes_tail_not_colon
  rw [isGlobalAttributes, tree, l.brackets.inside?_eq, if_pos rfl, inside]
  cases htarget : l.target with
  | some x =>
      have hone : (Tree.leaf x.1).isOneOf ["assembly", "module"] = false :=
        (l.isTarget x htarget).2
      simp [hone]
  | none =>
      cases hinside : l.attributes.trees WrittenAttribute.trees with
      | nil => rfl
      | cons t ts =>
          cases ts with
          | nil => rfl
          | cons u us =>
              have hu : u.is ":" = false := htail u (by rw [hinside]; rfl)
              simp [hu]

end AttributeList

theorem takeAttributes_lists (lists : List AttributeList) {rest : List Tree}
    (hrest : ∀ t ∈ rest.head?, t.opens '[' = false) :
    takeAttributes (lists.map AttributeList.tree ++ rest)
      = (lists.flatMap AttributeList.texts, rest) := by
  induction lists with
  | nil =>
      cases rest with
      | nil => rfl
      | cons t ts =>
          have ht : t.inside? '[' = none := by
            have hopens := hrest t rfl
            rwa [Tree.opens, Option.isSome_eq_false_iff, Option.isNone_iff_eq_none] at hopens
          simp [takeAttributes, ht]
  | cons l lists ih =>
      have hinside : l.tree.inside? '[' = some l.inside := by
        rw [AttributeList.tree, l.brackets.inside?_eq, if_pos rfl]
      simp [takeAttributes, hinside, ih, l.attributesOf_inside]

/-! ## Modifiers -/

/-- Whether a word is a modifier is told by the tree behind it, and by the next one only when that
is a group in parentheses. -/
theorem isModifierBefore_append (t : Tree) {next : Tree} {more : List Tree}
    (h : (next.opens '(' && more.isEmpty) = false) (rest : List Tree) :
    isModifierBefore t (next :: (more ++ rest)) = isModifierBefore t (next :: more) := by
  cases more with
  | cons u us => rfl
  | nil =>
      rw [List.isEmpty_nil, Bool.and_true] at h
      simp [isModifierBefore, h]

theorem Token.is_eq_false_of_isOneOf {w : Token} {words : List String}
    (h : w.isOneOf words = true) {s : String}
    (hs : (words.any fun v => v.toList == s.toList) = false) :
    w.is s = false := by
  obtain ⟨v, hv, htext⟩ := List.any_eq_true.mp (Bool.and_eq_true_iff.mp h).2
  have hne : v.toList ≠ s.toList := by
    intro hsame
    have hnot := List.any_eq_false.mp hs v hv
    rw [hsame, beq_self_eq_true] at hnot
    exact hnot rfl
  have hv : w.lexeme.text = v.toList := beq_iff_eq.mp htext
  rw [Token.is, hv, beq_eq_false_iff_ne.mpr hne, Bool.false_and]

/-- A modifier is neither a conditional line nor a sign that ends a declaration. -/
theorem of_isModifierBefore {w : Token} {rest : List Tree}
    (h : isModifierBefore (.leaf w) rest = true) :
    (Tree.leaf w).isConditional = false ∧ ∀ s ∈ [";", "="], (Tree.leaf w).is s = false := by
  unfold isModifierBefore at h
  split at h
  · rename_i href
    refine ⟨isConditional_of_is href, fun s hs => Tree.is_eq_false href ?_⟩
    have hall : ∀ s ∈ [";", "="], "ref".toList ≠ s.toList := by decide
    exact hall s hs
  · have hone : w.isOneOf modifierWords = true := (Bool.and_eq_true_iff.mp h).1
    refine ⟨isConditional_of_isWord (Bool.and_eq_true_iff.mp hone).1, fun s hs =>
      Token.is_eq_false_of_isOneOf hone ?_⟩
    have hall : ∀ s ∈ [";", "="], (modifierWords.any fun v => v.toList == s.toList) = false := by
      decide
    exact hall s hs

namespace WrittenHeader

variable {h : WrittenHeader} {bare : List Tree}

/-- What the trees behind a fitting header begin with. -/
theorem fits_iff : h.fits bare = true ↔
    areModifiers bare h.modifiers = true ∧ ∃ first next rest, bare = first :: next :: rest ∧
      isModifierBefore first (next :: rest) = false ∧ (next.opens '(' && rest.isEmpty) = false ∧
      first.opens '[' = false ∧ first.isConditional = false ∧ first.is ";" = false ∧
      first.is "=" = false ∧ first.is "namespace" = false := by
  cases bare with
  | nil => simp [fits]
  | cons first bare =>
      cases bare with
      | nil => simp [fits]
      | cons next rest =>
          simp only [fits, Bool.and_eq_true, Bool.not_eq_true', and_assoc]
          refine and_congr_right fun _ => ?_
          constructor
          · intro hbare
            exact ⟨first, next, rest, rfl, hbare⟩
          · rintro ⟨first', next', rest', hsame, hbare⟩
            cases hsame
            exact hbare

theorem takeModifiers_append (hfits : h.fits bare = true) (rest : List Tree) :
    takeModifiers (h.modifiers.map .leaf ++ (bare ++ rest))
      = (h.modifiers.map Token.text, bare ++ rest) := by
  obtain ⟨hmodifiers, first, next, more, rfl, hmodifier, hnext, -⟩ := fits_iff.mp hfits
  generalize h.modifiers = modifiers at hmodifiers ⊢
  induction modifiers with
  | nil =>
      have hfirst : isModifierBefore first (next :: (more ++ rest)) = false :=
        (isModifierBefore_append first hnext rest).trans hmodifier
      simp [takeModifiers, hfirst]
  | cons t ts ih =>
      obtain ⟨ht, hts⟩ := Bool.and_eq_true_iff.mp hmodifiers
      have hstill : isModifierBefore (.leaf t)
          (ts.map .leaf ++ (first :: next :: more ++ rest)) = true := by
        rw [← ht]
        cases ts with
        | nil => exact isModifierBefore_append (.leaf t) (by simp) rest
        | cons u us =>
            have happend : isModifierBefore (.leaf t)
                (.leaf u :: ((us.map .leaf ++ first :: next :: more) ++ rest))
                  = isModifierBefore (.leaf t)
                    (.leaf u :: (us.map .leaf ++ first :: next :: more)) :=
              isModifierBefore_append (.leaf t) rfl rest
            simpa using happend
      rw [List.map_cons, List.cons_append, takeModifiers, if_pos hstill, ih hts]
      rfl

/-- The attributes of a header are read, and what is behind them. -/
theorem takeAttributes_append (hfits : h.fits bare = true) (rest : List Tree) :
    takeAttributes (h.trees ++ (bare ++ rest))
      = (h.attributes.map fun a => Tree.span a.trees, h.modifiers.map .leaf ++ (bare ++ rest)) := by
  obtain ⟨-, first, next, more, rfl, -, -, hopens, -⟩ := fits_iff.mp hfits
  have hhead : ∀ t ∈ (h.modifiers.map Tree.leaf ++ (first :: next :: more ++ rest)).head?,
      t.opens '[' = false := by
    intro t ht
    cases hmodifiers : h.modifiers with
    | nil =>
        obtain rfl : first = t := by simpa [hmodifiers] using ht
        exact hopens
    | cons w ws =>
        obtain rfl : .leaf w = t := by simpa [hmodifiers] using ht
        rfl
  rw [trees, List.append_assoc, takeAttributes_lists h.lists hhead, attributes,
    List.map_flatMap]
  rfl

/-- What a declaration begins with: no conditional line, no attributes of the assembly, and no sign
that ends another declaration. -/
theorem exists_first (hfits : h.fits bare = true) (rest : List Tree) :
    ∃ first others, h.trees ++ (bare ++ rest) = first :: others ∧
      first.head.leading = leadingOf (h.trees ++ bare) ∧ first.isConditional = false ∧
      isGlobalAttributes first = false ∧ first.is ";" = false ∧ first.is "=" = false := by
  obtain ⟨hmodifiers, first, next, more, rfl, -, -, hopens, hcondition, hsemicolon, hequals, -⟩ :=
    fits_iff.mp hfits
  rw [trees]
  cases hlists : h.lists with
  | cons l lists =>
      exact ⟨l.tree, _, rfl, rfl, rfl, l.isGlobalAttributes_tree, rfl, rfl⟩
  | nil =>
      cases hwords : h.modifiers with
      | nil =>
          refine ⟨first, _, rfl, rfl, hcondition, ?_, hsemicolon, hequals⟩
          rw [Tree.opens, Option.isSome_eq_false_iff, Option.isNone_iff_eq_none] at hopens
          rw [isGlobalAttributes, hopens]
      | cons w ws =>
          rw [hwords] at hmodifiers
          obtain ⟨hcondition, hmarks⟩ := of_isModifierBefore (Bool.and_eq_true_iff.mp hmodifiers).1
          exact ⟨.leaf w, _, rfl, rfl, hcondition, rfl, hmarks ";" (by decide),
            hmarks "=" (by decide)⟩

theorem not_isConditional (hfits : h.fits bare = true) :
    ∀ t ∈ h.trees, t.isConditional = false := by
  have hmodifiers := (fits_iff.mp hfits).1
  refine List.forall_mem_append.mpr ⟨fun t ht => ?_, ?_⟩
  · obtain ⟨l, -, rfl⟩ := List.mem_map.mp ht
    rfl
  · generalize h.modifiers = modifiers at hmodifiers
    induction modifiers with
    | nil => intro t ht; cases ht
    | cons w ws ih =>
        obtain ⟨hw, hws⟩ := Bool.and_eq_true_iff.mp hmodifiers
        exact List.forall_mem_cons.mpr ⟨(of_isModifierBefore hw).1, ih hws⟩

end WrittenHeader
end ComponentAtlas.CSharp
