import ComponentAtlas.Proofs.CSharp.Places
import ComponentAtlas.Proofs.CSharp.Spelling
import ComponentAtlas.Proofs.Declaration.FormalParameter
import ComponentAtlas.Proofs.Distinct

/-!
# The values of enumerations

A member with an initialiser has the value that is written.  For a member without one the library
takes its text, drops the attribute lists in front and looks for an equals sign in what is left.
There is none in a name, so a value is invented exactly when the lists are not dropped as they are
written (`enum_values_read_iff`).  They are dropped when quotation marks and square brackets in them
are those of string literals without escapes and of nested lists (`dropLists_member`).
-/

namespace ComponentAtlas

open Text CSharp

/-! ## Lists that are dropped as they are written -/

namespace CSharp

/-- Whether a character counts where attribute lists are dropped. -/
def isListSign (c : Char) : Bool :=
  c == '"' || c == '[' || c == ']'

/-- Whether a text is a string literal without a quotation mark in it. -/
def isPlainString : List Char → Bool
  | '"' :: rest => rest == rest.takeWhile (· ≠ '"') ++ ['"']
  | _ => false

/-- Whether a token leaves a scan for the end of a list where it is. -/
def Token.isQuiet (t : Token) : Bool :=
  t.gap.all (fun c => !isListSign c) && (t.text.all (fun c => !isListSign c) || isPlainString t.text)

/-- Whether a token is a bracket that counts for the end of a list. -/
def Token.isBracket (bracket : Char) (t : Token) : Bool :=
  t.gap.all (fun c => !isListSign c) && t.text == [bracket]

namespace Tree

mutual

/-- Whether a scan for the end of a list is behind a tree where it was in front of it. -/
def isQuiet : Tree → Bool
  | .leaf t => t.isQuiet
  | .group o inside c =>
    ((o.isQuiet && c.isQuiet) || (o.isBracket '[' && c.isBracket ']')) && allQuiet inside

def allQuiet : List Tree → Bool
  | [] => true
  | t :: ts => t.isQuiet && allQuiet ts

end

/-- Some trees with everything in front of them. -/
def fullText (ts : List Tree) : List Char :=
  (allTokens ts).flatMap Token.fullText

end Tree
end CSharp

namespace Text

section

variable {depth : Nat} {cs rest : List Char}

theorem afterList?_sign_free (h : cs.all (fun c => !isListSign c) = true) :
    afterList? depth false (cs ++ rest) = afterList? depth false rest := by
  induction cs with
  | nil => rfl
  | cons c cs ih =>
      obtain ⟨hc, hcs⟩ := Bool.and_eq_true_iff.mp h
      simp only [isListSign, Bool.not_eq_true', Bool.or_eq_false_iff, beq_eq_false_iff_ne] at hc
      obtain ⟨⟨hquote, hopen⟩, hclose⟩ := hc
      rw [List.cons_append, afterList?.eq_def]
      simp only [if_neg hquote, if_neg hopen, if_neg hclose, Bool.false_eq_true, if_false, ih hcs]

theorem afterList?_quoted (h : '"' ∉ cs) :
    afterList? depth true (cs ++ '"' :: rest) = afterList? depth false rest := by
  induction cs with
  | nil =>
      rw [List.nil_append, afterList?.eq_def]
      rfl
  | cons c cs ih =>
      rw [List.mem_cons, not_or] at h
      obtain ⟨hc, hcs⟩ := h
      rw [List.cons_append, afterList?.eq_def]
      simp only [if_neg (Ne.symm hc), if_true, ih hcs]

theorem afterList?_open (depth : Nat) (rest : List Char) :
    afterList? depth false ('[' :: rest) = afterList? (depth + 1) false rest := by
  rw [afterList?.eq_def]
  rfl

theorem afterList?_close (depth : Nat) (rest : List Char) :
    afterList? (depth + 1) false (']' :: rest) = afterList? depth false rest ∧
      afterList? 0 false (']' :: rest) = some rest := by
  constructor <;> conv_lhs => rw [afterList?.eq_def]
  · rfl
  · rfl

theorem afterList?_string (h : isPlainString cs = true) :
    afterList? depth false (cs ++ rest) = afterList? depth false rest := by
  unfold isPlainString at h
  split at h
  · rename_i inner
    have hsplit := beq_iff_eq.mp h
    have hfree : '"' ∉ inner.takeWhile (· ≠ '"') := fun hmem => by
      simpa using List.all_eq_true.mp List.all_takeWhile _ hmem
    rw [hsplit, List.cons_append, List.append_assoc, List.singleton_append, afterList?.eq_def]
    exact afterList?_quoted hfree
  · cases h

end

variable (depth : Nat) (rest : List Char)

theorem afterList?_token {t : Token} (h : t.isQuiet = true) :
    afterList? depth false (t.fullText ++ rest) = afterList? depth false rest := by
  obtain ⟨hgap, htext⟩ := Bool.and_eq_true_iff.mp h
  have hfull : t.fullText ++ rest = t.gap ++ (t.text ++ rest) := List.append_assoc _ _ _
  rw [hfull, afterList?_sign_free hgap]
  rcases Bool.or_eq_true_iff.mp htext with htext | htext
  · exact afterList?_sign_free htext
  · exact afterList?_string htext

theorem fullText_of_isBracket {bracket : Char} {t : Token} (h : t.isBracket bracket = true) :
    afterList? depth false (t.fullText ++ rest) = afterList? depth false (bracket :: rest) := by
  obtain ⟨hgap, htext⟩ := Bool.and_eq_true_iff.mp h
  have hfull : t.fullText ++ rest = t.gap ++ (t.text ++ rest) := List.append_assoc _ _ _
  rw [hfull, afterList?_sign_free hgap, beq_iff_eq.mp htext]
  rfl

mutual

theorem afterList?_tree (t : Tree) (h : t.isQuiet = true) (depth : Nat) (rest : List Char) :
    afterList? depth false (t.tokens.flatMap Token.fullText ++ rest)
      = afterList? depth false rest := by
  cases t with
  | leaf w => simpa [Tree.tokens] using afterList?_token depth rest h
  | group o inside c =>
      obtain ⟨hbrackets, hinside⟩ := Bool.and_eq_true_iff.mp h
      have htext : (Tree.group o inside c).tokens.flatMap Token.fullText ++ rest
          = o.fullText ++ (Tree.fullText inside ++ (c.fullText ++ rest)) := by
        simp [Tree.tokens, Tree.fullText]
      rw [htext]
      rcases Bool.or_eq_true_iff.mp hbrackets with hquiet | hlist
      · obtain ⟨ho, hc⟩ := Bool.and_eq_true_iff.mp hquiet
        rw [afterList?_token _ _ ho, afterList?_allQuiet inside hinside, afterList?_token _ _ hc]
      · obtain ⟨ho, hc⟩ := Bool.and_eq_true_iff.mp hlist
        rw [fullText_of_isBracket _ _ ho, afterList?_open, afterList?_allQuiet inside hinside,
          fullText_of_isBracket _ _ hc, (afterList?_close depth rest).1]

/-- What is quiet leaves the scan for the end of a list where it is. -/
theorem afterList?_allQuiet (ts : List Tree) (h : Tree.allQuiet ts = true) (depth : Nat)
    (rest : List Char) :
    afterList? depth false (Tree.fullText ts ++ rest) = afterList? depth false rest := by
  cases ts with
  | nil => rfl
  | cons t ts =>
      obtain ⟨ht, hts⟩ := Bool.and_eq_true_iff.mp h
      rw [Tree.fullText, Tree.allTokens, List.flatMap_append, List.append_assoc,
        afterList?_tree t ht]
      exact afterList?_allQuiet ts hts depth rest

end

end Text
/-! ## The text of a member -/

namespace CSharp

/-- A list with everything in it, but not what stands in front of it. -/
def AttributeList.text (l : AttributeList) : List Char :=
  '[' :: (Tree.fullText l.inside ++ l.brackets.closing.fullText)

/-- Whether the end of a list is found by a scan that knows no escapes. -/
def AttributeList.isQuiet (l : AttributeList) : Bool :=
  Tree.allQuiet l.inside && l.brackets.closing.isBracket ']'

theorem AttributeList.fullText_tree (l : AttributeList) :
    l.tree.tokens.flatMap Token.fullText = l.brackets.opening.gap ++ l.text := by
  have hopening : l.brackets.opening.fullText = l.brackets.opening.gap ++ ['['] := by
    rw [Token.fullText, show l.brackets.opening.lexeme.text = ['['] from l.brackets.opens]
    rfl
  simp [AttributeList.tree, Brackets.around, Tree.tokens, hopening, AttributeList.text,
    Tree.fullText]

namespace WrittenEnumMember

variable (m : WrittenEnumMember)

/-- Whether all lists of a member end where a scan without escapes finds their end, and nothing but
blanks stands behind them. -/
def isQuiet : Bool :=
  m.lists.all AttributeList.isQuiet &&
    (m.lists.tail.all (fun l => allBlank l.brackets.opening.gap) &&
      (m.lists.isEmpty || allBlank m.name.gap))

/-- Some lists, and the name behind them. -/
def textBehind (lists : List AttributeList) : List Char :=
  lists.flatMap (fun l => l.brackets.opening.gap ++ l.text) ++ (m.name.gap ++ m.name.text)

/-- A list has a character at least. -/
theorem length_le_textBehind (lists : List AttributeList) :
    lists.length ≤ (m.textBehind lists).length := by
  induction lists with
  | nil => exact Nat.zero_le _
  | cons l lists ih =>
      simp only [textBehind, List.flatMap_cons, List.length_append, List.length_cons,
        AttributeList.text] at ih ⊢
      omega

theorem fullText_behind (lists : List AttributeList) :
    (Tree.allTokens (lists.map AttributeList.tree ++ [Tree.leaf m.name])).flatMap Token.fullText
      = m.textBehind lists := by
  induction lists with
  | nil =>
      simp only [List.map_nil, List.nil_append, Tree.allTokens, Tree.tokens, textBehind,
        List.flatMap_nil, List.append_nil, List.flatMap_cons]
      rfl
  | cons l lists ih =>
      rw [List.map_cons, List.cons_append, Tree.allTokens, List.flatMap_append, ih,
        l.fullText_tree]
      simp [textBehind]

theorem span_of_bare (hvalue : m.value = none) (hlists : m.lists = []) :
    Tree.span m.trees = m.name.text := by
  simp [trees, hvalue, hlists, Tree.span, Tree.allTokens, Tree.tokens, spanText]

theorem span_of_lists (hvalue : m.value = none) {l : AttributeList} {lists : List AttributeList}
    (hlists : m.lists = l :: lists) : Tree.span m.trees = l.text ++ m.textBehind lists := by
  have hspan : Tree.span (l.tree :: (lists.map AttributeList.tree ++ [Tree.leaf m.name]))
      = l.text ++ (Tree.allTokens
          (lists.map AttributeList.tree ++ [Tree.leaf m.name])).flatMap Token.fullText := by
    rw [Tree.span, Tree.allTokens]
    simp [AttributeList.tree, Brackets.around, Tree.tokens, spanText, AttributeList.text,
      Tree.fullText, l.brackets.opens]
  rw [trees, hvalue, hlists]
  exact hspan.trans (by rw [m.fullText_behind])

/-- The text of a member without a value ends with its name. -/
theorem exists_span_eq (hvalue : m.value = none) :
    ∃ front, Tree.span m.trees = front ++ m.name.text := by
  cases hlists : m.lists with
  | nil => exact ⟨[], m.span_of_bare hvalue hlists⟩
  | cons l lists =>
      refine ⟨l.text ++ lists.flatMap (fun l => l.brackets.opening.gap ++ l.text) ++ m.name.gap, ?_⟩
      rw [m.span_of_lists hvalue hlists, textBehind]
      simp

end WrittenEnumMember
end CSharp

namespace Text

theorem trimStart_append {gap cs : List Char} (hgap : allBlank gap = true) :
    trimStart (gap ++ cs) = trimStart cs :=
  List.dropWhile_append_of_pos (List.all_eq_true.mp hgap)

/-- A list whose end is found is dropped with the blanks behind it. -/
theorem dropListsWithin_list (fuel : Nat) {l : AttributeList} (h : l.isQuiet = true)
    (rest : List Char) :
    dropListsWithin (fuel + 1) (l.text ++ rest) = dropListsWithin fuel (trimStart rest) := by
  obtain ⟨hinside, hclosing⟩ := Bool.and_eq_true_iff.mp h
  have hend : afterList? 0 false (Tree.fullText l.inside ++ (l.brackets.closing.fullText ++ rest))
      = some rest := by
    rw [afterList?_allQuiet l.inside hinside, fullText_of_isBracket _ _ hclosing,
      (afterList?_close 0 rest).2]
  rw [AttributeList.text, List.cons_append, List.append_assoc, dropListsWithin]
  simp only [hend]

theorem dropListsWithin_name (fuel : Nat) {cs : List Char} (h : IsName cs) :
    dropListsWithin fuel (trimStart cs) = cs := by
  obtain ⟨c, rest, rfl⟩ := List.exists_cons_of_ne_nil h.ne_nil
  have hblank := h.not_blank c List.mem_cons_self
  have hbracket : c ≠ '[' :=
    h.ne_of_not_word (by decide +kernel) (by decide) c List.mem_cons_self
  rw [trimStart, List.dropWhile_cons_of_neg (by simp [hblank])]
  cases fuel with
  | zero => rfl
  | succ fuel =>
      unfold dropListsWithin
      split
      · rename_i hsame
        exact absurd (List.cons.inj hsame).1 hbracket
      · rfl

theorem trimStart_list (l : AttributeList) (rest : List Char) :
    trimStart (l.text ++ rest) = l.text ++ rest :=
  List.dropWhile_cons_of_neg (by decide)

/-- Lists with the blanks in front of them are dropped one by one, down to the name. -/
theorem dropListsWithin_textBehind {m : WrittenEnumMember} (hgap : allBlank m.name.gap = true)
    (lists : List AttributeList) (fuel : Nat) (hfuel : lists.length ≤ fuel)
    (hquiet : lists.all AttributeList.isQuiet = true)
    (hblank : lists.all (fun l => allBlank l.brackets.opening.gap) = true) :
    dropListsWithin fuel (trimStart (m.textBehind lists)) = m.name.text := by
  induction lists generalizing fuel with
  | nil =>
      rw [WrittenEnumMember.textBehind, List.flatMap_nil, List.nil_append, trimStart_append hgap]
      exact dropListsWithin_name fuel m.isName
  | cons l lists ih =>
      obtain ⟨hl, hquiet⟩ := Bool.and_eq_true_iff.mp hquiet
      obtain ⟨hlblank, hblank⟩ := Bool.and_eq_true_iff.mp hblank
      have htext : m.textBehind (l :: lists)
          = l.brackets.opening.gap ++ (l.text ++ m.textBehind lists) := by
        simp [WrittenEnumMember.textBehind]
      obtain ⟨fuel, rfl⟩ : ∃ k, fuel = k + 1 :=
        Nat.exists_eq_succ_of_ne_zero (Nat.ne_of_gt (Nat.lt_of_lt_of_le (Nat.succ_pos _) hfuel))
      rw [htext, trimStart_append hlblank, trimStart_list, dropListsWithin_list fuel hl]
      exact ih fuel (Nat.le_of_succ_le_succ hfuel) hquiet hblank

/-- Of a member without a value its name is left when all its lists end where the scan finds their
end. -/
theorem dropLists_member {m : WrittenEnumMember} (hvalue : m.value = none)
    (h : m.isQuiet = true) : dropLists (Tree.span m.trees) = m.name.text := by
  simp only [WrittenEnumMember.isQuiet, Bool.and_eq_true] at h
  obtain ⟨hquiet, hblank, hname⟩ := h
  cases hlists : m.lists with
  | nil =>
      rw [m.span_of_bare hvalue hlists]
      exact dropListsWithin_name _ m.isName
  | cons l lists =>
      rw [hlists] at hquiet hblank hname
      obtain ⟨hl, hquiet⟩ := Bool.and_eq_true_iff.mp hquiet
      have hfuel : (l.text ++ m.textBehind lists).length
          = (Tree.fullText l.inside ++ l.brackets.closing.fullText).length
            + (m.textBehind lists).length + 1 := by
        rw [List.length_append, AttributeList.text, List.length_cons]
        omega
      have henough : lists.length ≤
          (Tree.fullText l.inside ++ l.brackets.closing.fullText).length
            + (m.textBehind lists).length :=
        Nat.le_trans (m.length_le_textBehind lists) (Nat.le_add_left _ _)
      rw [m.span_of_lists hvalue hlists, dropLists, trimStart_list, hfuel,
        dropListsWithin_list _ hl]
      exact dropListsWithin_textBehind hname lists _ henough hquiet hblank

end Text

/-! ## Values -/

namespace CSharp

/-- The members of an enumeration, the first of equally named ones. -/
def firstMembers (members : List WrittenEnumMember) : List WrittenEnumMember :=
  firsts (fun m n => m.name.text == n.name.text) members

/-- A member's name, and the text of its value with single spaces for runs of blanks. -/
def WrittenEnumMember.written (m : WrittenEnumMember) : String × Option String :=
  (String.ofList m.name.text, m.value.map fun x => String.ofList (collapse (Tree.span x.2)))

end CSharp

/-- A member without a value gets one exactly when an equals sign is left in its text. -/
theorem ofMember_value_eq_none_iff {m : WrittenEnumMember} (hvalue : m.value = none) :
    (EnumValue.ofMember m.member).value = none ↔ '=' ∉ dropLists (Tree.span m.trees) := by
  have hmember : (EnumValue.ofMember m.member).value
      = ((cut? ['='] (dropLists (Tree.span m.trees))).map Prod.snd).bind fun value =>
          nonEmpty? (collapse value) := by
    simp [EnumValue.ofMember, WrittenEnumMember.member, hvalue]
  rw [hmember]
  cases hcut : cut? ['='] (dropLists (Tree.span m.trees)) with
  | none => simp [cut?_char_eq_none_iff.mp hcut]
  | some parts =>
      obtain ⟨before, behind⟩ := parts
      obtain ⟨hsplit, -⟩ := cut?_char_eq_some_iff.mp hcut
      have hmem : '=' ∈ dropLists (Tree.span m.trees) := by simp [hsplit]
      -- the text ends with the name, so what is behind the sign is not blank
      have hnotBlank : allBlank behind = false := by
        obtain ⟨front, hspan⟩ := m.exists_span_eq hvalue
        obtain ⟨taken, htaken⟩ := dropLists_suffix (Tree.span m.trees)
        have hends : (taken ++ before ++ ['=']) ++ behind = front ++ m.name.text := by
          rw [← hspan, ← htaken, hsplit]
          simp
        have hname := List.eq_nil_or_concat m.name.text
        obtain hnil | ⟨init, last, hlast⟩ := hname
        · exact absurd hnil m.isName.ne_nil
        · have hlastMem : last ∈ m.name.text := by simp [hlast]
          have hequals : last ≠ '=' :=
            m.isName.ne_of_not_word (by decide +kernel) (by decide) last hlastMem
          have hblank := m.isName.not_blank last hlastMem
          obtain hnil | ⟨binit, blast, hblast⟩ := List.eq_nil_or_concat behind
          · rw [hnil, List.append_nil, hlast, List.concat_eq_append, ← List.append_assoc] at hends
            exact absurd (List.append_inj' hends rfl).2 (by simp [Ne.symm hequals])
          · rw [hblast, hlast, List.concat_eq_append, List.concat_eq_append, ← List.append_assoc,
              ← List.append_assoc] at hends
            have hsame := List.singleton_inj.mp (List.append_inj' hends rfl).2
            rw [hblast, List.concat_eq_append, allBlank, List.all_append, hsame]
            simp [hblank]
      have hsome : nonEmpty? (collapse behind) ≠ none := by
        rw [Ne, nonEmpty?_collapse_eq_none_iff, hnotBlank]
        exact Bool.false_ne_true
      simp [hsome, hmem]

/-- A member has the value that is written, unless it has none and an equals sign is left in its
text. -/
theorem ofMember_eq_written_iff (m : WrittenEnumMember) :
    ((EnumValue.ofMember m.member).name, (EnumValue.ofMember m.member).value) = m.written ↔
      (m.value = none → '=' ∉ dropLists (Tree.span m.trees)) := by
  have hname : (EnumValue.ofMember m.member).name = String.ofList m.name.text := rfl
  rw [WrittenEnumMember.written, Prod.mk.injEq, hname]
  cases hvalue : m.value with
  | none => simp [ofMember_value_eq_none_iff hvalue]
  | some x =>
      have hread : (EnumValue.ofMember m.member).value = nonEmpty? (collapse (Tree.span x.2)) := by
        simp [EnumValue.ofMember, WrittenEnumMember.member, hvalue]
      have hne : (collapse (Tree.span x.2)).isEmpty = false := by
        cases hcollapse : (collapse (Tree.span x.2)).isEmpty with
        | false => rfl
        | true =>
            have hblank := m.notBlank x hvalue
            rw [← Bool.not_eq_true, ← nonEmpty?_collapse_eq_none_iff, nonEmpty?, hcollapse] at hblank
            exact absurd rfl hblank
      simp [hread, nonEmpty?, hne]

theorem enumValues_members (members : List WrittenEnumMember) :
    (enumValues (members.map WrittenEnumMember.member)).map (fun v => (v.name, v.value))
      = (firstMembers members).map fun m =>
          ((EnumValue.ofMember m.member).name, (EnumValue.ofMember m.member).value) := by
  have hsame : (fun x y : WrittenEnumMember =>
      (EnumValue.ofMember x.member).name == (EnumValue.ofMember y.member).name)
        = fun m n => m.name.text == n.name.text := by
    funext m n
    have hname (m : WrittenEnumMember) :
        (EnumValue.ofMember m.member).name = String.ofList m.name.text := rfl
    rw [hname, hname, Bool.eq_iff_iff, beq_iff_eq, beq_iff_eq, String.ofList_inj]
  have hvalues : enumValues (members.map WrittenEnumMember.member)
      = (firstMembers members).map fun m => EnumValue.ofMember m.member := by
    have hfirsts : firsts (fun a b : EnumValue => a.name == b.name)
        (members.map (EnumValue.ofMember ∘ WrittenEnumMember.member)) =
          (firsts (fun m n : WrittenEnumMember => (EnumValue.ofMember m.member).name ==
            (EnumValue.ofMember n.member).name) members).map
              (EnumValue.ofMember ∘ WrittenEnumMember.member) := firsts_map _ members
    rw [enumValues, List.map_map, hfirsts, hsame]
    rfl
  rw [hvalues, List.map_map]
  rfl

namespace Declaration

variable {source : String} {ws : List WrittenItem}

/-- The values of each type that a source contributes are the members of the written enumeration in
source order, the first of equally named ones, each with its name and with the value that is written
for it, if one is, exactly when of no such member without a value an equals sign is left behind the
attribute lists that are dropped; and none is left when every list ends where a scan without escapes
finds its end. -/
theorem enum_values_read_iff (includeInternal : Bool) (path : String) (h : ConsistsOf source ws) :
    ∀ d, ofClassFile? includeInternal path source = some d →
      (d.types.map (fun t => t.values.map fun v => (v.name, v.value))
          = (shownTypes includeInternal ws).map (fun p =>
              (firstMembers p.item.enumMembers).map WrittenEnumMember.written) ↔
        ∀ p ∈ shownTypes includeInternal ws, ∀ m ∈ firstMembers p.item.enumMembers,
          m.value = none → '=' ∉ dropLists (Tree.span m.trees)) ∧
      ∀ p ∈ shownTypes includeInternal ws, ∀ m ∈ firstMembers p.item.enumMembers,
        m.value = none → m.isQuiet = true → '=' ∉ dropLists (Tree.span m.trees) := by
  intro d hd
  have hfound := shownTypes_found h includeInternal
  have htypes : d.types.map (fun t => t.values.map fun v => (v.name, v.value))
      = (shownTypes includeInternal ws).map fun p => (firstMembers p.item.enumMembers).map fun m =>
          ((EnumValue.ofMember m.member).name, (EnumValue.ofMember m.member).value) := by
    unfold ofClassFile? ofItems? at hd
    obtain ⟨first, -, rfl⟩ := Option.map_eq_some_iff.mp hd
    rw [List.map_map]
    refine (map_eq_of_found hfound fun p t hpt => ?_).symm
    rw [Function.comp_apply, DeclaredType.reference, hpt.2.2.2]
    exact (enumValues_members p.item.enumMembers).symm
  refine ⟨?_, fun p _ m _ hvalue hquiet => ?_⟩
  · rw [htypes, List.map_inj_left]
    refine forall₂_congr fun p _ => ?_
    rw [List.map_inj_left]
    exact forall₂_congr fun m _ => ofMember_eq_written_iff m
  · rw [dropLists_member hvalue hquiet]
    exact fun hmem => m.isName.ne_of_not_word (by decide +kernel) (by decide) _ hmem rfl

/-- An enumeration with a described member and one with a value; `text` is the description. -/
def describedEnum (text : String) : List WrittenItem :=
  [.enumeration (plainHead [wordToken "" "public"] .enumType " " "Color" (by decide))
    (by decide +kernel) rfl (brackets '{' " " " ")
    ⟨[(bareMember [attributeList " " (writtenAttribute (dottedName [] (plainPart "" "Text" (by decide)))
        (some (brackets '(' "" "", [.leaf (literalToken "" text)])))] " " "Red" (by decide),
      mark "" ",")],
      some (valuedMember [] " " "Blue" (by decide) (mark " " "=")
        [.leaf (numberToken " " "1"), .leaf (markToken "  " "+"), .leaf (numberToken " " "2")]
        (by decide +kernel) (by decide +kernel))⟩ none]

theorem enum_values_read_described :
    ∃ d, ofClassFile? false "Color.cs"
        "public enum Color \x7b [Text(\"a = b]\")] Red, Blue = 1  + 2 \x7d" = some d ∧
      d.types.map (fun t => t.values.map fun v => (v.name, v.value))
        = [[("Red", none), ("Blue", some "1 + 2")]] := by
  have hsource : ConsistsOf "public enum Color \x7b [Text(\"a = b]\")] Red, Blue = 1  + 2 \x7d"
      (describedEnum "\"a = b]\"") := by decide +kernel
  have hquiet : ∀ p ∈ shownTypes false (describedEnum "\"a = b]\""),
      ∀ m ∈ firstMembers p.item.enumMembers, m.isQuiet = true := by decide +kernel
  have hwritten : (shownTypes false (describedEnum "\"a = b]\"")).map (fun p =>
      (firstMembers p.item.enumMembers).map WrittenEnumMember.written)
        = [[("Red", none), ("Blue", some "1 + 2")]] := by decide +kernel
  cases hd : ofClassFile? false "Color.cs"
      "public enum Color \x7b [Text(\"a = b]\")] Red, Blue = 1  + 2 \x7d" with
  | none =>
      have hsome : (ofClassFile? false "Color.cs"
          "public enum Color \x7b [Text(\"a = b]\")] Red, Blue = 1  + 2 \x7d").isSome = true := by
        decide +kernel
      rw [hd] at hsome
      cases hsome
  | some d =>
      obtain ⟨hiff, hnone⟩ := enum_values_read_iff false "Color.cs" hsource d hd
      refine ⟨d, rfl, (hiff.mpr fun p hp m hm hvalue => ?_).trans hwritten⟩
      exact hnone p hp m hm hvalue (hquiet p hp m hm)

/-- An escaped quotation mark in the description hides the end of the list, and what is behind the
equals sign becomes a value. -/
theorem enum_value_invented :
    ConsistsOf "public enum Color \x7b [Text(\"a \\\"] = b\")] Red, Blue = 1  + 2 \x7d"
        (describedEnum "\"a \\\"] = b\"") ∧
      (shownTypes false (describedEnum "\"a \\\"] = b\"")).map (fun p =>
        (firstMembers p.item.enumMembers).map WrittenEnumMember.written)
          = [[("Red", none), ("Blue", some "1 + 2")]] ∧
      (ofClassFile? false "Color.cs"
          "public enum Color \x7b [Text(\"a \\\"] = b\")] Red, Blue = 1  + 2 \x7d").map
        (fun d => d.types.map fun t => t.values.map fun v => (v.name, v.value))
          = some [[("Red", some "b\")] Red"), ("Blue", some "1 + 2")]] :=
  ⟨by decide +kernel, by decide +kernel, by decide +kernel⟩

end Declaration
end ComponentAtlas
