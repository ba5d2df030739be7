import ComponentAtlas.Declaration.Basic
import ComponentAtlas.Proofs.CSharp.WrittenSources
import ComponentAtlas.Proofs.Text.Blank
import ComponentAtlas.Proofs.Text.Occurrence
import Mathlib.Data.List.Nodup

/-!
# Attributes are recognised by name

An attribute counts by the last word of its name, with or without the ending `Attribute`, whatever
qualifies it and whatever its arguments are.  The library cuts the word out of the attribute's text
at a parenthesis, a colon and a dot.  It comes out whole when no parenthesis stands inside the name,
nothing but blanks in front of the arguments, and nothing in front of the word behind a dot
(`any_ofText?_iff`).
-/

namespace ComponentAtlas

open Text CSharp

namespace Attribute

/-- A name without the ending that attributes may have. -/
def shortened (name : List Char) : List Char :=
  (beforeEnd? "Attribute".toList name).getD name

section

variable {x y gap : List Char}

/-- Of a name only what ends it counts. -/
theorem simpleName_append (hy : IsTrimmed y) (hcolon : ':' ∉ y) (hgap : allBlank gap = true) :
    simpleName (x ++ (y ++ gap)) = shortened (afterLast '.' (trimStart (afterLast ':' x) ++ y)) := by
  have hnone : ':' ∉ y ++ gap := fun hmem =>
    (List.mem_append.mp hmem).elim hcolon (notMem_of_allBlank hgap (by decide))
  rw [simpleName, afterLast_append hnone, trim_append hy hgap]
  rfl

theorem shortened_eq_iff {name s : List Char} (hs : beforeEnd? "Attribute".toList s = none) :
    shortened name = s ↔ name = s ∨ name = s ++ "Attribute".toList := by
  unfold shortened
  cases hname : beforeEnd? "Attribute".toList name with
  | none =>
      refine ⟨Or.inl, fun h => h.resolve_right fun hlong => ?_⟩
      rw [beforeEnd?_eq_some_iff.mpr hlong] at hname
      cases hname
  | some short =>
      obtain rfl := beforeEnd?_eq_some_iff.mp hname
      refine ⟨fun h => Or.inr (congrArg (· ++ _) h), fun h => ?_⟩
      rcases h with rfl | h
      · rw [hs] at hname
        cases hname
      · exact List.append_cancel_right h

end

end Attribute

/-! ## Names of attributes -/

namespace CSharp

theorem spanText_append {ts us : List Token} (h : ts ≠ []) :
    spanText (ts ++ us) = spanText ts ++ us.flatMap Token.fullText := by
  cases ts with
  | nil => exact absurd rfl h
  | cons t ts => rw [List.cons_append, spanText, spanText, List.flatMap_append, List.append_assoc]

theorem spanText_concat {ts : List Token} (h : ts ≠ []) (t : Token) :
    spanText (ts ++ [t]) = spanText ts ++ (t.gap ++ t.text) := by
  rw [spanText_append h, List.flatMap_singleton]
  rfl

namespace NamePart

variable (p : NamePart)

theorem allTokens_trees_ne_nil : Tree.allTokens p.trees ≠ [] := by
  rw [trees, Tree.allTokens]
  exact List.cons_ne_nil _ _

theorem allTokens_trees_of_bare (h : p.arguments = none) : Tree.allTokens p.trees = [p.word] := by
  rw [trees, h]
  rfl

end NamePart

namespace WrittenName

variable (n : WrittenName)

/-- A name begins with a word. -/
theorem exists_allTokens_trees : ∃ t ts, Tree.allTokens n.trees = t :: ts ∧ IsName t.text := by
  rw [trees]
  cases n.front with
  | nil => exact ⟨n.last.word, _, rfl, n.last.isName⟩
  | cons x front => exact ⟨x.1.word, _, rfl, x.1.isName⟩

/-- A name without a qualification is its last part. -/
theorem allTokens_trees_of_bare (h : n.front.getLast? = none) :
    Tree.allTokens n.trees = Tree.allTokens n.last.trees := by
  rw [trees, List.getLast?_eq_none_iff.mp h]
  rfl

/-- In front of the last part stands a separator, and something in front of that. -/
theorem allTokens_trees_of_qualified {x : NamePart × Token} (h : n.front.getLast? = some x) :
    ∃ ts, ts ≠ [] ∧ Tree.allTokens n.trees = (ts ++ [x.2]) ++ Tree.allTokens n.last.trees := by
  obtain ⟨front, hfront⟩ := List.getLast?_eq_some_iff.mp h
  refine ⟨Tree.allTokens ((front.flatMap fun y => y.1.trees ++ [Tree.leaf y.2]) ++ x.1.trees),
    ?_, ?_⟩
  · rw [Tree.allTokens_append]
    exact List.append_ne_nil_of_right_ne_nil _ x.1.allTokens_trees_ne_nil
  · rw [trees, hfront]
    simp [Tree.allTokens_append, Tree.allTokens, Tree.tokens]

/-- The text of a name without type arguments at its end is what stands in front of its last word,
and the word. -/
theorem span_trees (h : n.last.arguments = none) :
    (n.front.getLast? = none → Tree.span n.trees = n.last.word.text) ∧
      ∀ x, n.front.getLast? = some x →
        ∃ front, Tree.span n.trees = (front ++ x.2.text) ++ n.last.word.gap ++ n.last.word.text := by
  constructor
  · intro hbare
    rw [Tree.span, n.allTokens_trees_of_bare hbare, n.last.allTokens_trees_of_bare h]
    exact List.append_nil _
  · intro x hx
    obtain ⟨ts, hts, htokens⟩ := n.allTokens_trees_of_qualified hx
    refine ⟨spanText ts ++ x.2.gap, ?_⟩
    rw [Tree.span, htokens, n.last.allTokens_trees_of_bare h,
      spanText_concat (List.append_ne_nil_of_left_ne_nil hts _), spanText_concat hts]
    simp

/-- The text of a name with type arguments at its end ends with an angle bracket. -/
theorem span_trees_of_arguments {a : WrittenArguments} (h : n.last.arguments = some a) :
    ∃ front, Tree.span n.trees = front ++ ['>'] := by
  have hclosing : ∃ ts, ts ≠ [] ∧ Tree.allTokens n.trees = ts ++ [a.closing.1] := by
    refine ⟨Tree.allTokens ((n.front.flatMap fun y => y.1.trees ++ [Tree.leaf y.2]) ++
      .leaf n.last.word :: .leaf a.opening.1 :: a.inside), ?_, ?_⟩
    · rw [Tree.allTokens_append]
      exact List.append_ne_nil_of_right_ne_nil _ (List.cons_ne_nil _ _)
    · rw [trees, NamePart.trees, h]
      simp [Tree.allTokens_append, Tree.allTokens, Tree.tokens, WrittenArguments.trees]
  obtain ⟨ts, hts, htokens⟩ := hclosing
  have htext : a.closing.1.text = ['>'] := a.closing.2.2
  refine ⟨spanText ts ++ a.closing.1.gap, ?_⟩
  rw [Tree.span, htokens, spanText_concat hts, htext, List.append_assoc]

/-- A name begins with a word, and ends with one or with an angle bracket. -/
theorem isTrimmed_span : IsTrimmed (Tree.span n.trees) where
  first := by
    obtain ⟨t, ts, htokens, ht⟩ := n.exists_allTokens_trees
    obtain ⟨c, hhead, hc⟩ := (isTrimmed_of_solid ht.ne_nil ht.not_blank).first
    refine ⟨c, ?_, hc⟩
    rw [Tree.span, htokens, spanText, List.head?_append, hhead]
    rfl
  last := by
    cases hlast : n.last.arguments with
    | some a =>
        obtain ⟨front, hspan⟩ := n.span_trees_of_arguments hlast
        exact ⟨'>', by rw [hspan, List.getLast?_concat], by decide⟩
    | none =>
        obtain ⟨front, hspan⟩ : ∃ front, Tree.span n.trees = front ++ n.last.word.text := by
          obtain ⟨hbare, hqualified⟩ := n.span_trees hlast
          cases hfront : n.front.getLast? with
          | none => exact ⟨[], hbare hfront⟩
          | some x =>
              obtain ⟨front, hspan⟩ := hqualified x hfront
              exact ⟨_, hspan⟩
        have hname := n.last.isName
        obtain ⟨c, hend, hc⟩ := (isTrimmed_of_solid hname.ne_nil hname.not_blank).last
        exact ⟨c, by rw [hspan, List.getLast?_append, hend]; rfl, hc⟩

end WrittenName

namespace WrittenAttribute

variable (a : WrittenAttribute)

/-- Whether an attribute is called `s`, perhaps with the ending `Attribute`, whatever qualifies its
name. -/
def isNamed (s : String) : Bool :=
  a.name.last.arguments.isNone && (a.name.last.word.text == s.toList ||
    a.name.last.word.text == s.toList ++ "Attribute".toList)

/-- Whether the last word of an attribute's name can be cut out of its text: no parenthesis stands
in the name, nothing but blanks in front of the arguments and of the last word, and behind a dot not
even these. -/
def isPlain : Bool :=
  !(Tree.span a.name.trees).contains '(' &&
    ((a.arguments.all fun x => allBlank x.1.opening.gap) &&
      a.name.front.getLast?.all fun x =>
        if x.2.text = ".".toList then a.name.last.word.gap.isEmpty
        else allBlank a.name.last.word.gap)

end WrittenAttribute
end CSharp

namespace Attribute

variable {a : WrittenAttribute} {gap : List Char}

section

variable {word front : List Char} (hword : IsName word) (hgap : allBlank gap = true)

include hword hgap

/-- A word with nothing but blanks between it and the last colon is cut out. -/
theorem simpleName_of_blank (hfront : allBlank (afterLast ':' front) = true) :
    simpleName (front ++ (word ++ gap)) = shortened word := by
  have hnone {c : Char} (hc : Unicode.isWord c = false) (hat : c ≠ '@') : c ∉ word :=
    fun hmem => hword.ne_of_not_word hc hat _ hmem rfl
  have htrimmed : IsTrimmed word := isTrimmed_of_solid hword.ne_nil hword.not_blank
  rw [simpleName_append htrimmed (hnone (by decide +kernel) (by decide)) hgap,
    trimStart_eq_nil hfront, List.nil_append,
    afterLast_eq_self (hnone (by decide +kernel) (by decide))]

/-- A word with nothing between it and the last dot is cut out. -/
theorem simpleName_of_dot :
    simpleName (front ++ ('.' :: word ++ gap)) = shortened word := by
  have hnone {c : Char} (hc : Unicode.isWord c = false) (hat : c ≠ '@') : c ∉ word :=
    fun hmem => hword.ne_of_not_word hc hat _ hmem rfl
  have htrimmed : IsTrimmed ('.' :: word) :=
    isTrimmed_of_solid (List.cons_ne_nil _ _)
      (List.forall_mem_cons.mpr ⟨by decide, hword.not_blank⟩)
  have hcolon : ':' ∉ '.' :: word := by
    simpa using hnone (c := ':') (by decide +kernel) (by decide)
  rw [simpleName_append htrimmed hcolon hgap,
    afterLast_cons (hnone (by decide +kernel) (by decide))]

end

/-- The last word of a plain name is cut out of it. -/
theorem simpleName_of_isPlain (h : a.isPlain = true) (hnone : a.name.last.arguments = none)
    (hgap : allBlank gap = true) :
    simpleName (Tree.span a.name.trees ++ gap) = shortened a.name.last.word.text := by
  simp only [WrittenAttribute.isPlain, Bool.and_eq_true] at h
  obtain ⟨-, -, hfront⟩ := h
  have hname := a.name.last.isName
  obtain ⟨hbare, hqualified⟩ := a.name.span_trees hnone
  cases hlast : a.name.front.getLast? with
  | none =>
      rw [hbare hlast]
      have hblank : allBlank (afterLast ':' []) = true := rfl
      have hcut := simpleName_of_blank hname hgap hblank
      rwa [List.nil_append] at hcut
  | some x =>
      obtain ⟨front, hspan⟩ := hqualified x hlast
      rw [hlast, Option.all_some] at hfront
      rw [hspan]
      split at hfront
      · rename_i hpoint
        have hsplit : front ++ x.2.text ++ a.name.last.word.gap ++ a.name.last.word.text ++ gap
            = front ++ ('.' :: a.name.last.word.text ++ gap) := by
          rw [hpoint, List.isEmpty_iff.mp hfront]
          simp
        rw [hsplit, simpleName_of_dot hname hgap]
      · rename_i hpoint
        have hcolons : x.2.text = [':'] ++ [':'] :=
          (a.name.separated x (List.mem_of_getLast? hlast)).2.resolve_left hpoint
        have hnocolon : ':' ∉ a.name.last.word.gap := notMem_of_allBlank hfront (by decide)
        have hafter : afterLast ':' (front ++ x.2.text ++ a.name.last.word.gap)
            = a.name.last.word.gap := by
          rw [hcolons, ← List.append_assoc, List.append_assoc, List.singleton_append,
            afterLast_cons hnocolon]
        rw [List.append_assoc _ a.name.last.word.text]
        exact simpleName_of_blank hname hgap (by rwa [hafter])

/-- What is cut out of a name with type arguments ends with an angle bracket. -/
theorem getLast?_simpleName_of_arguments {arguments : WrittenArguments}
    (h : a.name.last.arguments = some arguments) (hgap : allBlank gap = true) :
    (simpleName (Tree.span a.name.trees ++ gap)).getLast? = some '>' := by
  obtain ⟨front, hspan⟩ := a.name.span_trees_of_arguments h
  have hangle : IsTrimmed ['>'] :=
    isTrimmed_of_solid (List.cons_ne_nil _ _) (List.forall_mem_singleton.mpr (by decide))
  have hname : simpleName (Tree.span a.name.trees ++ gap)
      = shortened (afterLast '.' (trimStart (afterLast ':' front)) ++ ['>']) := by
    rw [hspan, List.append_assoc, simpleName_append hangle (by decide) hgap,
      afterLast_append (by decide)]
  have hshort : beforeEnd? "Attribute".toList
      (afterLast '.' (trimStart (afterLast ':' front)) ++ ['>']) = none :=
    beforeEnd?_eq_none_of_getLast? (e := 'e') List.getLast?_concat (by decide) (by decide)
  rw [hname, shortened, hshort]
  exact List.getLast?_concat

/-- The attribute that a text in front of some arguments spells. -/
def named? (head : List Char) (arguments : Option (List Char)) : Option Attribute :=
  if (simpleName head).isEmpty then none else some ⟨String.ofList (simpleName head), arguments⟩

theorem ofText?_of_arguments {head : List Char} (rest : List Char)
    (hfirst : ∃ c, head.head? = some c ∧ isBlank c = false) (hparen : '(' ∉ head) :
    ∃ arguments, ofText? (head ++ '(' :: rest) = named? head arguments := by
  have htrim : trim (head ++ '(' :: rest) = head ++ '(' :: trimEnd rest := by
    have hstart : trimStart (head ++ '(' :: rest) = head ++ '(' :: rest := by
      obtain ⟨c, hhead, hc⟩ := hfirst
      obtain ⟨cs, rfl⟩ := List.head?_eq_some_iff.mp hhead
      exact List.dropWhile_cons_of_neg (by simp [hc])
    have hend : trimEnd ((head ++ ['(']) ++ rest) = (head ++ ['(']) ++ trimEnd rest :=
      trimEnd_append_of_last ⟨'(', List.getLast?_concat, by decide⟩
    rw [trim, hstart]
    simpa using hend
  have hcut : cut? ['('] (head ++ '(' :: trimEnd rest) = some (head, trimEnd rest) :=
    cut?_char_eq_some_iff.mpr ⟨rfl, hparen⟩
  unfold ofText?
  simp only [htrim, hcut]
  exact ⟨_, rfl⟩

theorem ofText?_of_bare {head : List Char} (htrimmed : IsTrimmed head) (hparen : '(' ∉ head) :
    ofText? head = named? head none := by
  unfold ofText?
  simp only [htrimmed.trim_eq, cut?_char_eq_none_iff.mpr hparen]
  rfl

variable (a) in
/-- The text of an attribute is its name, and perhaps a parenthesis and something behind it. -/
theorem span_attribute_trees :
    (a.arguments = none → Tree.span a.trees = Tree.span a.name.trees) ∧
      ∀ x, a.arguments = some x →
        ∃ rest, Tree.span a.trees = (Tree.span a.name.trees ++ x.1.opening.gap) ++ '(' :: rest := by
  constructor
  · intro hnone
    rw [WrittenAttribute.trees, hnone]
    exact congrArg Tree.span (List.append_nil _)
  · intro x hx
    obtain ⟨t, ts, htokens, -⟩ := a.name.exists_allTokens_trees
    have hne : Tree.allTokens a.name.trees ≠ [] := htokens ▸ List.cons_ne_nil _ _
    have hopens : x.1.opening.lexeme.text = ['('] := x.1.opens
    refine ⟨(Tree.allTokens x.2 ++ [x.1.closing]).flatMap Token.fullText, ?_⟩
    rw [WrittenAttribute.trees, hx, Tree.span, Tree.allTokens_append, spanText_append hne]
    simp [Tree.span, Brackets.around, Tree.allTokens, Tree.tokens, Token.fullText, Token.gap, hopens]

/-- A plain attribute is read by its name. -/
theorem ofText?_of_isPlain (h : a.isPlain = true) :
    ∃ gap arguments, allBlank gap = true ∧
      ofText? (Tree.span a.trees) = named? (Tree.span a.name.trees ++ gap) arguments := by
  simp only [WrittenAttribute.isPlain, Bool.and_eq_true, Bool.not_eq_true',
    List.contains_eq_mem, decide_eq_false_iff_not] at h
  obtain ⟨hparen, hgap, -⟩ := h
  have htrimmed := a.name.isTrimmed_span
  obtain ⟨hbare, harguments⟩ := span_attribute_trees a
  cases hcase : a.arguments with
  | some x =>
      obtain ⟨rest, hrest⟩ := harguments x hcase
      rw [hcase, Option.all_some] at hgap
      have hfirst : ∃ c, (Tree.span a.name.trees ++ x.1.opening.gap).head? = some c ∧
          isBlank c = false := by
        obtain ⟨c, hhead, hc⟩ := htrimmed.first
        exact ⟨c, by rw [List.head?_append, hhead]; rfl, hc⟩
      have hnone : '(' ∉ Tree.span a.name.trees ++ x.1.opening.gap := fun hmem =>
        (List.mem_append.mp hmem).elim hparen (notMem_of_allBlank hgap (by decide))
      obtain ⟨arguments, hread⟩ := ofText?_of_arguments rest hfirst hnone
      exact ⟨_, arguments, hgap, hrest ▸ hread⟩
  | none =>
      refine ⟨[], none, rfl, ?_⟩
      rw [hbare hcase, List.append_nil]
      exact ofText?_of_bare htrimmed hparen

theorem any_named? {head : List Char} {arguments : Option (List Char)} {s : String}
    (hs : s.toList ≠ []) :
    (named? head arguments).any (fun b => b.name == s) = (simpleName head == s.toList) := by
  unfold named?
  split
  · rename_i hempty
    rw [List.isEmpty_iff.mp hempty, Option.any_none, eq_comm, beq_eq_false_iff_ne]
    exact hs.symm
  · rw [Option.any_some, Bool.eq_iff_iff, beq_iff_eq, beq_iff_eq, ← String.toList_inj,
      String.toList_ofList]

/-- A plain attribute is read as the one called `s` exactly when it is called that. -/
theorem any_ofText?_iff (h : a.isPlain = true) {s : String} {c : Char}
    (hs : s.toList.getLast? = some c) (hangle : c ≠ '>')
    (hshort : beforeEnd? "Attribute".toList s.toList = none) :
    (ofText? (Tree.span a.trees)).any (fun b => b.name == s) = a.isNamed s := by
  have hne : s.toList ≠ [] := fun hnil => by rw [hnil] at hs; cases hs
  obtain ⟨gap, arguments, hgap, hread⟩ := ofText?_of_isPlain h
  rw [hread, any_named? hne, Bool.eq_iff_iff, beq_iff_eq]
  cases hlast : a.name.last.arguments with
  | none =>
      rw [simpleName_of_isPlain h hlast hgap, shortened_eq_iff hshort]
      simp [WrittenAttribute.isNamed, hlast]
  | some x =>
      have hend := getLast?_simpleName_of_arguments hlast hgap
      refine iff_of_false (fun hsame => ?_) (by simp [WrittenAttribute.isNamed, hlast])
      rw [hsame, hs] at hend
      exact hangle (Option.some.inj hend)

end Attribute

/-! ## Markers -/

/-- In a table without repetitions what stands for a name stands for no other. -/
theorem lookup?_eq_some_iff {α : Type} {table : List (String × α)}
    (hnames : (table.map Prod.fst).Nodup) (hvalues : (table.map Prod.snd).Nodup)
    {entry : String × α} (h : entry ∈ table) {name : String} :
    lookup? table name = some entry.2 ↔ name = entry.1 := by
  have hfound {e : String × α} {name : String} (he : table.find? (fun e => e.1 == name) = some e) :
      e ∈ table ∧ e.1 = name :=
    ⟨List.mem_of_find?_eq_some he,
      beq_iff_eq.mp (List.find?_some (p := fun (e : String × α) => e.1 == name) he)⟩
  rw [lookup?, Option.map_eq_some_iff]
  constructor
  · rintro ⟨e, he, hvalue⟩
    obtain ⟨hmem, hname⟩ := hfound he
    rw [← List.inj_on_of_nodup_map hvalues hmem h hvalue, hname]
  · rintro rfl
    have hsome : (table.find? fun e => e.1 == entry.1).isSome = true :=
      List.find?_isSome.mpr ⟨entry, h, beq_self_eq_true entry.1⟩
    obtain ⟨e, he⟩ := Option.isSome_iff_exists.mp hsome
    obtain ⟨hmem, hname⟩ := hfound he
    exact ⟨e, he, congrArg Prod.snd (List.inj_on_of_nodup_map hnames hmem h hname)⟩

namespace CSharp.WrittenHeader

variable (h : WrittenHeader)

/-- Whether an attribute in front of a declaration is called `s`. -/
def hasAttribute (s : String) : Bool :=
  h.attributes.any fun a => a.isNamed s

/-- A declaration with plain attributes is marked as its attributes are called. -/
theorem contains_markers (bare : List Tree) (hplain : ∀ a ∈ h.attributes, a.isPlain = true)
    {entry : String × Marker} (hentry : entry ∈ markerTable) :
    (Attribute.markers (h.header bare).attributeList).contains entry.2 = h.hasAttribute entry.1 := by
  have hspelled : ∀ e ∈ markerTable, (e.1.toList.getLast?.any (· ≠ '>') &&
      (beforeEnd? "Attribute".toList e.1.toList).isNone) = true := by decide +kernel
  obtain ⟨hlast, hshort⟩ := Bool.and_eq_true_iff.mp (hspelled entry hentry)
  obtain ⟨c, hc, hangle⟩ := Option.any_eq_true .. |>.mp hlast
  have hread (a : WrittenAttribute) (ha : a ∈ h.attributes) :
      ((Attribute.ofText? (Tree.span a.trees)).any fun b => b.name == entry.1)
        = a.isNamed entry.1 :=
    Attribute.any_ofText?_iff (hplain a ha) hc (of_decide_eq_true hangle)
      (Option.isNone_iff_eq_none.mp hshort)
  rw [Bool.eq_iff_iff, List.contains_iff_mem, Attribute.markers, hasAttribute, List.mem_filterMap,
    List.any_eq_true]
  have hlookup (name : String) : lookup? markerTable name = some entry.2 ↔ name = entry.1 :=
    lookup?_eq_some_iff (by decide) (by decide) hentry
  simp only [hlookup]
  have hmem (b : Attribute) : b ∈ (h.header bare).attributeList ↔
      ∃ a ∈ h.attributes, Attribute.ofText? (Tree.span a.trees) = some b := by
    simp [Header.attributeList, header]
  constructor
  · rintro ⟨b, hb, hname⟩
    obtain ⟨a, ha, htext⟩ := (hmem b).mp hb
    exact ⟨a, ha, by rw [← hread a ha, htext, Option.any_some, hname, beq_self_eq_true]⟩
  · rintro ⟨a, ha, hnamed⟩
    rw [← hread a ha] at hnamed
    obtain ⟨b, htext, hname⟩ := Option.any_eq_true .. |>.mp hnamed
    exact ⟨b, (hmem b).mpr ⟨a, ha, htext⟩, beq_iff_eq.mp hname⟩

end CSharp.WrittenHeader
end ComponentAtlas
