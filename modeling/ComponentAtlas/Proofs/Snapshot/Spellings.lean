import ComponentAtlas.Proofs.Text.Blank
import ComponentAtlas.Proofs.Text.Occurrence
import ComponentAtlas.Proofs.Unicode.LowerCase
import ComponentAtlas.Snapshot.Basic
import Mathlib.Data.List.DropRight

/-!
# Names as they are looked up

A name may be looked up with a qualifier in front of it, type arguments behind it, blanks around it
all and its letters in another case.  All of this is taken off again: the first angle bracket ends
what counts and the last dot in front of it begins it, so that neither dots and brackets among the
arguments nor anything in the qualifier makes a difference (`Wrapping.bareName_around`).  Marks and
blanks are the same in either case, so the case of ASCII letters makes none (`bareName_congr`).
-/

namespace ComponentAtlas

open Text

/-! ## The first of a name -/

section

variable {α : Type} {nameOf : α → String} {xs : List α} {x : α}

theorem exists_firstNamed?_of_mem (nameOf : α → String) (h : x ∈ xs) :
    ∃ y, firstNamed? nameOf (Unicode.toLower (nameOf x)) xs = some y :=
  Option.isSome_iff_exists.mp (List.find?_isSome.mpr ⟨x, h, beq_self_eq_true _⟩)

theorem of_firstNamed? {key : String} (h : firstNamed? nameOf key xs = some x) :
    x ∈ xs ∧ Unicode.toLower (nameOf x) = key := by
  have hkey : (Unicode.toLower (nameOf x) == key) = true :=
    List.find?_some (p := fun y => Unicode.toLower (nameOf y) == key) h
  exact ⟨List.mem_of_find?_eq_some h, beq_iff_eq.mp hkey⟩

end

/-! ## ASCII case -/

namespace Text

theorem isBlank_toLower (c : Char) : isBlank c.toLower = isBlank c :=
  forall_toLower (p := fun c d => isBlank d = isBlank c) (fun _ => rfl) (by decide) c

theorem dot_toLower (c : Char) : decide (c.toLower ≠ '.') = decide (c ≠ '.') :=
  forall_toLower (p := fun c d => decide (d ≠ '.') = decide (c ≠ '.')) (fun _ => rfl)
    (by decide) c

theorem angle_toLower (c : Char) : decide (c.toLower ≠ '<') = decide (c ≠ '<') :=
  forall_toLower (p := fun c d => decide (d ≠ '<') = decide (c ≠ '<')) (fun _ => rfl)
    (by decide) c

theorem trimStart_map_toLower (cs : List Char) :
    trimStart (cs.map Char.toLower) = (trimStart cs).map Char.toLower := by
  have hblank : isBlank ∘ Char.toLower = isBlank := funext isBlank_toLower
  rw [trimStart, List.dropWhile_map, hblank]
  rfl

theorem trimEnd_map_toLower (cs : List Char) :
    trimEnd (cs.map Char.toLower) = (trimEnd cs).map Char.toLower := by
  have hstart := trimStart_map_toLower cs.reverse
  unfold trimStart at hstart
  rw [trimEnd, dropEndWhile, ← List.map_reverse, hstart, ← List.map_reverse]
  rfl

theorem trim_map_toLower (cs : List Char) :
    trim (cs.map Char.toLower) = (trim cs).map Char.toLower := by
  rw [trim, trimStart_map_toLower, trimEnd_map_toLower]
  rfl

theorem sameIgnoringCase_ofList {cs ds : List Char} (h : cs.map Char.toLower = ds.map Char.toLower) :
    sameIgnoringCase (String.ofList cs) (String.ofList ds) = true := by
  rw [sameIgnoringCase, String.toList_ofList, String.toList_ofList, h]
  exact beq_self_eq_true _

end Text

namespace Snapshot

theorem bareName_congr {a b : String} (h : sameIgnoringCase a b = true) :
    (bareName a).map Char.toLower = (bareName b).map Char.toLower := by
  have hangle : (fun c => decide (c ≠ '<')) ∘ Char.toLower = fun c => decide (c ≠ '<') :=
    funext angle_toLower
  have hdot : (fun c => decide (c ≠ '.')) ∘ Char.toLower = fun c => decide (c ≠ '.') :=
    funext dot_toLower
  have hbare (cs : List Char) :
      afterLast '.' (trimEnd (upTo '<' (trim (cs.map Char.toLower)))) =
        (afterLast '.' (trimEnd (upTo '<' (trim cs)))).map Char.toLower := by
    rw [trim_map_toLower, upTo, List.takeWhile_map, hangle, trimEnd_map_toLower, afterLast,
      ← List.map_reverse, List.takeWhile_map, hdot, ← List.map_reverse]
    rfl
  have hsame : a.toList.map Char.toLower = b.toList.map Char.toLower := beq_iff_eq.mp h
  unfold bareName
  rw [← hbare, hsame, hbare]

/-! ## What is written around a name -/

/-- A text without a dot, an opening angle bracket and blanks. -/
def IsBareName (cs : List Char) : Prop :=
  ∀ c ∈ cs, c ≠ '.' ∧ c ≠ '<' ∧ isBlank c = false

instance (cs : List Char) : Decidable (IsBareName cs) :=
  List.decidableBAll (fun c => c ≠ '.' ∧ c ≠ '<' ∧ isBlank c = false) cs

/-- What may be written around a name: a qualifier with a dot in front of it, type arguments behind
it, and blanks around it all. -/
structure Wrapping where
  before : List Char
  /-- What stands in front of the last dot. -/
  qualifier : Option (List Char)
  /-- What stands behind the first opening angle bracket. -/
  arguments : Option (List Char)
  behind : List Char
  blank_before : allBlank before = true
  blank_behind : allBlank behind = true
  notMem_qualifier : ∀ q ∈ qualifier, '<' ∉ q

namespace Wrapping

def opening (w : Wrapping) : List Char :=
  w.before ++ w.qualifier.elim [] (· ++ ['.'])

def closing (w : Wrapping) : List Char :=
  w.arguments.elim [] ('<' :: ·) ++ w.behind

/-- A name with what is written around it. -/
def around (w : Wrapping) (name : List Char) : List Char :=
  w.opening ++ (name ++ w.closing)

/-- Nothing around a name. -/
def nothing : Wrapping where
  before := []
  qualifier := none
  arguments := none
  behind := []
  blank_before := rfl
  blank_behind := rfl
  notMem_qualifier := by simp

theorem around_nothing (name : List Char) : nothing.around name = name := by
  simp [around, opening, closing, nothing]

end Wrapping

namespace IsBareName

variable {cs : List Char}

theorem not_blank (h : IsBareName cs) : ∀ c ∈ cs, isBlank c = false := fun c hc => (h c hc).2.2

theorem dot_notMem (h : IsBareName cs) : '.' ∉ cs := fun hmem => (h '.' hmem).1 rfl

theorem angle_notMem (h : IsBareName cs) : '<' ∉ cs := fun hmem => (h '<' hmem).2.1 rfl

theorem trim_eq (h : IsBareName cs) : trim cs = cs := by
  rw [trim, trimStart, dropWhile_eq_self h.not_blank, trimEnd, dropEndWhile_eq_self h.not_blank]

/-- Blanks around a name do not hide that nothing is in front of it. -/
theorem afterLast_blanks (h : IsBareName cs) {before behind : List Char}
    (hbefore : allBlank before = true) (hbehind : allBlank behind = true) :
    afterLast '.' (trim (before ++ (cs ++ behind))) = cs := by
  by_cases hnil : cs = []
  · subst hnil
    have hall : allBlank (before ++ ([] ++ behind)) = true := by
      rw [List.nil_append, allBlank, List.all_append, Bool.and_eq_true]
      exact ⟨hbefore, hbehind⟩
    rw [trim_eq_nil_iff.mpr hall]
    rfl
  · rw [trim_append (isTrimmed_of_solid hnil h.not_blank) hbehind, trimStart_eq_nil hbefore,
      List.nil_append, afterLast_eq_self h.dot_notMem]

/-- Behind a dot stands the name, whatever is in front of the dot. -/
theorem afterLast_dot (h : IsBareName cs) {behind : List Char} (front : List Char)
    (hbehind : allBlank behind = true) :
    afterLast '.' (trim (front ++ ('.' :: (cs ++ behind)))) = cs := by
  have htrimmed : IsTrimmed ('.' :: cs) :=
    isTrimmed_of_solid (List.cons_ne_nil _ _)
      (List.forall_mem_cons.mpr ⟨by decide, h.not_blank⟩)
  rw [← List.cons_append, trim_append htrimmed hbehind, afterLast_cons h.dot_notMem]

end IsBareName

/-- Text behind the first opening angle bracket does not count, nor do the blanks in front of it. -/
theorem upTo_angle {front rest : List Char} (h : '<' ∉ front) :
    trimEnd (upTo '<' (trim (front ++ '<' :: rest))) = trim front := by
  have hnone : ∀ c ∈ trimStart front, decide (c ≠ '<') = true := fun c hc =>
    decide_eq_true fun heq => h (heq ▸ List.dropWhile_subset _ hc)
  have hangle : ∃ c, ('<' :: rest).head? = some c ∧ isBlank c = false := ⟨'<', rfl, by decide⟩
  have hlast : ∃ c, (trimStart front ++ ['<']).getLast? = some c ∧ isBlank c = false :=
    ⟨'<', by simp, by decide⟩
  rw [trim, trimStart_append_of_first hangle, List.append_cons, trimEnd_append_of_last hlast,
    List.append_assoc, upTo, List.takeWhile_append_of_pos hnone, List.singleton_append,
    List.takeWhile_cons_of_neg (by simp), List.append_nil]
  rfl

theorem upTo_angle_of_notMem {cs : List Char} (h : '<' ∉ cs) :
    trimEnd (upTo '<' (trim cs)) = trim cs := by
  obtain ⟨before, behind, hsplit, -, -⟩ := exists_trim cs
  have hnone : ∀ c ∈ trim cs, decide (c ≠ '<') = true := by
    intro c hc
    refine decide_eq_true fun heq => h ?_
    rw [hsplit, ← heq]
    exact List.mem_append_right _ (List.mem_append_left _ hc)
  have hagain : trimEnd (trim cs) = trim cs := by
    unfold trim trimEnd dropEndWhile
    rw [List.reverse_reverse, List.dropWhile_idempotent]
  rw [upTo, takeWhile_eq_self hnone, hagain]

namespace Wrapping

variable {cs : List Char}

theorem angle_notMem_opening (w : Wrapping) : '<' ∉ w.opening := by
  have hbefore : '<' ∉ w.before := notMem_of_allBlank w.blank_before (by decide)
  cases hq : w.qualifier with
  | none => simpa [opening, hq] using hbefore
  | some q => simpa [opening, hq] using And.intro hbefore (w.notMem_qualifier q hq)

/-- The dot in front of a name is the last one that counts. -/
theorem afterLast_opening (w : Wrapping) (h : IsBareName cs) {behind : List Char}
    (hblank : allBlank behind = true) :
    afterLast '.' (trim (w.opening ++ (cs ++ behind))) = cs := by
  cases hq : w.qualifier with
  | none =>
      rw [opening, hq, Option.elim_none, List.append_nil]
      exact h.afterLast_blanks w.blank_before hblank
  | some q =>
      have hdot := h.afterLast_dot (w.before ++ q) hblank
      rwa [opening, hq, Option.elim_some, List.append_assoc, List.append_assoc,
        List.singleton_append, ← List.append_assoc]

/-- Whatever is written around a name is taken off again. -/
theorem bareName_around (w : Wrapping) (h : IsBareName cs) :
    bareName (String.ofList (w.around cs)) = cs := by
  rw [bareName, String.toList_ofList, around]
  cases hg : w.arguments with
  | none =>
      have hbehind : '<' ∉ w.behind := notMem_of_allBlank w.blank_behind (by decide)
      have hangle : '<' ∉ w.opening ++ (cs ++ w.behind) := by
        simp [hbehind, w.angle_notMem_opening, h.angle_notMem]
      rw [closing, hg, Option.elim_none, List.nil_append, upTo_angle_of_notMem hangle]
      exact w.afterLast_opening h w.blank_behind
  | some g =>
      have hangle : '<' ∉ w.opening ++ cs := by
        simp [w.angle_notMem_opening, h.angle_notMem]
      have hlast : afterLast '.' (trim (w.opening ++ (cs ++ []))) = cs := w.afterLast_opening h rfl
      rw [List.append_nil] at hlast
      rw [closing, hg, Option.elim_some, List.cons_append, ← List.append_assoc, upTo_angle hangle]
      exact hlast

end Wrapping

theorem bareName_of_isBareName {name : String} (h : IsBareName name.toList) :
    bareName name = name.toList := by
  have hbare := Wrapping.nothing.bareName_around h
  rwa [Wrapping.around_nothing, String.ofList_toList] at hbare

theorem componentKey_of_isBareName {name : String} (h : IsBareName name.toList) :
    componentKey name = Unicode.toLower name := by
  rw [componentKey, bareName_of_isBareName h, h.trim_eq, String.ofList_toList]

/-- A name stands for the first component that has it, or else for the first one that has it behind
what names begin with. -/
theorem resolve?_of_isBareName (s : Snapshot) {name : String} (h : IsBareName name.toList)
    (hne : name ≠ "") :
    s.resolve? name = (firstNamed? Component.name (Unicode.toLower name) s.components).or
      (firstNamed? Component.name (Unicode.toLower s.namePrefix ++ Unicode.toLower name)
        s.components) := by
  have hlist : name.toList ≠ [] := fun hnil => hne (String.toList_eq_nil_iff.mp hnil)
  unfold resolve?
  simp only [componentKey_of_isBareName h, Unicode.isEmpty_toLower hlist, Bool.false_eq_true,
    if_false]

/-- A name stands for the first type that has it. -/
theorem type?_of_isBareName (s : Snapshot) {name : String} (h : IsBareName name.toList) :
    s.type? name = firstNamed? TypeReference.name (Unicode.toLower name) s.types := by
  rw [type?, bareName_of_isBareName h, String.ofList_toList]

/-- A name is found alike however it is written: with a qualifier in front of it, with type
arguments behind it, with blanks around it all, and with its ASCII letters in another case.  It is
the bare name that counts: the first component that has it is found, or else the first one that has
it behind what names begin with; and the first type that has it. -/
theorem found_however_written (s : Snapshot) {name : String} (h : IsBareName name.toList)
    (w : Wrapping) {spelling : String}
    (hspelling : sameIgnoringCase spelling (String.ofList (w.around name.toList)) = true) :
    (s.resolve? spelling = s.resolve? name ∧ s.type? spelling = s.type? name) ∧
      (name ≠ "" → s.resolve? spelling =
        (firstNamed? Component.name (Unicode.toLower name) s.components).or
          (firstNamed? Component.name (Unicode.toLower s.namePrefix ++ Unicode.toLower name)
            s.components)) ∧
      s.type? spelling = firstNamed? TypeReference.name (Unicode.toLower name) s.types := by
  have hbare : (bareName spelling).map Char.toLower = (bareName name).map Char.toLower := by
    rw [bareName_congr hspelling, w.bareName_around h, bareName_of_isBareName h]
  have hcomponent : componentKey spelling = componentKey name := by
    refine Unicode.toLower_congr (sameIgnoringCase_ofList ?_)
    rw [← trim_map_toLower, hbare, trim_map_toLower]
  have hkey : Unicode.toLower (String.ofList (bareName spelling)) =
      Unicode.toLower (String.ofList (bareName name)) :=
    Unicode.toLower_congr (sameIgnoringCase_ofList hbare)
  have hresolve : s.resolve? spelling = s.resolve? name := by
    rw [resolve?, hcomponent]
    rfl
  have htype : s.type? spelling = s.type? name := by
    rw [type?, hkey]
    rfl
  refine ⟨⟨hresolve, htype⟩, fun hne => ?_, ?_⟩
  · rw [hresolve, resolve?_of_isBareName s h hne]
  · rw [htype, type?_of_isBareName s h]

/-- A field that is looked up with dots, brackets and blanks in everything around its name. -/
theorem found_however_written_field :
    let s : Snapshot := ⟨[Component.ofName "MudTextField"], [],
      [⟨"TextField", .classType, none, none, none, [], [], none⟩], "Mud", 0⟩
    let spelling := " MudBlazor. Forms .TEXTfield<Map<A.B, C>, D> "
    IsBareName "TextField".toList ∧
      s.resolve? "TextField" = some (Component.ofName "MudTextField") ∧
      s.resolve? spelling = s.resolve? "TextField" ∧ s.type? spelling = s.type? "TextField" := by
  intro s spelling
  have hbare : IsBareName "TextField".toList := by decide
  let w : Wrapping := ⟨[' '], some "MudBlazor. Forms ".toList, some "Map<A.B, C>, D>".toList, [' '],
    rfl, rfl, by decide⟩
  have hfield := found_however_written s hbare w
    (show sameIgnoringCase spelling _ = true by decide)
  refine ⟨hbare, ?_, hfield.1⟩
  rw [← hfield.1.1, hfield.2.1 (by decide)]
  decide

end Snapshot
end ComponentAtlas
