import ComponentAtlas.Proofs.CSharp.Names
import ComponentAtlas.Proofs.Index.InternalTypes
import ComponentAtlas.Proofs.Snapshot.Spellings
import ComponentAtlas.Proofs.Snapshot.WellFormed
import Mathlib.Data.List.Nodup

/-!
# Listed names are found

Names are told apart by their spelling when a snapshot is built, but looked up in lower case, and
without a qualifier, type arguments and the blanks around them.  No name of a declared type holds
any of these, so a listed name is looked up as it is.  What is found is the first entry of that name
in lower case: the listed one itself, unless a name that differs in case only stands in front of it.
-/

namespace ComponentAtlas

open CSharp (IsName)

/-! ## Names as they are looked up -/

namespace Snapshot

theorem isBareName_of_isName {cs : List Char} (h : IsName cs) : IsBareName cs := by
  intro c hc
  refine ⟨?_, ?_, h.not_blank c hc⟩
  · exact h.ne_of_not_word (by decide) (by decide) c hc
  · exact h.ne_of_not_word (by decide) (by decide) c hc

theorem bareName_of_isName {name : String} (h : IsName name.toList) :
    bareName name = name.toList :=
  bareName_of_isBareName (isBareName_of_isName h)

theorem componentKey_of_isName {name : String} (h : IsName name.toList) :
    componentKey name = Unicode.toLower name :=
  componentKey_of_isBareName (isBareName_of_isName h)

end Snapshot

/-! ## The first of a name -/

section

variable {α : Type} {nameOf : α → String} {xs : List α} {x : α}

/-- What is looked up is found, and what is found is the first of its name. -/
theorem exists_firstNamed? (hx : x ∈ xs) (hordered : xs.Pairwise fun a b => nameOf a < nameOf b) :
    ∃ y ∈ xs, firstNamed? nameOf (Unicode.toLower (nameOf x)) xs = some y ∧
      Unicode.toLower (nameOf y) = Unicode.toLower (nameOf x) ∧
      ∀ z ∈ xs, Unicode.toLower (nameOf z) = Unicode.toLower (nameOf x) → nameOf y ≤ nameOf z := by
  obtain ⟨y, hy⟩ := exists_firstNamed?_of_mem nameOf hx
  obtain ⟨hsame, front, rest, hsplit, hfront⟩ := List.find?_eq_some_iff_append.mp hy
  refine ⟨y, hsplit ▸ List.mem_append_right _ List.mem_cons_self, hy, beq_iff_eq.mp hsame,
    fun z hz heq => ?_⟩
  rw [hsplit] at hz hordered
  rcases List.mem_append.mp hz with hz | hz
  · have hother := hfront z hz
    rw [heq, beq_self_eq_true] at hother
    cases hother
  · rcases List.mem_cons.mp hz with rfl | hz
    · exact String.le_refl _
    · have hlt := (List.pairwise_cons.mp (List.pairwise_append.mp hordered).2.1).1 z hz
      exact String.not_lt.mp fun hgt => String.lt_irrefl _ (String.lt_trans hlt hgt)

end

namespace Snapshot

/-! ## What a build lists -/

section

variable {settings : Settings} {tree : SourceTree} {files : SourceFiles}

theorem isName_of_declaredBy {mayBeComponent : Bool} {d : Declaration}
    (h : (mayBeComponent, d) ∈ declaredBy settings.index tree files) :
    IsName d.component.name.toList ∧ ∀ t ∈ d.types, IsName t.name.toList := by
  obtain ⟨file, -, hd⟩ := mem_declaredBy_iff.mp h
  obtain ⟨text, -, hdeclared⟩ := Option.bind_eq_some_iff.mp hd
  exact Declaration.isName_of_ofFile? hdeclared

/-- Whatever is listed has a name. -/
theorem isName_of_listed (settings : Settings) (tree : SourceTree) (files : SourceFiles) :
    (∀ c ∈ (ofFiles settings tree files).components, IsName c.name.toList) ∧
      ∀ t ∈ (ofFiles settings tree files).types, IsName t.name.toList := by
  constructor
  · intro c hc
    have hname := List.mem_map_of_mem (f := Component.name) hc
    rw [names_ofFiles] at hname
    obtain ⟨⟨mayBeComponent, d⟩, hd, -, -, hsame⟩ := Declarations.declared_of_mem_ofFiles hname
    exact hsame ▸ (isName_of_declaredBy hd).1
  · intro t ht
    obtain ⟨⟨mayBeComponent, d⟩, hd, hname⟩ :=
      Declarations.mem_typeNames_ofFiles.mp (List.mem_map_of_mem (f := TypeReference.name) ht)
    obtain ⟨u, hu, hsame⟩ := List.mem_map.mp hname
    exact hsame ▸ (isName_of_declaredBy hd).2 u hu

theorem types_ordered : (ofFiles settings tree files).types.Pairwise fun t u => t.name < u.name :=
  Declarations.types_ordered settings.index (declaredBy settings.index tree files)

end

/-- A listed name is looked up in lower case and as it is otherwise.  The first entry of that name
is found; so a name finds its own entry unless one whose name differs in case only stands in front
of it. -/
theorem listed_is_found {settings : Settings} {tree : SourceTree} {availability : Availability}
    {cancelled : Bool} {s : Snapshot} (h : build settings tree availability cancelled = .ok s) :
    (∀ c ∈ s.components,
      (∃ d ∈ s.components, s.resolve? c.name = some d ∧
        Unicode.toLower d.name = Unicode.toLower c.name ∧
        ∀ b ∈ s.components, Unicode.toLower b.name = Unicode.toLower c.name → d.name ≤ b.name) ∧
      (s.resolve? c.name = some c ↔
        ∀ b ∈ s.components, Unicode.toLower b.name = Unicode.toLower c.name → c.name ≤ b.name)) ∧
    ∀ name ∈ s.types.map TypeReference.name,
      (∃ t ∈ s.types, s.type? name = some t ∧ Unicode.toLower t.name = Unicode.toLower name ∧
        ∀ u ∈ s.types, Unicode.toLower u.name = Unicode.toLower name → t.name ≤ u.name) ∧
      ((∃ t, s.type? name = some t ∧ t.name = name) ↔
        ∀ u ∈ s.types, Unicode.toLower u.name = Unicode.toLower name → name ≤ u.name) := by
  obtain ⟨files, -, rfl⟩ := ofFiles_of_build h
  obtain ⟨hcomponents, htypes⟩ := isName_of_listed settings tree files
  have hordered := (wellFormed_ofFiles settings tree files).ordered
  constructor
  · intro c hc
    obtain ⟨d, hd, hfound, hsame, hfirst⟩ := exists_firstNamed? hc hordered
    have hresolve : (ofFiles settings tree files).resolve? c.name = some d := by
      have hname := hcomponents c hc
      unfold resolve?
      simp only [componentKey_of_isName hname, Unicode.isEmpty_toLower hname.ne_nil,
        Bool.false_eq_true, if_false, hfound, Option.some_or]
    refine ⟨⟨d, hd, hresolve, hsame, hfirst⟩, fun hself => ?_, fun hleast => ?_⟩
    · obtain rfl := Option.some.inj (hresolve.symm.trans hself)
      exact hfirst
    · have hname := String.le_antisymm (hfirst c hc rfl) (hleast d hd hsame)
      rw [hresolve, List.inj_on_of_nodup_map (names_nodup_of_ordered hordered) hd hc hname]
  · intro name hname
    obtain ⟨t, ht, rfl⟩ := List.mem_map.mp hname
    obtain ⟨u, hu, hfound, hsame, hfirst⟩ := exists_firstNamed? ht types_ordered
    have htype : (ofFiles settings tree files).type? t.name = some u := by
      rw [type?, bareName_of_isName (htypes t ht), String.ofList_toList]
      exact hfound
    refine ⟨⟨u, hu, htype, hsame, hfirst⟩, ?_, fun hleast => ⟨u, htype, ?_⟩⟩
    · rintro ⟨v, hv, hvname⟩
      obtain rfl := Option.some.inj (htype.symm.trans hv)
      exact hvname ▸ hfirst
    · exact String.le_antisymm (hfirst t ht rfl) (hleast u hu hsame)

/-! ## Two names that differ in case only -/

def tabsTree : SourceTree :=
  ⟨⟨[(["lib", "Tab.cs"], .text "public class MudTab\n\x7b\n\x7d\npublic enum Side\n\x7b\n\x7d\n"),
    (["lib", "TabOld.cs"], .text "public class Mudtab\n\x7b\n\x7d\n")]⟩, "lib"⟩

/-- The names that are listed, with the names of what is found under them. -/
def lookedUp (s : Snapshot) : List (String × Option String) × List (String × Option String) :=
  (s.components.map fun c => (c.name, (s.resolve? c.name).map Component.name),
    s.types.map fun t => (t.name, (s.type? t.name).map TypeReference.name))

theorem tabsTree_filesIn :
    tabsTree.filesIn "." =
      [⟨⟨false, ["lib", "Tab.cs"]⟩, "Tab.cs", ["lib", "Tab.cs"]⟩,
        ⟨⟨false, ["lib", "TabOld.cs"]⟩, "TabOld.cs", ["lib", "TabOld.cs"]⟩] := by
  have hfiles : tabsTree.files.filesBelow ["lib"] = [["Tab.cs"], ["TabOld.cs"]] :=
    FileTree.filesBelow_of_ordered (by decide) (by decide)
  have hplace : SourceTree.placeOf? ((Path.ofString tabsTree.root).join
      (Path.ofString ".")) = some ["lib"] := by
    decide
  -- sorting does not compute, so the files of the tree are put in by hand
  rw [SourceTree.filesIn]
  simp only [hplace, hfiles]
  decide

theorem tabsTree_lookedUp :
    ∃ s, build timerSettings tabsTree (.answered true) false = .ok s ∧
      s.lookedUp =
        ([("MudTab", some "MudTab"), ("Mudtab", some "MudTab")],
          [("MudTab", some "MudTab"), ("Mudtab", some "MudTab"), ("Side", some "Side")]) := by
  refine exists_ok_of_map (f := lookedUp) ?_
  rw [build_eq]
  unfold SourceTree.sourceFiles
  rw [show timerSettings.layout.componentsDir = "." from rfl, tabsTree_filesIn]
  decide +kernel

/-- The first tab is found under its name, and so is the enumeration. -/
theorem listed_is_found_side :
    ∃ s, build timerSettings tabsTree (.answered true) false = .ok s ∧
      (∃ c ∈ s.components, c.name = "MudTab" ∧ s.resolve? c.name = some c) ∧
      ∃ t, s.type? "Side" = some t ∧ t.name = "Side" := by
  obtain ⟨s, hs, hlooked⟩ := tabsTree_lookedUp
  obtain ⟨hcomponents, htypes⟩ := listed_is_found hs
  obtain ⟨hc, ht⟩ := Prod.mk.inj hlooked
  have hc : s.components.map Component.name = ["MudTab", "Mudtab"] := by
    have hfst := congrArg (List.map Prod.fst) hc
    rwa [List.map_map] at hfst
  have ht : s.types.map TypeReference.name = ["MudTab", "Mudtab", "Side"] := by
    have hfst := congrArg (List.map Prod.fst) ht
    rwa [List.map_map] at hfst
  have htab : "MudTab" ∈ s.components.map Component.name := by rw [hc]; decide
  obtain ⟨c, hmem, hname⟩ := List.mem_map.mp htab
  have hfirst : ∀ n ∈ ["MudTab", "Mudtab"], "MudTab" ≤ n := by decide
  have honly : ∀ n ∈ ["MudTab", "Mudtab", "Side"],
      Unicode.toLower n = Unicode.toLower "Side" → "Side" ≤ n := by decide +kernel
  refine ⟨s, hs, ⟨c, hmem, hname, ((hcomponents c hmem).2).mpr fun b hb _ => ?_⟩,
    ((htypes "Side" (by rw [ht]; decide)).2).mpr fun u hu => ?_⟩
  · rw [hname]
    exact hfirst b.name (hc ▸ List.mem_map_of_mem hb)
  · exact honly u.name (ht ▸ List.mem_map_of_mem hu)

/-- The second tab is listed, and the first is found in its place. -/
theorem listed_is_not_found :
    ∃ s, build timerSettings tabsTree (.answered true) false = .ok s ∧
      (∃ c ∈ s.components, s.resolve? c.name ≠ some c) ∧
      ∃ name ∈ s.types.map TypeReference.name, ¬ ∃ t, s.type? name = some t ∧ t.name = name := by
  obtain ⟨s, hs, hlooked⟩ := tabsTree_lookedUp
  obtain ⟨hc, ht⟩ := Prod.mk.inj hlooked
  have hcomponent : ("Mudtab", some "MudTab") ∈
      s.components.map fun c => (c.name, (s.resolve? c.name).map Component.name) := by
    rw [hc]
    decide
  have htype : ("Mudtab", some "MudTab") ∈
      s.types.map fun t => (t.name, (s.type? t.name).map TypeReference.name) := by
    rw [ht]
    decide
  obtain ⟨c, hmem, heq⟩ := List.mem_map.mp hcomponent
  obtain ⟨t, hmem', heq'⟩ := List.mem_map.mp htype
  obtain ⟨hname, hfound⟩ := Prod.mk.inj heq
  obtain ⟨hname', hfound'⟩ := Prod.mk.inj heq'
  refine ⟨s, hs, ⟨c, hmem, fun hself => ?_⟩, t.name, List.mem_map_of_mem hmem', ?_⟩
  · rw [hself, Option.map_some, hname] at hfound
    exact absurd hfound (by decide)
  · rintro ⟨u, hu, hsame⟩
    rw [hu, Option.map_some, hsame, hname'] at hfound'
    exact absurd hfound' (by decide)

end Snapshot
end ComponentAtlas
