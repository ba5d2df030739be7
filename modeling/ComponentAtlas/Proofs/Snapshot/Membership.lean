import ComponentAtlas.Engine.Basic
import ComponentAtlas.Proofs.Snapshot.Lookup

/-!
# The members of a category

A component names its category, and a category lists the names of its members.  Both are made from
one table and agree to the letter.  Categories and components are looked up in lower case, however,
and the first entry of a name is taken; so of two categories whose names differ in case only, the
first one stands for both.  The members of a category are looked up in the same way, one by one;
there the first of two such components comes twice, and the second one is lost.

A category is looked up without the blanks around its name, but listed with them; so one whose name
has blanks around it may not be found at all, and has no members then.
-/

namespace ComponentAtlas

/-! ## The first of a name -/

/-- The first of some things with a name, whatever the case of the letters. -/
def IsFirstNamed {α : Type} (nameOf : α → String) (xs : List α) (name : String) (x : α) : Prop :=
  ∃ front rest, xs = front ++ x :: rest ∧ Unicode.toLower (nameOf x) = Unicode.toLower name ∧
    ∀ y ∈ front, Unicode.toLower (nameOf y) ≠ Unicode.toLower name

section

variable {α : Type} {nameOf : α → String} {xs : List α} {name : String} {x y : α}

theorem firstNamed?_eq_some_iff :
    firstNamed? nameOf (Unicode.toLower name) xs = some x ↔ IsFirstNamed nameOf xs name x := by
  unfold firstNamed? IsFirstNamed
  rw [List.find?_eq_some_iff_append]
  constructor
  · rintro ⟨hname, front, rest, hsplit, hfront⟩
    exact ⟨front, rest, hsplit, beq_iff_eq.mp hname, fun y hy => by simpa using hfront y hy⟩
  · rintro ⟨front, rest, hsplit, hname, hfront⟩
    exact ⟨beq_iff_eq.mpr hname, front, rest, hsplit, fun y hy => by simpa using hfront y hy⟩

theorem IsFirstNamed.unique (hx : IsFirstNamed nameOf xs name x)
    (hy : IsFirstNamed nameOf xs name y) : x = y :=
  Option.some.inj ((firstNamed?_eq_some_iff.mpr hx).symm.trans (firstNamed?_eq_some_iff.mpr hy))

theorem exists_isFirstNamed (nameOf : α → String) (hx : x ∈ xs) :
    ∃ y, IsFirstNamed nameOf xs (nameOf x) y := by
  obtain ⟨y, hy⟩ := exists_firstNamed?_of_mem nameOf hx
  exact ⟨y, firstNamed?_eq_some_iff.mp hy⟩

end

namespace Snapshot

variable {s : Snapshot} {settings : Settings} {tree : SourceTree}

/-- The components that name a category as theirs, in their order. -/
def inCategory (s : Snapshot) (category : String) : List Component :=
  s.components.filter fun c => c.category == some category

/-! ## What a category lists -/

theorem category_of_mem_ofFiles {files : SourceFiles} {c : Component}
    (hc : c ∈ (ofFiles settings tree files).components) :
    c.category = some (settings.categories.categoryOf c.name) := by
  obtain ⟨b, -, rfl⟩ := List.mem_map.mp hc
  rfl

/-- A category lists the components that name it as theirs. -/
theorem components_of_mem_categories {files : SourceFiles} {k : Category}
    (hk : k ∈ (ofFiles settings tree files).categories) :
    k.components = ((ofFiles settings tree files).inCategory k.name).map Component.name := by
  have hlists := CategoryTable.Lists.categoriesOf settings.categories
    ((ofFiles settings tree files).components.map Component.name)
  rw [hlists.members k hk, List.filter_map, inCategory]
  refine congrArg (List.map Component.name) (List.filter_congr fun c hc => ?_)
  rw [category_of_mem_ofFiles hc]
  rfl

/-! ## The members as they are looked up -/

/-- Each member stands for the first component of its name. -/
theorem forall₂_named {cs : List Component} (hcs : cs ⊆ s.components) :
    List.Forall₂ (fun c d => IsFirstNamed Component.name s.components c.name d) cs
      ((cs.map Component.name).filterMap s.named?) := by
  induction cs with
  | nil => exact List.Forall₂.nil
  | cons c cs ih =>
      obtain ⟨hc, hcs⟩ := List.cons_subset.mp hcs
      obtain ⟨d, hd⟩ := exists_isFirstNamed Component.name hc
      have hnamed : s.named? c.name = some d := firstNamed?_eq_some_iff.mpr hd
      rw [List.map_cons, List.filterMap_cons, hnamed]
      exact List.Forall₂.cons hd (ih hcs)

theorem eq_iff_of_forall₂_named {cs ds : List Component}
    (h : List.Forall₂ (fun c d => IsFirstNamed Component.name s.components c.name d) cs ds) :
    ds = cs ↔ ∀ c ∈ cs, IsFirstNamed Component.name s.components c.name c := by
  constructor
  · rintro rfl
    exact List.forall₂_same.mp h
  · intro hself
    induction h with
    | nil => rfl
    | cons hd _ ih =>
        obtain ⟨hc, hcs⟩ := List.forall_mem_cons.mp hself
        rw [hd.unique hc, ih hcs]

theorem inCategory_nodup {files : SourceFiles} (category : String) :
    ((ofFiles settings tree files).inCategory category).Nodup := by
  have hnames := names_nodup_of_ordered (wellFormed_ofFiles settings tree files).ordered
  exact (List.Nodup.of_map _ hnames).filter _

theorem category?_eq_some_iff {name : String} {j : Category} :
    s.category? name = some j ↔
      IsFirstNamed Category.name s.categories (Text.trimString name) j :=
  firstNamed?_eq_some_iff

theorem mem_of_category? {name : String} {j : Category} (h : s.category? name = some j) :
    j ∈ s.categories :=
  List.mem_of_find?_eq_some h

theorem componentNames_of_current {e : Engine} {number : Nat}
    (h : e.current = .ok { s with generation := number }) (name : String) :
    e.componentNames (some name) =
      ((s.category? name).map Category.components).elim (.error (.unknownCategory name)) .ok := by
  have hsame : category? { s with generation := number } name = s.category? name := rfl
  rw [Engine.componentNames, Engine.category, h]
  simp only [Except.bind, hsame]
  cases s.category? name <;> rfl

/-- Under the name of a category stands the first category that has this name, without the blanks
around it and whatever the case of the letters; there is one unless the name has blanks around it.
If there is none, no members are found.  Otherwise the members that are looked up are those of the
category that was found, in the order of the index, each given by the first component of its name
whatever the case of the letters; so they are the components of that category just when each of
them is that one.  The names that are listed are always those of the components. -/
theorem category_members {availability : Availability} {cancelled : Bool}
    (h : build settings tree availability cancelled = .ok s) {k : Category}
    (hk : k ∈ s.categories) :
    (∀ j, s.category? k.name = some j ↔
      IsFirstNamed Category.name s.categories (Text.trimString k.name) j) ∧
    (Text.trimString k.name = k.name → ∃ j, s.category? k.name = some j) ∧
    (s.category? k.name = none → s.componentsIn k.name = [] ∧
      ∀ (e : Engine) (number : Nat), e.current = .ok { s with generation := number } →
        e.componentNames (some k.name) = .error (.unknownCategory k.name)) ∧
    ∀ j, s.category? k.name = some j →
      (s.inCategory j.name).Nodup ∧
      List.Forall₂ (fun c d => IsFirstNamed Component.name s.components c.name d)
        (s.inCategory j.name) (s.componentsIn k.name) ∧
      (s.componentsIn k.name = s.inCategory j.name ↔
        ∀ c ∈ s.inCategory j.name, IsFirstNamed Component.name s.components c.name c) ∧
      ∀ (e : Engine) (number : Nat), e.current = .ok { s with generation := number } →
        e.componentNames (some k.name) = .ok ((s.inCategory j.name).map Component.name) := by
  obtain ⟨files, -, rfl⟩ := ofFiles_of_build h
  refine ⟨fun _ => category?_eq_some_iff, fun htrim => ?_, fun hnone => ⟨?_, ?_⟩,
    fun j hfound => ?_⟩
  · obtain ⟨j, hj⟩ := exists_isFirstNamed Category.name hk
    rw [← htrim] at hj
    exact ⟨j, category?_eq_some_iff.mpr hj⟩
  · rw [componentsIn, hnone]
  · intro e number hcurrent
    rw [componentNames_of_current hcurrent, hnone]
    rfl
  have hlisted := components_of_mem_categories (mem_of_category? hfound)
  have hmembers := @forall₂_named _ ((ofFiles settings tree files).inCategory j.name)
    List.filter_sublist.subset
  rw [← hlisted] at hmembers
  have hlook : (ofFiles settings tree files).componentsIn k.name =
      j.components.filterMap (ofFiles settings tree files).named? := by
    rw [componentsIn, hfound]
  rw [← hlook] at hmembers
  refine ⟨inCategory_nodup j.name, hmembers, eq_iff_of_forall₂_named hmembers, ?_⟩
  intro e number hcurrent
  rw [componentNames_of_current hcurrent, hfound, ← hlisted]
  rfl

/-! ## Two categories and two components that differ in case only -/

/-- Two categories, the first of which lists both tabs. -/
def tabsSettings : Settings :=
  { timerSettings with
    categories := ⟨[⟨"Tabs", none, none, ["MudTab", "Mudtab"]⟩, ⟨"tabs", none, none, []⟩],
      [], false⟩ }

/-- The categories with the names of what is found under theirs, of the members that are looked up
there, and of the components that belong there. -/
def placed (s : Snapshot) : List (String × Option String × List String × List String) :=
  s.categories.map fun k =>
    (k.name, (s.category? k.name).map Category.name, (s.componentsIn k.name).map Component.name,
      (s.inCategory k.name).map Component.name)

theorem tabsTree_placed :
    ∃ s, build tabsSettings tabsTree (.answered true) false = .ok s ∧
      s.placed =
        [("Tabs", some "Tabs", ["MudTab", "MudTab"], ["MudTab", "Mudtab"]),
          ("tabs", some "Tabs", ["MudTab", "MudTab"], [])] := by
  refine exists_ok_of_map (f := placed) ?_
  rw [build_eq]
  unfold SourceTree.sourceFiles
  rw [show tabsSettings.layout.componentsDir = "." from rfl, tabsTree_filesIn]
  decide +kernel

/-- The first category finds itself and has two members, but where these are looked up the first
one is found twice: the second one is not the first of its name. -/
theorem category_members_tabs :
    ∃ s, build tabsSettings tabsTree (.answered true) false = .ok s ∧
      ∃ k ∈ s.categories, k.name = "Tabs" ∧ Text.trimString k.name = k.name ∧
        s.category? k.name = some k ∧
        (s.inCategory k.name).map Component.name = ["MudTab", "Mudtab"] ∧
        (s.componentsIn k.name).map Component.name = ["MudTab", "MudTab"] ∧
        ¬ ∀ c ∈ s.inCategory k.name, IsFirstNamed Component.name s.components c.name c := by
  obtain ⟨s, hs, hplaced⟩ := tabsTree_placed
  obtain ⟨k, rest, hsplit, hrow, -⟩ := List.map_eq_cons_iff.mp hplaced
  obtain ⟨hname, hrow⟩ := Prod.mk.inj hrow
  obtain ⟨-, hrow⟩ := Prod.mk.inj hrow
  obtain ⟨hlooked, hin⟩ := Prod.mk.inj hrow
  have hmem : k ∈ s.categories := hsplit ▸ List.mem_cons_self
  have htrim : Text.trimString k.name = k.name := by
    rw [hname]
    decide +kernel
  have hfirst : IsFirstNamed Category.name s.categories k.name k :=
    ⟨[], rest, hsplit, rfl, fun y hy => by cases hy⟩
  obtain ⟨hfinds, -, -, hmembers⟩ := category_members hs hmem
  have hself : s.category? k.name = some k := (hfinds k).mpr (by rwa [htrim])
  obtain ⟨-, -, hsame, -⟩ := hmembers k hself
  refine ⟨s, hs, k, hmem, hname, htrim, hself, hin, hlooked, fun hall => ?_⟩
  rw [hsame.mpr hall, hin] at hlooked
  exact absurd hlooked (by decide)

/-- The second category does not find itself, and what is looked up in the first one is not what
belongs to it. -/
theorem category_taken_for_other :
    ∃ s, build tabsSettings tabsTree (.answered true) false = .ok s ∧
      (∃ k ∈ s.categories, s.category? k.name ≠ some k) ∧
      ∃ k ∈ s.categories, s.componentsIn k.name ≠ s.inCategory k.name := by
  obtain ⟨s, hs, hplaced⟩ := tabsTree_placed
  obtain ⟨k, rest, hsplit, hrow, hplaced⟩ := List.map_eq_cons_iff.mp hplaced
  obtain ⟨j, behind, hsplit', hrow', -⟩ := List.map_eq_cons_iff.mp hplaced
  obtain ⟨-, hrow⟩ := Prod.mk.inj hrow
  obtain ⟨-, hrow⟩ := Prod.mk.inj hrow
  obtain ⟨hlooked, hin⟩ := Prod.mk.inj hrow
  obtain ⟨hname, hrow'⟩ := Prod.mk.inj hrow'
  obtain ⟨hfound, -⟩ := Prod.mk.inj hrow'
  refine ⟨s, hs, ⟨j, ?_, fun hself => ?_⟩, k, hsplit ▸ List.mem_cons_self, fun hsame => ?_⟩
  · rw [hsplit, hsplit']
    exact List.mem_cons_of_mem _ List.mem_cons_self
  · rw [hself, Option.map_some, hname] at hfound
    exact absurd hfound (by decide)
  · rw [hsame, hin] at hlooked
    exact absurd hlooked (by decide)

end Snapshot
end ComponentAtlas
