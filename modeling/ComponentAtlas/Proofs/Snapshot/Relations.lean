import ComponentAtlas.Proofs.Index.Build
import ComponentAtlas.Proofs.Snapshot.Family
import ComponentAtlas.Proofs.Snapshot.WellFormed
import Mathlib.Data.List.Flatten
import Mathlib.Data.List.Nodup
import Mathlib.Data.List.Pairwise

/-!
# How relations overlap

Everything related to a component is listed parent first, then children, siblings and companions.
Siblings and companions are kept apart by name from all that comes before them, and companions from
one another.  Two things are not kept apart: a parent may be a child as well, when two components
extend each other, and two members of a category may be looked up as one component, when their names
differ in case only.  Nothing else brings a name into the list twice.
-/

namespace ComponentAtlas.Snapshot

variable {s : Snapshot} {x y : Component}

theorem isNamedIn_iff {cs : List Component} :
    isNamedIn cs y = true ↔ y.name ∈ cs.map Component.name := by
  simp only [isNamedIn, List.any_eq_true, beq_iff_eq, List.mem_map]

theorem mem_of_named? {name : String} (h : s.named? name = some y) : y ∈ s.components :=
  List.mem_of_find?_eq_some h

theorem mem_parentOf_iff :
    y ∈ s.parentOf x ↔ y.name ≠ x.name ∧
      ∃ base, x.baseType = some base ∧ s.named? base = some y := by
  unfold parentOf
  rw [Option.mem_toList, Option.filter_eq_some_iff, Option.bind_eq_some_iff, bne_iff_ne, and_comm]

/-- A component extends another one that extends it in turn. -/
def ExtendEachOther (s : Snapshot) (x : Component) : Prop :=
  ∃ p ∈ s.related x .parent, ∃ base, p.baseType = some base ∧
    Text.sameIgnoringCase base x.name = true

theorem extendEachOther_iff :
    s.ExtendEachOther x ↔ ∃ p ∈ s.related x .parent, p ∈ s.related x .child := by
  constructor
  · rintro ⟨p, hp, base, hbase, hsame⟩
    obtain ⟨hne, own, -, hnamed⟩ := mem_parentOf_iff.mp hp
    exact ⟨p, hp, mem_childrenOf_iff.mpr ⟨mem_of_named? hnamed, hne, base, hbase, hsame⟩⟩
  · rintro ⟨p, hp, hchild⟩
    exact ⟨p, hp, (mem_childrenOf_iff.mp hchild).2.2⟩

/-! ## Siblings -/

/-- The names that the category of a component lists. -/
def fellowNames (s : Snapshot) (x : Component) : List String :=
  ((x.category.bind s.category?).map Category.components).getD []

/-- Two members of a component's category are looked up as one component outside its family. -/
def HasTwinSiblings (s : Snapshot) (x : Component) : Prop :=
  ∃ m ∈ s.fellowNames x, ∃ n ∈ s.fellowNames x, m ≠ n ∧
    ∃ d, s.named? m = some d ∧ s.named? n = some d ∧ d.name ∉ (s.familyOf x).map Component.name

/-- What a member of a component's category adds to its siblings. -/
def siblingOfName? (s : Snapshot) (x : Component) (name : String) : Option Component :=
  (s.named? name).filter fun d => !isNamedIn (s.familyOf x) d

theorem siblingOfName?_eq_some_iff {name : String} :
    s.siblingOfName? x name = some y ↔
      s.named? name = some y ∧ y.name ∉ (s.familyOf x).map Component.name := by
  rw [siblingOfName?, Option.filter_eq_some_iff, Bool.not_eq_true', ← Bool.not_eq_true,
    isNamedIn_iff]

theorem siblingsOf_eq_filterMap :
    s.siblingsOf x = (s.fellowNames x).filterMap (s.siblingOfName? x) := by
  unfold siblingsOf fellowNames
  cases x.category with
  | none => rfl
  | some category =>
      simp only [Option.map_some, Option.getD_some, Option.bind_some, componentsIn]
      cases s.category? category with
      | none => rfl
      | some k => exact List.filter_filterMap

theorem name_notMem_family_of_sibling (h : y ∈ s.siblingsOf x) :
    y.name ∉ (s.familyOf x).map Component.name := by
  rw [siblingsOf_eq_filterMap] at h
  obtain ⟨name, -, hname⟩ := List.mem_filterMap.mp h
  exact (siblingOfName?_eq_some_iff.mp hname).2

theorem fellowNames_nodup (hmembers : ∀ k ∈ s.categories, k.components.Nodup) :
    (s.fellowNames x).Nodup := by
  unfold fellowNames
  cases hk : x.category.bind s.category? with
  | none => exact List.nodup_nil
  | some k =>
      obtain ⟨category, -, hfound⟩ := Option.bind_eq_some_iff.mp hk
      exact hmembers k (List.mem_of_find?_eq_some hfound)

/-- Components with the same name are the same one. -/
theorem eq_of_name_eq (hnames : (s.components.map Component.name).Nodup) (hx : x ∈ s.components)
    (hy : y ∈ s.components) (h : x.name = y.name) : x = y :=
  List.inj_on_of_nodup_map hnames hx hy h

/-- A sibling is listed twice just when two members of the category are looked up as one. -/
theorem nodup_siblings_iff (hnames : (s.components.map Component.name).Nodup)
    (hmembers : ∀ k ∈ s.categories, k.components.Nodup) :
    ((s.siblingsOf x).map Component.name).Nodup ↔ ¬ s.HasTwinSiblings x := by
  have hfellows : (s.fellowNames x).Nodup := fellowNames_nodup hmembers
  rw [siblingsOf_eq_filterMap, List.Nodup, List.pairwise_map, List.pairwise_filterMap]
  constructor
  · rintro hpair ⟨m, hm, n, hn, hne, d, hmd, hnd, hfamily⟩
    have hmd' := siblingOfName?_eq_some_iff.mpr ⟨hmd, hfamily⟩
    have hnd' := siblingOfName?_eq_some_iff.mpr ⟨hnd, hfamily⟩
    have hsymm : Std.Symm fun m n => ∀ c, s.siblingOfName? x m = some c →
        ∀ d, s.siblingOfName? x n = some d → c.name ≠ d.name :=
      ⟨fun _ _ h c hc d hd => (h d hd c hc).symm⟩
    exact hpair.forall hm hn hne d hmd' d hnd' rfl
  · intro htwins
    refine hfellows.pairwise_of_forall_ne fun m hm n hn hne c hc d hd hname => htwins ?_
    obtain ⟨hmc, hfamily⟩ := siblingOfName?_eq_some_iff.mp hc
    obtain ⟨hnd, -⟩ := siblingOfName?_eq_some_iff.mp hd
    obtain rfl := eq_of_name_eq hnames (mem_of_named? hmc) (mem_of_named? hnd) hname
    exact ⟨m, hm, n, hn, hne, c, hmc, hnd, hfamily⟩

/-! ## Companions -/

theorem companions_distinct :
    ((s.companionsOf x).map Component.name).Nodup ∧
      ∀ d ∈ s.familyOf x ++ s.siblingsOf x, ∀ e ∈ s.companionsOf x, d.name ≠ e.name :=
  firstsAfter_distinct (fun _ _ hname => beq_iff_eq.mpr hname) _ _

/-! ## All relations together -/

theorem mem_familyOf_of_related (h : y ∈ s.related x .parent ++ s.related x .child) :
    y ∈ s.familyOf x :=
  List.mem_cons_of_mem x h

theorem name_ne_of_mem_all (h : y ∈ s.related x .all) : y.name ≠ x.name := by
  rcases List.mem_append.mp h with h | hcompanion
  · rcases List.mem_append.mp h with h | hsibling
    · rcases List.mem_append.mp h with hparent | hchild
      · exact (mem_parentOf_iff.mp hparent).1
      · exact (mem_childrenOf_iff.mp hchild).2.1
    · intro heq
      refine name_notMem_family_of_sibling hsibling ?_
      rw [heq]
      exact List.mem_map_of_mem List.mem_cons_self
  · exact (companions_distinct.2 x (List.mem_append_left _ List.mem_cons_self) y hcompanion).symm

theorem sibling_apart (h : y ∈ s.related x .sibling) :
    ∀ e ∈ s.related x .parent ++ s.related x .child, e.name ≠ y.name := by
  intro e he heq
  refine name_notMem_family_of_sibling h ?_
  rw [← heq]
  exact List.mem_map_of_mem (mem_familyOf_of_related he)

theorem companion_apart (h : y ∈ s.related x .commonlyUsedWith) :
    ∀ e ∈ s.related x .parent ++ s.related x .child ++ s.related x .sibling, e.name ≠ y.name := by
  intro e he
  refine companions_distinct.2 e ?_ y h
  rcases List.mem_append.mp he with hfamily | hsibling
  · exact List.mem_append_left _ (mem_familyOf_of_related hfamily)
  · exact List.mem_append_right _ hsibling

theorem nodup_parent : ((s.related x .parent).map Component.name).Nodup := by
  show ((((x.baseType.bind s.named?).filter fun p => p.name != x.name).toList).map _).Nodup
  cases (x.baseType.bind s.named?).filter fun p => p.name != x.name with
  | none => exact List.nodup_nil
  | some p => exact List.nodup_singleton _

theorem parent_apart_iff (hnames : (s.components.map Component.name).Nodup) :
    (∀ p ∈ s.related x .parent, ∀ c ∈ s.related x .child, p.name ≠ c.name) ↔
      ¬ s.ExtendEachOther x := by
  rw [extendEachOther_iff]
  constructor
  · rintro hapart ⟨p, hp, hchild⟩
    exact hapart p hp p hchild rfl
  · intro hnone p hp c hc heq
    obtain ⟨-, base, -, hnamed⟩ := mem_parentOf_iff.mp hp
    have hmem : c ∈ s.components := (mem_childrenOf_iff.mp hc).1
    obtain rfl := eq_of_name_eq hnames (mem_of_named? hnamed) hmem heq
    exact hnone ⟨p, hp, hc⟩

theorem forall_name_ne_iff {cs ds : List Component} :
    (∀ a ∈ cs.map Component.name, ∀ b ∈ ds.map Component.name, a ≠ b) ↔
      ∀ c ∈ cs, ∀ d ∈ ds, c.name ≠ d.name := by
  simp only [List.forall_mem_map]

theorem nodup_all_iff (hnames : (s.components.map Component.name).Nodup)
    (hmembers : ∀ k ∈ s.categories, k.components.Nodup) :
    ((s.related x .all).map Component.name).Nodup ↔
      ¬ s.ExtendEachOther x ∧ ¬ s.HasTwinSiblings x := by
  have hchildren : ((s.related x .child).map Component.name).Nodup :=
    hnames.sublist ((List.filter_sublist).map Component.name)
  have hsiblings : ((s.related x .sibling).map Component.name).Nodup ↔ ¬ s.HasTwinSiblings x :=
    nodup_siblings_iff hnames hmembers
  have hall : s.related x .all = s.related x .parent ++ s.related x .child ++
      s.related x .sibling ++ s.related x .commonlyUsedWith := rfl
  rw [hall, List.map_append, List.map_append, List.map_append, List.nodup_append,
    List.nodup_append, List.nodup_append, ← List.map_append, ← List.map_append,
    forall_name_ne_iff, forall_name_ne_iff, forall_name_ne_iff, hsiblings,
    parent_apart_iff hnames]
  constructor
  · rintro ⟨⟨⟨-, -, hextend⟩, htwins, -⟩, -, -⟩
    exact ⟨hextend, htwins⟩
  · rintro ⟨hextend, htwins⟩
    refine ⟨⟨⟨nodup_parent, hchildren, hextend⟩, htwins, ?_⟩, companions_distinct.1, ?_⟩
    · exact fun e he d hd => sibling_apart hd e he
    · exact fun e he d hd => companion_apart hd e he

/-- No category of a built snapshot lists a name twice. -/
theorem WellFormed.members_nodup {settings : IndexSettings} (h : s.WellFormed settings) :
    ∀ k ∈ s.categories, k.components.Nodup := by
  intro k hk
  refine List.nodup_iff_count_le_one.mpr fun name => ?_
  by_cases hname : name ∈ k.components
  · obtain ⟨c, hc, rfl⟩ := h.members_indexed k hk name hname
    obtain ⟨-, -, -, -, hcount⟩ := h.categorised c hc
    have hpart := (List.singleton_sublist.mpr hk).flatMap Category.components
    rw [List.flatMap_singleton] at hpart
    rw [← hcount]
    exact hpart.count_le c.name
  · rw [List.count_eq_zero.mpr hname]
    exact Nat.zero_le 1

/-! ## Two that extend each other, and two that are named alike -/

def crossedTree : SourceTree :=
  ⟨⟨[(["lib", "Frame.cs"], .text "public class MudFrame : MudPanel\n\x7b\n\x7d\n"),
    (["lib", "Panel.cs"], .text "public class MudPanel : MudFrame\n\x7b\n\x7d\n"),
    (["lib", "TAB.cs"], .text "public class MudTAB\n\x7b\n\x7d\n"),
    (["lib", "Tab.cs"], .text "public class MudTab\n\x7b\n\x7d\n")]⟩, "lib"⟩

/-- Components anywhere in the tree, all of one category. -/
def crossedSettings : Settings :=
  { Settings.standard with
    layout := { Settings.standard.layout with componentsDir := "." }
    categories := ⟨[], [], false⟩ }

def relatedNames (s : Snapshot) (x : Component) : List (List String) :=
  [Relationship.parent, .child, .sibling, .all].map fun kind =>
    (s.related x kind).map Component.name

theorem crossedTree_related :
    ∃ s, build crossedSettings crossedTree (.answered true) false = .ok s ∧
      s.components.map s.relatedNames =
        [[["MudPanel"], ["MudPanel"], ["MudTAB", "MudTAB"],
            ["MudPanel", "MudPanel", "MudTAB", "MudTAB"]],
          [["MudFrame"], ["MudFrame"], ["MudTAB", "MudTAB"],
            ["MudFrame", "MudFrame", "MudTAB", "MudTAB"]],
          [[], [], ["MudFrame", "MudPanel"], ["MudFrame", "MudPanel"]],
          [[], [], ["MudFrame", "MudPanel", "MudTAB", "MudTAB"],
            ["MudFrame", "MudPanel", "MudTAB", "MudTAB"]]] := by
  have hfiles : crossedTree.files.filesBelow ["lib"] =
      [["Frame.cs"], ["Panel.cs"], ["TAB.cs"], ["Tab.cs"]] :=
    FileTree.filesBelow_of_ordered (by decide +kernel) (by decide +kernel)
  have hplace : SourceTree.placeOf? ((Path.ofString crossedTree.root).join
      (Path.ofString crossedSettings.layout.componentsDir)) = some ["lib"] := by
    decide +kernel
  refine exists_ok_of_map (f := fun s : Snapshot => s.components.map s.relatedNames) ?_
  -- sorting does not compute, so the files of the tree are put in by hand
  rw [build_eq]
  unfold SourceTree.sourceFiles
  rw [SourceTree.filesIn.eq_def crossedTree crossedSettings.layout.componentsDir]
  simp only [hplace, hfiles]
  decide +kernel

/-- All that is related to a component is listed relation by relation, and never the component
itself.  Siblings and companions have names of their own.  A parent is no child, unless the two
extend each other; and with that exception nothing is listed twice, unless two names of the category
stand for one sibling. -/
theorem related_all_nodup_iff {settings : Settings} {tree : SourceTree}
    {availability : Availability} {cancelled : Bool}
    (h : build settings tree availability cancelled = .ok s) (x : Component) :
    s.related x .all = s.related x .parent ++ s.related x .child ++ s.related x .sibling ++
        s.related x .commonlyUsedWith ∧
      (∀ d ∈ s.related x .all, d.name ≠ x.name) ∧
      (∀ d ∈ s.related x .sibling,
        ∀ e ∈ s.related x .parent ++ s.related x .child, e.name ≠ d.name) ∧
      (∀ d ∈ s.related x .commonlyUsedWith,
        ∀ e ∈ s.related x .parent ++ s.related x .child ++ s.related x .sibling,
          e.name ≠ d.name) ∧
      ((∀ p ∈ s.related x .parent, ∀ c ∈ s.related x .child, p.name ≠ c.name) ↔
        ¬ s.ExtendEachOther x) ∧
      (((s.related x .all).map Component.name).Nodup ↔
        ¬ s.ExtendEachOther x ∧ ¬ s.HasTwinSiblings x) := by
  have hwell := build_wellFormed h
  have hnames := names_nodup_of_ordered hwell.ordered
  exact ⟨rfl, fun d hd => name_ne_of_mem_all hd, fun d hd => sibling_apart hd,
    fun d hd => companion_apart hd, parent_apart_iff hnames,
    nodup_all_iff hnames hwell.members_nodup⟩

/-- The tab whose twin is looked up as itself. -/
theorem related_all_nodup_tab :
    ∃ s, build crossedSettings crossedTree (.answered true) false = .ok s ∧
      ∃ x ∈ s.components, (s.related x .all).map Component.name = ["MudFrame", "MudPanel"] ∧
        (∀ p ∈ s.related x .parent, ∀ c ∈ s.related x .child, p.name ≠ c.name) ∧
        ¬ s.HasTwinSiblings x := by
  obtain ⟨s, hs, hview⟩ := crossedTree_related
  obtain ⟨x, hx, hrelated⟩ : ∃ x ∈ s.components, s.relatedNames x =
      [[], [], ["MudFrame", "MudPanel"], ["MudFrame", "MudPanel"]] :=
    List.mem_map.mp (by rw [hview]; decide)
  simp only [relatedNames, List.map_cons, List.map_nil, List.cons.injEq, and_true] at hrelated
  obtain ⟨-, -, -, hall⟩ := hrelated
  obtain ⟨-, -, -, -, hparent, hnodup⟩ := related_all_nodup_iff hs x
  obtain ⟨hextend, htwins⟩ := hnodup.mp (by rw [hall]; decide)
  exact ⟨s, hs, x, hx, hall, hparent.mpr hextend, htwins⟩

/-- The frame, whose parent is its child and whose siblings are one twice. -/
theorem related_all_twice :
    ∃ s, build crossedSettings crossedTree (.answered true) false = .ok s ∧
      ∃ x ∈ s.components, (s.related x .parent).map Component.name = ["MudPanel"] ∧
        (s.related x .child).map Component.name = ["MudPanel"] ∧
        (s.related x .sibling).map Component.name = ["MudTAB", "MudTAB"] ∧
        ¬ ((s.related x .all).map Component.name).Nodup := by
  obtain ⟨s, hs, hview⟩ := crossedTree_related
  obtain ⟨x, hx, hrelated⟩ : ∃ x ∈ s.components, s.relatedNames x =
      [["MudPanel"], ["MudPanel"], ["MudTAB", "MudTAB"],
        ["MudPanel", "MudPanel", "MudTAB", "MudTAB"]] :=
    List.mem_map.mp (by rw [hview]; decide)
  simp only [relatedNames, List.map_cons, List.map_nil, List.cons.injEq, and_true] at hrelated
  obtain ⟨hparent, hchild, hsibling, hall⟩ := hrelated
  refine ⟨s, hs, x, hx, hparent, hchild, hsibling, ?_⟩
  rw [hall]
  decide

end ComponentAtlas.Snapshot
