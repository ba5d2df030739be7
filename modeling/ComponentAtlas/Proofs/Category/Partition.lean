import ComponentAtlas.Index.Build
import ComponentAtlas.Proofs.Category.Table
import ComponentAtlas.Proofs.Text.Occurrence
import Mathlib.Data.List.Forall2

/-!
# Categories partition the index

A component belongs where the table places it: with the first entry that lists it, or else with the
first rule that fits its name, or else in one category for all others.  The category list is headed
by what the entries describe, and one more category is added whenever a component belongs to none
that stands there already.  Neither step touches what stands in front of it, so the headings of the
list are told by the entries and by the categories in use, and with the invariant `Lists` each
component stands under exactly one of them.
-/

namespace ComponentAtlas

namespace CategoryRule

/-- What a rule looks for in a name: one of its texts anywhere in it, or one at its end. -/
def Fits (r : CategoryRule) (name : String) : Prop :=
  (∃ p ∈ r.contains, p.toList <:+: name.toList) ∨ ∃ e ∈ r.endsWith, e.toList <:+ name.toList

theorem applies_iff {r : CategoryRule} {name : String} : r.applies name = true ↔ r.Fits name := by
  have hend {e : String} : Text.endsWith e.toList name.toList = true ↔
      e.toList <:+ name.toList := by
    rw [Text.endsWith, Option.isSome_iff_exists]
    exact exists_congr fun front => Text.beforeEnd?_eq_some_iff.trans eq_comm
  simp only [applies, Fits, Bool.or_eq_true, List.any_eq_true, Text.contains_iff, hend]

end CategoryRule

namespace CategoryTable

variable {t : CategoryTable} {component : String}

/-! ## Where a component belongs -/

/-- The category at which a table places a component. -/
inductive Places (t : CategoryTable) (component : String) : String → Prop where
  /-- The first entry that lists the component. -/
  | listed {front behind : List CategoryEntry} {e : CategoryEntry}
      (entries : t.entries = front ++ e :: behind) (member : component ∈ e.members)
      (first : ∀ f ∈ front, component ∉ f.members) : Places t component e.name
  /-- The first rule that fits the name of a component that no entry lists. -/
  | inferred {front behind : List CategoryRule} {r : CategoryRule}
      (unlisted : ∀ e ∈ t.entries, component ∉ e.members) (infer : t.infer = true)
      (rules : t.rules = front ++ r :: behind) (fits : r.Fits component)
      (first : ∀ q ∈ front, ¬ q.Fits component) : Places t component r.category
  /-- No rule fits. -/
  | other (unlisted : ∀ e ∈ t.entries, component ∉ e.members) (infer : t.infer = true)
      (unfit : ∀ r ∈ t.rules, ¬ r.Fits component) : Places t component "Other"
  /-- The rules are not used. -/
  | off (unlisted : ∀ e ∈ t.entries, component ∉ e.members) (infer : t.infer = false) :
      Places t component "Uncategorized"

theorem listed?_of_first {front behind : List CategoryEntry} {e : CategoryEntry}
    (hentries : t.entries = front ++ e :: behind) (hmember : component ∈ e.members)
    (hfirst : ∀ f ∈ front, component ∉ f.members) : t.listed? component = some e.name := by
  have hfound : t.entries.find? (fun e => e.members.contains component) = some e := by
    refine List.find?_eq_some_iff_append.mpr
      ⟨List.contains_iff_mem.mpr hmember, front, behind, hentries, fun f hf => ?_⟩
    simpa using hfirst f hf
  rw [listed?_eq, hfound]
  rfl

theorem listed?_eq_none_iff :
    t.listed? component = none ↔ ∀ e ∈ t.entries, component ∉ e.members := by
  rw [listed?_eq, Option.map_eq_none_iff, List.find?_eq_none]
  simp only [List.contains_iff_mem]

theorem categoryOf_of_unlisted (h : ∀ e ∈ t.entries, component ∉ e.members) :
    t.categoryOf component = t.inferred component := by
  rw [categoryOf, listed?_eq_none_iff.mpr h, Option.getD_none]

theorem inferred_of_first {front behind : List CategoryRule} {r : CategoryRule}
    (hinfer : t.infer = true) (hrules : t.rules = front ++ r :: behind) (hfits : r.Fits component)
    (hfirst : ∀ q ∈ front, ¬ q.Fits component) : t.inferred component = r.category := by
  have hfound : t.rules.find? (fun r => r.applies component) = some r := by
    refine List.find?_eq_some_iff_append.mpr
      ⟨CategoryRule.applies_iff.mpr hfits, front, behind, hrules, fun q hq => ?_⟩
    simpa using mt CategoryRule.applies_iff.mp (hfirst q hq)
  rw [inferred, if_pos hinfer, hfound]
  rfl

theorem inferred_of_none (hinfer : t.infer = true) (hunfit : ∀ r ∈ t.rules, ¬ r.Fits component) :
    t.inferred component = otherCategory := by
  have hnone : t.rules.find? (fun r => r.applies component) = none :=
    List.find?_eq_none.mpr fun r hr => mt CategoryRule.applies_iff.mp (hunfit r hr)
  rw [inferred, if_pos hinfer, hnone]
  rfl

/-- A component is placed at its category and nowhere else. -/
theorem places_iff {k : String} : t.Places component k ↔ k = t.categoryOf component := by
  constructor
  · rintro (⟨hentries, hmember, hfirst⟩ | ⟨hunlisted, hinfer, hrules, hfits, hfirst⟩ |
      ⟨hunlisted, hinfer, hunfit⟩ | ⟨hunlisted, hinfer⟩)
    · rw [categoryOf, listed?_of_first hentries hmember hfirst, Option.getD_some]
    · rw [categoryOf_of_unlisted hunlisted, inferred_of_first hinfer hrules hfits hfirst]
    · rw [categoryOf_of_unlisted hunlisted, inferred_of_none hinfer hunfit, otherCategory]
    · rw [categoryOf_of_unlisted hunlisted, inferred, hinfer, if_neg Bool.false_ne_true,
        uncategorized]
  · rintro rfl
    cases hentry : t.entries.find? fun e => e.members.contains component with
    | some e =>
        obtain ⟨hmember, front, behind, hentries, hfirst⟩ :=
          List.find?_eq_some_iff_append.mp hentry
        have hlisted : t.Places component e.name :=
          .listed hentries (List.contains_iff_mem.mp hmember) (by simpa using hfirst)
        rwa [categoryOf, listed?_eq, hentry]
    | none =>
        have hunlisted : ∀ e ∈ t.entries, component ∉ e.members := by
          simpa using List.find?_eq_none.mp hentry
        rw [categoryOf_of_unlisted hunlisted]
        cases hinfer : t.infer with
        | false =>
            rw [inferred, hinfer, if_neg Bool.false_ne_true]
            exact .off hunlisted hinfer
        | true =>
            cases hrule : t.rules.find? fun r => r.applies component with
            | some r =>
                obtain ⟨hfits, front, behind, hrules, hfirst⟩ :=
                  List.find?_eq_some_iff_append.mp hrule
                rw [inferred, if_pos hinfer, hrule]
                refine .inferred hunlisted hinfer hrules (CategoryRule.applies_iff.mp hfits)
                  fun q hq => ?_
                rw [← CategoryRule.applies_iff]
                simpa using hfirst q hq
            | none =>
                have hunfit : ∀ r ∈ t.rules, ¬ r.Fits component := fun r hr =>
                  mt CategoryRule.applies_iff.mpr (List.find?_eq_none.mp hrule r hr)
                rw [inferred_of_none hinfer hunfit]
                exact .other hunlisted hinfer hunfit

/-! ## How the list is headed -/

/-- The heading of a category that no entry describes. -/
def plainHeading (category : String) : String × Option String × Option String :=
  (category, none, none)

/-- A category is headed once. -/
theorem headings_addMember (component category : String) (cs : List Category) :
    (addMember component category cs).map Category.heading = cs.map Category.heading ++
      (if category ∈ cs.map Category.name then [] else [plainHeading category]) := by
  unfold addMember
  cases hfound : cs.findIdx? fun c => c.name == category with
  | some position =>
      rw [if_pos (List.mem_of_getElem? (name_of_findIdx? hfound)), List.append_nil]
      exact headings_modify cs position component
  | none =>
      rw [if_neg (notMem_of_findIdx? hfound), List.map_append, List.map_singleton]
      rfl

/-- Behind the headings that stand already come those of the categories in use, each at its first
use. -/
theorem headings_foldl_addMember (t : CategoryTable) (components : List String)
    (cs : List Category) :
    (components.foldl (fun cs name => addMember name (t.categoryOf name) cs) cs).map
        Category.heading = cs.map Category.heading ++
      (firstsAfter (· == ·) (cs.map Category.name) (components.map t.categoryOf)).map
        plainHeading := by
  have hkey (k l : String) : (k == l) = true ↔ id k = id l := beq_iff_eq
  induction components generalizing cs with
  | nil => simp [firstsAfter]
  | cons name components ih =>
      have hheadings := headings_addMember name (t.categoryOf name) cs
      have hnames : (addMember name (t.categoryOf name) cs).map Category.name =
          cs.map Category.name ++
            (if t.categoryOf name ∈ cs.map Category.name then [] else [t.categoryOf name]) := by
        rw [names_eq_of_headings, hheadings, List.map_append, ← names_eq_of_headings]
        split <;> rfl
      rw [List.foldl_cons, ih, hheadings, hnames, List.map_cons]
      by_cases hold : t.categoryOf name ∈ cs.map Category.name
      · have hseen : id (t.categoryOf name) ∈ (cs.map Category.name).map id := by
          rwa [List.map_id]
        rw [if_pos hold, if_pos hold, List.append_nil, List.append_nil,
          firstsAfter_cons_of_mem hkey hseen]
      · have hnew : id (t.categoryOf name) ∉ (cs.map Category.name).map id := by
          rwa [List.map_id]
        rw [if_neg hold, if_neg hold, firstsAfter_cons_of_notMem hkey hnew, List.map_cons,
          List.append_assoc, List.singleton_append]

theorem headings_emptyCategories (t : CategoryTable) :
    t.emptyCategories.map Category.heading =
      (firsts (fun e f => e.name == f.name) t.entries).map CategoryEntry.heading := by
  rw [← t.seeds_reads.headings, emptyCategories, List.map_map]
  rfl

end CategoryTable

/-! ## The whole index -/

/-- Every component has the category at which the table places it.  The category list begins with
the entries of the table, each name where it comes up first and described as there; behind them
stand the other categories in use, in the order of their first use.  The names are distinct, the
members of a category are the components that have it, in order, and so no component stands in two
places or in none. -/
theorem categories_partition (t : CategoryTable) (components : List Component)
    (hdistinct : (components.map Component.name).Nodup) :
    let assigned := assignCategories t components
    let listed := t.categoriesOf (assigned.map Component.name)
    let described := firsts (fun e f => e.name == f.name) t.entries
    List.Forall₂ (fun c d => ∃ k, d = { c with category := some k } ∧
        ∀ l, t.Places c.name l ↔ l = k) components assigned ∧
      listed.map Category.heading = described.map CategoryEntry.heading ++
        (firstsAfter (· == ·) (described.map CategoryEntry.name)
          (assigned.filterMap Component.category)).map CategoryTable.plainHeading ∧
      (listed.map Category.name).Nodup ∧
      (∀ k ∈ listed, k.components =
        (assigned.filter fun c => c.category == some k.name).map Component.name) ∧
      ∀ c ∈ assigned, (∃ k ∈ listed, c.category = some k.name) ∧
        (listed.flatMap Category.components).count c.name = 1 := by
  intro assigned listed described
  have hnames : assigned.map Component.name = components.map Component.name := by
    simp only [assigned, assignCategories, List.map_map]
    rfl
  have hcategory {c : Component} (hc : c ∈ assigned) :
      c.category = some (t.categoryOf c.name) := by
    obtain ⟨b, -, rfl⟩ := List.mem_map.mp hc
    rfl
  have hlists : t.Lists (assigned.map Component.name) listed :=
    CategoryTable.Lists.categoriesOf t _
  refine ⟨?_, ?_, hlists.distinct, fun k hk => ?_, fun c hc => ?_⟩
  · refine List.forall₂_map_right_iff.mpr (List.forall₂_same.mpr fun c _ => ?_)
    exact ⟨t.categoryOf c.name, rfl, fun l => CategoryTable.places_iff⟩
  · have hused : assigned.filterMap Component.category =
        (assigned.map Component.name).map t.categoryOf := by
      rw [List.map_map, ← List.filterMap_eq_map]
      exact List.filterMap_congr fun c hc => hcategory hc
    have hheadings := t.headings_foldl_addMember (assigned.map Component.name) t.emptyCategories
    rw [names_eq_of_headings, t.headings_emptyCategories, List.map_map] at hheadings
    rw [hused]
    exact hheadings
  · rw [hlists.members k hk, List.filter_map]
    refine congrArg (List.map Component.name) (List.filter_congr fun c hc => ?_)
    rw [hcategory hc]
    rfl
  · have hname : c.name ∈ assigned.map Component.name := List.mem_map_of_mem hc
    obtain ⟨k, hk, hplace⟩ := hlists.complete c.name hname
    exact ⟨⟨k, hk, hplace ▸ hcategory hc⟩, hlists.count_eq_one (hnames ▸ hdistinct) hname⟩

/-- Three entries, of which two have one name and two list the switch. -/
def panelTable : CategoryTable where
  entries :=
    [⟨"Input", some "Inputs", none, ["Field", "Switch"]⟩,
      ⟨"Layout", none, none, ["Grid", "Switch"]⟩, ⟨"Input", none, some "More inputs", ["Slider"]⟩]
  rules := [⟨"Charts", ["Chart"], []⟩, ⟨"Layout", [], ["Bar"]⟩, ⟨"Input", [], ["ar"]⟩]
  infer := true

def panelComponents : List Component :=
  ["Slider", "PieChart", "Thing", "Switch", "AppBar"].map Component.ofName

theorem categories_partition_panel :
    (panelComponents.map Component.name).Nodup ∧
      let assigned := assignCategories panelTable panelComponents
      let listed := panelTable.categoriesOf (assigned.map Component.name)
      listed = [⟨"Input", some "Inputs", none, ["Slider", "Switch"]⟩,
        ⟨"Layout", none, none, ["AppBar"]⟩, ⟨"Charts", none, none, ["PieChart"]⟩,
        ⟨"Other", none, none, ["Thing"]⟩] ∧
      ∀ c ∈ assigned, (listed.flatMap Category.components).count c.name = 1 := by
  have hdistinct : (panelComponents.map Component.name).Nodup := by decide
  obtain ⟨-, -, -, -, honce⟩ := categories_partition panelTable panelComponents hdistinct
  exact ⟨hdistinct, by decide, fun c hc => (honce c hc).2⟩

end ComponentAtlas
