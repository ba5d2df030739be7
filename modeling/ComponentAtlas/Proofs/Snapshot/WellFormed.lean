import ComponentAtlas.Proofs.Category.Table
import ComponentAtlas.Proofs.Index.Build
import ComponentAtlas.Proofs.Index.Documentation
import ComponentAtlas.Proofs.Index.Merge

/-!
# Snapshots are well-formed

What holds of every snapshot that is built, whatever the source tree and the settings are.  The
parts come from different passes: order and declarations from merging, examples from documenting,
links from resolving, and categories from the table.  No later pass spoils what an earlier one has
brought about.
-/

namespace ComponentAtlas

namespace Snapshot

structure WellFormed (settings : IndexSettings) (s : Snapshot) : Prop where
  ordered : s.components.Pairwise fun a b => a.name < b.name
  /-- A component is listed in its category, and listed nowhere else and not twice. -/
  categorised : ∀ c ∈ s.components, ∃ k ∈ s.categories, c.category = some k.name ∧
    c.name ∈ k.components ∧ (s.categories.flatMap Category.components).count c.name = 1
  categories_distinct : (s.categories.map Category.name).Nodup
  members_indexed : ∀ k ∈ s.categories, ∀ name ∈ k.components, ∃ c ∈ s.components, c.name = name
  related_indexed : ∀ c ∈ s.components, ∀ name ∈ c.relatedComponents,
    ∃ d ∈ s.components, d.name = name
  related_distinct : ∀ c ∈ s.components, c.relatedComponents.Nodup ∧ c.name ∉ c.relatedComponents
  parameters_distinct : ∀ c ∈ s.components, (c.parameters.map Parameter.name).Nodup
  events_distinct : ∀ c ∈ s.components, (c.events.map Event.name).Nodup
  examples_ordered : ∀ c ∈ s.components, c.examples.Pairwise fun a b => a.name ≤ b.name
  examples_limited : ∀ c ∈ s.components, c.examples.length ≤ settings.maxExamples
  shown : settings.includeInternal = false →
    ∀ c ∈ s.components, c.deprecated = false ∧ c.isInternal = false

end Snapshot

/-- The names of components in strict order are distinct. -/
theorem names_nodup_of_ordered {cs : List Component}
    (h : cs.Pairwise fun a b => a.name < b.name) : (cs.map Component.name).Nodup := by
  refine (List.pairwise_map.mpr h).imp fun {a b} hlt heq => ?_
  rw [heq] at hlt
  exact String.lt_irrefl b hlt

/-! ## Declarations -/

theorem declarationsIn_isProper {settings : IndexSettings} {tree : SourceTree}
    {files : List SourceFile} :
    ∀ d ∈ declarationsIn settings tree files, d.component.IsProper settings.includeInternal := by
  intro d hd
  obtain ⟨file, -, hread⟩ := List.mem_filterMap.mp hd
  obtain ⟨text, -, hdeclared⟩ := Option.bind_eq_some_iff.mp hread
  exact Declaration.ofFile?_isProper hdeclared

theorem Component.isProper_asDeclared {includeInternal : Bool} {c : Component} :
    c.asDeclared.IsProper includeInternal ↔ c.IsProper includeInternal :=
  ⟨fun h => ⟨h.parameters_distinct, h.events_distinct, h.shown⟩,
    fun h => ⟨h.parameters_distinct, h.events_distinct, h.shown⟩⟩

namespace SameDeclarations

variable {settings : IndexSettings} {cs ds : List Component}

theorem isProper (h : SameDeclarations cs ds) (hproper : Declarations.IsProper settings cs) :
    Declarations.IsProper settings ds where
  ordered := by
    have hnames := List.pairwise_map.mpr hproper.ordered
    rw [← h.names_eq] at hnames
    exact List.pairwise_map.mp hnames
  proper d hd := by
    obtain ⟨c, hc, hsame⟩ := h.exists_mem hd
    have hdeclared := Component.isProper_asDeclared.mpr (hproper.proper c hc)
    rw [hsame] at hdeclared
    exact Component.isProper_asDeclared.mp hdeclared

theorem deprecated_eq_false (h : SameDeclarations cs ds)
    (hcurrent : ∀ c ∈ cs, c.deprecated = false) : ∀ d ∈ ds, d.deprecated = false := by
  intro d hd
  obtain ⟨c, hc, hsame⟩ := h.exists_mem hd
  exact (congrArg Component.deprecated hsame).symm.trans (hcurrent c hc)

end SameDeclarations

namespace Snapshot

/-- From proper declarations to a well-formed snapshot. -/
theorem wellFormed_of_declared {settings : Settings} {tree : SourceTree} {files : SourceFiles}
    {declared : List Component} (hproper : Declarations.IsProper settings.index declared)
    (hcurrent : settings.index.includeInternal = false → ∀ c ∈ declared, c.deprecated = false)
    (types : List TypeReference) :
    let documented :=
      documentComponents settings.index settings.layout tree files declared
    let components := assignCategories settings.categories (resolveLinks settings.index documented)
    WellFormed settings.index
      { components
        categories := settings.categories.categoriesOf (components.map Component.name)
        types
        namePrefix := settings.index.componentPrefix
        generation := 0 } := by
  intro documented components
  have hlinked : SameDeclarations (resolveLinks settings.index documented) components :=
    sameDeclarations_assignCategories _ _
  have hdocumented : SameDeclarations documented components :=
    (sameDeclarations_resolveLinks _ _).trans hlinked
  have hdeclared : SameDeclarations declared components :=
    (sameDeclarations_documentComponents _ _ _ _ _).trans hdocumented
  have hcomponents := hdeclared.isProper hproper
  have hlists := CategoryTable.Lists.categoriesOf settings.categories
    (components.map Component.name)
  have hdistinct := names_nodup_of_ordered hcomponents.ordered
  have hindexed {name : String} (hname : name ∈ components.map Component.name) :
      ∃ c ∈ components, c.name = name := List.mem_map.mp hname
  refine ⟨hcomponents.ordered, ?_, hlists.distinct, ?_, ?_, ?_, ?_, ?_, ?_, ?_, ?_⟩
  · intro c hc
    have hname : c.name ∈ components.map Component.name := List.mem_map_of_mem hc
    obtain ⟨k, hk, hcategory⟩ := hlists.complete c.name hname
    obtain ⟨b, -, rfl⟩ := List.mem_map.mp hc
    exact ⟨k, hk, congrArg some hcategory.symm, (hlists.mem_iff hk).mpr ⟨hname, hcategory.symm⟩,
      hlists.count_eq_one hdistinct hname⟩
  · intro k hk name hname
    exact hindexed ((hlists.mem_iff hk).mp hname).1
  · intro c hc name hname
    obtain ⟨b, hb, rfl⟩ := List.mem_map.mp hc
    refine hindexed ?_
    rw [hdocumented.names_eq]
    exact (related_of_resolveLinks hb).2.2 name hname
  · intro c hc
    obtain ⟨b, hb, rfl⟩ := List.mem_map.mp hc
    obtain ⟨hnodup, hself, -⟩ := related_of_resolveLinks hb
    exact ⟨hnodup, hself⟩
  · exact fun c hc => (hcomponents.proper c hc).parameters_distinct
  · exact fun c hc => (hcomponents.proper c hc).events_distinct
  · intro c hc
    obtain ⟨b, hb, rfl⟩ := List.mem_map.mp hc
    obtain ⟨a, ha, rfl⟩ := List.mem_map.mp hb
    exact (examples_of_documentComponents ha).1
  · intro c hc
    obtain ⟨b, hb, rfl⟩ := List.mem_map.mp hc
    obtain ⟨a, ha, rfl⟩ := List.mem_map.mp hb
    exact (examples_of_documentComponents ha).2
  · intro hi c hc
    exact ⟨hdeclared.deprecated_eq_false (hcurrent hi) c hc, (hcomponents.proper c hc).shown hi⟩

theorem wellFormed_ofFiles (settings : Settings) (tree : SourceTree) (files : SourceFiles) :
    (ofFiles settings tree files).WellFormed settings.index := by
  have hfiles : ∀ file ∈ (declarationsIn settings.index tree files.declarations).map (true, ·) ++
      (declarationsIn settings.index tree files.types).map (false, ·),
      file.2.component.IsProper settings.index.includeInternal := by
    intro file hfile
    rcases List.mem_append.mp hfile with hfile | hfile
    · obtain ⟨d, hd, rfl⟩ := List.mem_map.mp hfile
      exact declarationsIn_isProper d hd
    · obtain ⟨d, hd, rfl⟩ := List.mem_map.mp hfile
      exact declarationsIn_isProper d hd
  obtain ⟨hproper, hcurrent⟩ := Declarations.ofFiles_isProper hfiles
  exact wellFormed_of_declared hproper hcurrent _

/-- Every build that succeeds gives a well-formed snapshot. -/
theorem build_wellFormed {settings : Settings} {tree : SourceTree} {availability : Availability}
    {cancelled : Bool} {s : Snapshot} (h : build settings tree availability cancelled = .ok s) :
    s.WellFormed settings.index := by
  rw [build_eq] at h
  cases availability with
  | failed reason => cases h
  | answered isAvailable =>
      simp only at h
      split at h
      · cases hfiles : tree.sourceFiles settings.layout with
        | error err =>
            rw [hfiles] at h
            cases h
        | ok files =>
            simp only [hfiles] at h
            split at h
            · cases h
            · obtain rfl := Except.ok.inj h
              exact wellFormed_ofFiles settings tree files
      · cases h

/-! ## A gauge and a dial -/

/-- A table with two entries of one name, which list a component twice. -/
def gaugeSettings : Settings :=
  { Settings.standard with
    categories := ⟨[⟨"Dials", none, none, ["MudGauge", "MudDial"]⟩,
      ⟨"Dials", none, none, ["MudDial"]⟩], [], false⟩ }

/-- Two components, and a page about one of them with an example, two links to the other one and a
link back to itself. -/
def gaugeTree : SourceTree :=
  ⟨⟨[(["lib", "src", "MudBlazor", "Components", "Dial.cs"], .text
      "public class MudDial\n\x7b\n\x7d\n"),
    (["lib", "src", "MudBlazor", "Components", "Gauge.cs"], .text
      ("public class MudGauge\n\x7b\n  [Parameter] public int Size \x7b get; \x7d\n" ++
        "  [Parameter] public EventCallback OnTurn \x7b get; \x7d\n\x7d\n")),
    (["lib", "src", "MudBlazor.Docs", "Pages", "Components", "Gauge", "Examples",
      "GaugeExample.razor"], .text "<MudGauge />\n"),
    (["lib", "src", "MudBlazor.Docs", "Pages", "Components", "Gauge", "GaugePage.razor"], .text
      ("<a href=\"/components/dial\"><a href=\"/components/gauge\">" ++
        "<a href=\"/components/MudDial\">"))]⟩, "lib"⟩

/-- What names stand in a component: of its category, its parameters, its events, its examples and
its related components. -/
def namesIn (c : Component) : List (List String) :=
  [c.category.toList, c.parameters.map Parameter.name, c.events.map Event.name,
    c.examples.map Example.name, c.relatedComponents]

/-- The components with the names in them, and the categories with their members. -/
def overview (s : Snapshot) : List (String × List (List String)) × List (String × List String) :=
  (s.components.map fun c => (c.name, namesIn c),
    s.categories.map fun k => (k.name, k.components))

theorem gaugeTree_overview :
    ∃ s, build gaugeSettings gaugeTree (.answered true) false = .ok s ∧
      s.overview =
        ([("MudDial", [["Dials"], [], [], [], []]),
          ("MudGauge", [["Dials"], ["Size"], ["OnTurn"], ["GaugeExample"], ["MudDial"]])],
          [("Dials", ["MudDial", "MudGauge"])]) := by
  have hcode : gaugeTree.files.filesBelow ["lib", "src", "MudBlazor", "Components"] =
      [["Dial.cs"], ["Gauge.cs"]] :=
    FileTree.filesBelow_of_ordered (by decide +kernel) (by decide +kernel)
  have hpages : gaugeTree.files.filesBelow
      ["lib", "src", "MudBlazor.Docs", "Pages", "Components"] =
        [["Gauge", "Examples", "GaugeExample.razor"], ["Gauge", "GaugePage.razor"]] :=
    FileTree.filesBelow_of_ordered (by decide +kernel) (by decide +kernel)
  have hplaces : SourceTree.placeOf? ((Path.ofString gaugeTree.root).join
      (Path.ofString gaugeSettings.layout.componentsDir)) =
        some ["lib", "src", "MudBlazor", "Components"] ∧
      SourceTree.placeOf? ((Path.ofString gaugeTree.root).join
        (Path.ofString gaugeSettings.layout.pagesDir)) =
          some ["lib", "src", "MudBlazor.Docs", "Pages", "Components"] := by
    decide +kernel
  refine exists_ok_of_map (f := overview) ?_
  -- sorting does not compute, so the files of the tree are put in by hand
  rw [build_eq]
  unfold SourceTree.sourceFiles
  rw [SourceTree.filesIn.eq_def _ gaugeSettings.layout.componentsDir,
    SourceTree.filesIn.eq_def _ gaugeSettings.layout.pagesDir]
  simp only [hplaces, hcode, hpages]
  decide +kernel

/-- The snapshot of this tree is well-formed: the second component is listed once and linked to
once. -/
theorem build_wellFormed_gauge :
    ∃ s, build gaugeSettings gaugeTree (.answered true) false = .ok s ∧
      s.overview =
        ([("MudDial", [["Dials"], [], [], [], []]),
          ("MudGauge", [["Dials"], ["Size"], ["OnTurn"], ["GaugeExample"], ["MudDial"]])],
          [("Dials", ["MudDial", "MudGauge"])]) ∧
      s.WellFormed gaugeSettings.index := by
  obtain ⟨s, hs, hoverview⟩ := gaugeTree_overview
  exact ⟨s, hs, hoverview, build_wellFormed hs⟩

end Snapshot
end ComponentAtlas
