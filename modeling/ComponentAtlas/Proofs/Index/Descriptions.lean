import ComponentAtlas.Proofs.Index.InternalTypes
import ComponentAtlas.Proofs.Keyed

/-!
# How examples come to be described

Any number of pages may be about one component.  The component collects the sections of all of
them, but of the pages only the last one is kept, and an example is described by what that page
says about it.  So a component shows a section with an example and yet leaves the example without
the section's text, when the section stands on an earlier page.

The invariant tells both from the list of pages about each component: the sections read so far are
those of all its pages, the page that is kept is the last one (`Paged`), and whatever examples are
added afterwards are described by that page (`Described`).
-/

namespace ComponentAtlas

namespace DocsPage

/-! ## What sections say about an example -/

/-- The description that some sections give of an example: the text of the first one that shows it.
There is none if no section shows it, or if that text is empty. -/
def IsDescription (sections : List DocSection) (name : String) (description : Option String) :
    Prop :=
  ((∀ x ∈ sections, name ∉ x.examples) ∧ description = none) ∨
    ∃ before x behind, sections = before ++ x :: behind ∧ (∀ y ∈ before, name ∉ y.examples) ∧
      name ∈ x.examples ∧ description = if x.body = "" then none else some x.body

variable {xs ys : List DocSection} {name : String} {description : Option String}

theorem isDescription_iff :
    IsDescription xs name description ↔ description = exampleDescription? xs name := by
  unfold exampleDescription?
  constructor
  · rintro (⟨hnone, rfl⟩ | ⟨before, x, behind, rfl, hbefore, hx, rfl⟩)
    · rw [List.find?_eq_none.mpr (by simpa using hnone), Option.bind_none]
    · have hfirst : (before ++ x :: behind).find? (fun s => s.examples.contains name) = some x :=
        List.find?_eq_some_iff_append.mpr
          ⟨by simpa using hx, before, behind, rfl, by simpa using hbefore⟩
      rw [hfirst, Option.bind_some]
      simp only [String.isEmpty_iff]
  · rintro rfl
    cases hfind : xs.find? fun s => s.examples.contains name with
    | none => exact .inl ⟨by simpa using List.find?_eq_none.mp hfind, rfl⟩
    | some x =>
        obtain ⟨hx, before, behind, hxs, hbefore⟩ := List.find?_eq_some_iff_append.mp hfind
        refine .inr ⟨before, x, behind, hxs, by simpa using hbefore, by simpa using hx, ?_⟩
        simp only [Option.bind_some, String.isEmpty_iff]

/-- Sections in front that do not show an example say nothing about it. -/
theorem isDescription_append_of_unshown (h : ∀ x ∈ xs, name ∉ x.examples) :
    IsDescription (xs ++ ys) name description ↔ IsDescription ys name description := by
  have hnone : xs.find? (fun s => s.examples.contains name) = none :=
    List.find?_eq_none.mpr (by simpa using h)
  rw [isDescription_iff, isDescription_iff, exampleDescription?, exampleDescription?,
    List.find?_append, hnone, Option.none_or]

/-- Sections in front that show an example leave nothing to say to those behind. -/
theorem isDescription_append_of_shown {x : DocSection} (hx : x ∈ xs) (hshown : name ∈ x.examples) :
    IsDescription (xs ++ ys) name description ↔ IsDescription xs name description := by
  have hsome : (xs.find? fun s => s.examples.contains name).isSome = true :=
    List.find?_isSome.mpr ⟨x, hx, by simpa using hshown⟩
  obtain ⟨first, hfirst⟩ := Option.isSome_iff_exists.mp hsome
  rw [isDescription_iff, isDescription_iff, exampleDescription?, exampleDescription?,
    List.find?_append, hfirst, Option.some_or]

/-! ## Pages about a component -/

/-- The component that a page at a path is about. -/
def subject? (settings : IndexSettings) (components : List Component) (path : Path)
    (page : DocsPage) : Option String :=
  (page.component.or (path.parent?.bind (nameOfDirectory? settings))).bind
    (findName? settings components)

/-- Which component a page is about depends on the names of the components alone. -/
theorem subject?_congr {settings : IndexSettings} {cs ds : List Component}
    (h : ds.map Component.name = cs.map Component.name) (path : Path) (page : DocsPage) :
    page.subject? settings ds path = page.subject? settings cs path := by
  have hfind : findName? settings ds = findName? settings cs := by
    funext name
    unfold findName?
    rw [h]
  rw [subject?, subject?, hfind]

end DocsPage

namespace SourceTree

variable (tree : SourceTree) (settings : IndexSettings) (cs : List Component)

/-- The page in a file, if there is one that is about a component. -/
def pageAbout? (name : String) (file : SourceFile) : Option DocsPage :=
  ((tree.read? file).map fun text => DocsPage.ofSource text.toList).filter fun page =>
    page.subject? settings cs file.path == some name

/-- The pages in some files that are about a component, in the order of the files. -/
def pagesAbout (files : List SourceFile) (name : String) : List DocsPage :=
  files.filterMap (tree.pageAbout? settings cs name)

theorem pagesAbout_cons (file : SourceFile) (files : List SourceFile) (name : String) :
    tree.pagesAbout settings cs (file :: files) name =
      (tree.pageAbout? settings cs name file).toList ++
        tree.pagesAbout settings cs files name := by
  unfold pagesAbout
  rw [List.filterMap_cons]
  cases tree.pageAbout? settings cs name file with
  | none => rfl
  | some page => rfl

theorem pageAbout?_congr {ds : List Component}
    (h : ds.map Component.name = cs.map Component.name) (name : String) (file : SourceFile) :
    tree.pageAbout? settings ds name file = tree.pageAbout? settings cs name file := by
  unfold pageAbout?
  simp only [DocsPage.subject?_congr h]

theorem pagesAbout_congr {ds : List Component}
    (h : ds.map Component.name = cs.map Component.name) :
    tree.pagesAbout settings ds = tree.pagesAbout settings cs := by
  funext files name
  have hpage : tree.pageAbout? settings ds name = tree.pageAbout? settings cs name :=
    funext fun file => tree.pageAbout?_congr settings cs h name file
  rw [pagesAbout, pagesAbout, hpage]

end SourceTree

/-! ## What a component shows of its pages -/

/-- The sections of the last of some pages. -/
def lastSections (pages : List DocsPage) : List DocSection :=
  (pages.getLast?.map DocsPage.sections).getD []

/-- The sections of the pages before the last one. -/
def earlierSections (pages : List DocsPage) : List DocSection :=
  pages.dropLast.flatMap DocsPage.sections

theorem earlierSections_append_lastSections (pages : List DocsPage) :
    earlierSections pages ++ lastSections pages = pages.flatMap DocsPage.sections := by
  unfold earlierSections lastSections
  rcases List.eq_nil_or_concat pages with rfl | ⟨before, page, rfl⟩
  · rfl
  · rw [List.concat_eq_append, List.dropLast_concat, List.getLast?_concat, List.flatMap_append,
      List.flatMap_singleton]
    rfl

namespace Component

/-- A component with the sections of some pages, whose examples are described by the last one. -/
structure Reflects (pages : List DocsPage) (c : Component) : Prop where
  sections : c.sections = pages.flatMap DocsPage.sections
  described : ∀ e ∈ c.examples,
    DocsPage.IsDescription (lastSections pages) e.name e.description

theorem Reflects.limitExamples {pages : List DocsPage} {c : Component} (h : c.Reflects pages)
    (limit : Nat) : (c.limitExamples limit).Reflects pages where
  sections := h.sections
  described e he := h.described e (List.mem_mergeSort.mp (List.mem_of_mem_take he))

end Component

theorem exists_of_mem_updateNamed {name : String} {change : Component → Component}
    {cs : List Component} {c : Component} (hc : c ∈ updateNamed name change cs) :
    (c ∈ cs ∧ c.name ≠ name) ∨ ∃ b ∈ cs, b.name = name ∧ c = change b := by
  obtain ⟨b, hb, rfl⟩ := List.mem_map.mp hc
  by_cases hname : b.name = name
  · rw [if_pos hname]
    exact .inr ⟨b, hb, hname, rfl⟩
  · rw [if_neg hname]
    exact .inl ⟨hb, hname⟩

namespace Documented

variable {settings : IndexSettings} {layout : LayoutSettings} {tree : SourceTree}
  {pages : String → List DocsPage} {d : Documented}

/-! ## Pages -/

/-- The components with the page in a file. -/
def addPageIn (settings : IndexSettings) (tree : SourceTree) (d : Documented) (file : SourceFile) :
    Documented :=
  match tree.read? file with
  | some text => d.addPage settings file.path text
  | none => d

/-- Components that have the sections of some pages and no examples yet, with the last page of
each. -/
structure Paged (pages : String → List DocsPage) (d : Documented) : Prop where
  sections : ∀ c ∈ d.components, c.sections = (pages c.name).flatMap DocsPage.sections
  bare : ∀ c ∈ d.components, c.examples = []
  last : ∀ name, d.pages.get? name = (pages name).getLast?

/-- The components when a page about one of them is read. -/
def givePage (d : Documented) (path : Path) (page : DocsPage) (name : String) : Documented where
  components := updateNamed name (·.withPage page) d.components
  pages := d.pages.put name page
  directories := (path.parent?.map fun directory => (directory, name)).toList ++ d.directories

theorem addPageIn_eq (d : Documented) (file : SourceFile) :
    d.addPageIn settings tree file =
      match (tree.read? file).map fun text => DocsPage.ofSource text.toList with
      | none => d
      | some page =>
        match page.subject? settings d.components file.path with
        | none => d
        | some name => d.givePage file.path page name := by
  unfold addPageIn
  cases tree.read? file with
  | none => rfl
  | some text => rfl

theorem Paged.givePage (h : Paged pages d) (path : Path) (page : DocsPage) (target : String) :
    Paged (fun name => pages name ++ if name = target then [page] else [])
      (d.givePage path page target) where
  sections c hc := by
    rcases exists_of_mem_updateNamed hc with ⟨hold, hname⟩ | ⟨b, hb, rfl, rfl⟩
    · rw [if_neg hname, List.append_nil]
      exact h.sections c hold
    · have hname : (b.withPage page).name = b.name := rfl
      have hsections : (b.withPage page).sections = b.sections ++ page.sections := rfl
      rw [hname, if_pos rfl, hsections, h.sections b hb, List.flatMap_append,
        List.flatMap_singleton]
  bare c hc := by
    rcases exists_of_mem_updateNamed hc with ⟨hold, -⟩ | ⟨b, hb, -, rfl⟩
    · exact h.bare c hold
    · exact h.bare b hb
  last name := by
    simp only [Documented.givePage]
    rw [Keyed.get?_put]
    by_cases hname : name = target
    · rw [if_pos hname, if_pos hname, List.getLast?_concat]
    · rw [if_neg hname, if_neg hname, List.append_nil, h.last]

/-- One more file adds its page to those about the page's component, and to no others. -/
theorem Paged.addPageIn (h : Paged pages d) (file : SourceFile) :
    Paged (fun name => pages name ++ (tree.pageAbout? settings d.components name file).toList)
      (d.addPageIn settings tree file) := by
  rw [addPageIn_eq]
  unfold SourceTree.pageAbout?
  cases (tree.read? file).map fun text => DocsPage.ofSource text.toList with
  | none => simpa using h
  | some page =>
      simp only [Option.filter_some]
      cases page.subject? settings d.components file.path with
      | none => simpa using h
      | some target =>
          have hhere (name : String) :
              (if (some target == some name) = true then some page else none).toList =
                if name = target then [page] else [] := by
            by_cases hname : name = target
            · simp [hname]
            · simp [hname, Ne.symm hname]
          simp only [hhere]
          exact h.givePage file.path page target

theorem names_addPageIn (d : Documented) (file : SourceFile) :
    (d.addPageIn settings tree file).components.map Component.name =
      d.components.map Component.name := by
  unfold addPageIn
  split
  · exact (d.sameDeclarations_addPage settings _ _).names_eq
  · rfl

/-- When all files are read, the pages are those about each component. -/
theorem Paged.foldl (h : Paged pages d) {cs : List Component}
    (hnames : d.components.map Component.name = cs.map Component.name) (files : List SourceFile) :
    Paged (fun name => pages name ++ tree.pagesAbout settings cs files name)
      (files.foldl (Documented.addPageIn settings tree) d) := by
  induction files generalizing d pages with
  | nil => simpa [SourceTree.pagesAbout] using h
  | cons file files ih =>
      have hstep : (d.addPageIn settings tree file).components.map Component.name =
          cs.map Component.name := (names_addPageIn d file).trans hnames
      have hrun := ih (h.addPageIn file) hstep
      simp only [tree.pageAbout?_congr settings cs hnames, List.append_assoc,
        ← SourceTree.pagesAbout_cons] at hrun
      exact hrun

/-! ## Examples -/

/-- The components with the example in a file. -/
def addExampleIn (settings : IndexSettings) (layout : LayoutSettings) (tree : SourceTree)
    (d : Documented) (file : SourceFile) : Documented :=
  match tree.example? false file with
  | some found => d.addExample settings layout file found
  | none => d

/-- Components that reflect some pages, with the last page of each. -/
structure Described (pages : String → List DocsPage) (d : Documented) : Prop where
  reflects : ∀ c ∈ d.components, c.Reflects (pages c.name)
  last : ∀ name, d.pages.get? name = (pages name).getLast?

theorem Paged.described (h : Paged pages d) : Described pages d where
  reflects c hc := by
    refine ⟨h.sections c hc, fun e he => ?_⟩
    rw [h.bare c hc] at he
    cases he
  last := h.last

/-- An example is described by the last page of its component. -/
theorem Described.addExampleIn (h : Described pages d) (file : SourceFile) :
    Described pages (d.addExampleIn settings layout tree file) := by
  unfold Documented.addExampleIn Documented.addExample
  cases tree.example? false file with
  | none => exact h
  | some found =>
      simp only
      split
      · exact h
      · rename_i owner _
        refine ⟨fun c hc => ?_, h.last⟩
        rcases exists_of_mem_updateNamed hc with ⟨hold, -⟩ | ⟨b, hb, rfl, rfl⟩
        · exact h.reflects c hold
        · refine ⟨(h.reflects b hb).sections, fun e he => ?_⟩
          rcases List.mem_append.mp he with he | he
          · exact (h.reflects b hb).described e he
          · obtain rfl := List.mem_singleton.mp he
            refine DocsPage.isDescription_iff.mpr ?_
            simp only [h.last, lastSections]
            cases (pages b.name).getLast? with
            | none => rfl
            | some page => rfl

theorem Described.foldl (h : Described pages d) (files : List SourceFile) :
    Described pages (files.foldl (Documented.addExampleIn settings layout tree) d) := by
  induction files generalizing d with
  | nil => exact h
  | cons file files ih => exact ih (h.addExampleIn file)

end Documented

/-! ## Snapshots -/

/-- Documented components reflect the pages about them. -/
theorem reflects_of_documentComponents {settings : IndexSettings} {layout : LayoutSettings}
    {tree : SourceTree} {files : SourceFiles} {cs : List Component}
    (hbare : ∀ c ∈ cs, c.asDeclared = c) {c : Component}
    (hc : c ∈ documentComponents settings layout tree files cs) :
    c.Reflects (tree.pagesAbout settings cs files.pages c.name) := by
  have hstart : Documented.Paged (fun _ => []) ⟨cs, [], []⟩ :=
    { sections := fun c hc => congrArg Component.sections (hbare c hc).symm
      bare := fun c hc => congrArg Component.examples (hbare c hc).symm
      last := fun name => rfl }
  have hshown : Documented.Described
      (fun name => [] ++ tree.pagesAbout settings cs files.pages name)
      (files.examples.foldl (Documented.addExampleIn settings layout tree)
        (files.pages.foldl (Documented.addPageIn settings tree) ⟨cs, [], []⟩)) :=
    (hstart.foldl rfl files.pages).described.foldl files.examples
  obtain ⟨b, hb, rfl⟩ := List.mem_map.mp hc
  exact (hshown.reflects b hb).limitExamples _

namespace Snapshot

variable {settings : Settings} {tree : SourceTree} {availability : Availability}
  {cancelled : Bool} {s : Snapshot}

theorem reflects_of_build (h : build settings tree availability cancelled = .ok s) :
    ∃ files, tree.sourceFiles settings.layout = .ok files ∧ ∀ c ∈ s.components,
      c.Reflects (tree.pagesAbout settings.index s.components files.pages c.name) := by
  obtain ⟨files, hfiles, rfl⟩ := ofFiles_of_build h
  refine ⟨files, hfiles, fun c hc => ?_⟩
  have hbare : ∀ c ∈ (Declarations.ofFiles settings.index
      (declaredBy settings.index tree files)).components, c.asDeclared = c := by
    refine Declarations.forall_mem_ofFiles (fun c d hc => congrArg (Component.merge · d) hc) ?_
    rintro ⟨mayBeComponent, d⟩ hd
    obtain ⟨file, -, hread⟩ := mem_declaredBy_iff.mp hd
    obtain ⟨text, -, hdeclared⟩ := Option.bind_eq_some_iff.mp hread
    obtain ⟨t, namespaceName, -, hcomponent⟩ := Declaration.exists_type_of_ofFile? hdeclared
    simp only [hcomponent]
    rfl
  rw [SourceTree.pagesAbout_congr _ _ _ names_ofFiles]
  -- links and categories are not what is reflected
  obtain ⟨linked, hlinked, rfl⟩ := List.mem_map.mp hc
  obtain ⟨documented, hdocumented, rfl⟩ := List.mem_map.mp hlinked
  obtain ⟨hsections, hdescribed⟩ := reflects_of_documentComponents hbare hdocumented
  exact ⟨hsections, hdescribed⟩

/-! ## Two pages about the chip -/

/-- Two pages about one component, one of which shows the example; it may be the last one. -/
def chipTree (isShownLast : Bool) : SourceTree :=
  let shown := "<SectionHeader />\n<Description>Simple.</Description>\n<ChipExample />\n"
  let other := "<SectionHeader />\n<Description>Short.</Description>\n"
  ⟨⟨[(["lib", "src", "MudBlazor", "Components", "Chip.cs"], .text
      "public class MudChip\n\x7b\n\x7d\n"),
    (["lib", "src", "MudBlazor.Docs", "Pages", "Components", "Chip", "APage.razor"], .text
      (if isShownLast then other else shown)),
    (["lib", "src", "MudBlazor.Docs", "Pages", "Components", "Chip", "BPage.razor"], .text
      (if isShownLast then shown else other)),
    (["lib", "src", "MudBlazor.Docs", "Pages", "Components", "Chip", "Examples",
      "ChipExample.razor"], .text "<MudChip />\n")]⟩, "lib"⟩

/-- The examples of each component with their descriptions, and what its sections say of them. -/
def describedExamples (s : Snapshot) : List (List (Option String × Option String)) :=
  s.components.map fun c => c.examples.map fun e =>
    (e.description, DocsPage.exampleDescription? c.sections e.name)

theorem chipTree_described (isShownLast : Bool) :
    ∃ s, build .standard (chipTree isShownLast) (.answered true) false = .ok s ∧
      ∃ c ∈ s.components, ∃ e ∈ c.examples,
        e.description = (if isShownLast then some "Simple." else none) ∧
          DocsPage.IsDescription c.sections e.name (some "Simple.") := by
  have hfiles : (chipTree isShownLast).files.filesBelow
      ["lib", "src", "MudBlazor.Docs", "Pages", "Components"] =
        [["Chip", "APage.razor"], ["Chip", "BPage.razor"],
          ["Chip", "Examples", "ChipExample.razor"]] := by
    cases isShownLast with
    | false => exact FileTree.filesBelow_of_ordered (by decide +kernel) (by decide +kernel)
    | true => exact FileTree.filesBelow_of_ordered (by decide +kernel) (by decide +kernel)
  have hplace : SourceTree.placeOf? ((Path.ofString (chipTree isShownLast).root).join
      (Path.ofString Settings.standard.layout.pagesDir)) =
        some ["lib", "src", "MudBlazor.Docs", "Pages", "Components"] := by
    cases isShownLast with
    | false => decide +kernel
    | true => decide +kernel
  have hview : ∃ s, build .standard (chipTree isShownLast) (.answered true) false = .ok s ∧
      s.describedExamples =
        [[(if isShownLast then some "Simple." else none, some "Simple.")]] := by
    refine exists_ok_of_map (f := describedExamples) ?_
    -- sorting does not compute, so the files of the tree are put in by hand
    rw [build_eq]
    unfold SourceTree.sourceFiles
    rw [SourceTree.filesIn.eq_def _ Settings.standard.layout.pagesDir]
    simp only [hplace, hfiles]
    cases isShownLast with
    | false => decide +kernel
    | true => decide +kernel
  obtain ⟨s, hs, hview⟩ := hview
  have hexamples : [(if isShownLast then some "Simple." else none, some "Simple.")] ∈
      s.describedExamples := hview ▸ List.mem_singleton_self _
  obtain ⟨c, hc, hexamples⟩ := List.mem_map.mp hexamples
  obtain ⟨e, he, hboth⟩ := List.mem_map.mp (hexamples ▸ List.mem_singleton_self _)
  obtain ⟨hdescription, hsections⟩ := Prod.mk.inj hboth
  exact ⟨s, hs, c, hc, e, he, hdescription, DocsPage.isDescription_iff.mpr hsections.symm⟩

/-- A component has the sections of all pages about it, and its examples are described by the last
of these pages.  So an example has the description that the component's sections give of it just
when no earlier page shows the example, or when the earlier pages give the same description. -/
theorem example_described_iff (h : build settings tree availability cancelled = .ok s) :
    ∃ files, tree.sourceFiles settings.layout = .ok files ∧
      ∀ c ∈ s.components, ∀ e ∈ c.examples,
        let pages := tree.pagesAbout settings.index s.components files.pages c.name
        c.sections = pages.flatMap DocsPage.sections ∧
          DocsPage.IsDescription (lastSections pages) e.name e.description ∧
          (DocsPage.IsDescription c.sections e.name e.description ↔
            (∀ x ∈ earlierSections pages, e.name ∉ x.examples) ∨
              DocsPage.IsDescription (earlierSections pages) e.name e.description) := by
  obtain ⟨files, hfiles, hreflects⟩ := reflects_of_build h
  refine ⟨files, hfiles, fun c hc e he => ?_⟩
  intro pages
  obtain ⟨hsections, hdescribed⟩ := hreflects c hc
  have hlast : DocsPage.IsDescription (lastSections pages) e.name e.description := hdescribed e he
  refine ⟨hsections, hlast, ?_⟩
  have hsplit : c.sections = earlierSections pages ++ lastSections pages :=
    hsections.trans (earlierSections_append_lastSections pages).symm
  rw [hsplit]
  by_cases hearlier : ∀ x ∈ earlierSections pages, e.name ∉ x.examples
  · rw [DocsPage.isDescription_append_of_unshown hearlier]
    exact iff_of_true hlast (.inl hearlier)
  · obtain ⟨x, hx, hshown⟩ : ∃ x ∈ earlierSections pages, e.name ∈ x.examples := by
      simpa using hearlier
    rw [DocsPage.isDescription_append_of_shown hx hshown]
    exact (or_iff_right hearlier).symm

/-- The chip's example is shown on the last page only, and has its description. -/
theorem example_described_chip :
    ∃ s, build .standard (chipTree true) (.answered true) false = .ok s ∧
      ∃ files, (chipTree true).sourceFiles Settings.standard.layout = .ok files ∧
        ∃ c ∈ s.components, ∃ e ∈ c.examples,
          DocsPage.IsDescription c.sections e.name (some "Simple.") ∧
            DocsPage.IsDescription (lastSections ((chipTree true).pagesAbout
              Settings.standard.index s.components files.pages c.name)) e.name (some "Simple.") := by
  obtain ⟨s, hs, c, hc, e, he, hdescription, hsections⟩ := chipTree_described true
  obtain ⟨files, hfiles, hexamples⟩ := example_described_iff hs
  obtain ⟨-, hlast, -⟩ := hexamples c hc e he
  rw [hdescription, if_pos rfl] at hlast
  exact ⟨s, hs, files, hfiles, c, hc, e, he, hsections, hlast⟩

/-- On the page before, the same section leaves the example without a description. -/
theorem example_undescribed :
    ∃ s, build .standard (chipTree false) (.answered true) false = .ok s ∧
      ∃ c ∈ s.components, ∃ e ∈ c.examples,
        DocsPage.IsDescription c.sections e.name (some "Simple.") ∧ e.description = none ∧
          ¬ DocsPage.IsDescription c.sections e.name e.description := by
  obtain ⟨s, hs, c, hc, e, he, hdescription, hsections⟩ := chipTree_described false
  rw [if_neg Bool.false_ne_true] at hdescription
  refine ⟨s, hs, c, hc, e, he, hsections, hdescription, fun hdescribed => ?_⟩
  rw [hdescription, DocsPage.isDescription_iff, ← DocsPage.isDescription_iff.mp hsections]
    at hdescribed
  cases hdescribed

end Snapshot
end ComponentAtlas
