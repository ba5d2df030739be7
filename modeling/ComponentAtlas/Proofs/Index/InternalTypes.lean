import ComponentAtlas.Proofs.Index.Build
import ComponentAtlas.Proofs.Index.Documentation
import ComponentAtlas.Proofs.Index.Merge

/-!
# Indexing internal types as well

What a file declares grows when internal types are indexed as well: every type that was shown is
still there.  But a file is about one component only, the first type that it shows, and an internal
type in front of it may take that place.  A component is lost in this way just when no file shows it
first any more; then every file that did begins with an internal type instead.
-/

namespace ComponentAtlas

/-! ## One file -/

namespace Declaration

/-- What is declared with internal types, beside what is declared without them: no type less, and
the same first type, unless an internal one stands in front of it. -/
structure ShowsMore (d e : Declaration) : Prop where
  types_subset : d.types ⊆ e.types
  first : e.component.isInternal = true ∨
    e.kind = d.kind ∧ e.isStatic = d.isStatic ∧ e.component = d.component

theorem ShowsMore.isComponent_eq {d e : Declaration} (h : d.ShowsMore e)
    (settings : IndexSettings) (hpublic : e.component.isInternal = false) :
    e.isComponent settings = d.isComponent settings ∧ e.component = d.component := by
  rcases h.first with hinternal | ⟨hkind, hstatic, hcomponent⟩
  · rw [hpublic] at hinternal
    cases hinternal
  · refine ⟨?_, hcomponent⟩
    unfold isComponent
    rw [hkind, hstatic, hcomponent]

end Declaration

theorem isVisibleType_false {h : CSharp.Header} :
    isVisibleType false h = h.hasModifier "public" := by
  simp [isVisibleType]

/-- The types that are shown anyway are those public among all that are shown on request. -/
theorem filter_isVisibleType (ts : List DeclaredType) :
    ts.filter (fun t => isVisibleType false t.head.header) =
      (ts.filter fun t => isVisibleType true t.head.header).filter
        fun t => t.head.header.hasModifier "public" := by
  rw [List.filter_filter]
  refine List.filter_congr fun t _ => ?_
  rw [isVisibleType_false]
  cases hpublic : t.head.header.hasModifier "public" with
  | false => rfl
  | true => simp [isVisibleType, hpublic]

namespace Declaration

variable {path : String} {d : Declaration}

theorem ofItems?_showsMore {items : List CSharp.Item} (h : ofItems? false path items = some d) :
    ∃ e, ofItems? true path items = some e ∧ d.ShowsMore e := by
  obtain ⟨t, ht, rfl⟩ := Option.map_eq_some_iff.mp h
  rw [filter_isVisibleType] at ht
  have hsubset (ts : List DeclaredType) :
      (ts.filter fun t => t.head.header.hasModifier "public") ⊆ ts := List.filter_sublist.subset
  unfold ofItems?
  simp only
  rw [filter_isVisibleType]
  cases hshown : (declaredTypes [] [] items).filter fun t => isVisibleType true t.head.header with
  | nil =>
      rw [hshown] at ht
      cases ht
  | cons first rest =>
      rw [hshown] at ht
      refine ⟨_, rfl, ?_, ?_⟩
      · exact List.map_subset _ (hsubset _)
      · cases hpublic : first.head.header.hasModifier "public" with
        | false => exact Or.inl (congrArg not hpublic)
        | true =>
            rw [List.filter_cons, if_pos hpublic] at ht
            obtain rfl := Option.some.inj ht
            exact Or.inr ⟨rfl, rfl, rfl⟩

theorem ofFile?_showsMore {source : String} (h : ofFile? false path source = some d) :
    ∃ e, ofFile? true path source = some e ∧ d.ShowsMore e := by
  unfold ofFile? at h ⊢
  split at h
  · obtain ⟨name, hname, hclass⟩ := Option.bind_eq_some_iff.mp h
    rw [if_pos ‹_›, ofComponentFile?, hname]
    exact ofItems?_showsMore hclass
  · rw [if_neg ‹_›]
    exact ofItems?_showsMore h

end Declaration

/-! ## All files of a tree -/

namespace SourceTree

variable {tree : SourceTree} {settings : IndexSettings} {file : SourceFile}

/-- What a file of the tree declares. -/
def declaration? (tree : SourceTree) (includeInternal : Bool) (file : SourceFile) :
    Option Declaration :=
  (tree.read? file).bind (Declaration.ofFile? includeInternal file.relative)

theorem declaration?_showsMore {d : Declaration} (h : tree.declaration? false file = some d) :
    ∃ e, tree.declaration? true file = some e ∧ d.ShowsMore e := by
  obtain ⟨text, htext, hd⟩ := Option.bind_eq_some_iff.mp h
  obtain ⟨e, he, hmore⟩ := Declaration.ofFile?_showsMore hd
  refine ⟨e, ?_, hmore⟩
  rw [declaration?, htext]
  exact he

/-- A component of a name is the first type that a file shows. -/
def ShowsFirst (tree : SourceTree) (settings : IndexSettings) (file : SourceFile) (name : String) :
    Prop :=
  ∃ d, tree.declaration? settings.includeInternal file = some d ∧ d.isComponent settings = true ∧
    d.component.name = name

/-- The first type that a file shows is an internal one. -/
def BeginsInternal (tree : SourceTree) (file : SourceFile) : Prop :=
  ∃ e, tree.declaration? true file = some e ∧ e.component.isInternal = true

end SourceTree

namespace Settings

/-- The settings with internal types indexed as well, or not. -/
def indexing (settings : Settings) (includeInternal : Bool) : Settings :=
  { settings with index := { settings.index with includeInternal } }

end Settings

theorem SourceTree.ShowsFirst.beginsInternal_or {tree : SourceTree} {settings : Settings}
    {file : SourceFile} {name : String}
    (h : tree.ShowsFirst (settings.indexing false).index file name) :
    tree.BeginsInternal file ∨ tree.ShowsFirst (settings.indexing true).index file name := by
  obtain ⟨d, hd, hcomponent, hname⟩ := h
  obtain ⟨e, he, hmore⟩ := declaration?_showsMore hd
  cases hfirst : e.component.isInternal with
  | true => exact Or.inl ⟨e, he, hfirst⟩
  | false =>
      obtain ⟨hsame, hcomponents⟩ := hmore.isComponent_eq settings.index hfirst
      refine Or.inr ⟨e, he, hsame.trans hcomponent, ?_⟩
      rw [hcomponents]
      exact hname

namespace Snapshot

variable {settings : Settings} {tree : SourceTree} {files : SourceFiles} {name : String}

/-- What the files of a library declare, and whether they may declare components. -/
def declaredBy (settings : IndexSettings) (tree : SourceTree) (files : SourceFiles) :
    List (Bool × Declaration) :=
  (declarationsIn settings tree files.declarations).map (true, ·) ++
    (declarationsIn settings tree files.types).map (false, ·)

theorem mem_declaredBy_iff {settings : IndexSettings} {mayBeComponent : Bool} {d : Declaration} :
    (mayBeComponent, d) ∈ declaredBy settings tree files ↔
      ∃ file ∈ if mayBeComponent then files.declarations else files.types,
        tree.declaration? settings.includeInternal file = some d := by
  unfold declaredBy declarationsIn
  cases mayBeComponent <;> simp [SourceTree.declaration?]

theorem names_ofFiles :
    (ofFiles settings tree files).components.map Component.name =
      (Declarations.ofFiles settings.index
        (declaredBy settings.index tree files)).components.map Component.name :=
  SameDeclarations.names_eq <|
    (sameDeclarations_documentComponents _ _ _ _ _).trans <|
      (sameDeclarations_resolveLinks _ _).trans (sameDeclarations_assignCategories _ _)

theorem exists_declaredBy_iff {settings : IndexSettings} :
    (∃ file ∈ declaredBy settings tree files, file.1 = true ∧
        file.2.isComponent settings = true ∧ file.2.component.name = name) ↔
      ∃ file ∈ files.declarations, tree.ShowsFirst settings file name := by
  constructor
  · rintro ⟨⟨-, d⟩, hmem, rfl, hd⟩
    obtain ⟨file, hfile, hdeclared⟩ := mem_declaredBy_iff.mp hmem
    exact ⟨file, hfile, d, hdeclared, hd⟩
  · rintro ⟨file, hfile, d, hdeclared, hd⟩
    exact ⟨(true, d), mem_declaredBy_iff.mpr ⟨file, hfile, hdeclared⟩, rfl, hd⟩

/-- A component is in the snapshot because a file shows it first. -/
theorem showsFirst_of_mem_ofFiles
    (h : name ∈ (ofFiles settings tree files).components.map Component.name) :
    ∃ file ∈ files.declarations, tree.ShowsFirst settings.index file name := by
  rw [names_ofFiles] at h
  exact exists_declaredBy_iff.mp (Declarations.declared_of_mem_ofFiles h)

/-- With internal types, every component that a file shows first is in the snapshot. -/
theorem mem_ofFiles_indexing_true_iff :
    name ∈ (ofFiles (settings.indexing true) tree files).components.map Component.name ↔
      ∃ file ∈ files.declarations, tree.ShowsFirst (settings.indexing true).index file name := by
  rw [names_ofFiles, Declarations.ofFiles_of_includeInternal rfl,
    Declarations.mem_names_ofAllFiles_iff, exists_declaredBy_iff]

theorem typeNames_subset :
    (ofFiles (settings.indexing false) tree files).types.map TypeReference.name ⊆
      (ofFiles (settings.indexing true) tree files).types.map TypeReference.name := by
  intro name hname
  obtain ⟨⟨mayBeComponent, d⟩, hmem, htype⟩ := Declarations.mem_typeNames_ofFiles.mp hname
  obtain ⟨file, hfile, hd⟩ := mem_declaredBy_iff.mp hmem
  obtain ⟨e, he, hmore⟩ := SourceTree.declaration?_showsMore hd
  refine Declarations.mem_typeNames_ofFiles.mpr
    ⟨(mayBeComponent, e), mem_declaredBy_iff.mpr ⟨file, hfile, he⟩, ?_⟩
  exact List.map_subset _ hmore.types_subset htype

/-! ## Two files with an internal enumeration

In one of them the enumeration stands in front of the component, and in the other one behind it. -/

def timerTree : SourceTree :=
  ⟨⟨[(["lib", "Clock.cs"], .text
      "public class MudClock\n\x7b\n\x7d\ninternal enum Hand\n\x7b\n  Hour\n\x7d\n"),
    (["lib", "Timer.cs"], .text
      "internal enum TimerMode\n\x7b\n  Once\n\x7d\npublic class MudTimer\n\x7b\n\x7d\n")]⟩,
    "lib"⟩

/-- Components anywhere in the tree. -/
def timerSettings : Settings :=
  { Settings.standard with layout := { Settings.standard.layout with componentsDir := "." } }

def indexedNames (s : Snapshot) : List String × List String :=
  (s.components.map Component.name, s.types.map TypeReference.name)

theorem timerTree_indexed (includeInternal : Bool) :
    ∃ s, build (timerSettings.indexing includeInternal) timerTree (.answered true) false = .ok s ∧
      s.indexedNames =
        if includeInternal then (["MudClock"], ["Hand", "MudClock", "MudTimer", "TimerMode"])
        else (["MudClock", "MudTimer"], ["MudClock", "MudTimer"]) := by
  have hfiles : timerTree.files.filesBelow ["lib"] = [["Clock.cs"], ["Timer.cs"]] :=
    FileTree.filesBelow_of_ordered (by decide +kernel) (by decide +kernel)
  have hplace : SourceTree.placeOf? ((Path.ofString timerTree.root).join
      (Path.ofString ".")) = some ["lib"] := by
    decide +kernel
  refine exists_ok_of_map (f := indexedNames) ?_
  -- sorting does not compute, so the files of the tree are put in by hand
  have hfound := SourceTree.filesIn.eq_def timerTree "."
  simp only [hplace, hfiles] at hfound
  rw [build_eq]
  unfold SourceTree.sourceFiles
  rw [show (timerSettings.indexing includeInternal).layout.componentsDir = "." from rfl, hfound]
  cases includeInternal with
  | false => decide +kernel
  | true => decide +kernel

/-- When internal types are indexed as well, no type is lost, and a component just when no file
shows it first any more, because each that did begins with an internal type. -/
theorem indexing_internal_keeps_iff {availability availability' : Availability}
    {cancelled cancelled' : Bool} {s t : Snapshot}
    (hs : build (settings.indexing false) tree availability cancelled = .ok s)
    (ht : build (settings.indexing true) tree availability' cancelled' = .ok t) :
    s.types.map TypeReference.name ⊆ t.types.map TypeReference.name ∧
    ∃ files, tree.sourceFiles settings.layout = .ok files ∧
      ∀ name ∈ s.components.map Component.name,
        (name ∈ t.components.map Component.name ↔
          ∃ file ∈ files.declarations,
            tree.ShowsFirst (settings.indexing true).index file name) ∧
        (name ∉ t.components.map Component.name →
          ∃ file ∈ files.declarations,
            tree.ShowsFirst (settings.indexing false).index file name ∧
            ∀ file ∈ files.declarations,
              tree.ShowsFirst (settings.indexing false).index file name →
                tree.BeginsInternal file) := by
  obtain ⟨files, hfiles, rfl⟩ := ofFiles_of_build hs
  obtain ⟨files', hfiles', rfl⟩ := ofFiles_of_build ht
  obtain rfl : files = files' := Except.ok.inj (hfiles.symm.trans hfiles')
  refine ⟨typeNames_subset, files, hfiles, fun name hname => ⟨mem_ofFiles_indexing_true_iff, ?_⟩⟩
  intro hlost
  obtain ⟨file, hfile, hfirst⟩ := showsFirst_of_mem_ofFiles hname
  refine ⟨file, hfile, hfirst, fun other hother hshown => ?_⟩
  rcases hshown.beginsInternal_or with hinternal | hstill
  · exact hinternal
  · exact absurd (mem_ofFiles_indexing_true_iff.mpr ⟨other, hother, hstill⟩) hlost

/-- The clock stays, and the timer goes because of the enumeration in front of it. -/
theorem indexing_internal_keeps_clock :
    ∃ s, build (timerSettings.indexing false) timerTree (.answered true) false = .ok s ∧
    ∃ t, build (timerSettings.indexing true) timerTree (.answered true) false = .ok t ∧
      s.types.map TypeReference.name ⊆ t.types.map TypeReference.name ∧
      ∃ files, timerTree.sourceFiles timerSettings.layout = .ok files ∧
        (∃ file ∈ files.declarations,
          timerTree.ShowsFirst (timerSettings.indexing true).index file "MudClock") ∧
        (∃ file ∈ files.declarations,
          timerTree.ShowsFirst (timerSettings.indexing false).index file "MudTimer" ∧
            timerTree.BeginsInternal file) := by
  obtain ⟨s, hs, hbefore⟩ := timerTree_indexed false
  obtain ⟨t, ht, hafter⟩ := timerTree_indexed true
  obtain ⟨hs', -⟩ := Prod.mk.inj hbefore
  obtain ⟨ht', -⟩ := Prod.mk.inj hafter
  obtain ⟨htypes, files, hfiles, hkeeps⟩ := indexing_internal_keeps_iff hs ht
  have hclock := (hkeeps "MudClock" (by rw [hs']; decide)).1.mp (by rw [ht']; decide)
  obtain ⟨file, hfile, hshown, hinternal⟩ :=
    (hkeeps "MudTimer" (by rw [hs']; decide)).2 (by rw [ht']; decide)
  exact ⟨s, hs, t, ht, htypes, files, hfiles, hclock, file, hfile, hshown,
    hinternal file hfile hshown⟩

/-- The timer is a component only as long as internal types are left out. -/
theorem indexing_internal_loses_timer :
    ∃ s, build (timerSettings.indexing false) timerTree (.answered true) false = .ok s ∧
    ∃ t, build (timerSettings.indexing true) timerTree (.answered true) false = .ok t ∧
      "MudTimer" ∈ s.components.map Component.name ∧
      "MudTimer" ∉ t.components.map Component.name := by
  obtain ⟨s, hs, hbefore⟩ := timerTree_indexed false
  obtain ⟨t, ht, hafter⟩ := timerTree_indexed true
  obtain ⟨hs', -⟩ := Prod.mk.inj hbefore
  obtain ⟨ht', -⟩ := Prod.mk.inj hafter
  refine ⟨s, hs, t, ht, ?_, ?_⟩
  · rw [hs']
    decide
  · rw [ht']
    decide

end Snapshot
end ComponentAtlas
