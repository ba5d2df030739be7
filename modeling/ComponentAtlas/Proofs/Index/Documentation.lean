import ComponentAtlas.Index.Build
import ComponentAtlas.Proofs.Distinct

/-!
# What documentation leaves alone

Pages, examples, links and categories are added to components whose declarations are not touched.
`asDeclared` is a component without all that, and every pass over the components keeps the list of
their `asDeclared` forms; so what holds of the declarations holds in the end.
-/

namespace ComponentAtlas

namespace Component

/-- What the declarations say about a component. -/
def asDeclared (c : Component) : Component :=
  { c with
    category := none
    examples := []
    relatedComponents := []
    docTitle := none
    docSubtitle := none
    sections := [] }

end Component

/-- Two lists of components with the same declarations. -/
def SameDeclarations (cs ds : List Component) : Prop :=
  ds.map Component.asDeclared = cs.map Component.asDeclared

namespace SameDeclarations

variable {cs ds es : List Component}

theorem refl (cs : List Component) : SameDeclarations cs cs := rfl

theorem trans (h : SameDeclarations cs ds) (h' : SameDeclarations ds es) :
    SameDeclarations cs es :=
  Eq.trans h' h

/-- A change to the components one by one that leaves their declarations alone. -/
theorem map {change : Component → Component}
    (h : ∀ c, (change c).asDeclared = c.asDeclared) (cs : List Component) :
    SameDeclarations cs (cs.map change) := by
  unfold SameDeclarations
  rw [List.map_map]
  exact List.map_congr_left fun c _ => h c

theorem names_eq (h : SameDeclarations cs ds) : ds.map Component.name = cs.map Component.name := by
  have hnames := congrArg (List.map Component.name) h
  simp only [List.map_map] at hnames
  exact hnames

/-- Every component stands for one with the same declaration. -/
theorem exists_mem (h : SameDeclarations cs ds) {d : Component} (hd : d ∈ ds) :
    ∃ c ∈ cs, c.asDeclared = d.asDeclared := by
  have hmem : d.asDeclared ∈ cs.map Component.asDeclared := by
    rw [← h]
    exact List.mem_map_of_mem hd
  exact List.mem_map.mp hmem

end SameDeclarations

/-! ## The passes -/

theorem sameDeclarations_updateNamed {change : Component → Component}
    (h : ∀ c, (change c).asDeclared = c.asDeclared) (name : String) (cs : List Component) :
    SameDeclarations cs (updateNamed name change cs) := by
  refine .map (fun c => ?_) cs
  split
  · exact h c
  · rfl

namespace Documented

variable (settings : IndexSettings) (layout : LayoutSettings)

theorem sameDeclarations_addPage (d : Documented) (path : Path) (text : String) :
    SameDeclarations d.components (d.addPage settings path text).components := by
  simp only [addPage]
  split
  · exact .refl _
  · refine sameDeclarations_updateNamed ?_ _ _
    exact fun c => rfl

theorem sameDeclarations_addExample (d : Documented) (file : SourceFile) (found : Example) :
    SameDeclarations d.components (d.addExample settings layout file found).components := by
  unfold addExample
  split
  · exact .refl _
  · refine sameDeclarations_updateNamed ?_ _ _
    exact fun c => rfl

/-- Whatever each of some files adds leaves the declarations alone, and so do all files together. -/
theorem sameDeclarations_foldl {add : Documented → SourceFile → Documented}
    (h : ∀ d file, SameDeclarations d.components (add d file).components)
    (files : List SourceFile) (d : Documented) :
    SameDeclarations d.components (files.foldl add d).components := by
  induction files generalizing d with
  | nil => exact .refl _
  | cons file files ih => exact (h d file).trans (ih (add d file))

end Documented

theorem sameDeclarations_documentComponents (settings : IndexSettings) (layout : LayoutSettings)
    (tree : SourceTree) (files : SourceFiles) (cs : List Component) :
    SameDeclarations cs (documentComponents settings layout tree files cs) := by
  unfold documentComponents
  have hlimited (ds : List Component) :
      SameDeclarations ds (ds.map (Component.limitExamples settings.maxExamples)) := by
    refine .map ?_ ds
    exact fun c => rfl
  refine SameDeclarations.trans ?_ (hlimited _)
  refine SameDeclarations.trans
    (Documented.sameDeclarations_foldl (fun d file => ?_) files.pages ⟨cs, [], []⟩)
    (Documented.sameDeclarations_foldl (fun d file => ?_) files.examples _)
  · split
    · exact d.sameDeclarations_addPage settings _ _
    · exact .refl _
  · split
    · exact d.sameDeclarations_addExample settings layout _ _
    · exact .refl _

theorem sameDeclarations_resolveLinks (settings : IndexSettings) (cs : List Component) :
    SameDeclarations cs (resolveLinks settings cs) := by
  refine .map ?_ cs
  exact fun c => rfl

theorem sameDeclarations_assignCategories (table : CategoryTable) (cs : List Component) :
    SameDeclarations cs (assignCategories table cs) := by
  refine .map ?_ cs
  exact fun c => rfl

/-! ## Examples and links -/

/-- The examples of a documented component are in the order of their names, and not too many. -/
theorem examples_of_documentComponents {settings : IndexSettings} {layout : LayoutSettings}
    {tree : SourceTree} {files : SourceFiles} {cs : List Component} {c : Component}
    (hc : c ∈ documentComponents settings layout tree files cs) :
    c.examples.Pairwise (fun a b => a.name ≤ b.name) ∧
      c.examples.length ≤ settings.maxExamples := by
  unfold documentComponents at hc
  obtain ⟨b, -, rfl⟩ := List.mem_map.mp hc
  constructor
  · have hsorted : (b.examples.mergeSort fun x y => decide (x.name ≤ y.name)).Pairwise
        fun x y => decide (x.name ≤ y.name) = true := by
      refine List.pairwise_mergeSort (fun x y z hxy hyz => ?_) (fun x y => ?_) _
      · exact decide_eq_true
          (String.le_trans (of_decide_eq_true hxy) (of_decide_eq_true hyz))
      · simpa using String.le_total x.name y.name
    refine (hsorted.sublist (List.take_sublist _ _)).imp ?_
    intro x y hxy
    exact of_decide_eq_true hxy
  · simp only [Component.limitExamples, List.length_take]
    omega

theorem name_of_findName? {settings : IndexSettings} {cs : List Component} {name found : String}
    (h : findName? settings cs name = some found) : found ∈ cs.map Component.name := by
  unfold findName? at h
  rcases Option.or_eq_some_iff.mp h with h | ⟨-, h⟩
  · exact List.mem_of_find?_eq_some h
  · exact List.mem_of_find?_eq_some h

/-- Resolved links lead to components, each once and none back to where it stands. -/
theorem related_of_resolveLinks {settings : IndexSettings} {cs : List Component} {c : Component}
    (hc : c ∈ resolveLinks settings cs) :
    c.relatedComponents.Nodup ∧ c.name ∉ c.relatedComponents ∧
      ∀ name ∈ c.relatedComponents, name ∈ cs.map Component.name := by
  unfold resolveLinks at hc
  obtain ⟨b, -, rfl⟩ := List.mem_map.mp hc
  refine ⟨?_, ?_, ?_⟩
  · have hfirsts : ((firsts (· == ·)
        (b.relatedComponents.filterMap (findName? settings cs))).map id).Nodup :=
      nodup_firsts (fun x y hxy => beq_iff_eq.mpr hxy) _
    rw [List.map_id] at hfirsts
    exact hfirsts.filter _
  · intro hself
    simpa using (List.mem_filter.mp hself).2
  · intro name hname
    have htarget := mem_of_mem_firsts (List.mem_filter.mp hname).1
    obtain ⟨link, -, hfound⟩ := List.mem_filterMap.mp htarget
    exact name_of_findName? hfound

end ComponentAtlas
