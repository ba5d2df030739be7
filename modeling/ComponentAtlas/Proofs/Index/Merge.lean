import ComponentAtlas.Index.Merge
import ComponentAtlas.Proofs.Distinct

/-!
# What merging keeps

Merging keeps components in the order of their names, each name once, and a merged component has no
two parameters and no two events of one name, because its first part has none and later parts add
only what is new.
-/

namespace ComponentAtlas

section
variable {α : Type} {nameOf : α → String} {merge : α → α → α} {x : α} {ys : List α}

theorem mem_mergeByName {z : α} (h : z ∈ mergeByName nameOf merge x ys) :
    z = x ∨ z ∈ ys ∨ ∃ y ∈ ys, z = merge y x := by
  induction ys with
  | nil => exact Or.inl (List.mem_singleton.mp h)
  | cons y ys ih =>
      unfold mergeByName at h
      split at h
      · rcases List.mem_cons.mp h with rfl | h
        · exact Or.inr (Or.inr ⟨y, List.mem_cons_self, rfl⟩)
        · exact Or.inr (Or.inl (List.mem_cons_of_mem _ h))
      · split at h
        · rcases List.mem_cons.mp h with rfl | h
          · exact Or.inl rfl
          · exact Or.inr (Or.inl h)
        · rcases List.mem_cons.mp h with rfl | h
          · exact Or.inr (Or.inl List.mem_cons_self)
          · rcases ih h with rfl | h | ⟨w, hw, rfl⟩
            · exact Or.inl rfl
            · exact Or.inr (Or.inl (List.mem_cons_of_mem _ h))
            · exact Or.inr (Or.inr ⟨w, List.mem_cons_of_mem _ hw, rfl⟩)

/-- A merge that keeps names brings in the name of what is merged, and no other. -/
theorem mem_names_mergeByName (hname : ∀ y x, nameOf (merge y x) = nameOf y) {name : String} :
    name ∈ (mergeByName nameOf merge x ys).map nameOf ↔ name = nameOf x ∨ name ∈ ys.map nameOf := by
  induction ys with
  | nil => simp [mergeByName]
  | cons y ys ih =>
      unfold mergeByName
      split
      · rename_i heq
        rw [List.map_cons, List.map_cons, hname, List.mem_cons, heq, or_self_left]
      · split
        · rw [List.map_cons, List.mem_cons]
        · rw [List.map_cons, List.map_cons, List.mem_cons, List.mem_cons, ih, or_left_comm]

/-- A merge that keeps names keeps the strict order of the names. -/
theorem mergeByName_ordered (hname : ∀ y x, nameOf (merge y x) = nameOf y)
    (h : ys.Pairwise fun a b => nameOf a < nameOf b) :
    (mergeByName nameOf merge x ys).Pairwise fun a b => nameOf a < nameOf b := by
  induction ys with
  | nil => exact List.pairwise_singleton _ _
  | cons y ys ih =>
      obtain ⟨hy, hys⟩ := List.pairwise_cons.mp h
      unfold mergeByName
      split
      · refine List.pairwise_cons.mpr ⟨fun z hz => ?_, hys⟩
        rw [hname]
        exact hy z hz
      · rename_i hne
        split
        · rename_i hlt
          refine List.pairwise_cons.mpr ⟨fun z hz => ?_, h⟩
          rcases List.mem_cons.mp hz with rfl | hz
          · exact hlt
          · exact String.lt_trans hlt (hy z hz)
        · rename_i hge
          have hlt : nameOf y < nameOf x := by
            refine String.not_le.mp fun hle => hne ?_
            exact String.le_antisymm hle (String.not_lt.mp hge)
          refine List.pairwise_cons.mpr ⟨fun z hz => ?_, ih hys⟩
          rcases mem_mergeByName hz with rfl | hz | ⟨w, hw, rfl⟩
          · exact hlt
          · exact hy z hz
          · rw [hname]
            exact hy w hw

end

/-! ## Components -/

namespace Component

/-- What holds of a component as it is declared. -/
structure IsProper (includeInternal : Bool) (c : Component) : Prop where
  parameters_distinct : (c.parameters.map Parameter.name).Nodup
  events_distinct : (c.events.map Event.name).Nodup
  shown : includeInternal = false → c.isInternal = false

theorem IsProper.merge {includeInternal : Bool} {c : Component} (h : c.IsProper includeInternal)
    (d : Component) : (c.merge d).IsProper includeInternal where
  parameters_distinct := by
    refine nodup_appendNew (fun p q hname => ?_) h.parameters_distinct
    rw [hname]
    exact beq_self_eq_true _
  events_distinct := by
    refine nodup_appendNew (fun e f hname => ?_) h.events_distinct
    rw [hname]
    exact beq_self_eq_true _
  shown hi := by
    show (c.isInternal && d.isInternal) = false
    rw [h.shown hi, Bool.false_and]

end Component

namespace DeclaredType

theorem component_isProper {includeInternal : Bool} {t : DeclaredType} (path : String)
    (file : Option String) (h : isVisibleType includeInternal t.head.header = true) :
    (t.component path file).IsProper includeInternal where
  parameters_distinct := nodup_firsts (fun p q hname => by rw [hname]; exact beq_self_eq_true _) _
  events_distinct := nodup_firsts (fun e f hname => by rw [hname]; exact beq_self_eq_true _) _
  shown hi := by
    have hpublic : t.head.header.hasModifier "public" = true := by
      simpa [isVisibleType, hi] using h
    show (!t.head.header.hasModifier "public") = false
    rw [hpublic]
    rfl

end DeclaredType

namespace Declaration

variable {includeInternal : Bool} {path source : String} {d : Declaration}

/-- The component of a file is that of a visible type declared in it. -/
theorem exists_type_of_ofFile? (h : ofFile? includeInternal path source = some d) :
    ∃ (t : DeclaredType) (file : Option String),
      isVisibleType includeInternal t.head.header = true ∧ d.component = t.component path file := by
  have hclass {source : String} (h : ofClassFile? includeInternal path source = some d) :
      ∃ (t : DeclaredType) (file : Option String),
        isVisibleType includeInternal t.head.header = true ∧
          d.component = t.component path file := by
    obtain ⟨t, ht, rfl⟩ := Option.map_eq_some_iff.mp h
    have hmem := List.mem_of_mem_head? ht
    exact ⟨t, _, (List.mem_filter.mp hmem).2, rfl⟩
  unfold ofFile? at h
  split at h
  · obtain ⟨name, -, h⟩ := Option.bind_eq_some_iff.mp h
    exact hclass h
  · exact hclass h

theorem ofFile?_isProper (h : ofFile? includeInternal path source = some d) :
    d.component.IsProper includeInternal := by
  obtain ⟨t, file, hvisible, hd⟩ := exists_type_of_ofFile? h
  rw [hd]
  exact t.component_isProper path file hvisible

end Declaration

namespace Declarations

/-- Components in the order of their names, each as it is declared. -/
structure IsProper (settings : IndexSettings) (cs : List Component) : Prop where
  ordered : cs.Pairwise fun a b => a.name < b.name
  proper : ∀ c ∈ cs, c.IsProper settings.includeInternal

theorem mem_names_add {settings : IndexSettings} {ds : Declarations} {mayBeComponent : Bool}
    {d : Declaration} {name : String} :
    name ∈ (ds.add settings mayBeComponent d).components.map Component.name ↔
      name ∈ ds.components.map Component.name ∨ mayBeComponent = true ∧
        d.isComponent settings = true ∧ d.component.name = name := by
  have hname (c b : Component) : (c.merge b).name = c.name := rfl
  unfold add
  simp only
  split
  · rename_i hcomponent
    obtain ⟨hmay, hd⟩ := Bool.and_eq_true_iff.mp hcomponent
    rw [mem_names_mergeByName hname, or_comm, eq_comm, and_iff_right hmay, and_iff_right hd]
  · rename_i hother
    refine ⟨Or.inl, ?_⟩
    rintro (h | ⟨hmay, hd, -⟩)
    · exact h
    · exact absurd (Bool.and_eq_true_iff.mpr ⟨hmay, hd⟩) hother

theorem mem_typeNames_add {settings : IndexSettings} {ds : Declarations} {mayBeComponent : Bool}
    {d : Declaration} {name : String} :
    name ∈ (ds.add settings mayBeComponent d).types.map TypeReference.name ↔
      name ∈ ds.types.map TypeReference.name ∨ name ∈ d.types.map TypeReference.name := by
  have hname (t u : TypeReference) : (t.merge u).name = t.name := rfl
  unfold add
  simp only
  generalize ds.types = known
  induction d.types generalizing known with
  | nil => simp
  | cons t types ih =>
      refine (ih _).trans ?_
      rw [mem_names_mergeByName hname, List.map_cons, List.mem_cons, or_assoc, or_left_comm]

/-- What the files of a library declare, deprecated components among it. -/
def ofAllFiles (settings : IndexSettings) (files : List (Bool × Declaration)) : Declarations :=
  files.foldl (fun ds (mayBeComponent, d) => ds.add settings mayBeComponent d) ⟨[], []⟩

theorem components_sublist (settings : IndexSettings) (files : List (Bool × Declaration)) :
    (ofFiles settings files).components.Sublist (ofAllFiles settings files).components := by
  unfold ofFiles
  simp only
  split
  · exact List.Sublist.refl _
  · exact List.filter_sublist

theorem types_ofFiles_eq_ofAllFiles (settings : IndexSettings)
    (files : List (Bool × Declaration)) :
    (ofFiles settings files).types = (ofAllFiles settings files).types := by
  unfold ofFiles
  simp only
  split <;> rfl

/-- What holds of the components that files declare, and of two merged ones when it holds of the
first, holds of all components. -/
theorem forall_mem_ofFiles {P : Component → Prop} {settings : IndexSettings}
    {files : List (Bool × Declaration)} (hmerge : ∀ c d, P c → P (Component.merge c d))
    (hfiles : ∀ file ∈ files, P file.2.component) :
    ∀ c ∈ (ofFiles settings files).components, P c := by
  have hall : ∀ c ∈ (ofAllFiles settings files).components, P c := by
    refine List.foldlRecOn files _ (motive := fun ds : Declarations => ∀ c ∈ ds.components, P c)
      (fun c hc => absurd hc List.not_mem_nil) fun ds hds file hfile c hc => ?_
    unfold add at hc
    simp only at hc
    split at hc
    · rcases mem_mergeByName hc with rfl | hc | ⟨b, hb, rfl⟩
      · exact hfiles file hfile
      · exact hds c hc
      · exact hmerge b _ (hds b hb)
    · exact hds c hc
  exact fun c hc => hall c ((components_sublist settings files).subset hc)

/-- Components are listed in the order of their names. -/
theorem components_ordered (settings : IndexSettings) (files : List (Bool × Declaration)) :
    (ofFiles settings files).components.Pairwise fun a b => a.name < b.name := by
  have hall : (ofAllFiles settings files).components.Pairwise fun a b => a.name < b.name := by
    refine List.foldlRecOn files _ (motive := fun ds : Declarations =>
      ds.components.Pairwise fun a b => a.name < b.name) ?_ fun ds hds file _ => ?_
    · exact List.Pairwise.nil
    · unfold add
      simp only
      split
      · exact mergeByName_ordered (fun _ _ => rfl) hds
      · exact hds
  exact hall.sublist (components_sublist settings files)

theorem types_ordered_add {settings : IndexSettings} {ds : Declarations} {mayBeComponent : Bool}
    {d : Declaration} (h : ds.types.Pairwise fun t u => t.name < u.name) :
    (ds.add settings mayBeComponent d).types.Pairwise fun t u => t.name < u.name := by
  unfold add
  simp only
  generalize ds.types = known at h
  induction d.types generalizing known with
  | nil => exact h
  | cons t types ih => exact ih _ (mergeByName_ordered (fun _ _ => rfl) h)

/-- Types are listed in the order of their names. -/
theorem types_ordered (settings : IndexSettings) (files : List (Bool × Declaration)) :
    (ofFiles settings files).types.Pairwise fun t u => t.name < u.name := by
  rw [types_ofFiles_eq_ofAllFiles]
  refine List.foldlRecOn files _ (motive := fun ds : Declarations =>
    ds.types.Pairwise fun t u => t.name < u.name) ?_ ?_
  · exact List.Pairwise.nil
  · exact fun _ h _ _ => types_ordered_add h

/-- The names that some files add up to, when each of them adds names of its own. -/
theorem mem_names_ofAllFiles {α : Type} {nameOf : α → String} (part : Declarations → List α)
    {settings : IndexSettings} {Adds : Bool × Declaration → String → Prop}
    (hnone : part ⟨[], []⟩ = [])
    (hadd : ∀ (ds : Declarations) (file : Bool × Declaration) (name : String),
      name ∈ (part (ds.add settings file.1 file.2)).map nameOf ↔
        name ∈ (part ds).map nameOf ∨ Adds file name)
    {files : List (Bool × Declaration)} {name : String} :
    name ∈ (part (ofAllFiles settings files)).map nameOf ↔ ∃ file ∈ files, Adds file name := by
  have hfold (ds : Declarations) : name ∈ (part (files.foldl (fun ds (mayBeComponent, d) =>
      ds.add settings mayBeComponent d) ds)).map nameOf ↔
        name ∈ (part ds).map nameOf ∨ ∃ file ∈ files, Adds file name := by
    induction files generalizing ds with
    | nil => simp
    | cons file files ih =>
        rw [List.foldl_cons, ih, hadd, or_assoc]
        simp only [List.mem_cons, exists_eq_or_imp]
  rw [ofAllFiles, hfold, hnone, List.map_nil, or_iff_right List.not_mem_nil]

/-- The types of a library are those that its files declare. -/
theorem mem_typeNames_ofFiles {settings : IndexSettings} {files : List (Bool × Declaration)}
    {name : String} :
    name ∈ (ofFiles settings files).types.map TypeReference.name ↔
      ∃ file ∈ files, name ∈ file.2.types.map TypeReference.name := by
  rw [types_ofFiles_eq_ofAllFiles]
  exact mem_names_ofAllFiles Declarations.types rfl fun _ _ _ => mem_typeNames_add

theorem mem_names_ofAllFiles_iff {settings : IndexSettings} {files : List (Bool × Declaration)}
    {name : String} :
    name ∈ (ofAllFiles settings files).components.map Component.name ↔
      ∃ file ∈ files, file.1 = true ∧ file.2.isComponent settings = true ∧
        file.2.component.name = name :=
  mem_names_ofAllFiles Declarations.components rfl fun _ _ _ => mem_names_add

/-- A component of a library is one that a file of it declares. -/
theorem declared_of_mem_ofFiles {settings : IndexSettings} {files : List (Bool × Declaration)}
    {name : String} (h : name ∈ (ofFiles settings files).components.map Component.name) :
    ∃ file ∈ files, file.1 = true ∧ file.2.isComponent settings = true ∧
      file.2.component.name = name := by
  have hsublist := (components_sublist settings files).map Component.name
  exact mem_names_ofAllFiles_iff.mp (hsublist.subset h)

/-- When internal components are indexed, nothing that a file declares is left out. -/
theorem ofFiles_of_includeInternal {settings : IndexSettings}
    (hinternal : settings.includeInternal = true) (files : List (Bool × Declaration)) :
    ofFiles settings files = ofAllFiles settings files := by
  unfold ofFiles
  rw [if_pos hinternal]
  rfl

/-- What the files of a library declare is proper, and nothing deprecated is left in it unless
internal components are indexed as well. -/
theorem ofFiles_isProper {settings : IndexSettings} {files : List (Bool × Declaration)}
    (hfiles : ∀ file ∈ files, file.2.component.IsProper settings.includeInternal) :
    IsProper settings (ofFiles settings files).components ∧
      (settings.includeInternal = false →
        ∀ c ∈ (ofFiles settings files).components, c.deprecated = false) := by
  have hproper : ∀ c ∈ (ofFiles settings files).components,
      c.IsProper settings.includeInternal :=
    forall_mem_ofFiles (fun c d (hc : c.IsProper _) => hc.merge d) hfiles
  refine ⟨⟨components_ordered settings files, hproper⟩, fun hi c hc => ?_⟩
  unfold ofFiles at hc
  rw [hi] at hc
  simpa using (List.mem_filter.mp hc).2

end Declarations
end ComponentAtlas
