import ComponentAtlas.Proofs.Index.Merge

/-!
# What is merged into one entry

An entry of the index is told by its name alone.  It is the merge of all that is declared under this
name, in order, and of nothing else (`ofName?_foldl`): so whatever a declaration adds of its own, it
adds to the entry of its name.  Types of one name are merged even if they are of different kinds or
in different namespaces.  Components are merged with components only, which are all classes.
-/

namespace ComponentAtlas

/-- The thing with a name. -/
def ofName? {α : Type} (nameOf : α → String) (name : String) (xs : List α) : Option α :=
  xs.find? fun x => nameOf x == name

/-- Some things merged one after the other into what is known already. -/
def mergeAll {α : Type} (merge : α → α → α) (known : Option α) (xs : List α) : Option α :=
  xs.foldl (fun known x => some ((known.map fun y => merge y x).getD x)) known

/-! ## The entry of a name -/

section

variable {α : Type} {nameOf : α → String} {merge : α → α → α} {x : α} {ys : List α} {name : String}

theorem ofName?_eq_none (h : ∀ y ∈ ys, nameOf y ≠ name) : ofName? nameOf name ys = none :=
  List.find?_eq_none.mpr fun y hy => by simpa using h y hy

theorem ofName?_cons_self (x : α) (ys : List α) : ofName? nameOf (nameOf x) (x :: ys) = some x :=
  List.find?_cons_of_pos (beq_self_eq_true (nameOf x))

theorem ofName?_cons_of_ne (h : nameOf x ≠ name) :
    ofName? nameOf name (x :: ys) = ofName? nameOf name ys :=
  List.find?_cons_of_neg (by simpa using h)

theorem ofName?_mergeByName (hname : ∀ y x, nameOf (merge y x) = nameOf y)
    (hordered : ys.Pairwise fun a b => nameOf a < nameOf b) :
    ofName? nameOf name (mergeByName nameOf merge x ys) =
      if nameOf x = name then mergeAll merge (ofName? nameOf name ys) [x]
      else ofName? nameOf name ys := by
  induction ys with
  | nil => by_cases hx : nameOf x = name <;> simp [mergeByName, ofName?, mergeAll, hx]
  | cons y ys ih =>
      obtain ⟨hy, hys⟩ := List.pairwise_cons.mp hordered
      unfold mergeByName
      split
      · rename_i heq
        by_cases hx : nameOf x = name
        · simp [ofName?, mergeAll, hname, ← heq, hx]
        · simp [ofName?, hname, ← heq, hx]
      · rename_i hne
        split
        · rename_i hlt
          by_cases hx : nameOf x = name
          · -- all that stands behind has a greater name
            have hnone : ofName? nameOf name (y :: ys) = none := by
              refine ofName?_eq_none fun z hz hz' => ?_
              have hless : nameOf x < nameOf z := by
                rcases List.mem_cons.mp hz with rfl | hz
                · exact hlt
                · exact String.lt_trans hlt (hy z hz)
              rw [hx, hz'] at hless
              exact String.lt_irrefl _ hless
            rw [if_pos hx, hnone]
            simp [ofName?, mergeAll, hx]
          · simp [ofName?, hx]
        · by_cases hhere : nameOf y = name
          · have hx : nameOf x ≠ name := fun hx => hne (hx.trans hhere.symm)
            simp [ofName?, hhere, hx]
          · have hskip (zs : List α) : ofName? nameOf name (y :: zs) = ofName? nameOf name zs := by
              simp [ofName?, hhere]
            rw [hskip, hskip, ih hys]

theorem ofName?_foldl (hname : ∀ y x, nameOf (merge y x) = nameOf y) (xs : List α)
    (hordered : ys.Pairwise fun a b => nameOf a < nameOf b) :
    ofName? nameOf name (xs.foldl (fun ys x => mergeByName nameOf merge x ys) ys) =
      mergeAll merge (ofName? nameOf name ys) (xs.filter fun x => nameOf x == name) := by
  induction xs generalizing ys with
  | nil => rfl
  | cons x xs ih =>
      rw [List.foldl_cons, ih (mergeByName_ordered hname hordered),
        ofName?_mergeByName hname hordered, List.filter_cons]
      by_cases hx : nameOf x = name
      · rw [if_pos hx, if_pos (beq_iff_eq.mpr hx)]
        rfl
      · rw [if_neg hx, if_neg (by simpa using hx)]

theorem foldl_mergeByName_ordered (hname : ∀ y x, nameOf (merge y x) = nameOf y) (xs : List α)
    (hordered : ys.Pairwise fun a b => nameOf a < nameOf b) :
    (xs.foldl (fun ys x => mergeByName nameOf merge x ys) ys).Pairwise
      fun a b => nameOf a < nameOf b :=
  List.foldlRecOn (motive := fun ys : List α => ys.Pairwise fun a b => nameOf a < nameOf b) xs _
    hordered fun _ h _ _ => mergeByName_ordered hname h

/-- Leaving some things out leaves out the one of a name if it is among them. -/
theorem ofName?_filter {p : α → Bool} (hordered : ys.Pairwise fun a b => nameOf a < nameOf b) :
    ofName? nameOf name (ys.filter p) = (ofName? nameOf name ys).filter p := by
  induction ys with
  | nil => rfl
  | cons y ys ih =>
      obtain ⟨hy, hys⟩ := List.pairwise_cons.mp hordered
      by_cases hhere : nameOf y = name
      · have hbehind : ofName? nameOf name (ys.filter p) = none := by
          refine ofName?_eq_none fun z hz hz' => ?_
          have hless := hy z (List.mem_filter.mp hz).1
          rw [hhere, hz'] at hless
          exact String.lt_irrefl _ hless
        have hfound : ofName? nameOf name (y :: ys) = some y := by simp [ofName?, hhere]
        rw [hfound, List.filter_cons, Option.filter_some]
        cases hp : p y with
        | true => simp [ofName?, hhere]
        | false => simpa using hbehind
      · rw [ofName?_cons_of_ne hhere, ← ih hys, List.filter_cons]
        split
        · exact ofName?_cons_of_ne hhere
        · rfl

/-- What is made of a list one by one changes only with an element that makes something else. -/
theorem flatMap_modify {β : Type} {g : α → List β} {f : α → α} {i : Nat} {xs : List α}
    (h : ∀ x, xs[i]? = some x → g (f x) = g x) : (xs.modify i f).flatMap g = xs.flatMap g := by
  induction xs generalizing i with
  | nil => cases i <;> rfl
  | cons x xs ih =>
      cases i with
      | zero => rw [List.modify_zero_cons, List.flatMap_cons, h x rfl, List.flatMap_cons]
      | succ i => rw [List.modify_succ_cons, List.flatMap_cons, ih h, List.flatMap_cons]

theorem filter_modify {p : α → Bool} {f : α → α} {i : Nat} {xs : List α}
    (h : ∀ x, xs[i]? = some x → p x = false ∧ p (f x) = false) :
    (xs.modify i f).filter p = xs.filter p := by
  induction xs generalizing i with
  | nil => cases i <;> rfl
  | cons x xs ih =>
      cases i with
      | zero =>
          obtain ⟨hx, hfx⟩ := h x rfl
          simp [hx, hfx]
      | succ i => rw [List.modify_succ_cons, List.filter_cons, ih h, List.filter_cons]

end

/-! ## What a declaration adds -/

namespace TypeReference

/-- A type without its members and values. -/
def emptied (t : TypeReference) : TypeReference :=
  { t with members := [], values := [] }

end TypeReference

namespace Component

/-- A component without its parameters, events and methods. -/
def emptied (c : Component) : Component :=
  { c with parameters := [], events := [], methods := [] }

end Component

namespace Declaration

variable {settings : IndexSettings} {d : Declaration}

theorem shape_of_isComponent (h : d.isComponent settings = true) :
    d.kind = .classType ∧ d.isStatic = false := by
  unfold isComponent at h
  simp only [Bool.and_eq_true, beq_iff_eq, Bool.not_eq_true'] at h
  exact h.1

/-- Whether a declaration is one of a component does not depend on what the component has. -/
theorem isComponent_emptied (settings : IndexSettings) (d : Declaration) :
    isComponent settings { d with component := d.component.emptied } = d.isComponent settings :=
  rfl

end Declaration

namespace Declarations

variable {settings : IndexSettings} {files : List (Bool × Declaration)} {name : String} {i k : Nat}

def type? (ds : Declarations) (name : String) : Option TypeReference :=
  ofName? TypeReference.name name ds.types

def component? (ds : Declarations) (name : String) : Option Component :=
  ofName? Component.name name ds.components

/-- The declarations without the members and values of one type of one file. -/
def emptyType (i k : Nat) (files : List (Bool × Declaration)) : List (Bool × Declaration) :=
  files.modify i fun file =>
    (file.1, { file.2 with types := file.2.types.modify k TypeReference.emptied })

/-- The declarations without the parameters, events and methods of the component of one file. -/
def emptyComponent (i : Nat) (files : List (Bool × Declaration)) : List (Bool × Declaration) :=
  files.modify i fun file => (file.1, { file.2 with component := file.2.component.emptied })

/-- A type of a file adds members or values to the type of a name: without its own there would be
others. -/
def AddsToType (settings : IndexSettings) (files : List (Bool × Declaration)) (i k : Nat)
    (name : String) : Prop :=
  (ofFiles settings (emptyType i k files)).type? name ≠ (ofFiles settings files).type? name

/-- A file adds parameters, events or methods to the component of a name. -/
def AddsToComponent (settings : IndexSettings) (files : List (Bool × Declaration)) (i : Nat)
    (name : String) : Prop :=
  (ofFiles settings (emptyComponent i files)).component? name ≠
    (ofFiles settings files).component? name

instance decidableAddsToType (i k : Nat) : Decidable (AddsToType settings files i k name) :=
  inferInstanceAs (Decidable (_ ≠ _))

instance decidableAddsToComponent (i : Nat) : Decidable (AddsToComponent settings files i name) :=
  inferInstanceAs (Decidable (_ ≠ _))

/-! ## What an entry is merged from -/

/-- The types of a name that a file declares. -/
def typesNamed (name : String) (file : Bool × Declaration) : List TypeReference :=
  file.2.types.filter fun t => t.name == name

/-- The component that a file declares, if it may declare one. -/
def componentIn (settings : IndexSettings) (file : Bool × Declaration) : List Component :=
  if file.1 && file.2.isComponent settings then [file.2.component] else []

/-- The component of a name that a file declares. -/
def componentNamed (settings : IndexSettings) (name : String) (file : Bool × Declaration) :
    List Component :=
  (componentIn settings file).filter fun c => c.name == name

theorem types_ofFiles :
    (ofFiles settings files).types = (files.flatMap fun file => file.2.types).foldl
      (fun types t => mergeByName TypeReference.name TypeReference.merge t types) [] := by
  rw [types_ofFiles_eq_ofAllFiles, List.foldl_flatMap]
  exact (List.foldl_hom Declarations.types fun _ _ => rfl).symm

theorem components_ofFiles :
    (ofFiles settings files).components =
      ((files.flatMap (componentIn settings)).foldl
        (fun cs c => mergeByName Component.name Component.merge c cs) []).filter
          fun c => settings.includeInternal || !c.deprecated := by
  have hall : (ofAllFiles settings files).components = (files.flatMap (componentIn settings)).foldl
      (fun cs c => mergeByName Component.name Component.merge c cs) [] := by
    rw [List.foldl_flatMap]
    refine (List.foldl_hom Declarations.components fun ds file => ?_).symm
    unfold componentIn add
    simp only
    split <;> rfl
  rw [← hall]
  unfold ofFiles
  simp only
  cases hinternal : settings.includeInternal with
  | true => exact (List.filter_eq_self.mpr fun c _ => rfl).symm
  | false => rfl

/-- The type of a name is the merge of all types of this name, and of nothing else. -/
theorem type?_ofFiles (settings : IndexSettings) (files : List (Bool × Declaration))
    (name : String) : (ofFiles settings files).type? name =
      mergeAll TypeReference.merge none (files.flatMap (typesNamed name)) := by
  have hname (t u : TypeReference) : (t.merge u).name = t.name := rfl
  rw [type?, types_ofFiles, ofName?_foldl hname _ List.Pairwise.nil, List.filter_flatMap]
  rfl

/-- The component of a name is the merge of all components of this name, and of nothing else; it is
left out when it is deprecated, unless internal components are indexed as well. -/
theorem component?_ofFiles (settings : IndexSettings) (files : List (Bool × Declaration))
    (name : String) : (ofFiles settings files).component? name =
      (mergeAll Component.merge none (files.flatMap (componentNamed settings name))).filter
        fun c => settings.includeInternal || !c.deprecated := by
  have hname (c d : Component) : (c.merge d).name = c.name := rfl
  rw [component?, components_ofFiles,
    ofName?_filter (foldl_mergeByName_ordered hname _ List.Pairwise.nil),
    ofName?_foldl hname _ List.Pairwise.nil, List.filter_flatMap]
  rfl

/-- Whatever a type of a file adds to a type of the index, it adds to the one of its name; and what
the component of a file adds to a component, it adds to the one of its name, which is made of
classes with instances only. -/
theorem adds_to_its_name :
    (∀ i k name, AddsToType settings files i k name →
      ∃ file t, files[i]? = some file ∧ file.2.types[k]? = some t ∧ t.name = name) ∧
    ∀ i name, AddsToComponent settings files i name →
      ∃ d, files[i]? = some (true, d) ∧ d.component.name = name ∧ d.kind = .classType ∧
        d.isStatic = false := by
  refine ⟨fun i k name hadds => ?_, fun i name hadds => ?_⟩
  · refine Classical.byContradiction fun hnone => hadds ?_
    rw [type?_ofFiles, type?_ofFiles, emptyType, flatMap_modify fun file hfile => ?_]
    refine filter_modify fun t ht => ?_
    have hother : (t.name == name) = false :=
      beq_false_of_ne fun hname => hnone ⟨file, t, hfile, ht, hname⟩
    exact ⟨hother, hother⟩
  · refine Classical.byContradiction fun hnone => hadds ?_
    rw [component?_ofFiles, component?_ofFiles, emptyComponent,
      flatMap_modify fun file hfile => ?_]
    obtain ⟨mayBeComponent, d⟩ := file
    unfold componentNamed componentIn
    by_cases hcomponent : (mayBeComponent && d.isComponent settings) = true
    · obtain ⟨rfl, hshape⟩ := Bool.and_eq_true_iff.mp hcomponent
      obtain ⟨hkind, hinstances⟩ := Declaration.shape_of_isComponent hshape
      have hother : (d.component.name == name) = false :=
        beq_false_of_ne fun hname => hnone ⟨d, hfile, hname, hkind, hinstances⟩
      have hother' : (d.component.emptied.name == name) = false := hother
      simp only [Declaration.isComponent_emptied, hshape, Bool.and_self, if_true,
        List.filter_cons, hother, hother', Bool.false_eq_true, if_false]
    · simp only [Declaration.isComponent_emptied, hcomponent, Bool.false_eq_true, if_false]

/-! ## Types of one name -/

/-- Two classes in different namespaces and an enumeration, all of one name. -/
def namesakeFiles : List (String × String) :=
  [("Bars.cs", "namespace Bars;\npublic class MudChart\n\x7b\n  [Parameter] public int Width " ++
      "\x7b get; set; \x7d\n\x7d\n"),
    ("Pies.cs", "namespace Pies;\npublic class MudChart\n\x7b\n  [Parameter] public int Angle " ++
      "\x7b get; set; \x7d\n\x7d\n"),
    ("Kinds.cs", "namespace Kinds;\npublic enum MudChart\n\x7b\n  Bar\n\x7d\n")]

def chartClass (place parameter : String) : Declaration where
  kind := .classType
  isStatic := false
  component :=
    { Component.ofName "MudChart" with
      namespaceName := some place
      parameters := [⟨parameter, "int", none, none, false, false, none⟩]
      sourceFile := some (place ++ ".cs") }
  types := [⟨"MudChart", .classType, some place, none, none,
    [⟨parameter, .property, "int", none⟩], [], some (place ++ ".cs")⟩]

def chartEnumeration : Declaration where
  kind := .enumType
  isStatic := false
  component :=
    { Component.ofName "MudChart" with
      namespaceName := some "Kinds"
      sourceFile := some "Kinds.cs" }
  types := [⟨"MudChart", .enumType, some "Kinds", none, none, [], [⟨"Bar", none, none⟩],
    some "Kinds.cs"⟩]

/-- What the three files declare. -/
def namesakes : List (Bool × Declaration) :=
  [(true, chartClass "Bars" "Width"), (true, chartClass "Pies" "Angle"), (true, chartEnumeration)]

/-- The second class adds its parameter to the type and to the component of its name. -/
theorem adds_to_its_name_chart :
    AddsToType .standard namesakes 1 0 "MudChart" ∧
      AddsToComponent .standard namesakes 1 "MudChart" ∧
      (∃ file t, namesakes[1]? = some file ∧ file.2.types[0]? = some t ∧ t.name = "MudChart") ∧
      ∃ d, namesakes[1]? = some (true, d) ∧ d.component.name = "MudChart" ∧
        d.kind = .classType ∧ d.isStatic = false := by
  have htype : AddsToType .standard namesakes 1 0 "MudChart" := by decide +kernel
  have hcomponent : AddsToComponent .standard namesakes 1 "MudChart" := by decide +kernel
  obtain ⟨htypes, hcomponents⟩ := @adds_to_its_name .standard namesakes
  exact ⟨htype, hcomponent, htypes 1 0 _ htype, hcomponents 1 _ hcomponent⟩

/-- A class and the enumeration add to one type, although they are of different kinds and stand in
different namespaces; and both classes add to one component. -/
theorem namesakes_mixed :
    (namesakeFiles.filterMap fun (path, text) =>
      (Declaration.ofFile? false path text).map (true, ·)) = namesakes ∧
    (namesakes.map fun file => file.2.types.map fun t => (t.name, t.kind, t.namespaceName)) =
      [[("MudChart", .classType, some "Bars")], [("MudChart", .classType, some "Pies")],
        [("MudChart", .enumType, some "Kinds")]] ∧
    AddsToType .standard namesakes 0 0 "MudChart" ∧ AddsToType .standard namesakes 2 0 "MudChart" ∧
    AddsToComponent .standard namesakes 0 "MudChart" ∧
    AddsToComponent .standard namesakes 1 "MudChart" := by
  decide +kernel

end Declarations
end ComponentAtlas
