import ComponentAtlas.Proofs.Index.Namesakes

/-!
# Every entry is told by its own parts

One loop reads the declarations of all names and adds each of them to the components, to the types
or to both.  Still, what is found under one name is a fold over the declarations of this name alone,
in their order, and the declarations in between may be any others.  Components that are deprecated
are dropped at the end, when all parts are merged; since merging keeps the mark, this asks whether
any part has it.
-/

namespace ComponentAtlas

/-- Parts merged one after the other into the first of them. -/
def mergeParts {α : Type} (merge : α → α → α) : List α → Option α
  | [] => none
  | first :: rest => some (rest.foldl merge first)

section

variable {α : Type} {nameOf : α → String} {merge : α → α → α} {xs ys : List α}

theorem mergeAll_some (merge : α → α → α) (x : α) (xs : List α) :
    mergeAll merge (some x) xs = some (xs.foldl merge x) := by
  induction xs generalizing x with
  | nil => rfl
  | cons y ys ih => exact ih (merge x y)

theorem mergeAll_none (merge : α → α → α) (xs : List α) :
    mergeAll merge none xs = mergeParts merge xs := by
  cases xs with
  | nil => rfl
  | cons x xs => exact mergeAll_some merge x xs

/-! ## Lists that are told by their entries -/

theorem ofName?_eq_none_of_lt {x : α} {name : String} (hname : name ≤ nameOf x)
    (hx : ∀ y ∈ xs, nameOf x < nameOf y) : ofName? nameOf name xs = none := by
  refine ofName?_eq_none fun y hy heq => ?_
  have hlt := hx y hy
  rw [heq] at hlt
  exact String.not_lt.mpr hname hlt

/-- The first of some things in the order of their names is found only where no smaller name is the
first. -/
theorem le_of_ofName?_cons {x y : α} (hy : ∀ z ∈ ys, nameOf y < nameOf z)
    (h : ofName? nameOf (nameOf x) (y :: ys) = some x) : nameOf y ≤ nameOf x := by
  rcases List.mem_cons.mp (List.mem_of_find?_eq_some h) with rfl | hx
  · exact String.le_refl _
  · exact String.not_lt.mp fun hlt => String.lt_irrefl _ (String.lt_trans hlt (hy x hx))

/-- Things in the order of their names are told by what is found under each name. -/
theorem eq_of_ofName?_eq (hxs : xs.Pairwise fun a b => nameOf a < nameOf b)
    (hys : ys.Pairwise fun a b => nameOf a < nameOf b)
    (h : ∀ name, ofName? nameOf name xs = ofName? nameOf name ys) : xs = ys := by
  induction xs generalizing ys with
  | nil =>
      cases ys with
      | nil => rfl
      | cons y ys =>
          have hy := (h (nameOf y)).trans (ofName?_cons_self y ys)
          cases hy
  | cons x xs ih =>
      cases ys with
      | nil =>
          have hx := (ofName?_cons_self x xs).symm.trans (h (nameOf x))
          cases hx
      | cons y ys =>
          obtain ⟨hx, hxsTail⟩ := List.pairwise_cons.mp hxs
          obtain ⟨hy, hysTail⟩ := List.pairwise_cons.mp hys
          have hfindx := (h (nameOf x)).symm.trans (ofName?_cons_self x xs)
          have hfindy := (h (nameOf y)).trans (ofName?_cons_self y ys)
          have hname : nameOf x = nameOf y :=
            String.le_antisymm (le_of_ofName?_cons hx hfindy) (le_of_ofName?_cons hy hfindx)
          rw [hname, ofName?_cons_self] at hfindx
          obtain rfl := Option.some.inj hfindx
          refine congrArg (y :: ·) (ih hxsTail hysTail fun name => ?_)
          by_cases hhere : nameOf y = name
          · subst hhere
            have hle : nameOf y ≤ nameOf y := String.le_refl _
            rw [ofName?_eq_none_of_lt hle hx, ofName?_eq_none_of_lt hle hy]
          · rw [← ofName?_cons_of_ne hhere, h name, ofName?_cons_of_ne hhere]

end

/-! ## Parts of components and types -/

namespace Component

/-- A merged component is deprecated as soon as one part of it is. -/
theorem deprecated_foldl_merge (first : Component) (rest : List Component) :
    (rest.foldl Component.merge first).deprecated = (first :: rest).any Component.deprecated := by
  induction rest generalizing first with
  | nil => exact (Bool.or_false _).symm
  | cons d rest ih =>
      rw [List.foldl_cons, ih, List.any_cons, List.any_cons, List.any_cons, ← Bool.or_assoc]
      rfl

end Component

namespace Declarations

variable {settings : IndexSettings} {files : List (Bool × Declaration)}

/-- The components of a name that the files declare, in order. -/
def partsNamed (settings : IndexSettings) (name : String) (files : List (Bool × Declaration)) :
    List Component :=
  (files.filter fun file =>
    file.1 && file.2.isComponent settings && file.2.component.name == name).map
      fun file => file.2.component

/-- The types of a name that the files declare, in order, whether or not the files may declare
components. -/
def typePartsNamed (name : String) (files : List (Bool × Declaration)) : List TypeReference :=
  (files.flatMap fun file => file.2.types).filter fun t => t.name == name

theorem flatMap_componentNamed (settings : IndexSettings) (name : String)
    (files : List (Bool × Declaration)) :
    files.flatMap (componentNamed settings name) = partsNamed settings name files := by
  induction files with
  | nil => rfl
  | cons file files ih =>
      have hhere : componentNamed settings name file = partsNamed settings name [file] := by
        unfold componentNamed componentIn partsNamed
        by_cases hcomponent : (file.1 && file.2.isComponent settings) = true
        · by_cases hname : (file.2.component.name == name) = true <;> simp [hcomponent, hname]
        · simp [hcomponent]
      rw [List.flatMap_cons, ih, hhere, partsNamed, partsNamed, partsNamed, ← List.map_append,
        ← List.filter_append, List.singleton_append]

theorem flatMap_typesNamed (name : String) (files : List (Bool × Declaration)) :
    files.flatMap (typesNamed name) = typePartsNamed name files :=
  List.filter_flatMap.symm

/-- What some files declare is told by its entries. -/
theorem ofFiles_eq_of_entries {others : List (Bool × Declaration)}
    (hcomponents : ∀ name, (ofFiles settings files).component? name =
      (ofFiles settings others).component? name)
    (htypes : ∀ name, (ofFiles settings files).type? name = (ofFiles settings others).type? name) :
    ofFiles settings files = ofFiles settings others := by
  have hsameComponents := eq_of_ofName?_eq (components_ordered settings files)
    (components_ordered settings others) hcomponents
  have hsameTypes := eq_of_ofName?_eq (types_ordered settings files)
    (types_ordered settings others) htypes
  calc ofFiles settings files
      = ⟨(ofFiles settings files).components, (ofFiles settings files).types⟩ := rfl
    _ = ⟨(ofFiles settings others).components, (ofFiles settings others).types⟩ := by
        rw [hsameComponents, hsameTypes]

theorem type?_eq_mergeParts (settings : IndexSettings) (files : List (Bool × Declaration))
    (name : String) : (ofFiles settings files).type? name =
      mergeParts TypeReference.merge (typePartsNamed name files) := by
  rw [type?_ofFiles, mergeAll_none, flatMap_typesNamed]

theorem component?_eq_mergeParts (settings : IndexSettings) (files : List (Bool × Declaration))
    (name : String) : (ofFiles settings files).component? name =
      if !settings.includeInternal && (partsNamed settings name files).any Component.deprecated
      then none else mergeParts Component.merge (partsNamed settings name files) := by
  rw [component?_ofFiles, mergeAll_none, flatMap_componentNamed]
  cases partsNamed settings name files with
  | nil => simp [mergeParts]
  | cons first rest =>
      rw [mergeParts, Option.filter_some, Component.deprecated_foldl_merge]
      cases settings.includeInternal <;> cases (first :: rest).any Component.deprecated <;> rfl

/-- Under each name there is at most one component and one type.  The component is the left fold of
merging over the parts of this name, and there is none when there are no parts, or when one of them
is deprecated and internal ones are not indexed; the type is the left fold over the types of this
name, from whatever files. -/
theorem entries_told_by_parts (settings : IndexSettings) (files : List (Bool × Declaration)) :
    ((ofFiles settings files).components.Pairwise fun a b => a.name < b.name) ∧
      ((ofFiles settings files).types.Pairwise fun a b => a.name < b.name) ∧
      (∀ name, (ofFiles settings files).component? name =
        if !settings.includeInternal && (partsNamed settings name files).any Component.deprecated
        then none else mergeParts Component.merge (partsNamed settings name files)) ∧
      ∀ name, (ofFiles settings files).type? name =
        mergeParts TypeReference.merge (typePartsNamed name files) := by
  refine ⟨components_ordered settings files, types_ordered settings files, ?_, ?_⟩
  · intro name
    exact component?_eq_mergeParts settings files name
  · intro name
    exact type?_eq_mergeParts settings files name

end Declarations
end ComponentAtlas
