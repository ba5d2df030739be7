import Mathlib.Data.List.Forall2
import ComponentAtlas.Declaration.Basic
import ComponentAtlas.Proofs.CSharp.WrittenSources

/-!
# Places of declarations

All items of a source in a row, each with the items around it.  Whether a type is declared inside
another one, and in which namespaces, can then be read off what is around it.  The library finds the
same types by going down into namespaces and conditional regions, and into nothing else
(`declaredTypes_items`): what is inside a type has that type around it, so none of it is found.
-/

namespace ComponentAtlas.CSharp

/-- An item, and the items around it, outermost first. -/
structure Place where
  around : List WrittenItem
  item : WrittenItem

namespace WrittenItem

mutual

/-- An item and all items in it, in source order. -/
def places (around : List WrittenItem) : WrittenItem → List Place
  | .namespaceBlock k n b body e =>
    ⟨around, .namespaceBlock k n b body e⟩
      :: allPlaces (around ++ [.namespaceBlock k n b body e]) body
  | .type h hfits hclass b body e =>
    ⟨around, .type h hfits hclass b body e⟩
      :: allPlaces (around ++ [.type h hfits hclass b body e]) body
  | .region o body c => ⟨around, .region o body c⟩ :: allPlaces (around ++ [.region o body c]) body
  | .fileNamespace k n e => [⟨around, .fileNamespace k n e⟩]
  | .bodiless h hfits hclass hbegins e => [⟨around, .bodiless h hfits hclass hbegins e⟩]
  | .enumeration h hfits henum b members e => [⟨around, .enumeration h hfits henum b members e⟩]
  | .property p => [⟨around, .property p⟩]
  | .method m => [⟨around, .method m⟩]
  | .other o => [⟨around, .other o⟩]
  | .globalAttributes t h => [⟨around, .globalAttributes t h⟩]
  | .divider t h h' => [⟨around, .divider t h h'⟩]

def allPlaces (around : List WrittenItem) : List WrittenItem → List Place
  | [] => []
  | item :: rest => item.places around ++ allPlaces around rest

end

/-- What a type is declared as. -/
def typeHead? : WrittenItem → Option WrittenTypeHead
  | .type h _ _ _ _ _ => some h
  | .bodiless h _ _ _ _ => some h
  | .enumeration h _ _ _ _ _ => some h
  | _ => none

/-- The items of a type's body. -/
def body : WrittenItem → List WrittenItem
  | .type _ _ _ _ body _ => body
  | _ => []

/-- The members of an enumeration. -/
def enumMembers : WrittenItem → List WrittenEnumMember
  | .enumeration _ _ _ _ members _ => members.elements
  | _ => []

/-- The name of a namespace block. -/
def blockName? : WrittenItem → Option NamespaceName
  | .namespaceBlock _ n _ _ _ => some n
  | _ => none

/-- The name of a namespace for the whole file. -/
def fileName? : WrittenItem → Option NamespaceName
  | .fileNamespace _ n _ => some n
  | _ => none

end WrittenItem

open WrittenItem (typeHead? blockName? fileName? places allPlaces)

/-- A type declaration, and the items around it, outermost first. -/
structure TypePlace where
  around : List WrittenItem
  head : WrittenTypeHead
  item : WrittenItem

namespace Place

/-- Whether something is declared outside all types. -/
def isOutside (p : Place) : Bool :=
  p.around.all fun w => w.typeHead?.isNone

/-- The type declared in a place outside all other types. -/
def outerType? (p : Place) : Option TypePlace :=
  if p.isOutside then p.item.typeHead?.map fun h => ⟨p.around, h, p.item⟩ else none

/-- The namespace for the whole file that is named in a place outside all types. -/
def outerFileName? (p : Place) : Option NamespaceName :=
  if p.isOutside then p.item.fileName? else none

end Place

/-- The type declarations of a source outside all other types, in source order. -/
def outerTypes (ws : List WrittenItem) : List TypePlace :=
  (allPlaces [] ws).filterMap Place.outerType?

/-- The names of the namespaces for the whole file. -/
def fileNames (ws : List WrittenItem) : List NamespaceName :=
  (allPlaces [] ws).filterMap Place.outerFileName?

namespace TypePlace

/-- The names of the namespace blocks around a type, outermost first. -/
def blocks (p : TypePlace) : List NamespaceName :=
  p.around.filterMap blockName?

/-- The names of the namespaces around a type, outermost first: a namespace for the whole file is
around all of it. -/
def namespaces (ws : List WrittenItem) (p : TypePlace) : List NamespaceName :=
  (fileNames ws).getLast?.toList ++ p.blocks

end TypePlace

/-! ## The types that the library finds -/

/-- The name of a namespace, as the library takes it. -/
def NamespaceName.read (n : NamespaceName) : String :=
  Text.collapseString (String.ofList (Tree.span n.name.trees))

/-- What the library keeps of a type, apart from the comments in front of it. -/
def TypePlace.IsFound (p : TypePlace) (t : DeclaredType) : Prop :=
  t.namespaces = p.blocks.map NamespaceName.read ∧ t.head = p.head.head ∧
    t.members = WrittenItem.items p.item.body ∧
    t.values = p.item.enumMembers.map WrittenEnumMember.member

mutual

/-- What is listed in an item stands inside all that is around the item. -/
theorem prefix_of_mem_places (around : List WrittenItem) (w : WrittenItem) :
    ∀ p ∈ w.places around, around <+: p.around := by
  have hself {w : WrittenItem} {ps : List Place} (hps : ∀ p ∈ ps, around ++ [w] <+: p.around) :
      ∀ p ∈ (⟨around, w⟩ : Place) :: ps, around <+: p.around :=
    List.forall_mem_cons.mpr ⟨List.prefix_refl _, fun p hp =>
      (List.prefix_append _ _).trans (hps p hp)⟩
  have hleaf {w : WrittenItem} : ∀ p ∈ [(⟨around, w⟩ : Place)], around <+: p.around :=
    List.forall_mem_singleton.mpr (List.prefix_refl _)
  cases w with
  | namespaceBlock k n b body e => exact hself (prefix_of_mem_allPlaces _ body)
  | type h hfits hclass b body e => exact hself (prefix_of_mem_allPlaces _ body)
  | region o body c => exact hself (prefix_of_mem_allPlaces _ body)
  | _ => exact hleaf

theorem prefix_of_mem_allPlaces (around : List WrittenItem) (ws : List WrittenItem) :
    ∀ p ∈ allPlaces around ws, around <+: p.around := by
  cases ws with
  | nil => intro p hp; cases hp
  | cons w ws =>
      exact List.forall_mem_append.mpr
        ⟨prefix_of_mem_places around w, prefix_of_mem_allPlaces around ws⟩

end

/-- Nothing in a type is outside all types. -/
theorem filterMap_places_inside {α : Type} (around : List WrittenItem) {w : WrittenItem}
    (hw : w.typeHead?.isNone = false) (read : Place → Option α)
    (hread : ∀ p, p.isOutside = false → read p = none) (ws : List WrittenItem) :
    (allPlaces (around ++ [w]) ws).filterMap read = [] := by
  refine List.filterMap_eq_nil_iff.mpr fun p hp => hread p ?_
  obtain ⟨more, hmore⟩ := prefix_of_mem_allPlaces _ ws p hp
  rw [Place.isOutside, ← hmore, List.all_append, List.all_append, List.all_cons, hw]
  simp

theorem outerType?_inside (p : Place) (h : p.isOutside = false) : p.outerType? = none := by
  rw [Place.outerType?, h]
  rfl

theorem outerFileName?_inside (p : Place) (h : p.isOutside = false) : p.outerFileName? = none := by
  rw [Place.outerFileName?, h]
  rfl

section

variable {around : List WrittenItem}

theorem isOutside_append (houtside : (around.all fun w => w.typeHead?.isNone) = true)
    {w : WrittenItem} (hw : w.typeHead? = none) :
    ((around ++ [w]).all fun w => w.typeHead?.isNone) = true := by
  simp [List.all_append, houtside, hw]

theorem outerType?_of_outside (houtside : (around.all fun w => w.typeHead?.isNone) = true)
    (w : WrittenItem) :
    Place.outerType? ⟨around, w⟩ = w.typeHead?.map fun h => ⟨around, h, w⟩ :=
  if_pos houtside

end

mutual

/-- The types that are found in an item are those listed in it outside all types. -/
theorem declaredIn_item (w : WrittenItem) (around : List WrittenItem) (leading : List Lexeme)
    (houtside : (around.all fun w => w.typeHead?.isNone) = true) :
    List.Forall₂ TypePlace.IsFound ((w.places around).filterMap Place.outerType?)
      (declaredIn ((around.filterMap blockName?).map NamespaceName.read) leading w.item) := by
  have hself {w : WrittenItem} (hw : w.typeHead? = none) (ps : List Place) :
      ((⟨around, w⟩ : Place) :: ps).filterMap Place.outerType? = ps.filterMap Place.outerType? := by
    rw [List.filterMap_cons_none]
    rw [outerType?_of_outside houtside, hw]
    rfl
  cases w with
  | namespaceBlock k n b body e =>
      have hbody := declaredTypes_items body (around ++ [.namespaceBlock k n b body e]) []
        (isOutside_append houtside rfl)
      rw [List.filterMap_append, List.map_append] at hbody
      rw [places, hself rfl]
      exact hbody
  | region o body c =>
      have hbody := declaredTypes_items body (around ++ [.region o body c]) []
        (isOutside_append houtside rfl)
      rw [List.filterMap_append, List.map_append] at hbody
      rw [places, hself rfl]
      simpa only [List.filterMap_cons, List.filterMap_nil, blockName?, List.map_nil,
        List.append_nil, WrittenItem.item, declaredIn] using hbody
  | type h hfits hclass b body e =>
      rw [places, List.filterMap_cons_some (outerType?_of_outside houtside _),
        filterMap_places_inside around rfl _ outerType?_inside]
      exact .cons ⟨rfl, rfl, rfl, rfl⟩ .nil
  | bodiless h hfits hclass hbegins e =>
      rw [places, List.filterMap_cons_some (outerType?_of_outside houtside _)]
      exact .cons ⟨rfl, rfl, rfl, rfl⟩ .nil
  | enumeration h hfits henum b members e =>
      rw [places, List.filterMap_cons_some (outerType?_of_outside houtside _)]
      exact .cons ⟨rfl, rfl, rfl, rfl⟩ .nil
  | _ =>
      rw [places, hself rfl]
      exact .nil

theorem declaredTypes_items (ws : List WrittenItem) (around : List WrittenItem)
    (passed : List Lexeme) (houtside : (around.all fun w => w.typeHead?.isNone) = true) :
    List.Forall₂ TypePlace.IsFound ((allPlaces around ws).filterMap Place.outerType?)
      (declaredTypes ((around.filterMap blockName?).map NamespaceName.read) passed
        (WrittenItem.items ws)) := by
  cases ws with
  | nil => exact .nil
  | cons w ws =>
      rw [allPlaces, List.filterMap_append, WrittenItem.items]
      unfold declaredTypes
      exact List.rel_append (declaredIn_item w around _ houtside)
        (declaredTypes_items ws around _ houtside)

end

mutual

theorem fileNamespacesIn_item (w : WrittenItem) (around : List WrittenItem)
    (houtside : (around.all fun w => w.typeHead?.isNone) = true) :
    fileNamespacesIn w.item
      = ((w.places around).filterMap Place.outerFileName?).map NamespaceName.read := by
  have hself {w : WrittenItem} (hw : w.fileName? = none) (ps : List Place) :
      ((⟨around, w⟩ : Place) :: ps).filterMap Place.outerFileName?
        = ps.filterMap Place.outerFileName? :=
    List.filterMap_cons_none ((if_pos houtside).trans hw)
  cases w with
  | namespaceBlock k n b body e =>
      rw [places, hself rfl]
      exact fileNamespaces_items body _ (isOutside_append houtside rfl)
  | region o body c =>
      rw [places, hself rfl]
      exact fileNamespaces_items body _ (isOutside_append houtside rfl)
  | type h hfits hclass b body e =>
      rw [places, hself rfl, filterMap_places_inside around rfl _ outerFileName?_inside]
      rfl
  | fileNamespace k n e =>
      have hfile : Place.outerFileName? ⟨around, .fileNamespace k n e⟩ = some n := if_pos houtside
      rw [places, List.filterMap_cons_some hfile]
      rfl
  | _ =>
      rw [places, hself rfl]
      rfl

/-- The namespaces for the whole file are found outside all types. -/
theorem fileNamespaces_items (ws : List WrittenItem) (around : List WrittenItem)
    (houtside : (around.all fun w => w.typeHead?.isNone) = true) :
    fileNamespaces (WrittenItem.items ws)
      = ((allPlaces around ws).filterMap Place.outerFileName?).map NamespaceName.read := by
  cases ws with
  | nil => rfl
  | cons w ws =>
      rw [allPlaces, List.filterMap_append, WrittenItem.items, fileNamespaces, List.map_append,
        fileNamespacesIn_item w around houtside, fileNamespaces_items ws around houtside]

end

/-! ## The types that are shown -/

/-- Whether a word is among the modifiers. -/
def WrittenHeader.hasWord (h : WrittenHeader) (word : String) : Bool :=
  h.modifiers.any fun t => t.text == word.toList

theorem WrittenHeader.hasModifier_header (h : WrittenHeader) (bare : List Tree) (word : String) :
    (h.header bare).hasModifier word = h.hasWord word := by
  rw [Header.hasModifier, WrittenHeader.header, List.contains_eq_any_beq, List.any_map, hasWord]
  simp only [Function.comp_def, Bool.beq_comm (a := word.toList)]

/-- Whether a type is shown: a public one always, and on request all but private ones. -/
def WrittenTypeHead.isShown (includeInternal : Bool) (h : WrittenTypeHead) : Bool :=
  h.header.hasWord "public" || (includeInternal && !h.header.hasWord "private")

/-- The types of a source that are shown, in source order. -/
def shownTypes (includeInternal : Bool) (ws : List WrittenItem) : List TypePlace :=
  (outerTypes ws).filter fun p => p.head.isShown includeInternal

/-- The types that are found and visible are those that are shown. -/
theorem shownTypes_found {source : String} {ws : List WrittenItem} (h : ConsistsOf source ws)
    (includeInternal : Bool) :
    List.Forall₂ TypePlace.IsFound (shownTypes includeInternal ws)
      ((declaredTypes [] [] (parse source)).filter fun t =>
        isVisibleType includeInternal t.head.header) := by
  rw [parse_eq h]
  refine List.rel_filter (fun p t hfound => ?_) (declaredTypes_items ws [] [] rfl)
  have hheader : t.head.header = p.head.header.header p.head.bare := by
    rw [hfound.2.1]
    rfl
  simp only [isVisibleType, hheader, WrittenHeader.hasModifier_header]
  rfl

theorem map_eq_of_found {α : Type} {ps : List TypePlace} {ts : List DeclaredType}
    (h : List.Forall₂ TypePlace.IsFound ps ts) {f : TypePlace → α} {g : DeclaredType → α}
    (hsame : ∀ p t, p.IsFound t → f p = g t) : ps.map f = ts.map g := by
  induction h with
  | nil => rfl
  | @cons p t ps ts hfound _ ih => rw [List.map_cons, List.map_cons, hsame p t hfound, ih]

end ComponentAtlas.CSharp
