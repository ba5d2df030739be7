import ComponentAtlas.Proofs.CSharp.Places
import ComponentAtlas.Proofs.Distinct

/-!
# What a body contributes

The library goes through a body once: each property and each method of it is taken with the comments
in front, and everything else is passed over.  Comments go into descriptions only, so what is read
off a member apart from these is read off the written declaration, in source order.
-/

namespace ComponentAtlas

open CSharp

namespace CSharp

/-! ## Properties and methods -/

namespace Item

/-- What is read off the properties and the methods among some items. -/
def ofMember? {α : Type} (property : PropertyHead → Option α) (method : MethodHead → Option α) :
    Item → Option α
  | .property head => property head
  | .method head => method head
  | _ => none

theorem map_snd_withComments (passed : List Lexeme) (items : List Item) :
    (withComments passed items).map Prod.snd = items := by
  induction items generalizing passed with
  | nil => rfl
  | cons item items ih => cases item <;> simp [withComments, ih]

end Item

namespace WrittenItem

def property? : WrittenItem → Option WrittenProperty
  | .property p => some p
  | _ => none

def method? : WrittenItem → Option WrittenMethod
  | .method m => some m
  | _ => none

end WrittenItem

/-- The properties that are declared directly in a body, in order. -/
def properties (body : List WrittenItem) : List WrittenProperty :=
  body.filterMap WrittenItem.property?

/-- The methods that are declared directly in a body, in order. -/
def methods (body : List WrittenItem) : List WrittenMethod :=
  body.filterMap WrittenItem.method?

theorem WrittenItem.items_eq_map (body : List WrittenItem) : items body = body.map item := by
  induction body with
  | nil => rfl
  | cons w body ih => rw [items, ih, List.map_cons]

section

variable {α : Type} (body : List WrittenItem)

theorem filterMap_properties (read : PropertyHead → Option α) :
    (WrittenItem.items body).filterMap (Item.ofMember? read fun _ => none)
      = (properties body).filterMap fun p => read p.head := by
  rw [WrittenItem.items_eq_map, List.filterMap_map, properties, List.filterMap_filterMap]
  congr 1
  funext w
  cases w <;> rfl

theorem filterMap_methods (read : MethodHead → Option α) :
    (WrittenItem.items body).filterMap (Item.ofMember? (fun _ => none) read)
      = (methods body).filterMap fun m => read m.head := by
  rw [WrittenItem.items_eq_map, List.filterMap_map, methods, List.filterMap_filterMap]
  congr 1
  funext w
  cases w <;> rfl

end
end CSharp

/-- What is read off the members of a body without looking at their documentation. -/
theorem filterMap_bodyMembers {α : Type} {read : BodyMember → Option α}
    {property : PropertyHead → Option α} {method : MethodHead → Option α}
    (hproperty : ∀ docs head, read (.property docs head) = property head)
    (hmethod : ∀ docs head, read (.method docs head) = method head) (items : List Item) :
    (bodyMembers items).filterMap read = items.filterMap (Item.ofMember? property method) := by
  conv_rhs => rw [← Item.map_snd_withComments [] items, List.filterMap_map]
  rw [bodyMembers, List.filterMap_filterMap]
  congr 1
  funext ⟨leading, item⟩
  cases item <;> simp [Item.ofMember?, hproperty, hmethod]

/-! ## The text of a body -/

namespace CSharp

/-- What the library takes from the text of a body. -/
def readBody (kind : TypeKind) (body : List WrittenItem) : List Contribution :=
  contributions kind (items (WrittenItem.allTrees body))

theorem readBody_eq (kind : TypeKind) (body : List WrittenItem) :
    readBody kind body = contributions kind (WrittenItem.items body) := by
  have hread : items (WrittenItem.allTrees body) = WrittenItem.items body :=
    WrittenItem.readItems_eq body _ (Nat.lt_succ_self _)
  rw [readBody, hread]

/-- The component of a source is read from the body of the first type that is shown. -/
theorem exists_body_of_ofClassFile? {source path : String} {ws : List WrittenItem}
    {includeInternal : Bool} {d : Declaration} (h : ConsistsOf source ws)
    (hd : Declaration.ofClassFile? includeInternal path source = some d) :
    ∃ p reference, (shownTypes includeInternal ws).head? = some p ∧ d.types.head? = some reference ∧
      d.component.parameters = parametersOf (readBody p.head.kind p.item.body) ∧
      d.component.events = eventsOf (readBody p.head.kind p.item.body) ∧
      d.component.methods = methodsOf (readBody p.head.kind p.item.body) ∧
      reference.members = membersOf (readBody p.head.kind p.item.body) := by
  have hfound := shownTypes_found h includeInternal
  unfold Declaration.ofClassFile? Declaration.ofItems? at hd
  generalize (declaredTypes [] [] (parse source)).filter _ = visible at hfound hd
  obtain ⟨first, hfirst, rfl⟩ := Option.map_eq_some_iff.mp hd
  obtain ⟨rest, rfl⟩ := List.head?_eq_some_iff.mp hfirst
  obtain ⟨p, ps, ⟨-, hhead, hmembers, -⟩, -, hshown⟩ := List.forall₂_cons_right_iff.mp hfound
  have hkind : first.head.kind = p.head.kind := by
    rw [hhead]
    rfl
  have hbody : contributions first.head.kind first.members = readBody p.head.kind p.item.body := by
    rw [readBody_eq, hkind, hmembers]
  refine ⟨p, _, by rw [hshown]; rfl, rfl, ?_⟩
  rw [← hbody]
  exact ⟨rfl, rfl, rfl, rfl⟩

end CSharp
end ComponentAtlas
