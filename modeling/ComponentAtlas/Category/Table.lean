import ComponentAtlas.Keyed
import ComponentAtlas.Model.Category
import ComponentAtlas.Text.Occurrence

/-!
# The category table

A table says which category a component belongs to: by a list of members for each category, and
for components that no list names, by rules on their names.  The first entry that lists a
component and the first rule that applies decide.

The entries are read once into the categories that they make, entries of one name sharing a
category, and the position among these of each listed component's category.
-/

namespace ComponentAtlas

/-- A category of the table with the components that it lists. -/
structure CategoryEntry where
  name : String
  title : Option String
  description : Option String
  members : List String
  deriving DecidableEq, Repr

/-- A rule that puts a component into a category by its name. -/
structure CategoryRule where
  category : String
  /-- Texts of which one has to stand in the name. -/
  contains : List String
  /-- Texts of which one has to stand at the end of the name, where none stands in it. -/
  endsWith : List String
  deriving DecidableEq, Repr

namespace CategoryRule

def applies (r : CategoryRule) (name : String) : Bool :=
  r.contains.any (fun p => Text.contains p.toList name.toList) ||
    r.endsWith.any fun e => Text.endsWith e.toList name.toList

end CategoryRule

/-- What the entries of a table make: categories with the components that belong to them, and for
each of these components the position of its category. -/
structure CategorySeeds where
  categories : List Category
  owners : Keyed Nat
  deriving DecidableEq, Repr

namespace CategorySeeds

/-- Gives a component to the category at a position, unless it belongs to one already. -/
def addMember (position : Nat) (s : CategorySeeds) (component : String) : CategorySeeds :=
  if (s.owners.get? component).isSome then s
  else
    { categories := s.categories.modify position fun c =>
        { c with components := c.components ++ [component] }
      owners := s.owners.put component position }

/-- Reads one more entry.  It has a category of its own unless its name stands already. -/
def addEntry (s : CategorySeeds) (e : CategoryEntry) : CategorySeeds :=
  match s.categories.findIdx? fun c => c.name == e.name with
  | some position => e.members.foldl (addMember position) s
  | none =>
    e.members.foldl (addMember s.categories.length)
      { s with categories := s.categories ++ [⟨e.name, e.title, e.description, []⟩] }

/-- The name of the category that a component belongs to. -/
def ownerOf? (s : CategorySeeds) (component : String) : Option String :=
  (s.owners.get? component).bind fun position => s.categories[position]?.map Category.name

end CategorySeeds

structure CategoryTable where
  entries : List CategoryEntry
  rules : List CategoryRule
  /-- Whether the rules are used at all. -/
  infer : Bool
  deriving DecidableEq, Repr

namespace CategoryTable

/-- The category of names that nothing else places. -/
def otherCategory : String := "Other"

/-- The category of unlisted components when the rules are not used. -/
def uncategorized : String := "Uncategorized"

/-- What all entries make. -/
def seeds (t : CategoryTable) : CategorySeeds :=
  t.entries.foldl CategorySeeds.addEntry ⟨[], []⟩

/-- The category whose entry lists a component. -/
def listed? (t : CategoryTable) (component : String) : Option String :=
  t.seeds.ownerOf? component

/-- The category that the rules give. -/
def inferred (t : CategoryTable) (component : String) : String :=
  if t.infer then
    ((t.rules.find? fun r => r.applies component).map (·.category)).getD otherCategory
  else uncategorized

/-- The category of a component. -/
def categoryOf (t : CategoryTable) (component : String) : String :=
  (t.listed? component).getD (t.inferred component)

/-- The categories of the table without members. -/
def emptyCategories (t : CategoryTable) : List Category :=
  t.seeds.categories.map fun c => { c with components := [] }

/-- The category list with one more member for a category, which is added when it is missing. -/
def addMember (component category : String) (cs : List Category) : List Category :=
  match cs.findIdx? fun c => c.name == category with
  | some position =>
    cs.modify position fun c => { c with components := c.components ++ [component] }
  | none => cs ++ [⟨category, none, none, [component]⟩]

/-- The categories of some components: those of the table first, also the empty ones, then the
others in the order in which they come up. -/
def categoriesOf (t : CategoryTable) (components : List String) : List Category :=
  components.foldl (fun cs name => addMember name (t.categoryOf name) cs) t.emptyCategories

end CategoryTable
end ComponentAtlas
