import ComponentAtlas.Model.Category
import ComponentAtlas.Model.Component
import ComponentAtlas.Model.TypeReference
import ComponentAtlas.Text.Blank
import ComponentAtlas.Text.Occurrence
import ComponentAtlas.Unicode.LowerCase

/-!
# Snapshots

A snapshot is the result of one build: the components in the order of the index, the categories
and the types.  Everything in it is found by its name, whatever the case of the letters, and where
two names differ in case only, the first one is found.
-/

namespace ComponentAtlas

structure Snapshot where
  components : List Component
  categories : List Category
  types : List TypeReference
  /-- What may be left out at the start of a component's name. -/
  namePrefix : String
  /-- Which publication this is; zero before it is published. -/
  generation : Nat
  deriving DecidableEq, Repr

/-- How much a snapshot holds. -/
structure Statistics where
  components : Nat
  categories : Nat
  parameters : Nat
  events : Nat
  methods : Nat
  examples : Nat
  types : Nat
  generation : Nat
  deriving DecidableEq, Repr

/-- The first of some things whose name in lower case is `key`. -/
def firstNamed? {α : Type} (nameOf : α → String) (key : String) (xs : List α) : Option α :=
  xs.find? fun x => Unicode.toLower (nameOf x) == key

namespace Snapshot

/-- The component with a name. -/
def named? (s : Snapshot) (name : String) : Option Component :=
  firstNamed? Component.name (Unicode.toLower name) s.components

/-- A name without what surrounds it: blanks, a qualifier, and type arguments. -/
def bareName (name : String) : List Char :=
  Text.afterLast '.' (Text.trimEnd (Text.upTo '<' (Text.trim name.toList)))

/-- The key under which a component with a possibly qualified or generic name is looked up. -/
def componentKey (name : String) : String :=
  Unicode.toLower (String.ofList (Text.trim (bareName name)))

/-- The component that a name stands for: its own name, or its name without the usual start. -/
def resolve? (s : Snapshot) (name : String) : Option Component :=
  let key := componentKey name
  if key.isEmpty then none
  else (firstNamed? Component.name key s.components).or
    (firstNamed? Component.name (Unicode.toLower s.namePrefix ++ key) s.components)

/-- The type with a possibly qualified or generic name. -/
def type? (s : Snapshot) (name : String) : Option TypeReference :=
  firstNamed? TypeReference.name (Unicode.toLower (String.ofList (bareName name))) s.types

/-- The category with a name. -/
def category? (s : Snapshot) (name : String) : Option Category :=
  firstNamed? Category.name (Unicode.toLower (Text.trimString name)) s.categories

/-- The members of the category with a name; none when there is no such category. -/
def componentsIn (s : Snapshot) (category : String) : List Component :=
  match s.category? category with
  | some c => c.components.filterMap s.named?
  | none => []

def statistics (s : Snapshot) : Statistics :=
  let total (count : Component → Nat) := s.components.foldl (fun n c => n + count c) 0
  { components := s.components.length
    categories := s.categories.length
    parameters := total (·.parameters.length)
    events := total (·.events.length)
    methods := total (·.methods.length)
    examples := total (·.examples.length)
    types := s.types.length
    generation := s.generation }

end Snapshot
end ComponentAtlas
