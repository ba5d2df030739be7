import ComponentAtlas.Distinct
import ComponentAtlas.Snapshot.Basic

/-!
# Related components

A component is related to the one that it extends, its parent; to those that extend it, its
children; to the other members of its category, its siblings; and to those that its documentation
links to, its companions.  Parents and children are not siblings, and what is related otherwise is
no companion; but two components that extend each other are both parent and child.
-/

namespace ComponentAtlas

inductive Relationship
  | parent
  | child
  | sibling
  | commonlyUsedWith
  | all
  deriving DecidableEq, Repr

namespace Relationship

def everyKind : List Relationship := [.parent, .child, .sibling, .commonlyUsedWith, .all]

/-- The word for a relationship. -/
def name : Relationship → String
  | .parent => "parent"
  | .child => "child"
  | .sibling => "sibling"
  | .commonlyUsedWith => "commonly_used_with"
  | .all => "all"

/-- Other words for a relationship. -/
def otherNames : Relationship → List String
  | .parent => []
  | .child => ["children"]
  | .sibling => ["siblings"]
  | .commonlyUsedWith => ["commonlyusedwith", "commonly-used-with", "related"]
  | .all => []

/-- The relationship with a word, whatever the case of its letters. -/
def ofText? (text : String) : Option Relationship :=
  everyKind.find? fun kind => (kind.name :: kind.otherNames).any (Text.sameIgnoringCase · text)

end Relationship

namespace Snapshot

/-- The component that a component extends, when it is another one. -/
def parentOf (s : Snapshot) (c : Component) : List Component :=
  ((c.baseType.bind s.named?).filter fun p => p.name != c.name).toList

/-- The other components that extend a component. -/
def childrenOf (s : Snapshot) (c : Component) : List Component :=
  s.components.filter fun d =>
    d.name != c.name && d.baseType.any fun base => Text.sameIgnoringCase base c.name

/-- A component with its parent and its children. -/
def familyOf (s : Snapshot) (c : Component) : List Component :=
  c :: (s.parentOf c ++ s.childrenOf c)

/-- Whether a component bears the name of one of some others. -/
def isNamedIn (cs : List Component) (d : Component) : Bool :=
  cs.any fun c => c.name == d.name

/-- The members of a component's category outside its family. -/
def siblingsOf (s : Snapshot) (c : Component) : List Component :=
  ((c.category.map s.componentsIn).getD []).filter fun d => !isNamedIn (s.familyOf c) d

/-- The components that a component's documentation links to and that are not related otherwise,
each once. -/
def companionsOf (s : Snapshot) (c : Component) : List Component :=
  firstsAfter (fun d e => d.name == e.name) (s.familyOf c ++ s.siblingsOf c)
    (c.relatedComponents.filterMap s.resolve?)

/-- The components related to a component in some way. -/
def related (s : Snapshot) (c : Component) : Relationship → List Component
  | .parent => s.parentOf c
  | .child => s.childrenOf c
  | .sibling => s.siblingsOf c
  | .commonlyUsedWith => s.companionsOf c
  | .all => s.parentOf c ++ s.childrenOf c ++ s.siblingsOf c ++ s.companionsOf c

end Snapshot
end ComponentAtlas
