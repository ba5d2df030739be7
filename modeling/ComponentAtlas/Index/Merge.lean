import ComponentAtlas.Declaration.ComponentFile
import ComponentAtlas.Distinct
import ComponentAtlas.Settings

/-!
# Merging declarations

A class may be declared in several parts.  The parts of a component are merged into one record, in
the order in which they are read, and so are the references to one type.  Components and types are
kept in the order of their names.
-/

namespace ComponentAtlas

namespace Component

/-- A component with what another part of its declaration adds.  What is known already stays. -/
def merge (c d : Component) : Component :=
  { c with
    namespaceName := c.namespaceName.or d.namespaceName
    summary := c.summary.or d.summary
    description := c.description.or d.description
    baseType := c.baseType.or d.baseType
    sourceFile := c.sourceFile.or d.sourceFile
    deprecated := c.deprecated || d.deprecated
    isInternal := c.isInternal && d.isInternal
    parameters := appendNew (fun p q => Text.sameIgnoringCase p.name q.name)
      c.parameters d.parameters
    events := appendNew (fun e f => e.name == f.name) c.events d.events
    methods := appendNew (fun m n => m.name == n.name) c.methods d.methods }

/-- The first parameter with a name, whatever the case of its letters. -/
def parameter? (c : Component) (name : String) : Option Parameter :=
  c.parameters.find? fun p => Text.sameIgnoringCase p.name name

end Component

namespace TypeReference

/-- A type with what another part of its declaration adds.  What is known already stays. -/
def merge (t u : TypeReference) : TypeReference :=
  { t with
    namespaceName := t.namespaceName.or u.namespaceName
    summary := t.summary.or u.summary
    baseType := t.baseType.or u.baseType
    members := appendNew (fun m n => m.name == n.name) t.members u.members
    values := appendNew (fun v w => v.name == w.name) t.values u.values }

end TypeReference

/-- Things in the order of their names, with one more: merged into the one of its name, or at its
place among the others. -/
def mergeByName {α : Type} (nameOf : α → String) (merge : α → α → α) (x : α) : List α → List α
  | [] => [x]
  | y :: ys =>
    if nameOf x = nameOf y then merge y x :: ys
    else if nameOf x < nameOf y then x :: y :: ys
    else y :: mergeByName nameOf merge x ys

/-- What the declarations of a library add up to. -/
structure Declarations where
  components : List Component
  types : List TypeReference
  deriving DecidableEq, Repr

namespace Declaration

/-- Whether a declaration is one of a component: of a class with instances, whose name goes on
behind the prefix of component names. -/
def isComponent (settings : IndexSettings) (d : Declaration) : Bool :=
  d.kind == .classType && !d.isStatic &&
    (Text.after? settings.componentPrefix.toList d.component.name.toList).any (!·.isEmpty)

end Declaration

namespace Declarations

/-- The declarations with those of one more file, which may declare components or only types. -/
def add (settings : IndexSettings) (ds : Declarations) (mayBeComponent : Bool)
    (d : Declaration) : Declarations where
  components :=
    if mayBeComponent && d.isComponent settings then
      mergeByName Component.name Component.merge d.component ds.components
    else ds.components
  types := d.types.foldl (fun types t => mergeByName TypeReference.name TypeReference.merge t types)
    ds.types

/-- The declarations of some files; deprecated components are left out unless internal ones are
indexed as well. -/
def ofFiles (settings : IndexSettings) (files : List (Bool × Declaration)) : Declarations :=
  let all := files.foldl (fun ds (mayBeComponent, d) => ds.add settings mayBeComponent d) ⟨[], []⟩
  if settings.includeInternal then all
  else { all with components := all.components.filter fun c => !c.deprecated }

end Declarations
end ComponentAtlas
