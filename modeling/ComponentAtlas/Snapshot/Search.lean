import ComponentAtlas.Search.Fields
import ComponentAtlas.Snapshot.Basic

/-!
# Searching a snapshot

A component is found when the text that is looked for occurs, whatever the case of the letters, in
a text of one of the selected fields.
-/

namespace ComponentAtlas

namespace SearchField

/-- The texts of a field of a component. -/
def textsOf (c : Component) : SearchField → List String
  | .name => [c.name]
  | .description => c.summary.toList ++ c.description.toList
  | .parameters => c.parameters.flatMap fun p => p.name :: p.description.toList
  | .examples => c.examples.flatMap fun e =>
      e.name :: (e.description.toList ++ e.markup :: e.code.toList)

end SearchField

namespace Component

/-- Whether a text in lower case occurs in a selected field. -/
def isFoundBy (needle : List Char) (fields : SearchFields) (c : Component) : Bool :=
  SearchField.all.any fun field =>
    fields.selects field &&
      (field.textsOf c).any fun text => Text.contains needle (Unicode.lowerChars text.toList)

end Component

namespace Snapshot

/-- What is looked for when a text is searched. -/
def needleOf (query : String) : List Char :=
  Unicode.lowerChars (Text.trim query.toList)

/-- The first components, at most `limit`, that a search finds. -/
def search (s : Snapshot) (query : String) (fields : SearchFields) (limit : Nat) :
    List Component :=
  (s.components.filter (Component.isFoundBy (needleOf query) fields)).take limit

end Snapshot
end ComponentAtlas
