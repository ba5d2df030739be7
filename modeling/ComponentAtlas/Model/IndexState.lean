import ComponentAtlas.Json.Decoding

/-!
# States of an index
-/

namespace ComponentAtlas

inductive IndexState
  | notIndexed
  /-- A build is running; an earlier snapshot may be there. -/
  | building
  | indexed
  deriving DecidableEq, Repr

namespace IndexState

/-- The word for a state. -/
def name : IndexState → String
  | .notIndexed => "not_indexed"
  | .building => "building"
  | .indexed => "indexed"

def toJson (s : IndexState) : Json :=
  .string s.name

def ofJson? (v : Json) : Option IndexState :=
  (Decoder.word v).bind fun word =>
    [IndexState.notIndexed, .building, .indexed].find? fun s => s.name == word

end IndexState
end ComponentAtlas
