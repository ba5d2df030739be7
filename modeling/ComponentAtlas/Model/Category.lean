/-!
# Categories
-/

namespace ComponentAtlas

/-- A named group of components. -/
structure Category where
  name : String
  title : Option String
  description : Option String
  /-- The names of its members, in order and without duplicates. -/
  components : List String
  deriving DecidableEq, Repr

end ComponentAtlas
