import ComponentAtlas.Model.TypeKind

/-!
# Type references

What the index knows about one declared type, component or not: its members, or its values when
it is an enumeration.
-/

namespace ComponentAtlas

inductive MemberKind
  | property
  | method
  deriving DecidableEq, Repr

/-- A public member of a type. -/
structure TypeMember where
  name : String
  kind : MemberKind
  /-- The type of a property or the return type of a method. -/
  type : String
  summary : Option String
  deriving DecidableEq, Repr

/-- A value of an enumeration. -/
structure EnumValue where
  name : String
  /-- The text of an explicit initialiser. -/
  value : Option String
  summary : Option String
  deriving DecidableEq, Repr

structure TypeReference where
  name : String
  kind : TypeKind
  namespaceName : Option String
  summary : Option String
  baseType : Option String
  members : List TypeMember
  values : List EnumValue
  sourceFile : Option String
  deriving DecidableEq, Repr

end ComponentAtlas
