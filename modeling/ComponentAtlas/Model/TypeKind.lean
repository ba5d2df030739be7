/-!
# Kinds of declared types
-/

namespace ComponentAtlas

/-- The kinds of types that a source file declares. -/
inductive TypeKind
  | classType
  | interfaceType
  | enumType
  | structType
  | recordType
  deriving DecidableEq, Repr

namespace TypeKind

def all : List TypeKind :=
  [.classType, .interfaceType, .enumType, .structType, .recordType]

/-- The word for a kind, as the source and the answers write it. -/
def name : TypeKind → String
  | .classType => "class"
  | .interfaceType => "interface"
  | .enumType => "enum"
  | .structType => "struct"
  | .recordType => "record"

/-- The kind with a given word, whatever the case of its letters. -/
def ofName? (s : String) : Option TypeKind :=
  all.find? fun kind => kind.name.toList == s.toList.map Char.toLower

end TypeKind
end ComponentAtlas
