import ComponentAtlas.Files.Path

/-!
# Kinds of source files

What a file holds is told by the end of its name, the most particular end first.
-/

namespace ComponentAtlas

inductive SourceKind
  /-- A class file or a component file. -/
  | declaration
  /-- A documentation page. -/
  | docsPage
  /-- An example. -/
  | usageExample
  deriving DecidableEq, Repr

namespace SourceKind

/-- The kind of the file at a path, if it is a source file at all. -/
def ofPath? (p : Path) : Option SourceKind :=
  p.fileName?.bind fun name =>
    let ends (e : String) := Text.endsWith e.toList name.toList
    if ends "Example.razor" then some .usageExample
    else if ends "Page.razor" then some .docsPage
    else if ends ".cs" || ends ".razor" then some .declaration
    else none

end SourceKind
end ComponentAtlas
