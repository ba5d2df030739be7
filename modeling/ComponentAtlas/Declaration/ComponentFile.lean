import ComponentAtlas.Declaration.Basic
import ComponentAtlas.Files.Path
import ComponentAtlas.Razor.CodeBlock
import ComponentAtlas.Razor.Directive
import ComponentAtlas.Unicode.Alphanumeric

/-!
# Component files

A component file is a class written as markup: its name is the file's, its base and its namespace
are given by directives, and its members stand in the code block.  It is read as the partial
class that it stands for.
-/

namespace ComponentAtlas

/-- A file name without every ending `.razor`; at most `fuel` of them. -/
def dropComponentEnding : Nat → List Char → List Char
  | 0, name => name
  | fuel + 1, name =>
    match Text.beforeEnd? ".razor".toList name with
    | some rest => dropComponentEnding fuel rest
    | none => name

/-- The name of the class that a component file declares, if its file name can be one. -/
def componentClass? (path : String) : Option (List Char) :=
  (Path.ofString path).fileName?.bind fun fileName =>
    let name := dropComponentEnding fileName.length fileName.toList
    if !name.isEmpty && name.all fun c => Unicode.isAlphanumeric c || c == '_' then some name
    else none

/-- The last value given by directives of a kind. -/
def lastDirective? (kind : Razor.DirectiveKind)
    (directives : List (Razor.DirectiveKind × List Char)) : Option (List Char) :=
  ((directives.filter fun d => d.1 == kind).getLast?).map Prod.snd

/-- The class that a component file stands for. -/
def standInClass (name : List Char) (source : List Char) : List Char :=
  let directives := Razor.directives source
  let namespaceLine :=
    match lastDirective? .inNamespace directives with
    | some ns => "namespace ".toList ++ ns ++ ";\n".toList
    | none => []
  let base :=
    match lastDirective? .inheritsFrom directives with
    | some base => " : ".toList ++ base
    | none => []
  let body :=
    match (Razor.split source).code with
    | some code => code ++ ['\n']
    | none => []
  namespaceLine ++ "public partial class ".toList ++ name ++ base ++ "\n\x7b\n".toList ++ body ++
    "\x7d\n".toList

namespace Declaration

/-- What a component file contributes. -/
def ofComponentFile? (includeInternal : Bool) (path source : String) : Option Declaration :=
  (componentClass? path).bind fun name =>
    ofClassFile? includeInternal path (String.ofList (standInClass name source.toList))

/-- What the declaration file at a path contributes. -/
def ofFile? (includeInternal : Bool) (path source : String) : Option Declaration :=
  if Text.endsWith ".razor".toList path.toList then ofComponentFile? includeInternal path source
  else ofClassFile? includeInternal path source

end Declaration
end ComponentAtlas
