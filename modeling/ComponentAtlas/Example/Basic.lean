import ComponentAtlas.Example.Feature
import ComponentAtlas.Files.Path
import ComponentAtlas.Model.Component
import ComponentAtlas.Razor.CodeBlock
import ComponentAtlas.Razor.Directive

/-!
# Example files

An example file is markup with an optional code block.  Directive lines carry nothing of the
example; a file of which nothing else is left is no example.
-/

namespace ComponentAtlas.Example

/-- The example that the file at a path holds. -/
def ofFile? (path source : String) : Option Example :=
  (Path.ofString path).fileStem?.bind fun name =>
    let parts := Razor.split source.toList
    let markup := Razor.stripDirectives parts.markup
    let code := parts.code.bind Text.nonEmpty?
    if markup.isEmpty && code.isNone then none
    else some
      { name
        description := none
        markup := String.ofList markup
        code
        sourceFile := path
        features := Feature.infer markup }

end ComponentAtlas.Example
