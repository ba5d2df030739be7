import ComponentAtlas.Index.Documentation
import ComponentAtlas.Index.Merge
import ComponentAtlas.Snapshot.Basic

/-!
# The snapshot of a source tree

A snapshot is made from the declarations of a source tree, which are merged by name; from its
documentation pages and examples, which are given to the components; from the links between pages,
which are replaced by the names of the components that they lead to; and from the category table,
which says where each component belongs.
-/

namespace ComponentAtlas

/-- The components with links replaced by the names of the components that they lead to, each name
once; links to nothing and to the component itself are dropped. -/
def resolveLinks (settings : IndexSettings) (components : List Component) : List Component :=
  components.map fun c =>
    let targets := c.relatedComponents.filterMap (findName? settings components)
    { c with relatedComponents := (firsts (· == ·) targets).filter (· != c.name) }

/-- The components, each with its category. -/
def assignCategories (table : CategoryTable) (components : List Component) : List Component :=
  components.map fun c => { c with category := some (table.categoryOf c.name) }

/-- What the files of a list declare; files without text or without declarations are passed over. -/
def declarationsIn (settings : IndexSettings) (tree : SourceTree) (files : List SourceFile) :
    List Declaration :=
  files.filterMap fun file =>
    (tree.read? file).bind (Declaration.ofFile? settings.includeInternal file.relative)

/-- The components with the pages and the examples of some files. -/
def documentComponents (settings : IndexSettings) (layout : LayoutSettings) (tree : SourceTree)
    (files : SourceFiles) (components : List Component) : List Component :=
  let paged := files.pages.foldl (fun d file =>
    match tree.read? file with
    | some text => d.addPage settings file.path text
    | none => d) (Documented.mk components [] [])
  let shown := files.examples.foldl (fun d file =>
    match tree.example? false file with
    | some found => d.addExample settings layout file found
    | none => d) paged
  shown.components.map (Component.limitExamples settings.maxExamples)

namespace Snapshot

/-- The snapshot that the files of a source tree make. -/
def ofFiles (settings : Settings) (tree : SourceTree) (files : SourceFiles) : Snapshot :=
  let declared := Declarations.ofFiles settings.index <|
    (declarationsIn settings.index tree files.declarations).map (true, ·) ++
      (declarationsIn settings.index tree files.types).map (false, ·)
  let documented :=
    documentComponents settings.index settings.layout tree files declared.components
  let components := assignCategories settings.categories (resolveLinks settings.index documented)
  { components
    categories := settings.categories.categoriesOf (components.map Component.name)
    types := declared.types
    namePrefix := settings.index.componentPrefix
    generation := 0 }

end Snapshot
end ComponentAtlas
