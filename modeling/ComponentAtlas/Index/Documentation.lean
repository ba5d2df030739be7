import ComponentAtlas.DocsPage.Basic
import ComponentAtlas.Example.Basic
import ComponentAtlas.Index.SourceTree

/-!
# Documentation of components

Documentation pages and examples are given to the components that they are about.  A page is about
the component named in its header, or else the one that its directory is named for.  An example
belongs to the component of the page in the directory above the directory of examples, or else to
the one which that directory is named for.
-/

namespace ComponentAtlas

/-- The name of the component that a name stands for, with or without the prefix of component
names, whatever the case of its letters. -/
def findName? (settings : IndexSettings) (components : List Component) (name : String) :
    Option String :=
  let name := Text.trimString name
  let names := components.map Component.name
  (names.find? fun k => Text.sameIgnoringCase k name).or
    (names.find? fun k => Text.sameIgnoringCase k (settings.componentPrefix ++ name))

/-- The components with a change made to the one of a name. -/
def updateNamed (name : String) (change : Component → Component) (cs : List Component) :
    List Component :=
  cs.map fun c => if c.name = name then change c else c

/-- Components with the pages that were given to them. -/
structure Documented where
  components : List Component
  /-- The last page of each component that has one. -/
  pages : Keyed DocsPage
  /-- The components of the directories of pages, the last page first. -/
  directories : List (Path × String)

/-- The example in a file of the working directory.  There is none when the file is missing or has
no text, or when the request is cancelled. -/
def exampleIn? (files : FileTree) (place : List String) (shown : String) (cancelled : Bool) :
    Option Example :=
  if cancelled then none
  else (files.readText? place).bind (Example.ofFile? shown)

/-- The example in a file of a source tree. -/
def SourceTree.example? (t : SourceTree) (cancelled : Bool) (file : SourceFile) :
    Option Example :=
  exampleIn? t.files file.place file.path.toString cancelled

namespace Component

/-- A component with what a page says about it. -/
def withPage (c : Component) (page : DocsPage) : Component :=
  { c with
    docTitle := c.docTitle.or page.title
    docSubtitle := c.docSubtitle.or page.subtitle
    sections := c.sections ++ page.sections
    relatedComponents := appendNew Text.sameIgnoringCase c.relatedComponents page.links }

/-- A component with its examples in the order of their names, and no more than so many. -/
def limitExamples (limit : Nat) (c : Component) : Component :=
  { c with examples := (c.examples.mergeSort fun a b => decide (a.name ≤ b.name)).take limit }

end Component

/-- The name of the component that a directory is named for, which need not exist. -/
def nameOfDirectory? (settings : IndexSettings) (directory : Path) : Option String :=
  directory.fileName?.map (settings.componentPrefix ++ ·)

namespace Documented

/-- The components with one more page. -/
def addPage (settings : IndexSettings) (d : Documented) (path : Path) (text : String) :
    Documented :=
  let page := DocsPage.ofSource text.toList
  let target := page.component.or (path.parent?.bind (nameOfDirectory? settings))
  match target.bind (findName? settings d.components) with
  | none => d
  | some name =>
    { components := updateNamed name (·.withPage page) d.components
      pages := d.pages.put name page
      directories := (path.parent?.map fun directory => (directory, name)).toList ++ d.directories }

/-- The directory above the innermost directory of examples that a path goes through. -/
def pageDirectory? (layout : LayoutSettings) (path : Path) : Option Path :=
  let ancestors := (List.range (path.parts.length + 1)).reverse.map fun n =>
    { path with parts := path.parts.take n }
  (ancestors.find? fun p => p.fileName? == some layout.examplesDir).bind Path.parent?

/-- The component that an example belongs to. -/
def ownerOf? (settings : IndexSettings) (layout : LayoutSettings) (d : Documented) (path : Path) :
    Option String :=
  (pageDirectory? layout path).bind fun directory =>
    ((d.directories.find? fun e => e.1 == directory).map Prod.snd).or
      ((nameOfDirectory? settings directory).bind (findName? settings d.components))

/-- The components with one more example. -/
def addExample (settings : IndexSettings) (layout : LayoutSettings) (d : Documented)
    (file : SourceFile) (found : Example) : Documented :=
  match d.ownerOf? settings layout file.path with
  | none => d
  | some owner =>
    let description := (d.pages.get? owner).bind fun page =>
      DocsPage.exampleDescription? page.sections found.name
    let shown := { found with description, sourceFile := file.relative }
    { d with
      components := updateNamed owner
        (fun c => { c with examples := c.examples ++ [shown] }) d.components }

end Documented
end ComponentAtlas
