import ComponentAtlas.Files.SourceKind
import ComponentAtlas.Files.Tree
import ComponentAtlas.Index.Error
import ComponentAtlas.Settings

/-!
# Source trees

The source tree of a library as a build finds it, and the files in it that an index is made from,
each kind in the order of their paths.
-/

namespace ComponentAtlas

/-- What the provider of a source tree answers when it is asked for the tree. -/
inductive Availability
  | answered (isAvailable : Bool)
  | failed (reason : String)
  deriving DecidableEq, Repr

structure SourceTree where
  /-- The files of the working directory. -/
  files : FileTree
  /-- The root of the source tree, as the settings write it. -/
  root : String
  deriving DecidableEq, Repr

/-- A file of a source tree. -/
structure SourceFile where
  /-- The path by which it was found, which begins with the root. -/
  path : Path
  /-- Its path from the root. -/
  relative : String
  /-- Where it is in the working directory. -/
  place : List String
  deriving DecidableEq, Repr

/-- The files that an index is made from. -/
structure SourceFiles where
  declarations : List SourceFile
  /-- Files that declare types but no components. -/
  types : List SourceFile
  pages : List SourceFile
  examples : List SourceFile
  deriving DecidableEq, Repr

namespace SourceTree

/-- Where a path leads to in the working directory. -/
def placeOf? (p : Path) : Option (List String) :=
  if p.isAbsolute then none else FileTree.follow? [] p.parts

/-- Whether the root is a directory. -/
def isPresent (t : SourceTree) : Bool :=
  !t.root.isEmpty && ((placeOf? (Path.ofString t.root)).any fun place => t.files.isDirectory place)

/-- Whether there is anything where the root should be. -/
def hasRoot (t : SourceTree) : Bool :=
  !t.root.isEmpty && ((placeOf? (Path.ofString t.root)).any fun place => t.files.hasEntry place)

/-- What a provider answers for a tree.  A local tree is there or not.  A tree with a remote is
fetched when it is missing and brought up to date when it is a checkout, neither of which is done
here: without them, a missing tree stays missing and a checkout stays as it is, unless the request
is cancelled. -/
def availability (t : SourceTree) (settings : SourceSettings) (cancelled : Bool) : Availability :=
  let isCheckout := (placeOf? (Path.ofString t.root)).any fun place =>
    t.files.hasEntry (place ++ [".git"])
  if settings.repositoryUrl.isNone then .answered t.isPresent
  else if isCheckout then
    if cancelled then .failed "git -C cancelled" else .answered t.isPresent
  else if t.hasRoot then .answered t.isPresent
  else if cancelled then .failed "git clone cancelled"
  else .failed "git clone failed"

/-- The files below a directory of the tree; none when there is no such directory. -/
def filesIn (t : SourceTree) (directory : String) : List SourceFile :=
  let root := Path.ofString t.root
  let start := root.join (Path.ofString directory)
  match placeOf? start with
  | none => []
  | some place =>
    (t.files.filesBelow place).map fun rest =>
      let path := { start with parts := start.parts ++ rest }
      { path
        relative := String.ofList (("/".intercalate (path.parts.drop root.parts.length)).toList.map
          fun c => if c = '\\' then '/' else c)
        place := place ++ rest }

/-- The text of a file, unless its bytes spell none. -/
def read? (t : SourceTree) (file : SourceFile) : Option String :=
  t.files.readText? file.place

/-- The pattern of examples among the files of a pages directory. -/
def examplePattern (layout : LayoutSettings) : String :=
  "**/" ++ layout.examplesDir ++ "/**/*.razor"

/-- The path of a file from a directory of the tree. -/
def pathBelow (t : SourceTree) (directory : String) (file : SourceFile) : String :=
  let start := (Path.ofString t.root).join (Path.ofString directory)
  "/".intercalate (file.path.parts.drop start.parts.length)

/-- The files that an index is made from. -/
def sourceFiles (t : SourceTree) (layout : LayoutSettings) : Except IndexError SourceFiles :=
  match Glob.ofString false (examplePattern layout) with
  | .error e => .error (.invalidGlob (examplePattern layout) e)
  | .ok pattern =>
    let documents := t.filesIn layout.pagesDir
    let isExample (file : SourceFile) := pattern.describes (t.pathBelow layout.pagesDir file)
    .ok
      { declarations := (t.filesIn layout.componentsDir).filter fun file =>
          SourceKind.ofPath? file.path == some .declaration
        types := layout.typeDirs.flatMap fun directory =>
          (t.filesIn directory).filter fun file => file.path.extension? == some "cs"
        pages := documents.filter fun file =>
          !isExample file && SourceKind.ofPath? file.path == some .docsPage
        examples := documents.filter isExample }

end SourceTree
end ComponentAtlas
