import ComponentAtlas.Index.Build

/-!
# A build in stages

A request to build may be cancelled at any time, and the build looks at its token on the way: before
it reads a file of declarations, when it parses one and once more behind all of them, before each
page, and around the reading of an example.  A file whose turn to be parsed comes when the token is
cancelled already is passed over, and so is an example; the look behind them then ends the build.
-/

namespace ComponentAtlas

/-- A token is never cancelled, or it is found cancelled after so many more looks and from then
on. -/
inductive CancelToken
  | never
  | after (looks : Nat)
  deriving DecidableEq, Repr

namespace CancelToken

/-- A token of which it is known at the beginning whether it is cancelled. -/
def ofBool (cancelled : Bool) : CancelToken :=
  if cancelled then .after 0 else .never

/-- Whether the token is cancelled, and the token at the next look. -/
def look : CancelToken → Bool × CancelToken
  | .never => (false, .never)
  | .after 0 => (true, .after 0)
  | .after (n + 1) => (false, .after n)

end CancelToken

/-- A part of a build, which looks at the token and may end in an error. -/
abbrev Stage := StateT CancelToken (Except IndexError)

namespace Stage

variable {α β : Type}

def fail (e : IndexError) : Stage α :=
  fun _ => .error e

def isCancelled : Stage Bool :=
  fun token => .ok token.look

/-- Ends the build when the token is cancelled. -/
def checkpoint : Stage Unit := do
  if ← isCancelled then fail .cancelled

/-- What is found, unless the token is cancelled; then nothing is. -/
def unlessCancelled (found? : Option α) : Stage (Option α) := do
  if ← isCancelled then return none
  return found?

/-- What is found at each of some things, in order. -/
def gather (find : α → Stage (Option β)) : List α → Stage (List β)
  | [] => pure []
  | x :: xs => do
    let found ← find x
    let others ← gather find xs
    return found.toList ++ others

end Stage

/-- What is known of a source tree before any of its files is read: the answer of its provider,
whether the tree is there afterwards, and the files that are found in it. -/
structure SourceReport where
  answer : Availability
  isThere : Bool
  found : Except IndexError SourceFiles

/-- The text of a file of declarations, with its path from the root of the tree. -/
structure SourceText where
  mayBeComponent : Bool
  relative : String
  text : String
  deriving DecidableEq, Repr

namespace SourceTree

/-- The report on a tree whose provider has answered. -/
def report (t : SourceTree) (layout : LayoutSettings) (answer : Availability) : SourceReport :=
  ⟨answer, t.isPresent, t.sourceFiles layout⟩

/-- The texts of some files of declarations; files without text are passed over. -/
def readTexts (t : SourceTree) (files : List (Bool × SourceFile)) : Stage (List SourceText) :=
  Stage.gather (fun (mayBeComponent, file) => do
    Stage.checkpoint
    return (t.read? file).map (SourceText.mk mayBeComponent file.relative)) files

end SourceTree

/-- The declarations in some texts. -/
def parseTexts (settings : IndexSettings) (texts : List SourceText) :
    Stage (List (Bool × Declaration)) := do
  let parsed ← Stage.gather (fun t => Stage.unlessCancelled <|
    (Declaration.ofFile? settings.includeInternal t.relative t.text).map (t.mayBeComponent, ·)) texts
  Stage.checkpoint
  return parsed

namespace Documented

/-- The components with the pages of some files. -/
def addPages (settings : IndexSettings) (tree : SourceTree) (files : List SourceFile)
    (d : Documented) : Stage Documented :=
  files.foldlM (fun d file => do
    Stage.checkpoint
    return match tree.read? file with
      | some text => d.addPage settings file.path text
      | none => d) d

/-- The components with the examples of some files. -/
def addExamples (settings : IndexSettings) (layout : LayoutSettings) (tree : SourceTree)
    (files : List SourceFile) (d : Documented) : Stage Documented :=
  files.foldlM (fun d file => do
    Stage.checkpoint
    if (d.ownerOf? settings layout file.path).isNone then return d
    match tree.example? (← Stage.isCancelled) file with
    | some found => return d.addExample settings layout file found
    | none =>
      Stage.checkpoint
      return d) d

end Documented

namespace Snapshot

/-- The snapshot that some files of a source tree make. -/
def ofFilesInStages (settings : Settings) (tree : SourceTree) (files : SourceFiles) :
    Stage Snapshot := do
  let texts ← tree.readTexts (files.declarations.map (true, ·) ++ files.types.map (false, ·))
  let parsed ← parseTexts settings.index texts
  let declared := Declarations.ofFiles settings.index parsed
  let paged ← Documented.addPages settings.index tree files.pages ⟨declared.components, [], []⟩
  let shown ← paged.addExamples settings.index settings.layout tree files.examples
  let documented := shown.components.map (Component.limitExamples settings.index.maxExamples)
  let components := assignCategories settings.categories (resolveLinks settings.index documented)
  return {
    components
    categories := settings.categories.categoriesOf (components.map Component.name)
    types := declared.types
    namePrefix := settings.index.componentPrefix
    generation := 0 }

/-- The snapshot of a source tree of which a report was made. -/
def buildInStages (settings : Settings) (tree : SourceTree) (report : SourceReport) :
    Stage Snapshot :=
  match report.answer with
  | .failed reason => do
    if ← Stage.isCancelled then Stage.fail .cancelled
    else Stage.fail (.sourceUnavailable tree.root reason)
  | .answered isAvailable =>
    if isAvailable && report.isThere then
      match report.found with
      | .error e => Stage.fail e
      | .ok files => ofFilesInStages settings tree files
    else Stage.fail (.sourceUnavailable tree.root "source tree not found")

/-- The snapshot of a source tree, which its provider has to answer for.  The request was cancelled
before the build began, or is not cancelled. -/
def build (settings : Settings) (tree : SourceTree) (availability : Availability)
    (cancelled : Bool) : Except IndexError Snapshot :=
  ((buildInStages settings tree (tree.report settings.layout availability)).run
    (.ofBool cancelled)).map Prod.fst

end Snapshot
end ComponentAtlas
