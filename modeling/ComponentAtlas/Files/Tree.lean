import ComponentAtlas.Files.Ignore
import ComponentAtlas.Files.Path

/-!
# File trees

A tree of files as a value: the files and the directories without files, by their paths from the
top.  Every directory on the way to one of them is in the tree as well.

The files below a directory are found as a search would find them: names that begin with a dot and
what ignore files exclude are passed over, and so is everything below a directory that is.
-/

namespace ComponentAtlas

inductive FileEntry
  | text (content : String)
  /-- A file whose bytes spell no text. -/
  | binary
  | directory
  deriving DecidableEq, Repr

structure FileTree where
  entries : List (List String × FileEntry)
  deriving DecidableEq, Repr

namespace FileTree

/-- What follows the parts of a directory in a path below it. -/
def below? : List String → List String → Option (List String)
  | [], rest => some rest
  | _ :: _, [] => none
  | d :: ds, p :: ps => if d = p then below? ds ps else none

/-- Whether there is a directory at a path. -/
def isDirectory (t : FileTree) (path : List String) : Bool :=
  t.entries.any fun (at_, entry) =>
    match below? path at_ with
    | none => false
    | some [] => entry == .directory
    | some _ => true

/-- The text of the file at a path. -/
def readText? (t : FileTree) (path : List String) : Option String :=
  match t.entries.find? fun e => e.1 == path with
  | some (_, .text content) => some content
  | _ => none

/-- Whether there is anything at a path. -/
def hasEntry (t : FileTree) (path : List String) : Bool :=
  t.isDirectory path || t.entries.any fun e => e.1 == path

/-- The tree with a file written. -/
def write (t : FileTree) (path : List String) (entry : FileEntry) : FileTree :=
  ⟨t.entries.filter (fun e => e.1 != path) ++ [(path, entry)]⟩

/-- The tree without a file or a directory. -/
def delete (t : FileTree) (path : List String) : FileTree :=
  ⟨t.entries.filter fun e => (below? path e.1).isNone⟩

/-- The place that a path leads to from a directory; none above the top. -/
def follow? : List String → List String → Option (List String)
  | place, [] => some place
  | place, "." :: rest => follow? place rest
  | place, ".." :: rest => if place.isEmpty then none else follow? place.dropLast rest
  | place, name :: rest => follow? (place ++ [name]) rest

/-! ## Searching -/

/-- The rules of the ignore file in a directory. -/
def rulesIn (t : FileTree) (directory : List String) : List IgnoreRule :=
  ((t.readText? (directory ++ [".ignore"])).map IgnoreRule.ofText).getD []

/-- What the ignore files say about a path: the nearest one that says anything decides.  The
directories in question are those at the first `depth` parts of the path. -/
def verdict? (t : FileTree) (path : List String) (isDirectory : Bool) :
    Nat → Option IgnoreVerdict
  | 0 => IgnoreRule.verdict? (t.rulesIn []) ("/".intercalate path) isDirectory
  | depth + 1 =>
    (IgnoreRule.verdict? (t.rulesIn (path.take (depth + 1)))
      ("/".intercalate (path.drop (depth + 1))) isDirectory).or (t.verdict? path isDirectory depth)

/-- Whether a search passes over a path. -/
def isSkipped (t : FileTree) (path : List String) (isDirectory : Bool) : Bool :=
  match t.verdict? path isDirectory (path.length - 1) with
  | some .ignored => true
  | some .kept => false
  | none => (path.getLast?.getD "").toList.head? == some '.'

/-- Whether a search in a directory comes to a file below it: neither the file nor a directory on
the way is passed over. -/
def isReached (t : FileTree) (directory rest : List String) : Bool :=
  (List.range rest.length).all fun n =>
    !t.isSkipped (directory ++ rest.take (n + 1)) (decide (n + 1 < rest.length))

/-- The order of paths: part by part. -/
def pathLe : List String → List String → Bool
  | [], _ => true
  | _ :: _, [] => false
  | a :: as, b :: bs => if a = b then pathLe as bs else decide (a < b)

/-- The files that a search in a directory finds, by their paths from there, in order. -/
def filesBelow (t : FileTree) (directory : List String) : List (List String) :=
  let found := t.entries.filterMap fun (path, entry) =>
    if entry == .directory then none
    else (below? directory path).filter fun rest => !rest.isEmpty && t.isReached directory rest
  found.mergeSort pathLe

end FileTree
end ComponentAtlas
