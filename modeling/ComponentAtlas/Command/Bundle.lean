import ComponentAtlas.Command.Run

/-!
# Bundles of files

A bundle is one document that holds everything a run can see, so that a run is a function of two
texts, its arguments and its bundle.  The table `files` is the working directory and the table
`home` the home directory.  Each entry is a file: its key is the path and its value the text, or
an empty table where the entry is a directory.  The string `taken_at` says when the bundle was made.
-/

namespace ComponentAtlas

namespace FileEntry

/-- The file or directory that a value of a bundle stands for. -/
def ofValue? : Toml.Value → Option FileEntry
  | .string content => some (.text content)
  | .table [] => some .directory
  | _ => none

end FileEntry

namespace FileTree

/-- The files of one table of a bundle.  A path that leads above the top is refused. -/
def ofEntries? : List (String × Toml.Value) → Option FileTree
  | [] => some ⟨[]⟩
  | (path, v) :: rest => do
    let place ← SourceTree.placeOf? (Path.ofString path)
    let entry ← FileEntry.ofValue? v
    let others ← ofEntries? rest
    return ⟨(place, entry) :: others.entries⟩

/-- The files of the table under a key; none when there is no such table. -/
def ofTable? (document : List (String × Toml.Value)) (key : String) : Option FileTree :=
  match document.lookup key with
  | none => some ⟨[]⟩
  | some (.table entries) => ofEntries? entries
  | some _ => none

end FileTree

namespace Surroundings

/-- What a bundle lets a run see. -/
def ofBundle? (text : String) : Option Surroundings :=
  match Toml.parse? text with
  | some (.table document) => do
    let files ← FileTree.ofTable? document "files"
    let home ← FileTree.ofTable? document "home"
    let takenAt := match document.lookup "taken_at" with
      | some (.string moment) => moment
      | _ => ""
    return ⟨files, home, ⟨takenAt, 0⟩⟩
  | _ => none

end Surroundings

namespace Outcome

/-- What a run on a bundle leaves behind. -/
def ofBundle (args : List String) (bundle : String) : Outcome :=
  match Surroundings.ofBundle? bundle with
  | some around => ofArguments args around
  | none => ⟨1, "", Style.notice (Style.red "Error: standard input holds no bundle of files")⟩

end Outcome
end ComponentAtlas
