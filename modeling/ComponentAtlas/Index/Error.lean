import ComponentAtlas.Cache.Basic
import ComponentAtlas.Files.Glob

/-!
# Why an index is not built or a question not answered
-/

namespace ComponentAtlas

inductive IndexError
  | notIndexed
  | sourceUnavailable (root reason : String)
  | unknownComponent (name : String)
  | unknownCategory (name : String)
  | invalidArgument (argument reason : String)
  | cancelled
  | buildInProgress
  | cache (error : CacheError)
  /-- The name of the example directories makes no pattern. -/
  | invalidGlob (pattern : String) (error : GlobError)
  deriving DecidableEq, Repr

namespace IndexError

def message : IndexError → String
  | .notIndexed => "Index not built yet. Run a build before querying."
  | .sourceUnavailable root reason => "Source repository unavailable at " ++ root ++ ": " ++ reason
  | .unknownComponent name =>
    "Unknown component '" ++ name ++ "'. Use the component listing to see available names."
  | .unknownCategory name =>
    "Unknown category '" ++ name ++ "'. Use the category listing to see available categories."
  | .invalidArgument argument reason => "Invalid argument '" ++ argument ++ "': " ++ reason
  | .cancelled => "Operation cancelled"
  | .buildInProgress => "A build is already in progress"
  | .cache error => error.message
  | .invalidGlob pattern _ => "Invalid glob: " ++ pattern

/-- What lies behind an error, when its message does not say it. -/
def cause? : IndexError → Option String
  | .invalidGlob pattern error =>
    some ("error parsing glob '" ++ pattern ++ "': " ++ error.message)
  | _ => none

end IndexError

instance decidableEqResult {ε α : Type} [DecidableEq ε] [DecidableEq α] : DecidableEq (Except ε α)
  | .ok a, .ok b => decidable_of_iff (a = b) (by simp)
  | .error a, .error b => decidable_of_iff (a = b) (by simp)
  | .ok _, .error _ => isFalse (by simp)
  | .error _, .ok _ => isFalse (by simp)

end ComponentAtlas
