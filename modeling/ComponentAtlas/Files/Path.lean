import ComponentAtlas.Text.Occurrence

/-!
# Paths

A path is a sequence of names between slashes.  Repeated slashes and single dots do not count;
two dots lead upwards and name nothing.
-/

namespace ComponentAtlas

/-- A path by its parts. -/
structure Path where
  isAbsolute : Bool
  parts : List String
  deriving DecidableEq, Repr

namespace Path

/-- The path that a text spells.  A single dot counts only at its very start. -/
def ofString (s : String) : Path :=
  let pieces := Text.splitAtChar '/' s.toList
  let isAbsolute := pieces.head? == some [] && decide (1 < pieces.length)
  let kept := pieces.filter fun p => !p.isEmpty && p != ['.']
  let parts := if pieces.head? == some ['.'] then ['.'] :: kept else kept
  ⟨isAbsolute, parts.map String.ofList⟩

def toString (p : Path) : String :=
  (if p.isAbsolute then "/" else "") ++ "/".intercalate p.parts

/-- The last name of a path, unless it leads upwards. -/
def fileName? (p : Path) : Option String :=
  p.parts.getLast?.bind fun name => if name = ".." ∨ name = "." then none else some name

/-- A file name cut at its last dot; a dot at the start does not count. -/
def cutAtDot (name : String) : String × Option String :=
  let cs := name.toList
  match (cs.reverse.dropWhile (· ≠ '.')) with
  | _ :: before =>
    if before.isEmpty then (name, none)
    else (String.ofList before.reverse, some (String.ofList (Text.afterLast '.' cs)))
  | [] => (name, none)

/-- The last name without its extension. -/
def fileStem? (p : Path) : Option String :=
  p.fileName?.map fun name => (cutAtDot name).1

/-- What stands behind the last dot of the last name. -/
def extension? (p : Path) : Option String :=
  p.fileName?.bind fun name => (cutAtDot name).2

/-- The path without its last part. -/
def parent? (p : Path) : Option Path :=
  if p.parts.isEmpty then none else some { p with parts := p.parts.dropLast }

/-- A path continued by another one; an absolute one takes its place. -/
def join (p q : Path) : Path :=
  if q.isAbsolute then q
  else { p with parts := p.parts ++ if p.parts.isEmpty then q.parts else q.parts.dropWhile (· = ".") }

end Path
end ComponentAtlas
