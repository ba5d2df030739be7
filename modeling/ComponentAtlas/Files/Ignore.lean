import ComponentAtlas.Files.Glob
import ComponentAtlas.Text.Blank
import ComponentAtlas.Text.Lines
import ComponentAtlas.Text.Occurrence

/-!
# Ignore files

An ignore file has one rule a line.  A rule is a pattern of paths below the file's directory; one
that begins with an exclamation mark takes paths back in, and one that ends with a slash is for
directories only.  A pattern without a slash applies at any depth.  The last rule that applies to a
path decides.
-/

namespace ComponentAtlas

structure IgnoreRule where
  glob : Glob
  /-- Whether the rule takes paths back in. -/
  keeps : Bool
  directoriesOnly : Bool

/-- What a list of rules says about a path. -/
inductive IgnoreVerdict
  | ignored
  | kept
  deriving DecidableEq, Repr

namespace IgnoreRule

/-- A line without the blanks at its end, unless the last one is escaped. -/
def trimLine (line : List Char) : List Char :=
  if Text.endsWith ['\\', ' '] line then line else Text.trimEnd line

/-- The rule's pattern as a pattern of whole paths. -/
def wholePattern (isAnchored : Bool) (body : List Char) : List Char :=
  let placed :=
    if isAnchored || body.contains '/' || body == ['*', '*'] then body
    else ['*', '*', '/'] ++ body
  if Text.endsWith ['/', '*', '*'] placed then placed ++ ['/', '*'] else placed

/-- A pattern without the slash that makes it one for directories. -/
def dropSlash? (body : List Char) : Option (List Char) :=
  (Text.beforeEnd? ['/'] body).map fun rest => (Text.beforeEnd? ['\\'] rest).getD rest

/-- The rule of a line, if it has one.  A line that spells no pattern has none. -/
def ofLine? (line : List Char) : Option IgnoreRule :=
  match line with
  | '#' :: _ => none
  | _ =>
    match trimLine line with
    | [] => none
    | line =>
      let (keeps, isAnchored, body) : Bool × Bool × List Char :=
        match line with
        | '\\' :: '!' :: rest => (false, false, '!' :: rest)
        | '\\' :: '#' :: rest => (false, false, '#' :: rest)
        | '!' :: '/' :: rest => (true, true, rest)
        | '!' :: rest => (true, false, rest)
        | '/' :: rest => (false, true, rest)
        | _ => (false, false, line)
      let pattern := wholePattern isAnchored ((dropSlash? body).getD body)
      match Glob.ofString true (String.ofList pattern) with
      | .ok glob => some ⟨glob, keeps, (dropSlash? body).isSome⟩
      | .error _ => none

/-- The rules of an ignore file. -/
def ofText (text : String) : List IgnoreRule :=
  (Text.lines text.toList).filterMap ofLine?

/-- What some rules say about a path below the directory that they are for. -/
def verdict? (rules : List IgnoreRule) (path : String) (isDirectory : Bool) :
    Option IgnoreVerdict :=
  (rules.reverse.find? fun r =>
    r.glob.describes path && (!r.directoriesOnly || isDirectory)).map fun r =>
      if r.keeps then .kept else .ignored

end IgnoreRule
end ComponentAtlas
