/-!
# Recognisers and the pieces between their matches

A recogniser looks at the start of a text.  It either finds nothing there or gives a value and
the rest of the text, which is shorter.  Matching from left to right, without overlap, cuts a
text into the part before the first match and, for each match, its value with the part up to the
next match.
-/

namespace ComponentAtlas.Text

/-- What a recogniser found at the start of `s`: a value, and the text left over. -/
structure Match (α : Type) (s : List Char) where
  value : α
  rest : List Char
  shorter : rest.length < s.length

namespace Match

/-- A match, provided that it takes something of the text. -/
def of? {α : Type} (s : List Char) (value : α) (rest : List Char) : Option (Match α s) :=
  if h : rest.length < s.length then some ⟨value, rest, h⟩ else none

end Match

/-- A partial reading of the start of a text. -/
abbrev Recogniser (α : Type) := (s : List Char) → Option (Match α s)

namespace Recogniser

/-- The recogniser of a reading that gives a value and the rest of the text. -/
def ofReading {α : Type} (read : List Char → Option (α × List Char)) : Recogniser α := fun s =>
  (read s).bind fun (value, rest) => Match.of? s value rest

/-- The text before the first match, and each match's value with the text up to the next. -/
def pieces {α : Type} (r : Recogniser α) : List Char → List Char × List (α × List Char)
  | [] => ([], [])
  | c :: cs =>
    match r (c :: cs) with
    | some m =>
      let (before, found) := pieces r m.rest
      ([], (m.value, before) :: found)
    | none =>
      let (before, found) := pieces r cs
      (c :: before, found)
  termination_by s => s.length
  decreasing_by
    · exact m.shorter
    · simp

/-- The values of all matches, from left to right. -/
def findAll {α : Type} (r : Recogniser α) (s : List Char) : List α :=
  (r.pieces s).2.map Prod.fst

/-- The value of the first match and all the text after it. -/
def findFirst? {α : Type} (r : Recogniser α) : List Char → Option (α × List Char)
  | [] => none
  | c :: cs =>
    match r (c :: cs) with
    | some m => some (m.value, m.rest)
    | none => findFirst? r cs

/-- The text with each match written as `f` says. -/
def replace {α : Type} (r : Recogniser α) (f : α → List Char) (s : List Char) : List Char :=
  let (before, found) := r.pieces s
  before ++ found.flatMap fun (value, text) => f value ++ text

end Recogniser
end ComponentAtlas.Text
