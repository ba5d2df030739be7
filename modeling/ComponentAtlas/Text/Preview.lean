import ComponentAtlas.Text.Blank

/-!
# Previews

A text that is too long for its place is cut at the last blank of the part that fits, or, where
that part has no blank, at its very end; an ellipsis marks the cut.
-/

namespace ComponentAtlas.Text

/-- The part of a text before its last blank, when it has one. -/
def beforeLastBlank? (cs : List Char) : Option (List Char) :=
  match cs.reverse.dropWhile (fun c => !isBlank c) with
  | [] => none
  | _ :: before => some before.reverse

/-- At most `width` characters of a text, cut at a word where one ends, then an ellipsis. -/
def preview (width : Nat) (cs : List Char) : List Char :=
  if cs.length ≤ width then cs
  else
    let fitting := cs.take width
    trimEnd ((beforeLastBlank? fitting).getD fitting) ++ ['…']

end ComponentAtlas.Text
