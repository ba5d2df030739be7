import ComponentAtlas.Text.Blank
import ComponentAtlas.Text.Occurrence
import ComponentAtlas.Unicode.Word

/-!
# What an example demonstrates

The markup of an example is searched for cues: attributes that are set, words, icons, bindings
and event handlers.  Each cue stands for a feature.
-/

namespace ComponentAtlas.Feature

open Text

/-- What to look for in the markup. -/
inductive Cue
  /-- One of some attributes with a quoted value. -/
  | attribute (names : List String)
  /-- A whole word. -/
  | word (w : String)
  /-- A member of the icon library. -/
  | icon
  /-- A two-way binding. -/
  | binding
  /-- An attribute whose name begins with `On` and a capital. -/
  | handler
  deriving DecidableEq, Repr

/-- Each feature with its cue, in the order in which features are listed. -/
def table : List (Cue × String) :=
  [(.attribute ["Color"], "color"), (.attribute ["Size"], "size"),
    (.attribute ["Variant"], "variant"), (.attribute ["Typo"], "typography"),
    (.attribute ["Align", "HorizontalAlignment"], "align"), (.attribute ["Justify"], "justify"),
    (.attribute ["Edge"], "edge"), (.attribute ["Adornment"], "adornment"),
    (.attribute ["AnchorOrigin", "TransformOrigin", "Origin"], "origin"),
    (.attribute ["Placement"], "placement"), (.attribute ["Orientation"], "orientation"),
    (.attribute ["Breakpoint"], "breakpoint"), (.attribute ["Elevation"], "elevation"),
    (.icon, "icons"), (.word "Disabled", "disabled"), (.word "Dense", "dense"),
    (.word "FullWidth", "fullwidth"), (.binding, "binding"), (.handler, "events")]

/-- Whether a text goes on with an equals sign and a quotation mark, blanks aside. -/
def opensValue (s : List Char) : Bool :=
  ((after? ['='] (s.dropWhile isBlank)).bind fun rest =>
    after? ['"'] (rest.dropWhile isBlank)).isSome

def startsWord : List Char → Bool
  | c :: _ => Unicode.isWord c
  | [] => false

namespace Cue

/-- Whether a cue stands at the start of a text; `fresh` tells that no word runs on into it. -/
def standsAt (cue : Cue) (fresh : Bool) (s : List Char) : Bool :=
  match cue with
  | .attribute names =>
    fresh && names.any fun name => ((after? name.toList s).map opensValue).getD false
  | .word w => fresh && ((after? w.toList s).map fun rest => !startsWord rest).getD false
  | .icon => fresh && ((after? "Icons.".toList s).map startsWord).getD false
  | .binding => ((after? "@bind-".toList s).map startsWord).getD false
  | .handler =>
    fresh && ((after? "On".toList s).map fun rest =>
      match rest with
      | c :: more => c.isUpper && opensValue (more.dropWhile Unicode.isWord)
      | [] => false).getD false

/-- Whether a cue stands anywhere in a text. -/
def occurs (cue : Cue) (fresh : Bool) : List Char → Bool
  | [] => false
  | c :: rest => cue.standsAt fresh (c :: rest) || cue.occurs (!Unicode.isWord c) rest

end Cue

/-- The tags of the rules that apply, in the order of the rules, each tag once. -/
def tagsOf {α : Type} (applies : α → Bool) (rules : List (α × String)) : List String :=
  (rules.filterMap fun (cue, tag) => if applies cue then some tag else none).eraseDups

/-- The features that a markup demonstrates. -/
def infer (markup : List Char) : List String :=
  tagsOf (fun cue => cue.occurs true markup) table

end ComponentAtlas.Feature
