import ComponentAtlas.Text.TopLevel
import ComponentAtlas.Text.Occurrence

/-!
# Attributes and markers

An attribute says how a declaration takes part in a component.  Its name counts without the
namespace in front and without the ending `Attribute`, so that the short, the long and the
qualified spelling mean the same.
-/

namespace ComponentAtlas

/-- The roles that attributes give to a declaration. -/
inductive Marker
  | parameter
  | cascading
  | required
  | deprecated
  | uiCategory
  deriving DecidableEq, Repr

/-- The entry of a table for a name; the first one counts. -/
def lookup? {α : Type} (table : List (String × α)) (name : String) : Option α :=
  (table.find? fun entry => entry.1 == name).map Prod.snd

/-- The attributes that mark something. -/
def markerTable : List (String × Marker) :=
  [("Parameter", .parameter), ("CascadingParameter", .cascading), ("EditorRequired", .required),
    ("Obsolete", .deprecated), ("Category", .uiCategory)]

structure Attribute where
  name : String
  /-- The text between the parentheses. -/
  arguments : Option (List Char)
  deriving DecidableEq, Repr

namespace Attribute

open Text

/-- An attribute's name without its target, its namespace and its ending. -/
def simpleName (cs : List Char) : List Char :=
  let name := afterLast '.' (trim (afterLast ':' cs))
  (beforeEnd? "Attribute".toList name).getD name

/-- The attribute that a text spells, unless its name comes out empty. -/
def ofText? (text : List Char) : Option Attribute :=
  let text := trim text
  let (head, arguments) :=
    match cut? ['('] text with
    | some (head, rest) =>
      let inner := trimEnd rest
      (head, some (trim ((beforeEnd? [')'] inner).getD inner)))
    | none => (text, none)
  let name := simpleName head
  if name.isEmpty then none else some ⟨String.ofList name, arguments⟩

/-- The markers that some attributes set. -/
def markers (attributes : List Attribute) : List Marker :=
  attributes.filterMap fun a => lookup? markerTable a.name

/-- The category of the first category attribute: the last dotted part of its argument, without
quotation marks. -/
def uiCategory? (attributes : List Attribute) : Option String :=
  ((attributes.find? fun a => a.name == "Category").bind (·.arguments)).bind fun arguments =>
    let isQuote (c : Char) := c == '"'
    let value := dropEndWhile isQuote ((trim arguments).dropWhile isQuote)
    nonEmpty? (trim (afterLast '.' value))

end Attribute

namespace Text

/-- What follows the bracketed list that is open at some depth; quotation marks hide brackets. -/
def afterList? (depth : Nat) (quoted : Bool) : List Char → Option (List Char)
  | [] => none
  | c :: rest =>
    if c = '"' then afterList? depth (!quoted) rest
    else if quoted then afterList? depth quoted rest
    else if c = '[' then afterList? (depth + 1) quoted rest
    else if c = ']' then
      match depth with
      | 0 => some rest
      | d + 1 => afterList? d quoted rest
    else afterList? depth quoted rest

/-- A text without the bracketed lists at its start; at most `fuel` of them. -/
def dropListsWithin : Nat → List Char → List Char
  | 0, cs => cs
  | fuel + 1, cs =>
    match cs with
    | '[' :: rest =>
      match afterList? 0 false rest with
      | some behind => dropListsWithin fuel (trimStart behind)
      | none => cs
    | _ => cs

/-- A text without the attribute lists at its start. -/
def dropLists (cs : List Char) : List Char :=
  dropListsWithin cs.length (trimStart cs)

end Text
end ComponentAtlas
