import ComponentAtlas.Declaration.Attribute
import ComponentAtlas.Declaration.Documentation
import ComponentAtlas.Model.Component

/-!
# Formal parameters of methods

A parameter list is read from its text: cut at the top-level commas, each part is attribute
lists, passing words, a type, a name, and behind an equals sign the default.
-/

namespace ComponentAtlas

open Text

/-- The words that say how a parameter is passed. -/
def passingWords : List String :=
  ["this", "params", "ref", "out", "in", "scoped"]

namespace MethodParameter

/-- The parameter that one part of a list spells: its last word is the name, the words before it
are the type.  A part of fewer than two words spells none. -/
def ofText? (docs : Documentation) (part : List Char) : Option MethodParameter :=
  let text := dropLists part
  let (declared, default) :=
    match cut? ['='] text with
    | some (before, value) => (before, some (String.ofList (trim value)))
    | none => (text, none)
  let kept := (words declared).filter fun w => !passingWords.any fun p => p.toList == w
  match kept.reverse with
  | name :: typeWord :: more =>
    let name := String.ofList name
    some ⟨name, String.ofList ([' '].intercalate (typeWord :: more).reverse), default,
      docs.parameter? name⟩
  | _ => none

/-- The parameters of a list, given without its parentheses. -/
def listOfText (docs : Documentation) (text : List Char) : List MethodParameter :=
  (splitTopLevel text).filterMap (ofText? docs)

end MethodParameter
end ComponentAtlas
