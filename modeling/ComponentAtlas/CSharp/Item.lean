import ComponentAtlas.CSharp.Tree
import ComponentAtlas.Model.TypeKind

/-!
# Items of a C# source

What a compilation unit, a namespace block or a type body consists of.  Only what the library
asks for is kept of each: names, types and parameter lists as the text they are written with,
attributes, modifiers, and the comments in front.  Statements, fields, constructors and the like
are `other`, and what cannot be read at all is `skipped`.
-/

namespace ComponentAtlas.CSharp

/-- What can stand in front of a declaration: comments and preprocessor lines, the attributes of
its bracketed lists, and its modifier words. -/
structure Header where
  leading : List Lexeme
  attributes : List (List Char)
  modifiers : List (List Char)

namespace Header

def hasModifier (h : Header) (word : String) : Bool :=
  h.modifiers.contains word.toList

end Header

/-- What a type is declared as, its body apart. -/
structure TypeHead where
  header : Header
  kind : TypeKind
  name : List Char
  /-- The first entry of the base list; a comment directly behind the colon counts as one. -/
  base : Option (List Char)

/-- One member of an enumeration: all of its text, its name, and its value where it has one. -/
structure EnumMember where
  leading : List Lexeme
  text : List Char
  name : List Char
  value : Option (List Char)

structure PropertyHead where
  header : Header
  type : List Char
  name : List Char
  /-- The text behind the accessor list, when there is one. -/
  afterAccessors : Option (List Char)

structure MethodHead where
  header : Header
  returns : List Char
  name : List Char
  /-- The parameter list with its parentheses. -/
  parameters : List Char

inductive Item
  | namespaceBlock (leading : List Lexeme) (name : List Char) (body : List Item)
  /-- A namespace for the whole file; `closed` tells whether its semicolon is there. -/
  | fileNamespace (leading : List Lexeme) (name : List Char) (closed : Bool)
  | type (head : TypeHead) (members : List Item) (values : List EnumMember)
  | property (head : PropertyHead)
  | method (head : MethodHead)
  /-- A region between preprocessor conditions, all of its branches in one list. -/
  | conditional (leading : List Lexeme) (body : List Item)
  | other (leading : List Lexeme)
  | skipped (leading : List Lexeme)

namespace Item

/-- The comments and preprocessor lines directly in front of an item. -/
def leading : Item → List Lexeme
  | .namespaceBlock l _ _ => l
  | .fileNamespace l _ _ => l
  | .type head _ _ => head.header.leading
  | .property head => head.header.leading
  | .method head => head.header.leading
  | .conditional l _ => l
  | .other l => l
  | .skipped l => l

/-- The items of one level, each with all comments that stand between it and the item before it.
A conditional region is looked past, so that comments in front of it count for what follows it
as well; `passed` are those of the regions just passed. -/
def withComments (passed : List Lexeme) : List Item → List (List Lexeme × Item)
  | [] => []
  | item :: rest =>
    let here := passed ++ item.leading
    match item with
    | .conditional _ _ => (here, item) :: withComments here rest
    | _ => (here, item) :: withComments [] rest

end Item
end ComponentAtlas.CSharp
