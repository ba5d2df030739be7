import ComponentAtlas.CSharp.Reading
import ComponentAtlas.Declaration.FormalParameter
import ComponentAtlas.Declaration.Role
import ComponentAtlas.Distinct
import ComponentAtlas.Model.TypeReference

/-!
# Declarations

A declaration file contributes the visible types outside all other types.  The first of them is
read as a component as well: its marked properties become parameters and events, its visible
methods become methods.  A file without a visible type contributes nothing.
-/

namespace ComponentAtlas

open CSharp

/-! ## Comments and modifiers -/

namespace Documentation

/-- The line of a documentation comment, without its slashes, one space behind them, and the
blanks at its end. -/
def line? (l : Lexeme) : Option (List Char) :=
  if l.kind = .comment then
    (Text.after? "///".toList l.text).map fun rest =>
      Text.trimEnd ((Text.after? [' '] rest).getD rest)
  else none

/-- The documentation in the comments in front of a declaration. -/
def ofLeading (leading : List Lexeme) : Documentation :=
  match leading.filterMap line? with
  | [] => empty
  | lines => ofLines lines

end Documentation

namespace CSharp.Header

def attributeList (h : Header) : List Attribute :=
  h.attributes.filterMap Attribute.ofText?

end CSharp.Header

/-! ## Members -/

/-- A member of a type body that the library looks at, with the comments in front of it. -/
inductive BodyMember
  | property (docs : Documentation) (head : PropertyHead)
  | method (docs : Documentation) (head : MethodHead)

/-- The properties and methods of a body, in order. -/
def bodyMembers (members : List Item) : List BodyMember :=
  (Item.withComments [] members).filterMap fun (leading, item) =>
    match item with
    | .property head => some (.property (.ofLeading leading) head)
    | .method head => some (.method (.ofLeading leading) head)
    | _ => none

/-- Whether a member can be used from outside; the members of an interface can unless they are
private. -/
def isVisibleMember (kind : TypeKind) (h : Header) : Bool :=
  h.hasModifier "public" || (kind == .interfaceType && !h.hasModifier "private")

/-- The text of an initialiser behind an accessor list: what follows the equals sign, without the
semicolon. -/
def initialiser? (tail : List Char) : Option String :=
  (Text.after? ['='] (Text.trim tail)).bind fun value =>
    let value := Text.trim value
    Text.nonEmpty? (Text.trim ((Text.beforeEnd? [';'] value).getD value))

/-- Methods that every component has, and that say nothing about this one. -/
def plumbingMethods : List String :=
  ["OnInitialized", "OnInitializedAsync", "OnParametersSet", "OnParametersSetAsync",
    "OnAfterRender", "OnAfterRenderAsync", "SetParametersAsync", "ShouldRender",
    "BuildRenderTree", "StateHasChanged", "HandleEventAsync", "Dispose", "DisposeAsync",
    "DisposeAsyncCore", "ToString", "Equals", "GetHashCode"]

/-- What is inside the parentheses of a parameter list. -/
def insideParentheses (list : List Char) : List Char :=
  let list := Text.trim list
  let opened := (Text.after? ['('] list).getD list
  (Text.beforeEnd? [')'] opened).getD opened

/-- What a member of a body contributes: a property with its role, or a method. -/
inductive Contribution
  | property (member : TypeMember) (visible : Bool) (parameter : Option Parameter)
      (event : Option Event)
  | method (member : TypeMember) (method : Method)

namespace Contribution

/-- The contribution of a property. -/
def ofProperty (kind : TypeKind) (docs : Documentation) (head : PropertyHead) : Contribution :=
  let attributes := head.header.attributeList
  let markers := Attribute.markers attributes
  let name := String.ofList head.name
  let type := String.ofList (Text.collapse head.type)
  let parameter : Parameter :=
    { name, type
      description := docs.summary
      defaultValue := head.afterAccessors.bind initialiser?
      isRequired := markers.contains .required
      isCascading := markers.contains .cascading
      uiCategory := Attribute.uiCategory? attributes }
  let (parameter, event) :=
    match PropertyRole.of? markers type with
    | some (.event argsType) => (none, some ⟨name, argsType, docs.summary⟩)
    | some _ => (some parameter, none)
    | none => (none, none)
  .property ⟨name, .property, type, docs.summary⟩ (isVisibleMember kind head.header) parameter
    event

/-- The contribution of a method, unless it is hidden or plumbing. -/
def ofMethod? (kind : TypeKind) (docs : Documentation) (head : MethodHead) :
    Option Contribution :=
  let name := String.ofList head.name
  if !isVisibleMember kind head.header || plumbingMethods.contains name then none
  else
    let returns := Text.collapse head.returns
    let method : Method :=
      { name
        returnType := String.ofList returns
        description := docs.summary
        parameters := MethodParameter.listOfText docs (insideParentheses head.parameters)
        isAsync := TypeName.isAwaitable returns }
    some (.method ⟨name, .method, method.returnType, docs.summary⟩ method)

def ofBodyMember? (kind : TypeKind) : BodyMember → Option Contribution
  | .property docs head => some (.ofProperty kind docs head)
  | .method docs head => ofMethod? kind docs head

def parameter? : Contribution → Option Parameter
  | .property _ _ p _ => p
  | .method _ _ => none

def event? : Contribution → Option Event
  | .property _ _ _ e => e
  | .method _ _ => none

def method? : Contribution → Option Method
  | .property _ _ _ _ => none
  | .method _ m => some m

/-- The member that a contribution shows to the outside. -/
def member? : Contribution → Option TypeMember
  | .property m visible _ _ => if visible then some m else none
  | .method m _ => some m

end Contribution

/-- Whether two methods have the same name and the same parameter types. -/
def Method.sameSignature (a b : Method) : Bool :=
  a.name == b.name && a.parameters.map (·.type) == b.parameters.map (·.type)

/-- Whether two contributions are methods of one signature. -/
def Contribution.sameSignature (a b : Contribution) : Bool :=
  match a.method?, b.method? with
  | some m, some n => m.sameSignature n
  | _, _ => false

/-- What the members of a body contribute; of methods with one signature only the first. -/
def contributions (kind : TypeKind) (members : List Item) : List Contribution :=
  firsts Contribution.sameSignature ((bodyMembers members).filterMap (Contribution.ofBodyMember? kind))

def parametersOf (cs : List Contribution) : List Parameter :=
  firsts (fun a b => a.name == b.name) (cs.filterMap Contribution.parameter?)

def eventsOf (cs : List Contribution) : List Event :=
  firsts (fun a b => a.name == b.name) (cs.filterMap Contribution.event?)

def methodsOf (cs : List Contribution) : List Method :=
  cs.filterMap Contribution.method?

def membersOf (cs : List Contribution) : List TypeMember :=
  cs.filterMap Contribution.member?

/-! ## Enumerations -/

/-- The value of an enumeration's member.  Without an initialiser the member's text behind its
attributes is searched for an equals sign, which can only stand in a comment. -/
def EnumValue.ofMember (m : EnumMember) : EnumValue where
  name := String.ofList m.name
  value :=
    let written := m.value.or ((Text.cut? ['='] (Text.dropLists m.text)).map Prod.snd)
    written.bind fun value => Text.nonEmpty? (Text.collapse value)
  summary := (Documentation.ofLeading m.leading).summary

/-- The values of an enumeration, the first of each name. -/
def enumValues (members : List EnumMember) : List EnumValue :=
  firsts (fun a b => a.name == b.name) (members.map .ofMember)

/-! ## Types -/

/-- A type outside all other types, with the comments in front of it and the names of the
namespace blocks around it, outermost first. -/
structure DeclaredType where
  namespaces : List String
  leading : List Lexeme
  head : TypeHead
  members : List Item
  values : List EnumMember

mutual

/-- The types of one item, `namespaces` and `leading` around and in front of it. -/
def declaredIn (namespaces : List String) (leading : List Lexeme) : Item → List DeclaredType
  | .namespaceBlock _ name body =>
    declaredTypes (namespaces ++ [Text.collapseString (String.ofList name)]) [] body
  | .conditional _ body => declaredTypes namespaces [] body
  | .type head members values => [⟨namespaces, leading, head, members, values⟩]
  | _ => []

/-- The types outside all other types, in source order; `passed` are the comments in front of the
conditional regions just passed. -/
def declaredTypes (namespaces : List String) (passed : List Lexeme) :
    List Item → List DeclaredType
  | [] => []
  | item :: rest =>
    let here := passed ++ item.leading
    let behind :=
      match item with
      | .conditional _ _ => here
      | _ => []
    declaredIn namespaces here item ++ declaredTypes namespaces behind rest

end

mutual

/-- The file namespaces named in an item. -/
def fileNamespacesIn : Item → List String
  | .fileNamespace _ name _ => [Text.collapseString (String.ofList name)]
  | .namespaceBlock _ _ body => fileNamespaces body
  | .conditional _ body => fileNamespaces body
  | _ => []

def fileNamespaces : List Item → List String
  | [] => []
  | item :: rest => fileNamespacesIn item ++ fileNamespaces rest

end

/-- The dotted path of the namespaces around a type: the file's, then the blocks'. -/
def namespacePath? (file : Option String) (blocks : List String) : Option String :=
  match file.toList ++ blocks with
  | [] => none
  | parts => some (".".intercalate parts)

/-- The base type of a type, without type arguments and qualification.  An interface counts as a
base only for an interface; an enumeration has none. -/
def baseType? (kind : TypeKind) (base : Option (List Char)) : Option String :=
  if kind = .enumType then none
  else base.bind fun text =>
    let name := TypeName.simple (Text.upTo '(' text)
    if kind != .interfaceType && TypeName.looksLikeInterface name then none
    else Text.nonEmpty? name

/-- Whether a type is shown: when it is public, or on request unless it is private. -/
def isVisibleType (includeInternal : Bool) (h : Header) : Bool :=
  h.hasModifier "public" || (includeInternal && !h.hasModifier "private")

/-- What a declaration file contributes. -/
structure Declaration where
  /-- The kind of the first visible type. -/
  kind : TypeKind
  isStatic : Bool
  /-- The first visible type, read as a component. -/
  component : Component
  /-- All visible types. -/
  types : List TypeReference
  deriving DecidableEq, Repr

namespace DeclaredType

def documentation (t : DeclaredType) : Documentation :=
  .ofLeading t.leading

def reference (path : String) (file : Option String) (t : DeclaredType) : TypeReference where
  name := String.ofList t.head.name
  kind := t.head.kind
  namespaceName := namespacePath? file t.namespaces
  summary := t.documentation.summary
  baseType := baseType? t.head.kind t.head.base
  members := membersOf (contributions t.head.kind t.members)
  values := enumValues t.values
  sourceFile := some path

def component (path : String) (file : Option String) (t : DeclaredType) : Component :=
  let cs := contributions t.head.kind t.members
  { Component.ofName (String.ofList t.head.name) with
    namespaceName := namespacePath? file t.namespaces
    summary := t.documentation.summary
    description := t.documentation.remarks
    baseType := baseType? t.head.kind t.head.base
    parameters := parametersOf cs
    events := eventsOf cs
    methods := methodsOf cs
    sourceFile := some path
    deprecated := (Attribute.markers t.head.header.attributeList).contains .deprecated
    isInternal := !t.head.header.hasModifier "public" }

end DeclaredType

namespace Declaration

/-- What the items of a source contribute. -/
def ofItems? (includeInternal : Bool) (path : String) (items : List Item) :
    Option Declaration :=
  let file := (fileNamespaces items).getLast?
  let visible := (declaredTypes [] [] items).filter fun t =>
    isVisibleType includeInternal t.head.header
  visible.head?.map fun first =>
    { kind := first.head.kind
      isStatic := first.head.header.hasModifier "static"
      component := first.component path file
      types := visible.map (·.reference path file) }

/-- What a class file contributes. -/
def ofClassFile? (includeInternal : Bool) (path source : String) : Option Declaration :=
  ofItems? includeInternal path (CSharp.parse source)

end Declaration
end ComponentAtlas
