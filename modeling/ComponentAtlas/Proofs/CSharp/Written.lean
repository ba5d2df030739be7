import ComponentAtlas.Proofs.CSharp.Names

/-!
# Declarations as they are written

What a source without syntax errors consists of, as far as the library looks at it: attribute lists,
modifiers, names, types, and the declarations that they begin.  Each piece carries the proofs that
it is one, so a `WrittenItem` is always a declaration, and it knows two things: the bracket trees
that it is written with (`trees`), and the item that it is (`item`).

Expressions, statements and what stands between the brackets of a body are kept as trees; of these
only what the end of a declaration hangs on is asked for.
-/

namespace ComponentAtlas.CSharp

/-! ## Words and marks -/

/-- A word of the language, such as `class`. -/
abbrev Keyword (s : String) :=
  { t : Token // t.isWord = true ∧ t.text = s.toList }

/-- An operator, a bracket or a separator, such as `=`. -/
abbrev Mark (s : String) :=
  { t : Token // t.lexeme.kind = .mark ∧ t.text = s.toList }

/-- The text that stands in front of a token. -/
def Token.gap (t : Token) : List Char :=
  t.leading.flatMap (·.text)

/-- The two brackets of a group. -/
structure Brackets (bracket : Char) where
  opening : Token
  closing : Token
  opens : opening.text = [bracket]

def Brackets.around {bracket : Char} (b : Brackets bracket) (inside : List Tree) : Tree :=
  .group b.opening inside b.closing

/-- What stands in front of some trees. -/
def leadingOf (ts : List Tree) : List Lexeme :=
  (ts.head?.map fun t => t.head.leading).getD []

/-- Things with commas between them, perhaps with one more comma behind the last. -/
structure CommaList (α : Type) where
  front : List (α × Mark ",")
  last : Option α

namespace CommaList

variable {α : Type}

def elements (l : CommaList α) : List α :=
  l.front.map Prod.fst ++ l.last.toList

/-- The trees of a list whose elements are written as `write` says. -/
def trees (write : α → List Tree) (l : CommaList α) : List Tree :=
  (l.front.flatMap fun x => write x.1 ++ [.leaf x.2.1]) ++ (l.last.map write).getD []

end CommaList

/-! ## Names and types -/

/-- Trees that can stand between angle brackets. -/
inductive IsArguments : List Tree → Prop
  | nil : IsArguments []
  | cons {t : Tree} {ts : List Tree} (hopen : t.is "<" = false) (hclose : t.is ">" = false)
      (h : (t.word?.isSome || t.opens '(' || t.opens '[' || t.is "," || t.is "." || t.is "::" ||
        t.is "?" || t.is "*") = true) (hts : IsArguments ts) : IsArguments (t :: ts)
  | nested {inside ts : List Tree} (opening : Mark "<") (closing : Mark ">")
      (hinside : IsArguments inside) (hts : IsArguments ts) :
      IsArguments (.leaf opening.1 :: (inside ++ .leaf closing.1 :: ts))

/-- A list of type arguments or type parameters. -/
structure WrittenArguments where
  opening : Mark "<"
  inside : List Tree
  closing : Mark ">"
  isArguments : IsArguments inside

def WrittenArguments.trees (a : WrittenArguments) : List Tree :=
  .leaf a.opening.1 :: (a.inside ++ [.leaf a.closing.1])

/-- A part of a dotted name. -/
structure NamePart where
  word : Token
  arguments : Option WrittenArguments
  isName : IsName word.text
  namesType : (Tree.leaf word).namesType = true

def NamePart.trees (p : NamePart) : List Tree :=
  .leaf p.word :: (p.arguments.map WrittenArguments.trees).getD []

/-- Whether a token can stand between two parts of a name. -/
def IsSeparator (t : Token) : Prop :=
  t.lexeme.kind = .mark ∧ (t.text = ".".toList ∨ t.text = "::".toList)

/-- A dotted name: the parts in front, each with its separator, and the last part. -/
structure WrittenName where
  front : List (NamePart × Token)
  last : NamePart
  separated : ∀ x ∈ front, IsSeparator x.2

def WrittenName.trees (n : WrittenName) : List Tree :=
  (n.front.flatMap fun x => x.1.trees ++ [.leaf x.2]) ++ n.last.trees

/-- The words in front of a type that say how it is passed. -/
def passedBy : List String :=
  ["ref", "readonly", "scoped"]

inductive TypeBase
  | named (name : WrittenName)
  | tuple (brackets : Brackets '(') (inside : List Tree)
  | functionPointer (keyword : Keyword "delegate") (star : Mark "*") (arguments : WrittenArguments)

def TypeBase.trees : TypeBase → List Tree
  | .named n => n.trees
  | .tuple b inside => [b.around inside]
  | .functionPointer k s a => .leaf k.1 :: .leaf s.1 :: a.trees

/-- A type: perhaps a reference, then its name, a tuple or a function pointer, then nullable,
pointer and array marks. -/
structure WrittenType where
  refs : List Token
  base : TypeBase
  marks : List Tree
  areRefs : ∀ t ∈ refs, t.isOneOf passedBy = true
  begins : ∀ t ∈ base.trees.head?, t.isOneOf passedBy = false
  areMarks : ∀ t ∈ marks, (t.is "?" || t.is "*" || t.opens '[') = true

def WrittenType.trees (t : WrittenType) : List Tree :=
  t.refs.map .leaf ++ t.base.trees ++ t.marks

/-! ## Attributes and modifiers -/

/-- An attribute: its name, and its arguments between parentheses. -/
structure WrittenAttribute where
  name : WrittenName
  arguments : Option (Brackets '(' × List Tree)

def WrittenAttribute.trees (a : WrittenAttribute) : List Tree :=
  a.name.trees ++ (a.arguments.map fun x => [x.1.around x.2]).getD []

/-- A bracketed list of attributes, perhaps with what they are for in front; not for the whole
assembly or module. -/
structure AttributeList where
  brackets : Brackets '['
  target : Option (Token × Mark ":")
  attributes : CommaList WrittenAttribute
  isTarget : ∀ x ∈ target, x.1.isWord = true ∧ x.1.isOneOf ["assembly", "module"] = false

namespace AttributeList

def inside (l : AttributeList) : List Tree :=
  (l.target.map fun x => [Tree.leaf x.1, .leaf x.2.1]).getD [] ++
    l.attributes.trees WrittenAttribute.trees

def tree (l : AttributeList) : Tree :=
  l.brackets.around l.inside

def texts (l : AttributeList) : List (List Char) :=
  l.attributes.elements.map fun a => Tree.span a.trees

end AttributeList

/-- The attribute lists and the modifiers in front of a declaration. -/
structure WrittenHeader where
  lists : List AttributeList
  modifiers : List Token

namespace WrittenHeader

def trees (h : WrittenHeader) : List Tree :=
  h.lists.map AttributeList.tree ++ h.modifiers.map .leaf

/-- Whether some words are modifiers of what follows them. -/
def areModifiers (behind : List Tree) : List Token → Bool
  | [] => true
  | t :: ts => isModifierBefore (.leaf t) (ts.map .leaf ++ behind) && areModifiers behind ts

/-- Whether the header belongs to the trees behind it: these begin neither with an attribute list, a
modifier or a namespace nor with what no declaration begins with, and all modifiers are ones in
front of them. -/
def fits (h : WrittenHeader) (bare : List Tree) : Bool :=
  areModifiers bare h.modifiers &&
    match bare with
    | first :: next :: rest =>
      !isModifierBefore first (next :: rest) && !(next.opens '(' && rest.isEmpty) &&
        !first.opens '[' && !first.isConditional && !first.is ";" && !first.is "=" &&
        !first.is "namespace"
    | _ => false

def attributes (h : WrittenHeader) : List WrittenAttribute :=
  h.lists.flatMap fun l => l.attributes.elements

/-- The header of a declaration that goes on with `bare`. -/
def header (h : WrittenHeader) (bare : List Tree) : Header :=
  ⟨leadingOf (h.trees ++ bare), h.attributes.map fun a => Tree.span a.trees,
    h.modifiers.map Token.text⟩

end WrittenHeader

/-! ## Where a declaration ends -/

/-- Whether a tree can stand in no declaration. -/
def Tree.breaksOff (t : Tree) : Bool :=
  t.isLost || t.isConditional || t.isOneOf accessWords

/-- Whether a tree ends neither a declaration nor the part of it in front of its body. -/
def Tree.goesOn (t : Tree) : Bool :=
  !t.breaksOff && !t.is ";" && !t.is "=" && !t.is "=>" && !t.opens '{'

/-- The trees of an expression. -/
abbrev Expression :=
  { ts : List Tree // ∀ t ∈ ts, t.breaksOff = false ∧ t.is ";" = false }

/-- How a declaration ends: with a semicolon, with braces, with a value or an expression body, or
with braces and then a value. -/
inductive Ending
  | semicolon (mark : Mark ";")
  | braces (brackets : Brackets '{') (inside : List Tree)
  | value (mark : Mark "=") (value : Expression) (semicolon : Mark ";")
  | arrow (mark : Mark "=>") (value : Expression) (semicolon : Mark ";")
  | bracesValue (brackets : Brackets '{') (inside : List Tree) (mark : Mark "=")
      (value : Expression) (semicolon : Mark ";")

namespace Ending

/-- The trees behind the first one. -/
def rest : Ending → List Tree
  | .semicolon _ | .braces _ _ => []
  | .value _ v s | .arrow _ v s => v.1 ++ [.leaf s.1]
  | .bracesValue _ _ m v s => .leaf m.1 :: (v.1 ++ [.leaf s.1])

def first : Ending → Tree
  | .semicolon m => .leaf m.1
  | .braces b inside | .bracesValue b inside _ _ _ => b.around inside
  | .value m _ _ => .leaf m.1
  | .arrow m _ _ => .leaf m.1

def trees (e : Ending) : List Tree :=
  e.first :: e.rest

end Ending

/-! ## Members -/

/-- A property: its name is the last word of a dotted name, and accessors or an expression body
follow it. -/
structure WrittenProperty where
  header : WrittenHeader
  type : WrittenType
  name : WrittenName
  ending : Ending
  fits : header.fits (type.trees ++ name.trees ++ ending.trees) = true
  isMember : typeKeyword? (type.trees ++ name.trees ++ ending.trees) = none
  goesOn : ∀ t ∈ type.trees ++ name.trees, t.goesOn = true
  isIdentifier : (Tree.leaf name.last.word).isIdentifier = true
  hasBody : (ending.first.opens '{' || ending.first.is "=>") = true

namespace WrittenProperty

/-- The trees behind the header. -/
def bare (p : WrittenProperty) : List Tree :=
  p.type.trees ++ p.name.trees ++ p.ending.trees

def head (p : WrittenProperty) : PropertyHead where
  header := p.header.header p.bare
  type := Tree.span p.type.trees
  name := p.name.last.word.text
  afterAccessors :=
    if p.ending.first.opens '{' then some ((Tree.allTokens p.ending.rest).flatMap (·.fullText))
    else none

end WrittenProperty

/-- A formal parameter: attributes, words that say how it is passed, type, name and default. -/
structure WrittenParameter where
  lists : List AttributeList
  passing : List Token
  type : WrittenType
  name : Token
  default : Option (Mark "=" × List Tree)

def WrittenParameter.trees (p : WrittenParameter) : List Tree :=
  p.lists.map AttributeList.tree ++ p.passing.map .leaf ++ p.type.trees ++ [.leaf p.name] ++
    (p.default.map fun x => Tree.leaf x.1.1 :: x.2).getD []

/-- A method: behind the parameters stand the constraints on its type parameters. -/
structure WrittenMethod where
  header : WrittenHeader
  type : WrittenType
  name : WrittenName
  brackets : Brackets '('
  parameters : CommaList WrittenParameter
  constraints : List Tree
  ending : Ending
  fits : header.fits (type.trees ++ name.trees ++
    brackets.around (parameters.trees WrittenParameter.trees) :: (constraints ++ ending.trees)) = true
  isMember : typeKeyword? (type.trees ++ name.trees ++
    brackets.around (parameters.trees WrittenParameter.trees) :: (constraints ++ ending.trees)) = none
  goesOn : ∀ t ∈ type.trees ++ name.trees ++ constraints, t.goesOn = true
  isIdentifier : (Tree.leaf name.last.word).isIdentifier = true

namespace WrittenMethod

def list (m : WrittenMethod) : Tree :=
  m.brackets.around (m.parameters.trees WrittenParameter.trees)

/-- The trees behind the header. -/
def bare (m : WrittenMethod) : List Tree :=
  m.type.trees ++ m.name.trees ++ m.list :: (m.constraints ++ m.ending.trees)

def head (m : WrittenMethod) : MethodHead where
  header := m.header.header m.bare
  returns := Tree.span m.type.trees
  name := m.name.last.word.text
  parameters := Tree.span [m.list]

end WrittenMethod

/-- Whether a dotted name or a type cannot go on with a tree. -/
def Tree.endsType (t : Tree) : Bool :=
  !(t.is "." || t.is "::" || t.is "<" || t.is "?" || t.is "*" || t.opens '[')

/-- The three ways in which a declaration or a statement is neither a property nor a method: no type
begins it, as with `using` or `event`; no name follows the type, as with a constructor, an operator
or an indexer; or neither parameters nor accessors follow the name, as with a field. -/
inductive IsNoMember : List Tree → Prop
  | untyped {first : Tree} {rest : List Tree} (hname : first.namesType = false)
      (href : first.isOneOf passedBy = false) (htuple : first.opens '(' = false)
      (hpointer : (first.is "delegate" && (rest.headD first).is "*") = false) :
      IsNoMember (first :: rest)
  | unnamed {next : Tree} {rest : List Tree} (type : WrittenType) (hends : next.endsType = true)
      (hname : next.namesType = false) : IsNoMember (type.trees ++ next :: rest)
  | bodiless {next : Tree} {rest : List Tree} (type : WrittenType) (name : WrittenName)
      (hends : next.endsType = true)
      (hnext : (next.opens '(' || next.opens '{' || next.is "=>") = false) :
      IsNoMember (type.trees ++ name.trees ++ next :: rest)

/-- A declaration or a statement of any other kind. -/
structure WrittenOther where
  header : WrittenHeader
  front : List Tree
  ending : Ending
  fits : header.fits (front ++ ending.trees) = true
  isMember : typeKeyword? (front ++ ending.trees) = none
  goesOn : ∀ t ∈ front, t.goesOn = true
  isNoMember : IsNoMember (front ++ ending.trees)

def WrittenOther.bare (o : WrittenOther) : List Tree :=
  o.front ++ o.ending.trees

/-! ## Enumerations -/

/-- The value of an enumeration's member: its commas stand between brackets, angle brackets of type
arguments among them, and another `<` opens no type arguments. -/
inductive IsValue : List Tree → Prop
  | nil : IsValue []
  | cons {t : Tree} {ts : List Tree} (hcomma : t.is "," = false) (hless : t.is "<" = false)
      (hcondition : t.isConditional = false) (hts : IsValue ts) : IsValue (t :: ts)
  | less {ts : List Tree} (mark : Mark "<") (hnone : argumentsLength? 0 ts = none)
      (hts : IsValue ts) : IsValue (.leaf mark.1 :: ts)
  | arguments {ts : List Tree} (a : WrittenArguments) (hts : IsValue ts) : IsValue (a.trees ++ ts)

/-- A member of an enumeration: attribute lists, its name, and perhaps a value. -/
structure WrittenEnumMember where
  lists : List AttributeList
  name : Token
  value : Option (Mark "=" × List Tree)
  isWord : name.isWord = true
  isName : IsName name.text
  isValue : ∀ x ∈ value, IsValue x.2
  notBlank : ∀ x ∈ value, Text.allBlank (Tree.span x.2) = false

namespace WrittenEnumMember

def trees (m : WrittenEnumMember) : List Tree :=
  m.lists.map AttributeList.tree ++
    .leaf m.name :: (m.value.map fun x => Tree.leaf x.1.1 :: x.2).getD []

def member (m : WrittenEnumMember) : EnumMember where
  leading := leadingOf m.trees
  text := Tree.span m.trees
  name := m.name.text
  value := m.value.map fun x => Tree.span x.2

end WrittenEnumMember

/-! ## Types and namespaces -/

/-- A type declaration up to its body; a record may say that it is a class or a structure. -/
structure WrittenTypeHead where
  header : WrittenHeader
  kind : TypeKind
  keyword : Keyword kind.name
  second : Option Token
  name : Token
  /-- Type parameters, parameters, a base list and constraints. -/
  between : List Tree
  isSecond : ∀ t ∈ second, kind = .recordType ∧ t.isWord = true ∧
    (t.text = "class".toList ∨ t.text = "struct".toList)
  isName : IsName name.text
  isIdentifier : (Tree.leaf name).isIdentifier = true
  goesOn : ∀ t ∈ between, t.breaksOff = false ∧ t.opens '{' = false ∧ t.is ";" = false

namespace WrittenTypeHead

def keywords (h : WrittenTypeHead) : List Tree :=
  .leaf h.keyword.1 :: (h.second.map fun t => [Tree.leaf t]).getD []

/-- The trees behind the header. -/
def bare (h : WrittenTypeHead) : List Tree :=
  h.keywords ++ .leaf h.name :: h.between

def head (h : WrittenTypeHead) : TypeHead where
  header := h.header.header h.bare
  kind := h.kind
  name := h.name.text
  base := baseOf h.between

end WrittenTypeHead

/-- The name of a namespace: words with dots between them. -/
structure NamespaceName where
  name : WrittenName
  isDotted : ∀ x ∈ name.front, x.1.arguments = none ∧ x.2.text = ".".toList
  isPlain : name.last.arguments = none

/-- A conditional preprocessor line that begins with `name`. -/
abbrev Condition (name : String) :=
  { t : Token // (Tree.leaf t).isCondition name = true }

/-! ## Items -/

inductive WrittenItem
  | namespaceBlock (keyword : Keyword "namespace") (name : NamespaceName)
      (brackets : Brackets '{') (body : List WrittenItem) (ending : Option (Mark ";"))
  | fileNamespace (keyword : Keyword "namespace") (name : NamespaceName) (ending : Mark ";")
  | type (head : WrittenTypeHead) (fits : head.header.fits head.bare = true)
      (isClass : head.kind ≠ .enumType) (brackets : Brackets '{') (body : List WrittenItem)
      (ending : Option (Mark ";"))
  /-- A type with a semicolon in place of a body. -/
  | bodiless (head : WrittenTypeHead) (fits : head.header.fits head.bare = true)
      (isClass : head.kind ≠ .enumType) (begins : beginsHead head.between = true)
      (ending : Mark ";")
  | enumeration (head : WrittenTypeHead) (fits : head.header.fits head.bare = true)
      (isEnum : head.kind = .enumType) (brackets : Brackets '{')
      (members : CommaList WrittenEnumMember) (ending : Option (Mark ";"))
  | property (p : WrittenProperty)
  | method (m : WrittenMethod)
  | other (o : WrittenOther)
  | globalAttributes (tree : Tree) (isGlobal : isGlobalAttributes tree = true)
  /-- A region between preprocessor conditions. -/
  | region (opening : Condition "if") (body : List WrittenItem) (closing : Condition "endif")
  /-- A preprocessor line that divides a region. -/
  | divider (line : Token) (isCondition : line.lexeme.kind = .conditional)
      (divides : (Tree.leaf line).isCondition "if" = false ∧
        (Tree.leaf line).isCondition "endif" = false)

namespace WrittenItem

/-- The semicolon that may stand behind braces. -/
def endingTrees (ending : Option (Mark ";")) : List Tree :=
  (ending.map fun m => [Tree.leaf m.1]).getD []

mutual

/-- The bracket trees that an item is written with. -/
def trees : WrittenItem → List Tree
  | .namespaceBlock k n b body e =>
    .leaf k.1 :: (n.name.trees ++ b.around (allTrees body) :: endingTrees e)
  | .fileNamespace k n e => .leaf k.1 :: (n.name.trees ++ [.leaf e.1])
  | .type h _ _ b body e =>
    h.header.trees ++ h.bare ++ b.around (allTrees body) :: endingTrees e
  | .bodiless h _ _ _ e => h.header.trees ++ h.bare ++ [.leaf e.1]
  | .enumeration h _ _ b members e =>
    h.header.trees ++ h.bare ++
      b.around (members.trees WrittenEnumMember.trees) :: endingTrees e
  | .property p => p.header.trees ++ p.bare
  | .method m => m.header.trees ++ m.bare
  | .other o => o.header.trees ++ o.bare
  | .globalAttributes t _ => [t]
  | .region o body c => .leaf o.1 :: (allTrees body ++ [.leaf c.1])
  | .divider t _ _ => [.leaf t]

def allTrees : List WrittenItem → List Tree
  | [] => []
  | item :: rest => item.trees ++ allTrees rest

end

mutual

/-- What is written. -/
def item : WrittenItem → Item
  | .namespaceBlock k n _ body _ =>
    .namespaceBlock k.1.leading (Tree.span n.name.trees) (items body)
  | .fileNamespace k n _ => .fileNamespace k.1.leading (Tree.span n.name.trees) true
  | .type h _ _ _ body _ => .type h.head (items body) []
  | .bodiless h _ _ _ _ => .type h.head [] []
  | .enumeration h _ _ _ members _ =>
    .type h.head [] (members.elements.map WrittenEnumMember.member)
  | .property p => .property p.head
  | .method m => .method m.head
  | .other o => .other (leadingOf (o.header.trees ++ o.bare))
  | .globalAttributes t _ => .other t.head.leading
  | .region o body _ => .conditional o.1.leading (items body)
  | .divider t _ _ => .other t.leading

def items : List WrittenItem → List Item
  | [] => []
  | item :: rest => item.item :: items rest

end

end WrittenItem

/-- Whether a source consists of some items. -/
def ConsistsOf (source : String) (items : List WrittenItem) : Prop :=
  trees (tokens source.toList) = WrittenItem.allTrees items

end ComponentAtlas.CSharp
