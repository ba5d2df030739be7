import ComponentAtlas.CSharp.Item

/-!
# Reading items from bracket trees

A declaration runs up to its semicolon or through its braces; an initialiser or an expression
body runs on to the semicolon whatever braces it holds.  Its shape follows from what stands in
front: attribute lists, modifiers, then a keyword or a type and a name.

What has no shape is skipped, one tree at a time, until a declaration can be read again.
-/

namespace ComponentAtlas.CSharp

/-! ## Words -/

def modifierWords : List String :=
  ["public", "protected", "internal", "private", "static", "virtual", "override", "sealed",
    "abstract", "new", "required", "readonly", "extern", "unsafe", "async", "partial", "const",
    "volatile", "file", "ref", "fixed"]

/-- Modifiers that are words like any other where no declaration follows them. -/
def softModifierWords : List String :=
  ["required", "async", "partial", "file"]

def accessWords : List String :=
  ["public", "protected", "internal", "private"]

/-- Keywords that name a type. -/
def typeWords : List String :=
  ["bool", "byte", "char", "decimal", "double", "float", "int", "long", "object", "sbyte",
    "short", "string", "uint", "ulong", "ushort", "void"]

/-- Keywords that name nothing. -/
def reservedWords : List String :=
  ["abstract", "as", "base", "break", "case", "catch", "checked", "class", "const", "continue",
    "default", "delegate", "do", "else", "enum", "event", "explicit", "extern", "false",
    "finally", "fixed", "for", "foreach", "goto", "if", "implicit", "in", "interface",
    "internal", "is", "lock", "namespace", "new", "null", "operator", "out", "override",
    "params", "private", "protected", "public", "readonly", "ref", "return", "sealed", "sizeof",
    "stackalloc", "static", "struct", "switch", "this", "throw", "true", "try", "typeof",
    "unchecked", "unsafe", "using", "virtual", "volatile", "while"]

def Token.isOneOf (t : Token) (words : List String) : Bool :=
  t.isWord && words.any fun w => t.text == w.toList

namespace Tree

def isOneOf (words : List String) : Tree → Bool
  | .leaf t => t.isOneOf words
  | .group _ _ _ => false

/-- Whether a tree is a word that can name a type. -/
def namesType (t : Tree) : Bool :=
  t.word?.isSome && !t.isOneOf reservedWords

/-- Whether a tree is a word that can name a member. -/
def isIdentifier (t : Tree) : Bool :=
  t.namesType && !t.isOneOf typeWords

/-- Whether a tree is a preprocessor line of a conditional region. -/
def isConditional : Tree → Bool
  | .leaf t => t.lexeme.kind == .conditional
  | .group _ _ _ => false

/-- Whether a tree is a conditional preprocessor line that begins with `name`. -/
def isCondition (name : String) : Tree → Bool
  | .leaf t =>
    t.lexeme.kind == .conditional &&
      (t.text.drop 1 |>.dropWhile fun c => c = ' ' || c = '\t').takeWhile Char.isAlpha
        == name.toList
  | .group _ _ _ => false

/-- Whether a tree is a bracket without its partner, or a sign that begins nothing. -/
def isLost : Tree → Bool
  | .leaf t => t.opensBracket || t.closesBracket || t.lexeme.kind == .stray
  | .group _ _ _ => false

/-- The text that some trees span. -/
def span (ts : List Tree) : List Char :=
  spanText (allTokens ts)

end Tree

/-! ## Types and names -/

/-- How many trees there are up to the angle bracket that closes an argument list, that bracket
included; `depth` lists are open within it. -/
def argumentsLength? (depth : Nat) : List Tree → Option Nat
  | [] => none
  | t :: rest =>
    if t.is "<" then (argumentsLength? (depth + 1) rest).map (· + 1)
    else if t.is ">" then
      match depth with
      | 0 => some 1
      | d + 1 => (argumentsLength? d rest).map (· + 1)
    else if t.word?.isSome || t.opens '(' || t.opens '[' || t.is "," || t.is "." || t.is "::" ||
        t.is "?" || t.is "*" then
      (argumentsLength? depth rest).map (· + 1)
    else none

/-- Where the reading of a dotted name stands: before a part, behind one, or so many trees before
the end of a type argument list. -/
inductive NamePlace
  | part
  | afterPart
  | arguments (left : Nat)

/-- How many trees a dotted name with type arguments takes. -/
def nameLength? : NamePlace → List Tree → Option Nat
  | .part, [] => none
  | .part, t :: rest => if t.namesType then (nameLength? .afterPart rest).map (· + 1) else none
  | .afterPart, [] => some 0
  | .afterPart, t :: rest =>
    if t.is "." || t.is "::" then (nameLength? .part rest).map (· + 1)
    else if t.is "<" then
      match argumentsLength? 0 rest with
      | some n => (nameLength? (.arguments n) rest).map (· + 1)
      | none => some 0
    else some 0
  | .arguments _, [] => some 0
  | .arguments left, _ :: rest =>
    (nameLength? (if left ≤ 1 then .afterPart else .arguments (left - 1)) rest).map (· + 1)

/-- How many trees the marks behind a type's name take: nullable, pointer and array marks. -/
def suffixLength (ts : List Tree) : Nat :=
  (ts.takeWhile fun t => t.is "?" || t.is "*" || t.opens '[').length

/-- How many trees a type takes: a name, a tuple or a function pointer, and its marks. -/
def typeLength? (ts : List Tree) : Option Nat :=
  let refs := (ts.takeWhile (Tree.isOneOf ["ref", "readonly", "scoped"])).length
  let named := ts.drop refs
  let base? :=
    match named with
    | t :: rest =>
      if t.opens '(' then some 1
      else if t.is "delegate" && (rest.headD t).is "*" then
        (nameLength? .afterPart (rest.drop 1)).map (· + 2)
      else nameLength? .part named
    | [] => none
  base?.map fun n => refs + n + suffixLength (named.drop n)

/-- The last part of a dotted name: its last word outside all angle brackets. -/
def lastPart? (depth : Nat) : List Tree → Option Token
  | [] => none
  | t :: rest =>
    if t.is "<" then lastPart? (depth + 1) rest
    else if t.is ">" then lastPart? (depth - 1) rest
    else if depth = 0 then (lastPart? 0 rest).or t.word?
    else lastPart? depth rest

/-! ## Attributes and modifiers -/

/-- The parts of a list between its commas, those of type arguments not counted; always at least
one.  The next `skip` trees belong to type arguments. -/
def commaParts (skip : Nat) : List Tree → List (List Tree)
  | [] => [[]]
  | t :: rest =>
    if skip = 0 ∧ t.is "," then [] :: commaParts 0 rest
    else
      let skip' :=
        if 0 < skip then skip - 1
        else if t.is "<" then (argumentsLength? 0 rest).getD 0
        else 0
      match commaParts skip' rest with
      | [] => [[t]]
      | part :: parts => (t :: part) :: parts

/-- The attributes of one bracketed list, without the target in front of a colon. -/
def attributesOf (inside : List Tree) : List (List Char) :=
  let named :=
    match inside with
    | target :: colon :: rest => if target.word?.isSome && colon.is ":" then rest else inside
    | _ => inside
  (commaParts 0 named).filterMap fun part => if part.isEmpty then none else some (Tree.span part)

/-- Whether a tree is an attribute list for the whole assembly or module. -/
def isGlobalAttributes (t : Tree) : Bool :=
  match t.inside? '[' with
  | some (target :: colon :: _) => target.isOneOf ["assembly", "module"] && colon.is ":"
  | _ => false

/-- Whether a modifier word is one here, judged by what follows it. -/
def isModifierBefore (t : Tree) (rest : List Tree) : Bool :=
  if t.is "ref" then (rest.headD t).isOneOf ["struct", "partial"]
  else t.isOneOf modifierWords &&
    (!t.isOneOf softModifierWords ||
      match rest with
      | next :: more =>
        next.word?.isSome ||
          (next.opens '(' && (more.headD next).word?.isSome)
      | [] => false)

/-- The modifiers at the start of a list, and what follows them. -/
def takeModifiers : List Tree → List (List Char) × List Tree
  | [] => ([], [])
  | t :: rest =>
    if isModifierBefore t rest then
      let (words, after) := takeModifiers rest
      (t.head.text :: words, after)
    else ([], t :: rest)

/-- The attributes at the start of a list, and what follows them. -/
def takeAttributes : List Tree → List (List Char) × List Tree
  | [] => ([], [])
  | t :: rest =>
    match t.inside? '[' with
    | some inside =>
      let (attributes, after) := takeAttributes rest
      (attributesOf inside ++ attributes, after)
    | none => ([], t :: rest)

/-! ## Extents -/

/-- How many trees a declaration takes: up to a semicolon, or through braces unless an
initialiser or an expression body (`inExpression`) has begun. -/
def extent? (inExpression : Bool) : List Tree → Option Nat
  | [] => none
  | t :: rest =>
    if t.isConditional || t.isLost then none
    else if t.is ";" then some 1
    else if t.is "=" || t.is "=>" then (extent? true rest).map (· + 1)
    else if !inExpression && t.opens '{' then some 1
    else (extent? inExpression rest).map (· + 1)

/-- How many trees there are up to the line that closes a conditional region, that line
included; `depth` regions are open within it. -/
def regionLength? (depth : Nat) : List Tree → Option Nat
  | [] => none
  | t :: rest =>
    if t.isCondition "if" then (regionLength? (depth + 1) rest).map (· + 1)
    else if t.isCondition "endif" then
      match depth with
      | 0 => some 1
      | d + 1 => (regionLength? d rest).map (· + 1)
    else (regionLength? depth rest).map (· + 1)

/-! ## Types -/

/-- The member between two commas of an enumeration's body. -/
def enumMember? (part : List Tree) : Option EnumMember :=
  match takeAttributes part with
  | (_, name :: rest) =>
    match name.word? with
    | some word =>
      let value :=
        match rest with
        | mark :: value => if mark.is "=" && !value.isEmpty then some (Tree.span value) else none
        | [] => none
      (part.head?).map fun first => ⟨first.head.leading, Tree.span part, word.text, value⟩
    | none => none
  | _ => none

/-- Whether a list of trees is one conditional region and nothing else. -/
def isRegion : List Tree → Bool
  | [] => false
  | t :: rest => t.isCondition "if" && regionLength? 0 rest == some rest.length

/-- The members of an enumeration's body.  A conditional region between two commas stands for no
member; a region that holds a comma makes the whole body unreadable. -/
def enumMembers (body : List Tree) : List EnumMember :=
  let parts := (commaParts 0 body).filter fun part => !isRegion part
  if parts.any (·.any Tree.isConditional) then [] else parts.filterMap enumMember?

/-- The first entry of the base list in what stands between a type's name and its body. -/
def baseOf (head : List Tree) : Option (List Char) :=
  match (head.takeWhile fun t => !t.is "where").dropWhile fun t => !t.is ":" with
  | _ :: first :: rest =>
    match first.head.leading.find? fun l => l.kind != .space with
    | some l => some l.text
    | none => (typeLength? (first :: rest)).map fun n => Tree.span ((first :: rest).take n)
  | _ => none

/-- The kind of the type whose declaration begins here, and what follows its keywords. -/
def typeKeyword? : List Tree → Option (TypeKind × List Tree)
  | t :: rest =>
    if t.is "class" then some (.classType, rest)
    else if t.is "interface" then some (.interfaceType, rest)
    else if t.is "struct" then some (.structType, rest)
    else if t.is "enum" then some (.enumType, rest)
    else if t.is "record" then
      match rest with
      | next :: more =>
        if next.is "class" || next.is "struct" then some (.recordType, more)
        else if next.isIdentifier then some (.recordType, rest)
        else none
      | [] => none
    else none
  | [] => none

/-- Without the semicolon that may follow a body. -/
def dropSemicolon : List Tree → List Tree
  | [] => []
  | t :: rest => if t.is ";" then rest else t :: rest

/-- Whether what follows a type's name can stand between name and body: type parameters,
parameters, a base list or constraints, or nothing. -/
def beginsHead (head : List Tree) : Bool :=
  head.head?.all fun t => t.is "<" || t.opens '(' || t.is ":" || t.is "where"

/-- A type declaration: its name, what stands between name and body, its body, and the trees
behind it.  A semicolon may stand in place of a body. -/
def typeDeclaration? : List Tree → Option (Token × List Tree × List Tree × List Tree)
  | [] => none
  | name :: rest =>
    let head := rest.takeWhile fun t => !t.opens '{' && !t.is ";"
    let behind := rest.drop head.length
    if head.any fun t => t.isLost || t.isConditional || t.isOneOf accessWords then none
    else
      match (if name.isIdentifier then name.word? else none), behind with
      | some word, body :: after =>
        match body.inside? '{' with
        | some inside => some (word, head, inside, dropSemicolon after)
        | none => if beginsHead head then some (word, head, [], after) else none
      | _, _ => none

/-! ## Items -/

/-- A property or a method, without regard to where it ends: its type, then its name, then its
accessors, its expression body or its parameter list. -/
def member? (header : Header) (ts : List Tree) : Option Item := do
  let n ← typeLength? ts
  let named := ts.drop n
  let m ← nameLength? .part named
  let name ← lastPart? 0 (named.take m)
  if !(Tree.leaf name).isIdentifier then none
  else
    match named.drop m with
    | [] => none
    | next :: after =>
      if next.opens '(' then
        some (.method ⟨header, Tree.span (ts.take n), name.text, Tree.span [next]⟩)
      else if next.opens '{' then
        some (.property ⟨header, Tree.span (ts.take n), name.text,
          some ((Tree.allTokens after).flatMap (·.fullText))⟩)
      else if next.is "=>" then
        some (.property ⟨header, Tree.span (ts.take n), name.text, none⟩)
      else none

/-- How many trees a member or a statement takes; an initialiser may follow its braces. -/
def memberExtent? (ts : List Tree) : Option Nat :=
  match extent? false ts with
  | none => none
  | some n =>
    match ts.drop n with
    | next :: rest => if next.is "=" then (extent? true rest).map (n + 1 + ·) else some n
    | [] => some n

/-- The item at the start of a non-empty list of trees, and the trees behind it.  `read` reads
the items of a body. -/
def readItem (read : List Tree → List Item) (first : Tree) (rest : List Tree) :
    Item × List Tree :=
  let ts := first :: rest
  let leading := first.head.leading
  let skipped : Item × List Tree := (.skipped leading, rest)
  if first.isConditional then
    if first.isCondition "if" then
      match regionLength? 0 rest with
      | some n => (.conditional leading (read (rest.take (n - 1))), rest.drop n)
      | none => skipped
    else (.other leading, rest)
  else if isGlobalAttributes first || first.is ";" then (.other leading, rest)
  else
    let (attributes, unattributed) := takeAttributes ts
    let (modifiers, bare) := takeModifiers unattributed
    let header : Header := ⟨leading, attributes, modifiers⟩
    match typeKeyword? bare with
    | some (kind, named) =>
      match typeDeclaration? named with
      | some (name, head, body, after) =>
        let typeHead : TypeHead := ⟨header, kind, name.text, baseOf head⟩
        if kind = .enumType then (.type typeHead [] (enumMembers body), after)
        else (.type typeHead (read body) [], after)
      | none => skipped
    | none =>
      if (bare.headD first).is "namespace" then
        let named := bare.drop 1
        match nameLength? .part named with
        | some n =>
          let name := Tree.span (named.take n)
          match named.drop n with
          | next :: after =>
            match next.inside? '{' with
            | some body => (.namespaceBlock leading name (read body), dropSemicolon after)
            | none =>
              if next.is ";" then (.fileNamespace leading name true, after)
              else (.fileNamespace leading name false, next :: after)
          | [] => (.fileNamespace leading name false, [])
        | none => skipped
      else
        match memberExtent? bare with
        | none => skipped
        | some n =>
          let trees := bare.take n
          if trees.any (Tree.isOneOf accessWords) then skipped
          else ((member? header trees).getD (.other leading), bare.drop n)

/-- The items of a list of trees; at most `fuel` on each level and in depth. -/
def readItems : Nat → List Tree → List Item
  | 0, _ => []
  | _ + 1, [] => []
  | fuel + 1, t :: rest =>
    let (item, after) := readItem (readItems fuel) t rest
    item :: readItems fuel after

/-- The items of a whole list of trees: no list has more items than tokens. -/
def items (ts : List Tree) : List Item :=
  readItems ((Tree.allTokens ts).length + 1) ts

/-- The items of a source text. -/
def parse (source : String) : List Item :=
  items (trees (tokens source.toList))

theorem parse_ofList (cs : List Char) : parse (String.ofList cs) = items (trees (tokens cs)) := by
  rw [parse, String.toList_ofList]

end ComponentAtlas.CSharp
