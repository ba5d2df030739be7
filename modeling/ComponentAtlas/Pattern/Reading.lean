import ComponentAtlas.Pattern.Basic

/-!
# Written patterns

The usual notation of patterns: letters stand for themselves, a dot for any character but a line
end, brackets for classes, backslashes for kinds of characters and for signs taken literally,
parentheses for groups, a bar between choices, and behind a part how often it may repeat.
-/

namespace ComponentAtlas.Pattern

/-- Any of two lists of choices, the first one last. -/
def ofChoices : List Pattern → Pattern
  | [] => .empty
  | [p] => p
  | p :: rest => .alt p (ofChoices rest)

def ofSequence : List Pattern → Pattern
  | [] => .empty
  | [p] => p
  | p :: rest => .seq p (ofSequence rest)

def literal (c : Char) : Pattern := .anyOf [.range c c] false

/-- Whether a backslash in front of a sign takes it literally. -/
def isEscapable (c : Char) : Bool :=
  decide (c.toNat < 128) && !c.isAlphanum && c != '<' && c != '>'

/-- The sign that a letter stands for behind a backslash. -/
def controlLetter? : Char → Option Char
  | 'n' => some '\n'
  | 't' => some '\t'
  | 'r' => some '\r'
  | 'f' => some '\x0c'
  | 'v' => some '\x0b'
  | 'a' => some '\x07'
  | _ => none

def kindLetter? : Char → Option ClassItem
  | 'd' => some (.kind .digit false)
  | 'D' => some (.kind .digit true)
  | 'w' => some (.kind .word false)
  | 'W' => some (.kind .word true)
  | 's' => some (.kind .blank false)
  | 'S' => some (.kind .blank true)
  | _ => none

/-- The pattern for an escaped character. -/
def escaped? (c : Char) : Option Pattern :=
  match kindLetter? c with
  | some item => some (.anyOf [item] false)
  | none =>
    if c = 'b' then some (.at .wordBoundary)
    else if c = 'B' then some (.at .noWordBoundary)
    else if c = 'A' then some (.at .textStart)
    else if c = 'z' then some (.at .textEnd)
    else match controlLetter? c with
      | some d => some (literal d)
      | none => if isEscapable c then some (literal c) else none

/-- A single character inside a class, and what follows it. -/
def classCharacter? : List Char → Option (Char × List Char)
  | '\\' :: c :: rest =>
    ((controlLetter? c).or (if isEscapable c then some c else none)).map (·, rest)
  | '\\' :: [] => none
  | '[' :: _ => none
  | c :: rest => some (c, rest)
  | [] => none

/-- The items of a class up to its closing bracket, and what follows that. -/
def classItems? : Nat → List Char → Option (List ClassItem × List Char)
  | 0, _ => none
  | _ + 1, [] => none
  | _ + 1, ']' :: rest => some ([], rest)
  | fuel + 1, s => do
    let (item, rest) ←
      match s with
      | '\\' :: c :: rest =>
        match kindLetter? c with
        | some item => some (item, rest)
        | none => (classCharacter? s).map fun (c, rest) => (ClassItem.range c c, rest)
      | _ => (classCharacter? s).map fun (c, rest) => (ClassItem.range c c, rest)
    let (item, rest) ←
      match item, rest with
      | .range first _, '-' :: ']' :: more => some (ClassItem.range first first, '-' :: ']' :: more)
      | .range first _, '-' :: more =>
        (classCharacter? more).bind fun (last, behind) =>
          if first ≤ last then some (ClassItem.range first last, behind) else none
      | item, rest => some (item, rest)
    let (items, behind) ← classItems? fuel rest
    some (item :: items, behind)

/-- A class behind its opening bracket, and what follows it.  A closing bracket that comes first
stands for itself. -/
def class? (s : List Char) : Option (Pattern × List Char) :=
  let (negated, s) :=
    match s with
    | '^' :: rest => (true, rest)
    | _ => (false, s)
  match s with
  | ']' :: rest =>
    (classItems? (rest.length + 1) rest).map fun (items, behind) =>
      (.anyOf (.range ']' ']' :: items) negated, behind)
  | _ => (classItems? (s.length + 1) s).map fun (items, behind) => (.anyOf items negated, behind)

/-- A number, and what follows it. -/
def number? (s : List Char) : Option (Nat × List Char) :=
  let digits := s.takeWhile Char.isDigit
  if digits.isEmpty then none
  else some (digits.foldl (fun n d => 10 * n + (d.toNat - 48)) 0, s.drop digits.length)

/-- The bounds between braces, and what follows them. -/
def bounds? (s : List Char) : Option ((Nat × Option Nat) × List Char) := do
  let (least, rest) ← number? s
  match rest with
  | '}' :: behind => some ((least, some 0), behind)
  | ',' :: '}' :: behind => some ((least, none), behind)
  | ',' :: more => do
    let (most, behind) ← number? more
    match behind with
    | '}' :: behind => if least ≤ most then some ((least, some (most - least)), behind) else none
    | _ => none
  | _ => none

/-- What stands in front of a group's contents besides its parenthesis. -/
def groupOpening? : List Char → Option (List Char)
  | '?' :: ':' :: rest => some rest
  | '?' :: 'P' :: '<' :: rest | '?' :: '<' :: rest =>
    let name := rest.takeWhile fun c => Unicode.isWord c
    match name, rest.drop name.length with
    | c :: _, '>' :: behind => if Unicode.isDecimalDigit c then none else some behind
    | _, _ => none
  | '?' :: _ => none
  | s => some s

/-- The repetitions of a part, and what follows them; a question mark behind a repetition says
nothing about whether it occurs. -/
def repetitions? : Nat → Pattern → List Char → Option (Pattern × List Char)
  | 0, _, _ => none
  | fuel + 1, p, s =>
    let lazily (rest : List Char) :=
      match rest with
      | '?' :: behind => behind
      | _ => rest
    match s with
    | '*' :: rest => repetitions? fuel (.repeated p 0 none) (lazily rest)
    | '+' :: rest => repetitions? fuel (.repeated p 1 none) (lazily rest)
    | '?' :: rest => repetitions? fuel (.repeated p 0 (some 1)) (lazily rest)
    | '{' :: rest =>
      match bounds? rest with
      | some ((least, more), behind) => repetitions? fuel (.repeated p least more) (lazily behind)
      | none => none
    | _ => some (p, s)

/-- The choices up to a closing parenthesis or the end, and what follows; `parts` are the parts
of the choice begun, last first. -/
def choices? : Nat → List Pattern → List Char → Option (List Pattern × List Char)
  | 0, _, _ => none
  | _ + 1, parts, [] => some ([ofSequence parts.reverse], [])
  | fuel + 1, parts, c :: rest =>
    let done := ofSequence parts.reverse
    if c = ')' then some ([done], c :: rest)
    else if c = '|' then
      (choices? fuel [] rest).map fun (others, behind) => (done :: others, behind)
    else do
      let (part, behind) ←
        match c with
        | '(' => do
          let inside ← groupOpening? rest
          let (choices, behind) ← choices? fuel [] inside
          match behind with
          | ')' :: behind => some (ofChoices choices, behind)
          | _ => none
        | '[' => class? rest
        | '.' => some (.anyOf [.range '\n' '\n'] true, rest)
        | '^' => some (.at .textStart, rest)
        | '$' => some (.at .textEnd, rest)
        | '\\' =>
          match rest with
          | d :: behind => (escaped? d).map (·, behind)
          | [] => none
        | '*' | '+' | '?' | '{' => none
        | _ => some (literal c, rest)
      let (part, behind) ← repetitions? (behind.length + 1) part behind
      choices? fuel (part :: parts) behind

/-- The pattern that a text spells, if it spells one. -/
def ofText? (text : String) : Option Pattern :=
  let s := text.toList
  match choices? (2 * s.length + 1) [] s with
  | some (choices, []) => some (ofChoices choices)
  | _ => none

/-- The tags of those rules of a table whose patterns occur in a text, in table order, each once;
nothing when a pattern is not well written. -/
def tagsOf? (rules : List (String × String)) (text : String) : Option (List String) :=
  (rules.mapM fun rule => (ofText? rule.1).map fun p => (p, rule.2)).map
    fun (compiled : List (Pattern × String)) =>
      (compiled.filterMap fun rule =>
        if rule.1.occurs text.toList then some rule.2 else none).eraseDups

end ComponentAtlas.Pattern
