import ComponentAtlas.Unicode.DecimalDigit
import ComponentAtlas.Unicode.Word
import ComponentAtlas.Text.Occurrence

/-!
# Lexemes of C# text

A C# text is cut into lexemes: blanks, comments, preprocessor lines, words, numbers, literals and
marks.  Every character belongs to exactly one lexeme, so the lexemes joined together are the
text again (`flatMap_text_lexemes`).

A string literal is scanned with a stack of open literals and holes, because an interpolated
string may hold expressions which hold strings again.
-/

namespace ComponentAtlas.CSharp

inductive LexemeKind
  /-- Spaces, line ends and byte order marks. -/
  | space
  /-- A line comment without its line end, or a block comment. -/
  | comment
  /-- A preprocessor line that stands for itself, with its line end. -/
  | directive
  /-- A preprocessor line that opens, divides or closes a conditional region. -/
  | conditional
  /-- An identifier or a keyword. -/
  | word
  | number
  /-- A string or character literal. -/
  | literal
  /-- An operator, a bracket or a separator. -/
  | mark
  /-- A quotation mark or a sign that begins nothing. -/
  | stray
  deriving DecidableEq, Repr

structure Lexeme where
  kind : LexemeKind
  text : List Char
  deriving DecidableEq, Repr

/-! ## Literals -/

/-- What a quoted text does with quotation marks, braces and line ends. -/
inductive Quoting
  /-- Backslash escapes; ends with its line. -/
  | plain
  /-- A doubled quotation mark stands for one. -/
  | verbatim
  /-- Closed by as many quotation marks as opened it. -/
  | raw (quotes : Nat)
  deriving DecidableEq, Repr

/-- Something that is open while a string literal is scanned. -/
inductive Open
  /-- A quoted text; with `dollars > 0` that many braces open a hole in it. -/
  | quote (style : Quoting) (dollars : Nat)
  /-- A hole, at some depth of braces of its own. -/
  | hole (dollars depth : Nat)
  deriving DecidableEq, Repr

/-- How many times a character stands at the start of a text. -/
def runLength (c : Char) (cs : List Char) : Nat :=
  (cs.takeWhile (· = c)).length

/-- The length of a character literal at the start of a text. -/
def characterLength? : List Char → Option Nat
  | '\'' :: '\\' :: c :: rest =>
    let digits := if c = 'u' ∨ c = 'U' ∨ c = 'x' then
        (rest.takeWhile fun d => d.isDigit || (d.toLower.isAlpha && d.toLower ≤ 'f')).length
      else 0
    match rest.drop digits with
    | '\'' :: _ => some (digits + 4)
    | _ => none
  | '\'' :: c :: '\'' :: _ => if c = '\'' ∨ c = '\n' then none else some 3
  | _ => none

/-- A quotation that opens at the start of a text, with the length of its opening. -/
def opening? (cs : List Char) : Option (Nat × Open) :=
  let dollars := runLength '$' cs
  match cs.drop dollars with
  | '"' :: rest =>
    let quotes := runLength '"' rest + 1
    if 3 ≤ quotes then some (dollars + quotes, .quote (.raw quotes) dollars)
    else if dollars ≤ 1 then some (dollars + 1, .quote .plain dollars)
    else none
  | '@' :: '"' :: _ => if dollars ≤ 1 then some (dollars + 2, .quote .verbatim dollars) else none
  | '@' :: '$' :: '"' :: _ => if dollars = 0 then some (3, .quote .verbatim 1) else none
  | _ => none

/-- What is open after one more character, and how many characters after it come with it;
`none` when the literal breaks off. -/
def Open.next (top : Open) (under : List Open) (c : Char) (cs : List Char) :
    Option (Nat × List Open) :=
  match top with
  | .quote style dollars =>
    let closed : Option Nat :=
      match style with
      | .plain | .verbatim => if c = '"' then some 0 else none
      | .raw quotes => if c = '"' ∧ quotes ≤ runLength '"' cs + 1 then some (quotes - 1) else none
    if style = .plain ∧ c = '\\' then some (1, top :: under)
    else if style = .plain ∧ (c = '\n' ∨ c = '\r') then none
    else if style = .verbatim ∧ c = '"' ∧ 0 < runLength '"' cs then some (1, top :: under)
    else match closed with
      | some more => some (more, under)
      | none =>
        if dollars = 0 ∨ c ≠ '{' then some (0, top :: under)
        else
          let braces := runLength '{' cs + 1
          if braces = dollars then some (dollars - 1, .hole dollars 0 :: top :: under)
          else if dollars = 1 then some (if braces % 2 = 0 then 1 else 0,
            if braces % 2 = 0 then top :: under else .hole 1 0 :: top :: under)
          else some (0, top :: under)
  | .hole dollars depth =>
    match opening? (c :: cs) with
    | some (length, opened) => some (length - 1, opened :: top :: under)
    | none =>
      if c = '{' then some (0, .hole dollars (depth + 1) :: under)
      else if c = '}' then
        match depth with
        | 0 => some (dollars - 1, under)
        | d + 1 => some (0, .hole dollars d :: under)
      else match characterLength? (c :: cs) with
        | some length => some (length - 1, top :: under)
        | none => some (0, top :: under)

/-- How many characters it takes until all that is open is closed; the next `skip` characters
are taken unseen. -/
def closingLength? : Nat → List Open → List Char → Option Nat
  | skip, [], _ => some skip
  | _, _ :: _, [] => none
  | skip + 1, opened, _ :: cs => (closingLength? skip opened cs).map (· + 1)
  | 0, top :: under, c :: cs =>
    match top.next under c cs with
    | some (skip, opened) => (closingLength? skip opened cs).map (· + 1)
    | none => none

/-- The length of a string literal of any kind at the start of a text. -/
def stringLength? (cs : List Char) : Option Nat :=
  match opening? cs with
  | some (length, opened) => (closingLength? 0 [opened] (cs.drop length)).map (length + ·)
  | none => none

/-! ## The other lexemes -/

def isSpace (c : Char) : Bool :=
  c == ' ' || c == '\t' || c == '\n' || c == '\r' || c == '\x0b' || c == '\x0c' ||
    c == '\u00a0' || c == '\ufeff' || c == '\u3000'

/-- Whether a character can begin an identifier. -/
def startsWord (c : Char) : Bool :=
  Unicode.isWord c && !Unicode.isDecimalDigit c

/-- The preprocessor lines that stand for themselves. -/
def plainDirectives : List String :=
  ["region", "endregion", "line", "pragma", "nullable", "error", "warning", "define", "undef"]

/-- The length of a preprocessor line at the start of a text, and what kind it is. -/
def directiveLength? : List Char → Option (LexemeKind × Nat)
  | '#' :: rest =>
    let blanks := (rest.takeWhile fun c => c = ' ' || c = '\t').length
    let name := (rest.drop blanks).takeWhile Char.isAlpha
    let line := (rest.takeWhile (· ≠ '\n')).length
    let head := String.ofList name
    if plainDirectives.contains head then
      some (.directive, if line < rest.length then line + 2 else line + 1)
    else if head = "if" ∨ head = "elif" then some (.conditional, line + 1)
    else if head = "else" ∨ head = "endif" then some (.conditional, blanks + name.length + 1)
    else none
  | _ => none

/-- The length of a block comment's text after its opening, when it is closed. -/
def blockCommentLength? : List Char → Option Nat
  | '*' :: '/' :: _ => some 2
  | _ :: cs => (blockCommentLength? cs).map (· + 1)
  | [] => none

/-- The length of a comment at the start of a text. -/
def commentLength? : List Char → Option Nat
  | '/' :: '/' :: rest => some ((rest.takeWhile fun c => c ≠ '\n' && c ≠ '\r').length + 2)
  | '/' :: '*' :: rest => (blockCommentLength? rest).map (· + 2)
  | _ => none

/-- The marks of two characters that are one lexeme. -/
def doubleMarks : List (List Char) :=
  [['=', '>'], ['=', '='], ['!', '='], ['<', '='], ['>', '='], [':', ':']]

/-- The kind and the length of the lexeme that begins with `c`. -/
def measure (c : Char) (cs : List Char) : LexemeKind × Nat :=
  if isSpace c then (.space, (cs.takeWhile isSpace).length + 1)
  else if let some n := commentLength? (c :: cs) then (.comment, n)
  else if let some found := directiveLength? (c :: cs) then found
  else if let some n := stringLength? (c :: cs) then (.literal, n)
  else if let some n := characterLength? (c :: cs) then (.literal, n)
  else if startsWord c then (.word, (cs.takeWhile Unicode.isWord).length + 1)
  else if c = '@' then
    match cs with
    | d :: rest =>
      if startsWord d then (.word, (rest.takeWhile Unicode.isWord).length + 2) else (.stray, 1)
    | [] => (.stray, 1)
  else if Unicode.isDecimalDigit c then (.number, (cs.takeWhile Unicode.isWord).length + 1)
  else if doubleMarks.contains [c, cs.headD ' '] then (.mark, 2)
  else if "{}()[]<>;:,.=?!+-*/%&|^~".toList.contains c then (.mark, 1)
  else (.stray, 1)

/-- The lexemes of a text. -/
def lexemes : List Char → List Lexeme
  | [] => []
  | c :: cs =>
    let (kind, length) := measure c cs
    ⟨kind, c :: cs.take (length - 1)⟩ :: lexemes (cs.drop (length - 1))
  termination_by cs => cs.length
  decreasing_by
    simp only [List.length_drop, List.length_cons]
    omega

/-- Lexing loses nothing and adds nothing. -/
theorem flatMap_text_lexemes (cs : List Char) : (lexemes cs).flatMap (·.text) = cs := by
  induction cs using lexemes.induct with
  | case1 => simp [lexemes]
  | case2 c cs kind length h ih =>
    rw [lexemes, h]
    simp only [List.flatMap_cons, ih, List.cons_append, List.take_append_drop]

end ComponentAtlas.CSharp
