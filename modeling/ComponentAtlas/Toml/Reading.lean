import ComponentAtlas.Toml.Value
import ComponentAtlas.Text.Occurrence

/-!
# Reading TOML

A document is a sequence of lines: headers that open a table, keys with values, and comments.
Each reader takes a text and gives what it read with the rest of the text, or nothing when the
text is not well formed.
-/

namespace ComponentAtlas.Toml

open Text

abbrev Reader (α : Type) := List Char → Option (α × List Char)

/-! ## Blanks and comments -/

def isSpace (c : Char) : Bool := c == ' ' || c == '\t'

def skipSpaces (s : List Char) : List Char := s.dropWhile isSpace

/-- Whether a character may stand in a comment or a quoted text: no control character but the
tab. -/
def isPlain (c : Char) : Bool :=
  (decide (32 ≤ c.toNat) || c == '\t') && c.toNat != 127

/-- What follows a line end, or the end of the text. -/
def lineEnd? : List Char → Option (List Char)
  | [] => some []
  | '\n' :: rest => some rest
  | '\r' :: '\n' :: rest => some rest
  | _ => none

/-- What follows the comment at the start of a text, if there is one. -/
def skipComment (s : List Char) : List Char :=
  match s with
  | '#' :: rest => rest.dropWhile isPlain
  | _ => s

/-- What follows spaces, comments and line ends. -/
def skipLines : Nat → List Char → List Char
  | 0, s => s
  | fuel + 1, s =>
    let next := skipComment (skipSpaces s)
    match next with
    | '\n' :: rest => skipLines fuel rest
    | '\r' :: '\n' :: rest => skipLines fuel rest
    | _ => next

/-! ## Quoted texts -/

def hexValue? (c : Char) : Option Nat :=
  if c.isDigit then some (c.toNat - 48)
  else
    let l := c.toLower
    if 'a' ≤ l ∧ l ≤ 'f' then some (l.toNat - 87) else none

/-- The number that some hexadecimal digits spell. -/
def hexNumber? (digits : List Char) : Option Nat :=
  digits.foldlM (fun n d => (hexValue? d).map (16 * n + ·)) 0

/-- The character with the code point that the next `n` hexadecimal digits spell. -/
def codePoint? (n : Nat) (s : List Char) : Option (Char × List Char) :=
  if s.length < n then none
  else (hexNumber? (s.take n)).bind fun code =>
    if code < 0xD800 ∨ (0xDFFF < code ∧ code < 0x110000) then
      some (Char.ofNat code, s.drop n)
    else none

/-- The character that an escape stands for. -/
def escape? : List Char → Option (Char × List Char)
  | 'b' :: rest => some ('\x08', rest)
  | 't' :: rest => some ('\t', rest)
  | 'n' :: rest => some ('\n', rest)
  | 'f' :: rest => some ('\x0c', rest)
  | 'r' :: rest => some ('\r', rest)
  | '"' :: rest => some ('"', rest)
  | '\\' :: rest => some ('\\', rest)
  | 'u' :: rest => codePoint? 4 rest
  | 'U' :: rest => codePoint? 8 rest
  | _ => none

/-- A quoted text on one line, behind its opening quotation mark. -/
def basicText? : Nat → Reader (List Char)
  | 0, _ => none
  | fuel + 1, s =>
    match s with
    | '"' :: rest => some ([], rest)
    | '\\' :: rest =>
      (escape? rest).bind fun (c, rest) =>
        (basicText? fuel rest).map fun (cs, rest) => (c :: cs, rest)
    | c :: rest =>
      if isPlain c then (basicText? fuel rest).map fun (cs, rest) => (c :: cs, rest) else none
    | [] => none

/-- A text between single quotation marks, behind the opening one. -/
def literalText? (s : List Char) : Option (List Char × List Char) :=
  let text := s.takeWhile fun c => c ≠ '\''
  if text.all isPlain then
    (after? ['\''] (s.drop text.length)).map fun rest => (text, rest)
  else none

/-- Whether a backslash ends its line, and what follows the blanks and line ends behind it. -/
def lineContinuation? (s : List Char) : Option (List Char) :=
  let rest := skipSpaces s
  match rest with
  | '\n' :: _ | '\r' :: '\n' :: _ =>
    some (rest.dropWhile fun c => isSpace c || c == '\n' || c == '\r')
  | _ => none

/-- A text over several lines, behind its opening marks `q`; two marks at most may stand before
the closing ones. -/
def multilineText? (q : Char) (escapes : Bool) : Nat → Reader (List Char)
  | 0, _ => none
  | fuel + 1, s =>
    let more (c : Char) (rest : List Char) :=
      (multilineText? q escapes fuel rest).map fun (cs, rest) => (c :: cs, rest)
    match after? [q, q, q] s with
    | some rest =>
      match rest with
      | a :: b :: behind =>
        if a = q ∧ b = q then some ([q, q], behind)
        else if a = q then some ([q], b :: behind)
        else some ([], rest)
      | [a] => if a = q then some ([q], []) else some ([], rest)
      | [] => some ([], [])
    | none =>
      match s with
      | '\r' :: '\n' :: rest =>
        (multilineText? q escapes fuel rest).map fun (cs, rest) => ('\n' :: cs, rest)
      | '\n' :: rest => more '\n' rest
      | '\\' :: rest =>
        if escapes then
          match lineContinuation? rest with
          | some rest => multilineText? q escapes fuel rest
          | none => (escape? rest).bind fun (c, rest) => more c rest
        else more '\\' rest
      | c :: rest => if isPlain c then more c rest else none
      | [] => none

/-- The text behind the opening marks of a multiline text; a line end directly behind them does
not count. -/
def dropFirstLineEnd : List Char → List Char
  | '\n' :: rest => rest
  | '\r' :: '\n' :: rest => rest
  | s => s

/-- A quoted text of any kind. -/
def text? : Reader (List Char) := fun s =>
  match after? ['"', '"', '"'] s with
  | some rest => multilineText? '"' true (rest.length + 1) (dropFirstLineEnd rest)
  | none =>
    match after? ['\'', '\'', '\''] s with
    | some rest => multilineText? '\'' false (rest.length + 1) (dropFirstLineEnd rest)
    | none =>
      match s with
      | '"' :: rest => basicText? (rest.length + 1) rest
      | '\'' :: rest => literalText? rest
      | _ => none

/-! ## Keys -/

def isBareKey (c : Char) : Bool := c.isAlphanum || c == '_' || c == '-'

def keyPart? : Reader String := fun s =>
  match s with
  | '"' :: rest => (basicText? (rest.length + 1) rest).map fun (cs, rest) => (String.ofList cs, rest)
  | '\'' :: rest => (literalText? rest).map fun (cs, rest) => (String.ofList cs, rest)
  | _ =>
    let bare := s.takeWhile isBareKey
    if bare.isEmpty then none else some (String.ofList bare, s.drop bare.length)

/-- A key: parts between dots, with spaces around them. -/
def key? : Nat → Reader (List String)
  | 0, _ => none
  | fuel + 1, s =>
    (keyPart? (skipSpaces s)).bind fun (part, rest) =>
      let rest := skipSpaces rest
      match rest with
      | '.' :: more => (key? fuel more).map fun (parts, rest) => (part :: parts, rest)
      | _ => some ([part], rest)

/-! ## Numbers, dates and words -/

/-- Digits without the underscores between them; an underscore stands between two digits. -/
def plainDigits? (isDigit : Char → Bool) : List Char → Option (List Char)
  | [] => none
  | [d] => if isDigit d then some [d] else none
  | d :: '_' :: rest => if isDigit d then (plainDigits? isDigit rest).map (d :: ·) else none
  | d :: rest => if isDigit d then (plainDigits? isDigit rest).map (d :: ·) else none

def numberInBase (base : Nat) (digits : List Char) : Option Nat :=
  digits.foldlM (fun n d => (hexValue? d).bind fun v =>
    if v < base then some (base * n + v) else none) 0

/-- A number behind the letter of its base. -/
def basedInteger? (base : Nat) (s : List Char) : Option Int :=
  (plainDigits? (fun c => (hexValue? c).any (· < base)) s).bind fun digits =>
    (numberInBase base digits).map Int.ofNat

/-- Decimal digits without a leading zero. -/
def decimalDigits? (s : List Char) : Option (List Char) :=
  (plainDigits? Char.isDigit s).bind fun digits =>
    match digits with
    | '0' :: _ :: _ => none
    | _ => some digits

def unsigned (s : List Char) : Bool × List Char :=
  match s with
  | '-' :: rest => (true, rest)
  | '+' :: rest => (false, rest)
  | _ => (false, s)

/-- A whole number of sixty-four bits. -/
def integer? (s : List Char) : Option Int :=
  let read :=
    match s with
    | '0' :: 'x' :: rest => basedInteger? 16 rest
    | '0' :: 'o' :: rest => basedInteger? 8 rest
    | '0' :: 'b' :: rest => basedInteger? 2 rest
    | _ =>
      let (negative, digits) := unsigned s
      (decimalDigits? digits).bind fun digits =>
        (numberInBase 10 digits).map fun n => if negative then -Int.ofNat n else Int.ofNat n
  read.bind fun n =>
    if Int64.minValue.toInt ≤ n ∧ n ≤ Int64.maxValue.toInt then some n else none

/-- Whether a word is a number with a fraction or an exponent, an infinity, or not a number. -/
def isFloat (s : List Char) : Bool :=
  let body := (unsigned s).2
  if body == "inf".toList || body == "nan".toList then true
  else
    let whole := body.takeWhile fun c => c.isDigit || c == '_'
    let rest := body.drop whole.length
    let exponentFits (e : List Char) : Bool :=
      match e with
      | c :: digits => (c == 'e' || c == 'E') && (plainDigits? Char.isDigit (unsigned digits).2).isSome
      | [] => true
    (decimalDigits? whole).isSome &&
      match rest with
      | '.' :: fraction =>
        let digits := fraction.takeWhile fun c => c.isDigit || c == '_'
        (plainDigits? Char.isDigit digits).isSome && exponentFits (fraction.drop digits.length)
      | [] => false
      | _ => exponentFits rest

/-- A number of exactly `width` digits between two bounds, and the text behind it. -/
def field? (width low high : Nat) (s : List Char) : Option (Nat × List Char) :=
  let digits := s.take width
  if digits.length = width ∧ digits.all Char.isDigit then
    (numberInBase 10 digits).bind fun n =>
      if low ≤ n ∧ n ≤ high then some (n, s.drop width) else none
  else none

def daysIn (year month : Nat) : Nat :=
  if month = 2 then
    if year % 4 = 0 ∧ (year % 100 ≠ 0 ∨ year % 400 = 0) then 29 else 28
  else if month = 4 ∨ month = 6 ∨ month = 9 ∨ month = 11 then 30
  else 31

/-- What follows a date. -/
def date? (s : List Char) : Option (List Char) := do
  let (year, s) ← field? 4 0 9999 s
  let s ← after? ['-'] s
  let (month, s) ← field? 2 1 12 s
  let s ← after? ['-'] s
  let (_, s) ← field? 2 1 (daysIn year month) s
  some s

/-- What follows a time of day. -/
def time? (s : List Char) : Option (List Char) := do
  let (_, s) ← field? 2 0 23 s
  let s ← after? [':'] s
  let (_, s) ← field? 2 0 59 s
  let s ← after? [':'] s
  let (_, s) ← field? 2 0 60 s
  match s with
  | '.' :: fraction =>
    let digits := fraction.takeWhile Char.isDigit
    if digits.isEmpty then none else some (fraction.drop digits.length)
  | _ => some s

/-- What follows an offset from universal time, which may be missing. -/
def offset? (s : List Char) : Option (List Char) :=
  match s with
  | c :: rest =>
    if c = 'Z' ∨ c = 'z' then some rest
    else if c = '+' ∨ c = '-' then do
      let (_, s) ← field? 2 0 23 rest
      let s ← after? [':'] s
      let (_, s) ← field? 2 0 59 s
      some s
    else some s
  | [] => some []

/-- What follows a date, a time, or both. -/
def datetime? (s : List Char) : Option (List Char) :=
  match date? s with
  | none => time? s
  | some rest =>
    let timed :=
      match rest with
      | c :: more =>
        if c = 'T' ∨ c = 't' ∨ c = ' ' then (time? more).bind offset? else none
      | [] => none
    some (timed.getD rest)

/-- Whether a character can stand in a number or a word. -/
def isWordCharacter (c : Char) : Bool :=
  c.isAlphanum || c == '_' || c == '+' || c == '-' || c == '.'

/-- A value that is neither quoted nor bracketed. -/
def scalar? : Reader Value := fun s =>
  match datetime? s with
  | some rest => some (.datetime (String.ofList (s.take (s.length - rest.length))), rest)
  | none =>
    let word := s.takeWhile isWordCharacter
    let rest := s.drop word.length
    if word == "true".toList then some (.bool true, rest)
    else if word == "false".toList then some (.bool false, rest)
    else match integer? word with
      | some n => some (.integer n, rest)
      | none => if isFloat word then some (.float (String.ofList word), rest) else none

/-! ## Values -/

mutual

/-- A value; `fuel` bounds its nesting and the number of its parts. -/
def value? : Nat → Reader Value
  | 0, _ => none
  | fuel + 1, s =>
    match s with
    | '"' :: _ | '\'' :: _ => (text? s).map fun (cs, rest) => (.string (String.ofList cs), rest)
    | '[' :: rest => (items? fuel rest).map fun (items, rest) => (.array items, rest)
    | '{' :: rest =>
      match skipSpaces rest with
      | '}' :: behind => some (.table [], behind)
      | rest =>
        (inlineEntries? fuel [] rest).map fun (entries, rest) =>
          (.table (entriesToValues entries), rest)
    | _ => scalar? s

/-- The elements of an array behind its opening bracket or behind a comma. -/
def items? : Nat → Reader (List Value)
  | 0, _ => none
  | fuel + 1, s =>
    match skipLines (s.length + 1) s with
    | ']' :: rest => some ([], rest)
    | s =>
      match value? fuel s with
      | none => none
      | some (v, rest) =>
        match skipLines (rest.length + 1) rest with
        | ',' :: more => (items? fuel more).map fun (vs, rest) => (v :: vs, rest)
        | ']' :: rest => some ([v], rest)
        | _ => none

/-- The entries of an inline table up to its closing brace. -/
def inlineEntries? : Nat → Entries → Reader Entries
  | 0, _, _ => none
  | fuel + 1, entries, s =>
    match key? (s.length + 1) s with
    | some (path, '=' :: rest) =>
      match value? fuel (skipSpaces rest) with
      | none => none
      | some (v, rest) =>
        match entries.enter v path with
        | none => none
        | some entries =>
          match skipSpaces rest with
          | ',' :: more => inlineEntries? fuel entries more
          | '}' :: rest => some (entries, rest)
          | _ => none
    | _ => none

end

/-! ## Documents -/

/-- A document as far as it has been read: its tables, and the header in force. -/
structure Document where
  root : Entries
  header : List String

/-- What follows the end of a line, spaces and a comment aside. -/
def endOfLine? (s : List Char) : Option (List Char) :=
  lineEnd? (skipComment (skipSpaces s))

/-- The document with one more header. -/
def openHeader? (opens : String → Entries → Option Entries) (path : List String)
    (d : Document) : Option Document :=
  match path.getLast? with
  | none => none
  | some key =>
    (Entries.atPath (opens key) path.dropLast d.root).map fun root => ⟨root, path⟩

/-- One line that is not blank. -/
def line? (d : Document) (s : List Char) : Option (Document × List Char) :=
  match s with
  | '[' :: '[' :: rest => do
    let (path, rest) ← key? (rest.length + 1) rest
    let rest ← after? [']', ']'] rest
    let d ← openHeader? Entries.openTables path d
    some (d, ← endOfLine? rest)
  | '[' :: rest => do
    let (path, rest) ← key? (rest.length + 1) rest
    let rest ← after? [']'] rest
    let d ← openHeader? Entries.openTable path d
    some (d, ← endOfLine? rest)
  | _ => do
    let (path, rest) ← key? (s.length + 1) s
    let rest ← after? ['='] rest
    let (v, rest) ← value? (rest.length + 1) (skipSpaces rest)
    let root ← Entries.atPath (fun es => es.enter v path) d.header d.root
    some (⟨root, d.header⟩, ← endOfLine? rest)

def lines? : Nat → Document → List Char → Option Document
  | 0, _, _ => none
  | fuel + 1, d, s =>
    match skipLines (s.length + 1) s with
    | [] => some d
    | s => (line? d s).bind fun (d, rest) => lines? fuel d rest

/-- The table that a text spells, if it is well formed. -/
def parse? (text : String) : Option Value :=
  let s := (after? ['\ufeff'] text.toList).getD text.toList
  (lines? (s.length + 1) ⟨[], []⟩ s).map fun d => .table (entriesToValues d.root)

end ComponentAtlas.Toml
