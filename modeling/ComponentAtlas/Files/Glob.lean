/-!
# Glob patterns

A glob pattern describes paths.  A question mark stands for one byte and a star for any number of
them; two stars that make up a whole part of the path stand for any number of parts; brackets hold
a class of characters, braces alternatives, and a backslash takes away the meaning of the
character behind it.  Whether stars and question marks stand for slashes too is for the user of a
pattern to say.
-/

namespace ComponentAtlas

inductive GlobError
  | unclosedClass
  | invalidRange (first last : Char)
  | unopenedAlternatives
  | unclosedAlternatives
  | danglingEscape
  deriving DecidableEq, Repr

/-- A piece of a pattern. -/
inductive GlobToken
  | literal (c : Char)
  | anyByte
  | anyBytes
  /-- Two stars at the start. -/
  | partsBefore
  /-- Two stars at the end. -/
  | partsAfter
  /-- Two stars between slashes. -/
  | partsBetween
  | oneOf (negated : Bool) (ranges : List (Char × Char))
  | alternatives (branches : List (List GlobToken))

structure Glob where
  tokens : List GlobToken
  /-- Whether stars and question marks stop at slashes. -/
  slashIsLiteral : Bool

namespace GlobError

def message : GlobError → String
  | .unclosedClass => "unclosed character class; missing ']'"
  | .invalidRange first last =>
    "invalid range; '" ++ first.toString ++ "' > '" ++ last.toString ++ "'"
  | .unopenedAlternatives =>
    "unopened alternate group; missing '\x7b' (maybe escape '\x7d' with '[\x7d]'?)"
  | .unclosedAlternatives =>
    "unclosed alternate group; missing '\x7d' (maybe escape '\x7b' with '[\x7b]'?)"
  | .danglingEscape => "dangling '\\'"

end GlobError

namespace Glob

/-! ## Reading -/

/-- What is read of a pattern. -/
structure Draft where
  /-- The tokens of the branch at hand, last first. -/
  branch : List GlobToken
  /-- For each open group, innermost first: the tokens before it, last first, and its finished
  branches. -/
  groups : List (List GlobToken × List (List GlobToken))

namespace Draft

def push (d : Draft) (t : GlobToken) : Draft :=
  { d with branch := t :: d.branch }

/-- The draft with its last token replaced by the token for two stars. -/
def pushParts (d : Draft) (t : GlobToken) : Draft :=
  match d.branch with
  | .partsBefore :: _ => d
  | .partsAfter :: _ => d
  | _ :: before => { d with branch := t :: before }
  | [] => d.push t

def openGroup (d : Draft) : Draft :=
  ⟨[], (d.branch, []) :: d.groups⟩

/-- A comma: the next branch of a group, or a character. -/
def comma (d : Draft) : Draft :=
  match d.groups with
  | [] => d.push (.literal ',')
  | (before, branches) :: outer => ⟨[], (before, branches ++ [d.branch.reverse]) :: outer⟩

def closeGroup (d : Draft) : Except GlobError Draft :=
  match d.groups with
  | [] => .error .unopenedAlternatives
  | (before, branches) :: outer =>
    .ok ⟨.alternatives (branches ++ [d.branch.reverse]) :: before, outer⟩

end Draft

/-- Where the reader stands. -/
inductive ReadMode
  | plain
  | escaped
  /-- In a class: whether it is negated, at its first character, behind a dash; its ranges, last
  first. -/
  | inClass (negated first behindDash : Bool) (ranges : List (Char × Char))

/-- The ranges of a class with one more character. -/
def addToClass (behindDash : Bool) (ranges : List (Char × Char)) (c : Char) :
    Except GlobError (List (Char × Char)) :=
  match behindDash, ranges with
  | true, (first, _) :: rest =>
    if c < first then .error (.invalidRange first c) else .ok ((first, c) :: rest)
  | _, _ => .ok ((c, c) :: ranges)

/-- Reads the rest of a pattern; `before` is the character in front of it. -/
def readFrom (before : Option Char) (d : Draft) : ReadMode → List Char →
    Except GlobError (List GlobToken)
  | .plain, [] =>
    if d.groups.isEmpty then .ok d.branch.reverse else .error .unclosedAlternatives
  | .escaped, [] => .error .danglingEscape
  | .inClass .., [] => .error .unclosedClass
  | .escaped, c :: cs => readFrom (some c) (d.push (.literal c)) .plain cs
  | .inClass negated first behindDash ranges, c :: cs =>
    if c = ']' ∧ !first then
      let all := if behindDash then ('-', '-') :: ranges else ranges
      readFrom (some c) (d.push (.oneOf negated all.reverse)) .plain cs
    else if c = '-' ∧ !first ∧ !behindDash then
      readFrom (some c) d (.inClass negated false true ranges) cs
    else
      match addToClass behindDash ranges c with
      | .error e => .error e
      | .ok more => readFrom (some c) d (.inClass negated false false more) cs
  | .plain, '?' :: cs => readFrom (some '?') (d.push .anyByte) .plain cs
  | .plain, '[' :: '!' :: cs => readFrom (some '!') d (.inClass true true false []) cs
  | .plain, '[' :: '^' :: cs => readFrom (some '^') d (.inClass true true false []) cs
  | .plain, '[' :: cs => readFrom (some '[') d (.inClass false true false []) cs
  | .plain, '{' :: cs => readFrom (some '{') d.openGroup .plain cs
  | .plain, '}' :: cs =>
    match d.closeGroup with
    | .error e => .error e
    | .ok d => readFrom (some '}') d .plain cs
  | .plain, ',' :: cs => readFrom (some ',') d.comma .plain cs
  | .plain, '\\' :: cs => readFrom (some '\\') d .escaped cs
  | .plain, '*' :: '*' :: cs =>
    let stars := (d.push .anyBytes).push .anyBytes
    if d.branch.isEmpty then
      match cs with
      | [] => readFrom (some '*') (d.push .partsBefore) .plain []
      | '/' :: rest => readFrom (some '/') (d.push .partsBefore) .plain rest
      | other => readFrom (some '*') stars .plain other
    else if before ≠ some '/' then readFrom (some '*') stars .plain cs
    else
      match cs with
      | [] => readFrom (some '*') (d.pushParts .partsAfter) .plain []
      | '/' :: rest => readFrom (some '/') (d.pushParts .partsBetween) .plain rest
      | c :: rest =>
        if (c = ',' ∨ c = '}') ∧ !d.groups.isEmpty then
          readFrom (some '*') (d.pushParts .partsAfter) .plain (c :: rest)
        else readFrom (some '*') stars .plain (c :: rest)
  | .plain, '*' :: cs => readFrom (some '*') (d.push .anyBytes) .plain cs
  | .plain, c :: cs => readFrom (some c) (d.push (.literal c)) .plain cs
  termination_by _ cs => cs.length

/-- The pattern that a text spells. -/
def ofString (slashIsLiteral : Bool) (s : String) : Except GlobError Glob :=
  (readFrom none ⟨[], []⟩ .plain s.toList).map fun tokens => ⟨tokens, slashIsLiteral⟩

/-! ## Matching -/

abbrev Bytes := List UInt8

def bytesOf (s : String) : Bytes :=
  s.toUTF8.toList

/-- The byte of a slash. -/
def slash : UInt8 := 47

/-- What follows some bytes at the start of a text. -/
def afterBytes? : Bytes → Bytes → Option Bytes
  | [], bs => some bs
  | _ :: _, [] => none
  | p :: ps, b :: bs => if p = b then afterBytes? ps bs else none

/-- Whether `next` holds behind some number of bytes that satisfy `ok`. -/
def behindSome (ok : UInt8 → Bool) (next : Bytes → Bool) : Bytes → Bool
  | [] => next []
  | b :: bs => next (b :: bs) || (ok b && behindSome ok next bs)

/-- Whether `next` holds behind a slash. -/
def behindSlash (next : Bytes → Bool) : Bytes → Bool
  | [] => false
  | b :: bs => b == slash && next bs

/-- The bytes of a class, as ranges.  A range between characters of several bytes is one between
neighbouring bytes. -/
def byteRanges (first last : Char) : List (UInt8 × UInt8) :=
  let a := bytesOf first.toString
  let b := bytesOf last.toString
  let single (x : UInt8) := (x, x)
  if first = last then a.map single
  else a.dropLast.map single ++ [(a.getLast?.getD 0, b.head?.getD 0)] ++ (b.drop 1).map single

def inRanges (ranges : List (Char × Char)) (b : UInt8) : Bool :=
  ranges.any fun r => (byteRanges r.1 r.2).any fun (low, high) => low ≤ b && b ≤ high

mutual

/-- Whether a token describes nothing, not even the empty text. -/
def isVoid : GlobToken → Bool
  | .alternatives branches => allVoid branches
  | _ => false

def allVoidTokens : List GlobToken → Bool
  | [] => true
  | t :: ts => isVoid t && allVoidTokens ts

def allVoid : List (List GlobToken) → Bool
  | [] => true
  | b :: bs => allVoidTokens b && allVoid bs

end

mutual

/-- Whether a token describes the start of a text and `next` holds for the rest. -/
def tokenFits (slashIsLiteral : Bool) (next : Bytes → Bool) : GlobToken → Bytes → Bool
  | .literal c, bs => ((afterBytes? (bytesOf c.toString) bs).map next).getD false
  | .anyByte, b :: bs => (!slashIsLiteral || b != slash) && next bs
  | .anyByte, [] => false
  | .anyBytes, bs => behindSome (fun b => !slashIsLiteral || b != slash) next bs
  | .partsBefore, bs =>
    next bs || behindSlash next bs || behindSome (fun _ => true) (behindSlash next) bs
  | .partsAfter, bs => behindSlash (behindSome (fun _ => true) next) bs
  | .partsBetween, bs =>
    behindSlash next bs || behindSlash (behindSome (fun _ => true) (behindSlash next)) bs
  | .oneOf negated ranges, b :: bs => (inRanges ranges b != negated) && next bs
  | .oneOf _ _, [] => false
  | .alternatives branches, bs =>
    if allVoid branches then next bs else someBranchFits slashIsLiteral next branches bs

def tokensFit (slashIsLiteral : Bool) (next : Bytes → Bool) : List GlobToken → Bytes → Bool
  | [], bs => next bs
  | t :: ts, bs => tokenFits slashIsLiteral (tokensFit slashIsLiteral next ts) t bs

/-- Whether one of some branches fits.  A branch that describes nothing does not count. -/
def someBranchFits (slashIsLiteral : Bool) (next : Bytes → Bool) :
    List (List GlobToken) → Bytes → Bool
  | [], _ => false
  | b :: rest, bs =>
    (!allVoidTokens b && tokensFit slashIsLiteral next b bs) ||
      someBranchFits slashIsLiteral next rest bs

end

/-- Whether a pattern describes a path.  A pattern of two stars describes every path. -/
def describes (g : Glob) (path : String) : Bool :=
  match g.tokens with
  | [.partsBefore] => true
  | ts => tokensFit g.slashIsLiteral List.isEmpty ts (bytesOf path)

end Glob
end ComponentAtlas
