import ComponentAtlas.CSharp.Lexeme

/-!
# Tokens and bracket trees

A token is a lexeme that the grammar sees, together with what stands in front of it: blanks,
comments and preprocessor lines.  So a comment always belongs to the token after it, and every
span of tokens has a text of its own, which begins with its first token and not with what stands
in front of that.

Tokens are nested by their brackets.  A bracket without a partner stays a leaf among the others;
braces bind strongest, so that a lost parenthesis spoils nothing outside its braces.
-/

namespace ComponentAtlas.CSharp

/-- A lexeme of the grammar and the blanks, comments and preprocessor lines in front of it. -/
structure Token where
  leading : List Lexeme
  lexeme : Lexeme
  deriving DecidableEq, Repr

namespace Token

def text (t : Token) : List Char :=
  t.lexeme.text

/-- Whether the token is the word or mark `s`. -/
def is (t : Token) (s : String) : Bool :=
  t.lexeme.text == s.toList && (t.lexeme.kind == .word || t.lexeme.kind == .mark)

def isWord (t : Token) : Bool :=
  t.lexeme.kind == .word

/-- The token with everything in front of it. -/
def fullText (t : Token) : List Char :=
  t.leading.flatMap (·.text) ++ t.lexeme.text

end Token

/-- Whether the grammar looks past a lexeme. -/
def LexemeKind.isTrivia : LexemeKind → Bool
  | .space | .comment | .directive => true
  | _ => false

/-- The tokens of a sequence of lexemes, `waiting` standing in front of the first. -/
def tokensFrom (waiting : List Lexeme) : List Lexeme → List Token
  | [] => []
  | l :: rest =>
    if l.kind.isTrivia then tokensFrom (waiting ++ [l]) rest
    else ⟨waiting, l⟩ :: tokensFrom [] rest

/-- The tokens of a text.  What stands behind the last token is dropped. -/
def tokens (cs : List Char) : List Token :=
  tokensFrom [] (lexemes cs)

/-- The text of a span of tokens, without what stands in front of it. -/
def spanText : List Token → List Char
  | [] => []
  | t :: rest => t.text ++ rest.flatMap (·.fullText)

/-! ## Bracket trees -/

inductive Tree
  | leaf (token : Token)
  | group (opening : Token) (inside : List Tree) (closing : Token)

namespace Tree

mutual

/-- The tokens of a tree, in order. -/
def tokens : Tree → List Token
  | .leaf t => [t]
  | .group o inside c => o :: (allTokens inside ++ [c])

def allTokens : List Tree → List Token
  | [] => []
  | t :: rest => t.tokens ++ allTokens rest

end

/-- The first token of a tree. -/
def head : Tree → Token
  | .leaf t => t
  | .group o _ _ => o

/-- Whether a tree is the word or mark `s`. -/
def is (s : String) : Tree → Bool
  | .leaf t => t.is s
  | .group _ _ _ => false

/-- The token of a leaf that is a word. -/
def word? : Tree → Option Token
  | .leaf t => if t.isWord then some t else none
  | .group _ _ _ => none

/-- What stands between the brackets of a group that opens with `bracket`. -/
def inside? (bracket : Char) : Tree → Option (List Tree)
  | .group o inside _ => if o.text = [bracket] then some inside else none
  | .leaf _ => none

/-- Whether a tree is a group that opens with `bracket`. -/
def opens (bracket : Char) (t : Tree) : Bool :=
  (t.inside? bracket).isSome

end Tree

/-- A bracket that is still open, and the trees before it on its level, last first. -/
structure OpenBracket where
  opening : Token
  before : List Tree

/-- The mark that closes a bracket. -/
def closingOf (opening : List Char) : List Char :=
  if opening = ['{'] then ['}'] else if opening = ['('] then [')'] else [']']

def Token.opensBracket (t : Token) : Bool :=
  t.lexeme.kind == .mark && (t.text == ['{'] || t.text == ['('] || t.text == ['['])

def Token.closesBracket (t : Token) : Bool :=
  t.lexeme.kind == .mark && (t.text == ['}'] || t.text == [')'] || t.text == [']'])

/-- The trees of a level (last first) when the brackets above it up to the one that `closing`
closes are given up or closed; `none` when nothing open fits.  A parenthesis or a square bracket
does not reach out of its braces. -/
def closeBracket (closing : Token) : List OpenBracket → List Tree →
    Option (List OpenBracket × List Tree)
  | [], _ => none
  | b :: outer, level =>
    if closingOf b.opening.text = closing.text then
      some (outer, .group b.opening level.reverse closing :: b.before)
    else if b.opening.text = ['{'] then none
    else closeBracket closing outer (level ++ .leaf b.opening :: b.before)

/-- The trees of a sequence of tokens: `openBrackets` are the brackets not yet closed, innermost
first, and `level` the trees since the innermost of them, last first. -/
def nest (openBrackets : List OpenBracket) (level : List Tree) : List Token → List Tree
  | [] =>
    (openBrackets.foldl (fun level b => level ++ .leaf b.opening :: b.before) level).reverse
  | t :: rest =>
    if t.opensBracket then nest (⟨t, level⟩ :: openBrackets) [] rest
    else if t.closesBracket then
      match closeBracket t openBrackets level with
      | some (outer, level') => nest outer level' rest
      | none => nest openBrackets (.leaf t :: level) rest
    else nest openBrackets (.leaf t :: level) rest

/-- The bracket trees of a sequence of tokens. -/
def trees (ts : List Token) : List Tree :=
  nest [] [] ts

end ComponentAtlas.CSharp
