import ComponentAtlas.Unicode.DecimalDigit
import ComponentAtlas.Unicode.Word
import ComponentAtlas.Text.Blank

/-!
# Patterns

A pattern describes texts: single characters of a class, positions, and their sequences, choices
and repetitions.  The question asked here is only whether a pattern occurs in a text, so there
is no preference among the ways in which it can.

`ends` lists the places at which a match that begins at a given place can end.  A place is a
pair: the character in front, and the text behind.
-/

namespace ComponentAtlas

/-- A position in a text: the character before it, if there is one, and the text after it. -/
structure Place where
  previous : Option Char
  rest : List Char
  deriving DecidableEq, Repr

namespace Place

def start (cs : List Char) : Place := ⟨none, cs⟩

/-- The place after the next character, and that character. -/
def next? (p : Place) : Option (Char × Place) :=
  match p.rest with
  | [] => none
  | c :: rest => some (c, ⟨some c, rest⟩)

/-- Whether exactly one side of a place is a word character. -/
def isWordBoundary (p : Place) : Bool :=
  (p.previous.map Unicode.isWord).getD false != (p.rest.head?.map Unicode.isWord).getD false

end Place

/-- The kinds of characters that an escape stands for. -/
inductive CharKind
  | digit
  | word
  | blank
  deriving DecidableEq, Repr

namespace CharKind

def holds : CharKind → Char → Bool
  | .digit, c => Unicode.isDecimalDigit c
  | .word, c => Unicode.isWord c
  | .blank, c => Text.isBlank c

end CharKind

/-- One part of a character class. -/
inductive ClassItem
  | range (first last : Char)
  | kind (k : CharKind) (negated : Bool)
  deriving DecidableEq, Repr

namespace ClassItem

def holds : ClassItem → Char → Bool
  | .range first last, c => decide (first ≤ c) && decide (c ≤ last)
  | .kind k negated, c => k.holds c != negated

end ClassItem

/-- The conditions on a place that take no character. -/
inductive Anchor
  | textStart
  | textEnd
  | wordBoundary
  | noWordBoundary
  deriving DecidableEq, Repr

namespace Anchor

def holds : Anchor → Place → Bool
  | .textStart, p => p.previous.isNone
  | .textEnd, p => p.rest.isEmpty
  | .wordBoundary, p => p.isWordBoundary
  | .noWordBoundary, p => !p.isWordBoundary

end Anchor

inductive Pattern
  | empty
  | anyOf (items : List ClassItem) (negated : Bool)
  | at (anchor : Anchor)
  | seq (first second : Pattern)
  | alt (first second : Pattern)
  /-- At least `least` copies, and at most `most` more of them when that is given. -/
  | repeated (p : Pattern) (least : Nat) (more : Option Nat)
  deriving Repr

namespace Pattern

/-- The ends of at most `n` copies of a step from some places, `n` of them at the most; places
that do not move on are not repeated. -/
def closure (step : Place → List Place) : Nat → List Place → List Place
  | 0, ps => ps
  | n + 1, ps =>
    let moved := (ps.flatMap fun p =>
      (step p).filter fun q => decide (q.rest.length < p.rest.length)).eraseDups
    if moved.isEmpty then ps else ps ++ closure step n moved

/-- The ends of exactly `n` copies of a step from some places. -/
def copies (step : Place → List Place) : Nat → List Place → List Place
  | 0, ps => ps
  | n + 1, ps => copies step n (ps.flatMap step).eraseDups

/-- The places at which a match that begins at a place can end. -/
def ends : Pattern → Place → List Place
  | .empty, p => [p]
  | .anyOf items negated, p =>
    match p.next? with
    | some (c, q) => if (items.any fun i => i.holds c) != negated then [q] else []
    | none => []
  | .at anchor, p => if anchor.holds p then [p] else []
  | .seq a b, p => ((a.ends p).flatMap b.ends).eraseDups
  | .alt a b, p => (a.ends p ++ b.ends p).eraseDups
  | .repeated a least more, p =>
    closure a.ends (more.getD p.rest.length) (copies a.ends least [p])

/-- Whether a pattern matches somewhere from a place on. -/
def occursFrom (pattern : Pattern) (previous : Option Char) : List Char → Bool
  | [] => !(pattern.ends ⟨previous, []⟩).isEmpty
  | c :: rest =>
    !(pattern.ends ⟨previous, c :: rest⟩).isEmpty || pattern.occursFrom (some c) rest

/-- Whether a pattern occurs in a text. -/
def occurs (pattern : Pattern) (text : List Char) : Bool :=
  pattern.occursFrom none text

end Pattern
end ComponentAtlas
