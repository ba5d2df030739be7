/-!
# Styled text

Text for a terminal, which escape sequences make bold, dim or coloured.
-/

namespace ComponentAtlas.Style

/-- A text between the sequences that switch a style on and off. -/
def between (on off : Nat) (s : String) : String :=
  "\x1b[" ++ toString on ++ "m" ++ s ++ "\x1b[" ++ toString off ++ "m"

def bold (s : String) : String := between 1 0 s

def dim (s : String) : String := between 2 0 s

def red (s : String) : String := between 31 39 s

def yellow (s : String) : String := between 33 39 s

def cyan (s : String) : String := between 36 39 s

/-- A text with blanks behind it, at least so many characters in all. -/
def padTo (width : Nat) (s : String) : String :=
  s ++ String.ofList (List.replicate (width - s.length) ' ')

/-- A notice: a text with an empty line above and below. -/
def notice (s : String) : String :=
  "\n" ++ s ++ "\n\n"

end ComponentAtlas.Style
