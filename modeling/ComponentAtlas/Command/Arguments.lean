import ComponentAtlas.Text.Occurrence

/-!
# Command-line arguments

A command line is read level by level: options of the program, then the name of a command, then
its options and operands.  An option is spelled with two dashes and its name or with one dash and
its letter; letters may be put together, and a value may stand in the same argument or in the next
one.  Two dashes alone end the options.  The options of the program may also be given behind the
command; there they count more.
-/

namespace ComponentAtlas

/-- What an option takes. -/
inductive OptionValue
  | nothing
  /-- Nothing, and it may be given more than once. -/
  | repeated
  | text
  /-- A text that is not empty. -/
  | path
  /-- A number below `2 ^ 64`. -/
  | number
  deriving DecidableEq, Repr

structure OptionSpec where
  name : String
  letter : Option Char
  value : OptionValue
  deriving DecidableEq, Repr

/-- Why there is no command to run. -/
inductive NoCommand
  /-- The arguments do not fit. -/
  | usage
  /-- Help or the version is asked for. -/
  | information
  deriving DecidableEq, Repr

/-- The options of one level. -/
structure Level where
  options : List OptionSpec
  /-- How many operands there may be. -/
  maxOperands : Nat
  /-- Whether the first operand names a command, and the version may be asked for. -/
  isTop : Bool

/-- What is read at one level. -/
structure Reading where
  /-- The options with their values. -/
  given : List (String × String)
  operands : List String
  /-- At the top, the arguments behind the name of the command. -/
  rest : List String

namespace OptionValue

/-- The number that decimal digits spell. -/
def ofDigits? (digits : List Char) : Option Nat :=
  if digits.isEmpty || !digits.all Char.isDigit then none
  else
    let n := digits.foldl (fun n d => 10 * n + (d.toNat - 48)) 0
    if n < UInt64.size then some n else none

/-- The number that a text spells, with or without a plus sign. -/
def number? (s : String) : Option Nat :=
  ofDigits? ((Text.after? ['+'] s.toList).getD s.toList)

def takesText : OptionValue → Bool
  | .nothing => false
  | .repeated => false
  | _ => true

/-- Whether a text is a value. -/
def admits (v : OptionValue) (s : String) : Bool :=
  match v with
  | .path => !s.isEmpty
  | .number => (number? s).isSome
  | _ => true

end OptionValue

namespace Reading

def empty : Reading := ⟨[], [], []⟩

/-- The value of an option, if it is given. -/
def value? (r : Reading) (name : String) : Option String :=
  (r.given.find? fun g => g.1 == name).map Prod.snd

def has (r : Reading) (name : String) : Bool :=
  (r.value? name).isSome

/-- One more option; most options are given at most once. -/
def addOption (r : Reading) (o : OptionSpec) (value : String) : Except NoCommand Reading :=
  if (r.has o.name && o.value != .repeated) || !o.value.admits value then .error .usage
  else .ok { r with given := r.given ++ [(o.name, value)] }

end Reading

namespace Level

/-- Whether an argument looks like an option. -/
def looksLikeOption (arg : String) : Bool :=
  match arg.toList with
  | '-' :: _ :: _ => true
  | _ => false

/-- An option whose value stands in the next argument. -/
def addWithNext (r : Reading) (o : OptionSpec) : List String →
    Except NoCommand (Reading × List String)
  | [] => .error .usage
  | next :: rest =>
    if looksLikeOption next then .error .usage
    else (r.addOption o next).map fun r => (r, rest)

/-- An option by its name, with what is behind an equals sign. -/
def addLong (l : Level) (r : Reading) (name : String) (value : Option String)
    (rest : List String) : Except NoCommand (Reading × List String) :=
  match l.options.find? fun o => o.name == name with
  | some o =>
    match o.value.takesText, value with
    | true, some v => (r.addOption o v).map fun r => (r, rest)
    | true, none => addWithNext r o rest
    | false, some _ => .error .usage
    | false, none => (r.addOption o "").map fun r => (r, rest)
  | none =>
    if value.isNone ∧ (name = "help" ∨ (l.isTop ∧ name = "version")) then .error .information
    else .error .usage

/-- Options by their letters, the last of which may take a value. -/
def addLetters (l : Level) (r : Reading) (rest : List String) :
    List Char → Except NoCommand (Reading × List String)
  | [] => .ok (r, rest)
  | c :: more =>
    match l.options.find? fun o => o.letter == some c with
    | some o =>
      if o.value.takesText then
        if more.isEmpty then addWithNext r o rest
        else
          (r.addOption o (String.ofList ((Text.after? ['='] more).getD more))).map fun r =>
            (r, rest)
      else
        match r.addOption o "" with
        | .error e => .error e
        | .ok r => l.addLetters r rest more
    | none => if c = 'h' ∨ (l.isTop ∧ c = 'V') then .error .information else .error .usage

/-- One more operand, if there may be one more. -/
def addOperand (l : Level) (r : Reading) (arg : String) : Except NoCommand Reading :=
  if r.operands.length < l.maxOperands then .ok { r with operands := r.operands ++ [arg] }
  else .error .usage

/-- Reads the arguments of a level, of which there are at most `fuel`. -/
def readFrom (l : Level) (r : Reading) : Nat → List String → Except NoCommand Reading
  | 0, _ => .ok r
  | _, [] => .ok r
  | fuel + 1, arg :: rest =>
    match arg.toList with
    | ['-', '-'] =>
      if l.isTop then (if rest.isEmpty then .ok r else .error .usage)
      else rest.foldlM l.addOperand r
    | '-' :: '-' :: body =>
      let name := String.ofList (Text.upTo '=' body)
      let value := (Text.after? (Text.upTo '=' body ++ ['=']) body).map String.ofList
      match l.addLong r name value rest with
      | .error e => .error e
      | .ok (r, rest) => l.readFrom r fuel rest
    | '-' :: c :: letters =>
      match l.addLetters r rest (c :: letters) with
      | .error e => .error e
      | .ok (r, rest) => l.readFrom r fuel rest
    | _ =>
      if l.isTop then .ok { r with operands := [arg], rest := rest }
      else
        match l.addOperand r arg with
        | .error e => .error e
        | .ok r => l.readFrom r fuel rest

/-- Reads the arguments of a level. -/
def read (l : Level) (args : List String) : Except NoCommand Reading :=
  l.readFrom .empty args.length args

end Level
end ComponentAtlas
