import ComponentAtlas.Command.Arguments

/-!
# Invocations

What the program is asked to do: one of its commands, the way to print the answer, and where the
settings and the sources are.
-/

namespace ComponentAtlas

inductive Command
  /-- Say what was indexed. -/
  | index
  | search (query fields : String) (limit : Nat)
  | component (name : String)
  /-- List the components, or those of a category. -/
  | components (category : Option String)
  | categories
  | category (name : String)
  | related (name kind : String)
  | type (name : String)
  /-- List the types. -/
  | types
  | statistics
  deriving DecidableEq, Repr

/-- How an answer is printed. -/
inductive AnswerFormat
  | text
  | json
  /-- JSON over several lines. -/
  | prettyJson
  deriving DecidableEq, Repr

structure Invocation where
  configPath : Option String
  /-- The root of the source tree, in place of the one in the settings. -/
  source : Option String
  includeInternal : Bool
  quiet : Bool
  command : Command
  format : AnswerFormat
  deriving DecidableEq, Repr

namespace Invocation

/-- The options of the program. -/
def globalOptions : List OptionSpec := [
  ⟨"verbose", some 'v', .repeated⟩,
  ⟨"config", none, .path⟩,
  ⟨"source", none, .path⟩,
  ⟨"include-internal", none, .nothing⟩,
  ⟨"quiet", some 'q', .nothing⟩]

def formatOptions : List OptionSpec := [
  ⟨"json", none, .nothing⟩,
  ⟨"pretty", none, .nothing⟩]

def topLevel : Level := ⟨globalOptions, 0, true⟩

/-- The level of a command that has `maxOperands` and some options of its own. -/
def levelWith (maxOperands : Nat) (own : List OptionSpec) : Level :=
  ⟨globalOptions ++ own ++ formatOptions, maxOperands, false⟩

/-- The level of the command with a name. -/
def levelOf? (name : String) : Option Level :=
  if name = "index" ∨ name = "categories" ∨ name = "stats" then some (levelWith 0 [])
  else if name = "search" then
    some (levelWith 1 [⟨"fields", some 'f', .text⟩, ⟨"max", some 'm', .number⟩])
  else if name = "component" then some (levelWith 1 [⟨"category", some 'c', .text⟩])
  else if name = "category" ∨ name = "api" then some (levelWith 1 [])
  else if name = "related" then some (levelWith 2 [])
  else none

/-- The command with a name and what was read behind it. -/
def commandOf? (name : String) (r : Reading) : Option Command :=
  match name, r.operands with
  | "index", _ => some .index
  | "search", [query] =>
    some (.search query ((r.value? "fields").getD "all")
      (((r.value? "max").bind OptionValue.number?).getD 10))
  | "component", [] => some (.components (r.value? "category"))
  | "component", [name] => some (.component name)
  | "categories", _ => some .categories
  | "category", [name] => some (.category name)
  | "related", [name] => some (.related name "all")
  | "related", [name, kind] => some (.related name kind)
  | "api", [] => some .types
  | "api", [name] => some (.type name)
  | "stats", _ => some .statistics
  | _, _ => none

/-- Whether help can be had for a command, or for the program when none is named. -/
def hasHelp : List String → Bool
  | [] => true
  | [name] => (levelOf? name).isSome || name == "help"
  | _ => false

/-- The invocation that some arguments spell. -/
def ofArguments (args : List String) : Except NoCommand Invocation :=
  match topLevel.read args with
  | .error e => .error e
  | .ok top =>
    match top.operands with
    | ["help"] => .error (if hasHelp top.rest then .information else .usage)
    | [name] =>
      match levelOf? name with
      | none => .error .usage
      | some level =>
        match level.read top.rest with
        | .error e => .error e
        | .ok r =>
          match commandOf? name r with
          | none => .error .usage
          | some command => .ok
            { configPath := (r.value? "config").or (top.value? "config")
              source := (r.value? "source").or (top.value? "source")
              includeInternal := r.has "include-internal" || top.has "include-internal"
              quiet := r.has "quiet" || top.has "quiet"
              command
              format :=
                if !r.has "json" then .text
                else if r.has "pretty" then .prettyJson
                else .json }
    | _ => .error .usage

end Invocation
end ComponentAtlas
