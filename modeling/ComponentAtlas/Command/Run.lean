import ComponentAtlas.Command.Invocation
import ComponentAtlas.Command.Text
import ComponentAtlas.Engine.Basic

/-!
# Running a command

A command reads the settings, builds the index of the source tree, and answers from it.  What it
prints is a function of its arguments and of the files that it can see.
-/

namespace ComponentAtlas

/-- What a run of the program leaves behind. -/
structure Outcome where
  code : Nat
  stdout : String
  stderr : String
  deriving DecidableEq, Repr

/-- The files that the program can see. -/
structure Surroundings where
  /-- The working directory. -/
  files : FileTree
  /-- The home directory. -/
  home : FileTree
  time : BuildTime

/-- What a command has to say. -/
structure Answer where
  out : String := ""
  /-- What is said to the person at the terminal. -/
  notices : String := ""
  failure : Option String := none

namespace IndexError

/-- The message of an error with its cause. -/
def fullMessage (e : IndexError) : String :=
  e.message ++ ((e.cause?.map (": " ++ ·)).getD "")

/-- What is said when a build fails. -/
def buildMessage : IndexError → String
  | .cancelled => "Indexing cancelled"
  | .sourceUnavailable root reason =>
    "Pass --source <DIR> or set [source] root in mudscope.toml to point at a MudBlazor checkout: " ++
      (IndexError.sourceUnavailable root reason).message
  | e => e.fullMessage

end IndexError

namespace Answer

def print (lines : List String) : Answer :=
  { out := unlinesEnded lines }

def fail (message : String) : Answer :=
  { failure := some message }

def note (message : String) : Answer :=
  { notices := Style.notice message }

/-- A value, as JSON or as text. -/
def value (format : AnswerFormat) (json : Json) (asText : Answer) : Answer :=
  match format with
  | .text => asText
  | .json => print [json.compact]
  | .prettyJson => print [json.pretty 0]

/-- The answer for a result, or its failure. -/
def ofResult {α : Type} (result : Except IndexError α) (answer : α → Answer) : Answer :=
  match result with
  | .error e => fail e.fullMessage
  | .ok a => answer a

/-- The answer for a thing that was looked for, or what is said when there is none. -/
def ofFound {α : Type} (result : Except IndexError (Option α)) (missing : String)
    (answer : α → Answer) : Answer :=
  ofResult result fun found => (found.map answer).getD (fail missing)

end Answer

/-- A list of components, or a note when it is empty. -/
def answerComponents (format : AnswerFormat) (cs : List Component) (none_ : String) : Answer :=
  .value format (.array (cs.map Component.toJson))
    (if cs.isEmpty then .note none_ else .print (cs.map Component.line))

/-- A list of names. -/
def answerNames (format : AnswerFormat) (names : List String) : Answer :=
  .value format (.ofStrings names) (.print names)

namespace Command

/-- The answer to a command from an engine that has just built its index. -/
def answer (command : Command) (e : Engine) (time : BuildTime) (quiet : Bool)
    (format : AnswerFormat) : Answer :=
  match command with
  | .index => .ofResult e.statistics fun s =>
      .value format (.object (s.timedEntries time))
        (if quiet then .print [] else .print (s.buildLines time))
  | .search query fields limit =>
    let found := .ofResult (e.searchText query fields (min limit Engine.maxSearchResults)).1
      fun cs => answerComponents format cs ("No components match '" ++ query ++ "'")
    if limit ≤ Engine.maxSearchResults then found
    else
      let warning := "--max is capped at " ++ toString Engine.maxSearchResults
      { found with notices := Style.notice (Style.yellow warning) ++ found.notices }
  | .component name => .ofFound (e.component? name) (IndexError.unknownComponent name).message
      fun c => .value format c.toJson (.print c.lines)
  | .components place => .ofResult (e.componentNames place) (answerNames format)
  | .categories => .ofResult e.categories fun cs =>
      .value format (.array (cs.map Category.toJson)) (.print (cs.flatMap Category.lines))
  | .category name => .ofResult (e.category name) fun c =>
      .value format c.toJson <| .ofResult (e.componentsIn c.name) fun members =>
        .print (c.lines ++ members.map Component.line)
  | .related name kind => .ofResult (e.relatedText name kind) fun cs =>
      answerComponents format cs ("No " ++ ((Relationship.ofText? kind).map Relationship.name).getD ""
        ++ " relationships for " ++ name)
  | .types => .ofResult e.typeNames (answerNames format)
  | .type name => .ofFound (e.type? name)
      ("No API reference for '" ++ name ++ "'. Run 'mudscope api' to list known types.")
      fun t => .value format t.toJson (.print t.lines)
  | .statistics => .ofResult e.statistics fun s => .ofResult e.cacheStatistics.1 fun cache =>
      .value format (.object (s.timedEntries time ++ [("cache", cache.toJson)]))
        (.print (s.lines cache e.settings.source.root time))

end Command

namespace Settings

/-- The settings file in the working directory. -/
def localPath : String := "mudscope.toml"

/-- The settings file in the home directory. -/
def homePath : String := ".mudscope/config.toml"

/-- The settings in a file, which is called `shown` when it has none. -/
def ofFile (files : FileTree) (path shown : String) : Except String Settings :=
  let unreadable (reason : String) :=
    Except.error ("Failed to read config file: " ++ shown ++ ": " ++ reason)
  match SourceTree.placeOf? (Path.ofString path) with
  | none => unreadable "No such file or directory (os error 2)"
  | some place =>
    if files.isDirectory place then unreadable "Is a directory (os error 21)"
    else if !files.hasEntry place then unreadable "No such file or directory (os error 2)"
    else match files.readText? place with
      | none => unreadable "stream did not contain valid UTF-8"
      | some text =>
        match ofToml? text with
        | none => .error ("Invalid config file: " ++ shown ++ ": Failed to parse config TOML")
        | some settings => .ok settings

/-- Whether there is anything at a path. -/
def isThere (files : FileTree) (path : String) : Bool :=
  (SourceTree.placeOf? (Path.ofString path)).any files.hasEntry

/-- The settings for a run: from the file that it names, from the one in the working directory, or
from the one in the home directory, the first that there is. -/
def load (around : Surroundings) : Option String → Except String Settings
  | some path => ofFile around.files path path
  | none =>
    if isThere around.files localPath then ofFile around.files localPath localPath
    else if isThere around.home homePath then ofFile around.home homePath ("~/" ++ homePath)
    else .ok .standard

/-- The settings with what an invocation says.  A source tree that it names is never fetched. -/
def override (settings : Settings) (i : Invocation) : Settings :=
  let source := match i.source with
    | some root => { settings.source with root, repositoryUrl := none }
    | none => settings.source
  { settings with
    source
    index := { settings.index with
      includeInternal := settings.index.includeInternal || i.includeInternal } }

end Settings

namespace Invocation

/-- The answer to an invocation. -/
def answer (i : Invocation) (around : Surroundings) : Answer :=
  match Settings.load around i.configPath with
  | .error message => .fail message
  | .ok loaded =>
    let settings := loaded.override i
    let tree : SourceTree := ⟨around.files, settings.source.root⟩
    let engine := Engine.ofSettings settings settings.cache.windows
    match engine.build tree (tree.availability settings.source false) false with
    | (.error e, _) => .fail e.buildMessage
    | (.ok _, engine) => i.command.answer engine around.time i.quiet i.format

end Invocation

namespace Outcome

/-- What a run with some arguments leaves behind. -/
def ofArguments (args : List String) (around : Surroundings) : Outcome :=
  match Invocation.ofArguments args with
  | .error .usage => ⟨2, "", "usage: mudscope [OPTIONS] <COMMAND>\n"⟩
  | .error .information => ⟨0, "usage: mudscope [OPTIONS] <COMMAND>\n", ""⟩
  | .ok i =>
    let answer := i.answer around
    match answer.failure with
    | none => ⟨0, answer.out, answer.notices⟩
    | some message =>
      ⟨1, answer.out, answer.notices ++ Style.notice (Style.red ("Error: " ++ message))⟩

end Outcome
end ComponentAtlas
