import ComponentAtlas.Cache.Basic
import ComponentAtlas.Command.Style
import ComponentAtlas.Model.Encoding
import ComponentAtlas.Snapshot.Basic
import ComponentAtlas.Text.Preview

/-!
# Answers as text

The lines that the program prints for components, categories, types and statistics.
-/

namespace ComponentAtlas

open Style

/-- When a build ended and how long it took. -/
structure BuildTime where
  endedAt : String
  milliseconds : Nat
  deriving DecidableEq, Repr

/-- Lines, each with its end. -/
def unlinesEnded (lines : List String) : String :=
  String.join (lines.map (· ++ "\n"))

/-- A heading behind an empty line with indented lines below it; nothing without lines. -/
def headed (heading : String) (lines : List String) : List String :=
  if lines.isEmpty then [] else ("\n" ++ heading ++ ":") :: lines.map ("  " ++ ·)

/-- A line with a label, when there is something to label. -/
def labelled (label : String) (value : Option String) : List String :=
  (value.map (label ++ ·)).toList

namespace Parameter

/-- The line of a parameter. -/
def line (p : Parameter) : String :=
  let flags := (if p.isRequired then ["required"] else []) ++
    (if p.isCascading then ["cascading"] else [])
  let marks := if flags.isEmpty then "" else " [" ++ ", ".intercalate flags ++ "]"
  cyan p.name ++ ": " ++ p.type ++ ((p.defaultValue.map (" = " ++ ·)).getD "") ++ dim marks

end Parameter

namespace Event

/-- The line of an event. -/
def line (e : Event) : String :=
  match e.argsType with
  | some args => cyan e.name ++ " (" ++ args ++ ")"
  | none => cyan e.name

end Event

namespace Method

/-- The line of a method. -/
def line (m : Method) : String :=
  m.returnType ++ " " ++ cyan m.name ++ "(" ++
    ", ".intercalate (m.parameters.map fun p => p.type ++ " " ++ p.name) ++ ")"

end Method

namespace Example

/-- The line of an example. -/
def line (e : Example) : String :=
  if e.features.isEmpty then e.name
  else e.name ++ " " ++ dim ("(" ++ ", ".intercalate e.features ++ ")")

end Example

namespace Component

/-- The line of a component in a list. -/
def line (c : Component) : String :=
  let summary := ((c.summary.or c.description).map fun s =>
    String.ofList (Text.preview 80 s.toList)).getD ""
  bold (padTo 28 c.name) ++ " " ++ dim summary

/-- All that is known about a component. -/
def lines (c : Component) : List String :=
  [bold c.name] ++ labelled "Category:   " c.category ++ labelled "Inherits:   " c.baseType ++
    labelled "Namespace:  " c.namespaceName ++
    (if c.deprecated then [yellow "Deprecated"] else []) ++
    labelled "\n" (c.description.or c.summary) ++
    headed "Parameters" (c.parameters.map Parameter.line) ++
    headed "Events" (c.events.map Event.line) ++
    headed "Methods" (c.methods.map Method.line) ++
    headed "Examples" (c.examples.map Example.line) ++
    (if c.relatedComponents.isEmpty then []
      else ["\nSee also: " ++ ", ".intercalate c.relatedComponents])

end Component

namespace Category

/-- A category with its members. -/
def lines (c : Category) : List String :=
  [bold (c.title.getD c.name) ++ " (" ++ toString c.components.length ++ ")"] ++
    labelled "  " (c.description.map dim) ++
    (if c.components.isEmpty then [] else ["  " ++ ", ".intercalate c.components])

end Category

namespace EnumValue

/-- The line of an enumeration's value. -/
def line (v : EnumValue) : String :=
  match v.value with
  | some written => cyan v.name ++ " = " ++ written
  | none => cyan v.name

end EnumValue

namespace TypeMember

/-- The line of a member. -/
def line (m : TypeMember) : String :=
  let kind := match m.kind with
    | .property => "Property"
    | .method => "Method"
  kind ++ " " ++ cyan m.name ++ ": " ++ m.type

end TypeMember

namespace TypeReference

/-- All that is known about a type. -/
def lines (t : TypeReference) : List String :=
  [t.kind.name ++ " " ++ bold t.name] ++ labelled "Namespace: " t.namespaceName ++
    labelled "Inherits:  " t.baseType ++ labelled "\n" t.summary ++
    headed "Values" (t.values.map EnumValue.line) ++
    headed "Members" (t.members.map TypeMember.line)

end TypeReference

namespace Statistics

/-- What a build reports. -/
def buildLines (s : Statistics) (time : BuildTime) : List String :=
  ["Indexing complete!",
    "  Components:      " ++ toString s.components,
    "  Categories:      " ++ toString s.categories,
    "  Parameters:      " ++ toString s.parameters,
    "  Events:          " ++ toString s.events,
    "  Examples:        " ++ toString s.examples,
    "  API references:  " ++ toString s.types,
    "  Build time:      " ++ toString time.milliseconds ++ " ms"]

/-- The statistics of an index and its cache. -/
def lines (s : Statistics) (cache : CacheStatistics) (root : String) (time : BuildTime) :
    List String :=
  ["mudscope Index Statistics",
    "=========================",
    "Source:          " ++ root,
    "Components:      " ++ toString s.components,
    "Categories:      " ++ toString s.categories,
    "Parameters:      " ++ toString s.parameters,
    "Events:          " ++ toString s.events,
    "Methods:         " ++ toString s.methods,
    "Examples:        " ++ toString s.examples,
    "API references:  " ++ toString s.types,
    "Built at:        " ++ time.endedAt,
    "Build time:      " ++ toString time.milliseconds ++ " ms",
    "Cache entries:   " ++ toString cache.items ++ " (" ++ toString cache.hits ++ " hits, " ++
      toString cache.misses ++ " misses)"]

/-- The counts of a snapshot as entries of an object. -/
def entries (s : Statistics) : List (String × Json) :=
  [("total_components", .int s.components), ("total_categories", .int s.categories),
    ("total_parameters", .int s.parameters), ("total_events", .int s.events),
    ("total_methods", .int s.methods), ("total_examples", .int s.examples),
    ("total_api_references", .int s.types), ("generation", .int s.generation)]

/-- The counts of a snapshot and its time as entries of an object. -/
def timedEntries (s : Statistics) (time : BuildTime) : List (String × Json) :=
  s.entries ++ [("built_at", .string time.endedAt),
    ("build_duration_ms", .int time.milliseconds)]

end Statistics

namespace CacheStatistics

def toJson (s : CacheStatistics) : Json :=
  .object [("item_count", .int s.items), ("hit_count", .int s.hits),
    ("miss_count", .int s.misses), ("estimated_size_bytes", .int s.keyBytes),
    ("last_cleared", .null)]

end CacheStatistics
end ComponentAtlas
