import ComponentAtlas.Json

/-!
# TOML values and documents under construction

A document is a table of tables.  While it is read, each table remembers how it came about,
because that decides what may still be added to it: a table that a header names is named once, a
table that dotted keys made grows by dotted keys only, and a value is complete when it is read.
-/

namespace ComponentAtlas.Toml

inductive Value
  | string (s : String)
  | integer (n : Int)
  | float (written : String)
  | bool (b : Bool)
  | datetime (written : String)
  | array (items : List Value)
  | table (entries : List (String × Value))
  deriving Inhabited

namespace Value

mutual

/-- The value as JSON.  A date or time becomes an object that has no entry anyone asks for. -/
def toJson : Value → Json
  | .string s => .string s
  | .integer n => .int n
  | .float written => .fraction written
  | .bool b => .bool b
  | .datetime written => .object [("datetime", .string written)]
  | .array items => .array (itemsToJson items)
  | .table entries => .object (entriesToJson entries)

def itemsToJson : List Value → List Json
  | [] => []
  | v :: rest => v.toJson :: itemsToJson rest

def entriesToJson : List (String × Value) → List (String × Json)
  | [] => []
  | (key, v) :: rest => (key, v.toJson) :: entriesToJson rest

end

end Value

/-- How a table came about. -/
inductive Origin
  /-- Named by a header of its own, or the document itself. -/
  | header
  /-- On the way to a table that a header names. -/
  | path
  /-- On the way to a dotted key. -/
  | dotted
  deriving DecidableEq, Repr

inductive Node
  | value (v : Value)
  | table (origin : Origin) (entries : List (String × Node))
  /-- The tables of an array of tables, the last one first. -/
  | tables (items : List (List (String × Node)))

abbrev Entries := List (String × Node)

namespace Entries

def find? (es : Entries) (key : String) : Option Node :=
  (List.find? (fun (e : String × Node) => e.1 == key) es).map Prod.snd

/-- The entries with a new node for a key, which keeps its place. -/
def put (es : Entries) (key : String) (n : Node) : Entries :=
  if es.any fun e => e.1 == key then
    es.map fun e => if e.1 == key then (key, n) else e
  else es ++ [(key, n)]

/-- Changes the table that a header's path leads to. -/
def atPath (change : Entries → Option Entries) : List String → Entries → Option Entries
  | [], es => change es
  | key :: path, es =>
    match es.find? key with
    | none => (atPath change path []).map fun t => es.put key (.table .path t)
    | some (.table origin t) => (atPath change path t).map fun t => es.put key (.table origin t)
    | some (.tables (last :: before)) =>
      (atPath change path last).map fun t => es.put key (.tables (t :: before))
    | some _ => none

/-- Opens the table that a header names. -/
def openTable (key : String) (es : Entries) : Option Entries :=
  match es.find? key with
  | none => some (es.put key (.table .header []))
  | some (.table .path t) => some (es.put key (.table .header t))
  | some _ => none

/-- Opens one more table of an array of tables. -/
def openTables (key : String) (es : Entries) : Option Entries :=
  match es.find? key with
  | none => some (es.put key (.tables [[]]))
  | some (.tables items) => some (es.put key (.tables ([] :: items)))
  | some _ => none

/-- Enters a value under a dotted key.  A table that dotted keys did not make is passed through
only on the way to one that they make. -/
def enter (v : Value) : List String → Entries → Option Entries
  | [], _ => none
  | [key], es => if (es.find? key).isSome then none else some (es.put key (.value v))
  | key :: next :: path, es =>
    match es.find? key with
    | none => (enter v (next :: path) []).map fun t => es.put key (.table .dotted t)
    | some (.table .dotted t) =>
      (enter v (next :: path) t).map fun t => es.put key (.table .dotted t)
    | some (.table .path t) =>
      if path.isEmpty then none
      else (enter v (next :: path) t).map fun t => es.put key (.table .path t)
    | some (.tables (last :: before)) =>
      if path.isEmpty then none
      else (enter v (next :: path) last).map fun t => es.put key (.tables (t :: before))
    | some _ => none

end Entries

mutual

def Node.toValue : Node → Value
  | .value v => v
  | .table _ entries => .table (entriesToValues entries)
  | .tables items => .array (tablesToValues items).reverse

def tablesToValues : List (List (String × Node)) → List Value
  | [] => []
  | t :: rest => .table (entriesToValues t) :: tablesToValues rest

def entriesToValues : List (String × Node) → List (String × Value)
  | [] => []
  | (key, n) :: rest => (key, n.toValue) :: entriesToValues rest

end

end ComponentAtlas.Toml
