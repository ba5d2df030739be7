import ComponentAtlas.Cache.Gate
import ComponentAtlas.Index.Stages
import ComponentAtlas.Model.IndexState
import ComponentAtlas.Search.Fields
import ComponentAtlas.Snapshot.Related
import ComponentAtlas.Snapshot.Search

/-!
# The engine

The engine builds snapshots, publishes them, and answers questions from the one that is published.
Each publication has a number, its generation.  A build that fails before it publishes leaves
everything as it was.

Two caches stand beside the published snapshot.  One holds the snapshot itself, so that a caller who
only needs some snapshot gets it built once, and again when it has expired.  The other holds the
results of searches under keys that name the generation and all that was asked for.
-/

namespace ComponentAtlas

structure Engine where
  settings : Settings
  /-- The published snapshot. -/
  snapshot : Option Snapshot
  /-- How many snapshots were published. -/
  generation : Nat
  /-- Whether somebody has the right to build. -/
  isLocked : Bool
  /-- Whether a build is running. -/
  isBuilding : Bool
  snapshotCache : Cache Snapshot
  searchCache : Cache (List Component)
  deriving DecidableEq, Repr

namespace Engine

/-- How many results a search may ask for. -/
def maxSearchResults : Nat := 50

def snapshotKey : String := "snapshot"

def ofSettings (settings : Settings) (windows : Windows) : Engine where
  settings := settings
  snapshot := none
  generation := 0
  isLocked := false
  isBuilding := false
  snapshotCache := .ofWindows windows
  searchCache := .ofWindows windows

/-! ## Building -/

/-- What the keys of search results of a generation begin with. -/
def searchKeyStart (generation : Nat) : String :=
  "search:" ++ toString generation ++ ":"

/-- The key of the results of a search. -/
def searchKey (generation : Nat) (fields : SearchFields) (limit : Nat) (needle : List Char) :
    String :=
  searchKeyStart generation ++ toString fields.toBits ++ ":" ++ toString limit ++ ":" ++
    String.ofList needle

/-- Takes the number of the next publication. -/
def number (e : Engine) : Engine :=
  { e with generation := e.generation + 1 }

def setSnapshot (e : Engine) (s : Snapshot) : Engine :=
  { e with snapshot := some s }

/-- Puts a snapshot into the snapshot cache. -/
def cacheSnapshot (e : Engine) (s : Snapshot) : Except IndexError Unit × Engine :=
  match e.snapshotCache.set snapshotKey s with
  | (.error err, cache) => (.error (.cache err), { e with snapshotCache := cache })
  | (.ok (), cache) => (.ok (), { e with snapshotCache := cache })

/-- Drops the search results of other generations. -/
def dropStaleResults (e : Engine) (generation : Nat) : Except IndexError Unit × Engine :=
  let isStale (key : String) :=
    (Text.after? (searchKeyStart generation).toList key.toList).isNone
  match e.searchCache.removeWhere isStale with
  | (.error err, cache) => (.error (.cache err), { e with searchCache := cache })
  | (.ok _, cache) => (.ok (), { e with searchCache := cache })

/-- Publishes a snapshot as the next generation.  When a cache fails, the snapshot is published
nevertheless. -/
def publish (e : Engine) (s : Snapshot) : Except IndexError Snapshot × Engine :=
  let e := e.number
  let s := { s with generation := e.generation }
  let e := e.setSnapshot s
  match e.cacheSnapshot s with
  | (.error err, e) => (.error err, e)
  | (.ok (), e) =>
    match e.dropStaleResults s.generation with
    | (.error err, e) => (.error err, e)
    | (.ok (), e) => (.ok s, e)

/-- Publishes what a build has given, if anything. -/
def publishBuilt (e : Engine) (built : Except IndexError Snapshot) :
    Except IndexError Snapshot × Engine :=
  match built with
  | .error err => (.error err, e)
  | .ok s => e.publish s

/-- Builds and publishes a snapshot.  A build is running meanwhile, and none is when it has ended in
whatever way. -/
def runBuild (e : Engine) (tree : SourceTree) (availability : Availability) (cancelled : Bool) :
    Except IndexError Snapshot × Engine :=
  let e := { e with isBuilding := true }
  let (result, e) := e.publishBuilt (Snapshot.build e.settings tree availability cancelled)
  (result, { e with isBuilding := false })

/-- Takes the right to build, builds, and gives the right back. -/
def buildLocked (e : Engine) (tree : SourceTree) (availability : Availability) (cancelled : Bool) :
    Except IndexError Snapshot × Engine :=
  let e := { e with isLocked := true }
  let (result, e) := e.runBuild tree availability cancelled
  (result, { e with isLocked := false })

/-- Builds and publishes a snapshot, unless somebody else is about to. -/
def build (e : Engine) (tree : SourceTree) (availability : Availability) (cancelled : Bool) :
    Except IndexError Snapshot × Engine :=
  if e.isLocked then (.error .buildInProgress, e)
  else e.buildLocked tree availability cancelled

/-- Builds when there is no snapshot in the cache.  Where somebody else has the right to build, the
caller waits for it and is given up. -/
def rebuild (tree : SourceTree) (availability : Availability) (cancelled : Bool) (e : Engine)
    (cache : Cache Snapshot) : Except IndexError Snapshot × Engine × Cache Snapshot :=
  let e := { e with snapshotCache := cache }
  if e.isLocked then (.error .cancelled, e, e.snapshotCache)
  else
    let (result, e) := e.buildLocked tree availability cancelled
    (result, e, e.snapshotCache)

/-- A snapshot that has not expired, built and published when there is none. -/
def ensureIndexed (e : Engine) (tree : SourceTree) (availability : Availability)
    (cancelled : Bool) : Except IndexError Snapshot × Engine :=
  let (creation, e, cache) := e.snapshotCache.getOrCreateWith IndexError.cache snapshotKey e
    (rebuild tree availability cancelled)
  (creation.result, { e with snapshotCache := cache })

/-! ## Asking -/

/-- The published snapshot. -/
def current (e : Engine) : Except IndexError Snapshot :=
  match e.snapshot with
  | some s => .ok s
  | none => .error .notIndexed

def isIndexed (e : Engine) : Bool :=
  e.snapshot.isSome

def state (e : Engine) : IndexState :=
  if e.isBuilding then .building
  else if e.isIndexed then .indexed
  else .notIndexed

/-- What is wrong with a search, if anything. -/
def searchFault? (query : String) (fields : SearchFields) (limit : Nat) : Option IndexError :=
  if Text.allBlank query.toList then some (.invalidArgument "query" "must not be empty")
  else if fields.isEmpty then some (.invalidArgument "fields" "select at least one field")
  else if limit < 1 ∨ maxSearchResults < limit then
    some (.invalidArgument "max_results"
      ("must be between 1 and " ++ toString maxSearchResults))
  else none

/-- The first components, at most `limit`, in which a text is found.  Results are kept until the
next publication. -/
def search (e : Engine) (query : String) (fields : SearchFields) (limit : Nat) :
    Except IndexError (List Component) × Engine :=
  match e.current with
  | .error err => (.error err, e)
  | .ok s =>
    match searchFault? query fields limit with
    | some err => (.error err, e)
    | none =>
      let key := searchKey s.generation fields limit (Snapshot.needleOf query)
      match e.searchCache.get key with
      | (.error err, cache) => (.error (.cache err), { e with searchCache := cache })
      | (.ok (some results), cache) => (.ok results, { e with searchCache := cache })
      | (.ok none, cache) =>
        let results := s.search query fields limit
        match cache.set key results with
        | (.error err, cache) => (.error (.cache err), { e with searchCache := cache })
        | (.ok (), cache) => (.ok results, { e with searchCache := cache })

/-- A search in fields that a text spells. -/
def searchText (e : Engine) (query fields : String) (limit : Nat) :
    Except IndexError (List Component) × Engine :=
  match SearchFields.ofText fields with
  | .error fault => (.error (.invalidArgument "fields" fault.message), e)
  | .ok fields => e.search query fields limit

/-- The members of a category; none when there is no such category. -/
def componentsIn (e : Engine) (category : String) : Except IndexError (List Component) :=
  e.current.map fun s => s.componentsIn category

def categories (e : Engine) : Except IndexError (List Category) :=
  e.current.map Snapshot.categories

def category (e : Engine) (name : String) : Except IndexError Category :=
  e.current.bind fun s =>
    match s.category? name with
    | some c => .ok c
    | none => .error (.unknownCategory name)

/-- The component that a name stands for. -/
def component? (e : Engine) (name : String) : Except IndexError (Option Component) :=
  e.current.map fun s => s.resolve? name

/-- The components related to one with a name. -/
def related (e : Engine) (name : String) (kind : Relationship) :
    Except IndexError (List Component) :=
  e.current.bind fun s =>
    if Text.allBlank name.toList then .error (.invalidArgument "component" "must not be empty")
    else match s.resolve? name with
      | none => .error (.unknownComponent name)
      | some c => .ok (s.related c kind)

/-- The components related in a way that a text spells. -/
def relatedText (e : Engine) (name kind : String) : Except IndexError (List Component) :=
  match Relationship.ofText? (Text.trimString kind) with
  | none => .error (.invalidArgument "relationship" ("unknown kind '" ++ kind ++
      "' (expected parent, child, sibling, commonly_used_with or all)"))
  | some k => e.related name k

def type? (e : Engine) (name : String) : Except IndexError (Option TypeReference) :=
  e.current.map fun s => s.type? name

/-- The names of all components, or of those that a category lists. -/
def componentNames (e : Engine) : Option String → Except IndexError (List String)
  | some name => (e.category name).map Category.components
  | none => e.current.map fun s => s.components.map Component.name

def typeNames (e : Engine) : Except IndexError (List String) :=
  e.current.map fun s => s.types.map TypeReference.name

def statistics (e : Engine) : Except IndexError Statistics :=
  e.current.map Snapshot.statistics

/-- What the cache of search results says about itself. -/
def cacheStatistics (e : Engine) : Except IndexError CacheStatistics × Engine :=
  match e.searchCache.statistics with
  | (.error err, cache) => (.error (.cache err), { e with searchCache := cache })
  | (.ok stats, cache) => (.ok stats, { e with searchCache := cache })

/-- Gives up both caches. -/
def dispose (e : Engine) : Engine :=
  { e with searchCache := e.searchCache.dispose, snapshotCache := e.snapshotCache.dispose }

end Engine
end ComponentAtlas
