import ComponentAtlas.Cache.Basic
import ComponentAtlas.Category.Decoding
import ComponentAtlas.Toml.Reading

/-!
# Settings

Where the library's sources are, how they are laid out, what is indexed and how long results are
kept.  Settings are read from TOML; whatever is not given there has a standard value.
-/

namespace ComponentAtlas

structure SourceSettings where
  /-- The directory of the source tree. -/
  root : String
  /-- Where the tree is fetched from when it is missing. -/
  repositoryUrl : Option String
  branch : Option String
  deriving DecidableEq, Repr

structure IndexSettings where
  /-- Whether internal and deprecated declarations are indexed as well. -/
  includeInternal : Bool
  maxExamples : Nat
  /-- What component names begin with, and may be left out when a component is asked for. -/
  componentPrefix : String
  deriving DecidableEq, Repr

/-- After how many seconds results expire; zero stands for never. -/
structure CacheSettings where
  slidingSeconds : Nat
  absoluteSeconds : Nat
  deriving DecidableEq, Repr

/-- The directories of the source tree. -/
structure LayoutSettings where
  componentsDir : String
  /-- Directories of types that are no components. -/
  typeDirs : List String
  pagesDir : String
  /-- The name of the directories with examples, inside the directories of pages. -/
  examplesDir : String
  deriving DecidableEq, Repr

structure Settings where
  source : SourceSettings
  index : IndexSettings
  cache : CacheSettings
  layout : LayoutSettings
  categories : CategoryTable
  deriving DecidableEq, Repr

namespace SourceSettings

def standard : SourceSettings := ⟨"MudBlazor", none, none⟩

def ofJson? (v : Json) : Option SourceSettings := do
  let f ← Fields.of? 3 v
  let root ← f.defaulted 0 "root" standard.root .string
  let repositoryUrl ← f.defaulted 1 "repository_url" none (.option .string)
  let branch ← f.defaulted 2 "branch" none (.option .string)
  some { root, repositoryUrl, branch }

end SourceSettings

namespace IndexSettings

def standard : IndexSettings := ⟨false, 20, "Mud"⟩

def ofJson? (v : Json) : Option IndexSettings := do
  let f ← Fields.of? 3 v
  let includeInternal ← f.defaulted 0 "include_internal" standard.includeInternal .bool
  let maxExamples ← f.defaulted 1 "max_examples_per_component" standard.maxExamples .nat
  let componentPrefix ← f.defaulted 2 "component_prefix" standard.componentPrefix .string
  some { includeInternal, maxExamples, componentPrefix }

end IndexSettings

namespace CacheSettings

def standard : CacheSettings := ⟨1800, 7200⟩

def ofJson? (v : Json) : Option CacheSettings := do
  let f ← Fields.of? 2 v
  let slidingSeconds ← f.defaulted 0 "sliding_expiration_secs" standard.slidingSeconds .nat
  let absoluteSeconds ← f.defaulted 1 "absolute_expiration_secs" standard.absoluteSeconds .nat
  some { slidingSeconds, absoluteSeconds }

/-- A window in milliseconds, if there is one. -/
def window? (seconds : Nat) : Option Nat :=
  if seconds = 0 then none else some (1000 * seconds)

def windows (s : CacheSettings) : Windows :=
  ⟨window? s.slidingSeconds, window? s.absoluteSeconds⟩

end CacheSettings

namespace LayoutSettings

def standard : LayoutSettings where
  componentsDir := "src/MudBlazor/Components"
  typeDirs := ["src/MudBlazor/Enums"]
  pagesDir := "src/MudBlazor.Docs/Pages/Components"
  examplesDir := "Examples"

def ofJson? (v : Json) : Option LayoutSettings := do
  let f ← Fields.of? 4 v
  let componentsDir ← f.defaulted 0 "components_dir" standard.componentsDir .string
  let typeDirs ← f.defaulted 1 "api_dirs" standard.typeDirs (.list .string)
  let pagesDir ← f.defaulted 2 "docs_pages_dir" standard.pagesDir .string
  let examplesDir ← f.defaulted 3 "examples_subdir" standard.examplesDir .string
  some { componentsDir, typeDirs, pagesDir, examplesDir }

end LayoutSettings

namespace Settings

def standard : Settings :=
  ⟨.standard, .standard, .standard, .standard, .standard⟩

def ofJson? (v : Json) : Option Settings := do
  let f ← Fields.of? 5 v
  let source ← f.defaulted 0 "source" .standard SourceSettings.ofJson?
  let index ← f.defaulted 1 "index" .standard IndexSettings.ofJson?
  let cache ← f.defaulted 2 "cache" .standard CacheSettings.ofJson?
  let layout ← f.defaulted 3 "layout" .standard LayoutSettings.ofJson?
  let categories ← f.defaulted 4 "categories" .standard CategoryTable.ofJson?
  some { source, index, cache, layout, categories }

/-- The settings that a TOML text spells. -/
def ofToml? (text : String) : Option Settings :=
  (Toml.parse? text).bind fun v => ofJson? v.toJson

end Settings
end ComponentAtlas
