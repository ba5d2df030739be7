/-!
# Component records

What the index knows about one component of the library: its parameters, events and methods, its
examples, and the sections of its documentation page.  All texts are as the source writes them,
cleaned of markup where they are prose.
-/

namespace ComponentAtlas

/-- A component parameter: a property that carries the parameter or the cascading marker. -/
structure Parameter where
  name : String
  type : String
  description : Option String
  /-- The initialiser's text. -/
  defaultValue : Option String
  isRequired : Bool
  isCascading : Bool
  /-- The last part of the argument of the property's category attribute. -/
  uiCategory : Option String
  deriving DecidableEq, Repr

/-- A parameter that is an event callback. -/
structure Event where
  name : String
  /-- The callback's type argument; absent for an event without payload. -/
  argsType : Option String
  description : Option String
  deriving DecidableEq, Repr

/-- A formal parameter of a method. -/
structure MethodParameter where
  name : String
  type : String
  defaultValue : Option String
  description : Option String
  deriving DecidableEq, Repr

structure Method where
  name : String
  returnType : String
  description : Option String
  parameters : List MethodParameter
  /-- Whether the return type is an awaitable task. -/
  isAsync : Bool
  deriving DecidableEq, Repr

/-- A usage example, read from a file of its own. -/
structure Example where
  name : String
  description : Option String
  markup : String
  /-- The contents of the code block. -/
  code : Option String
  sourceFile : String
  /-- What the markup demonstrates. -/
  features : List String
  deriving DecidableEq, Repr

/-- A section of a documentation page and the examples shown in it. -/
structure DocSection where
  heading : String
  body : String
  examples : List String
  deriving DecidableEq, Repr

structure Component where
  name : String
  namespaceName : Option String
  summary : Option String
  description : Option String
  category : Option String
  baseType : Option String
  parameters : List Parameter
  events : List Event
  methods : List Method
  examples : List Example
  /-- The components that the documentation page links to. -/
  relatedComponents : List String
  docTitle : Option String
  docSubtitle : Option String
  sections : List DocSection
  sourceFile : Option String
  deprecated : Bool
  /-- Declared without `public`. -/
  isInternal : Bool
  deriving DecidableEq, Repr

namespace Component

/-- A component of which only the name is known. -/
def ofName (name : String) : Component where
  name := name
  namespaceName := none
  summary := none
  description := none
  category := none
  baseType := none
  parameters := []
  events := []
  methods := []
  examples := []
  relatedComponents := []
  docTitle := none
  docSubtitle := none
  sections := []
  sourceFile := none
  deprecated := false
  isInternal := false

end Component
end ComponentAtlas
