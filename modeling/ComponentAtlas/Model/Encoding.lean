import ComponentAtlas.Json
import ComponentAtlas.Model.Category
import ComponentAtlas.Model.Component
import ComponentAtlas.Model.TypeReference

/-!
# Records as JSON

Each record is written as an object with its entries in a fixed order.  An absent value is
written as `null`, except for the properties of a component, which are then left out; so are the
lists that are marked as left out when empty.
-/

namespace ComponentAtlas

namespace Parameter

def toJson (p : Parameter) : Json :=
  .object [("name", .string p.name), ("type", .string p.type),
    ("description", .ofStringOption p.description),
    ("default_value", .ofStringOption p.defaultValue), ("is_required", .bool p.isRequired),
    ("is_cascading", .bool p.isCascading), ("ui_category", .ofStringOption p.uiCategory)]

end Parameter

namespace Event

def toJson (e : Event) : Json :=
  .object [("name", .string e.name), ("event_args_type", .ofStringOption e.argsType),
    ("description", .ofStringOption e.description)]

end Event

namespace MethodParameter

def toJson (p : MethodParameter) : Json :=
  .object [("name", .string p.name), ("type", .string p.type),
    ("default_value", .ofStringOption p.defaultValue),
    ("description", .ofStringOption p.description)]

end MethodParameter

namespace Method

def toJson (m : Method) : Json :=
  .object [("name", .string m.name), ("return_type", .string m.returnType),
    ("description", .ofStringOption m.description),
    ("parameters", .array (m.parameters.map MethodParameter.toJson)),
    ("is_async", .bool m.isAsync)]

end Method

namespace Example

def toJson (e : Example) : Json :=
  .object [("name", .string e.name), ("description", .ofStringOption e.description),
    ("markup", .string e.markup), ("csharp_code", .ofStringOption e.code),
    ("source_file", .string e.sourceFile), ("features", .ofStrings e.features)]

end Example

namespace DocSection

def toJson (s : DocSection) : Json :=
  .object ([("heading", .string s.heading), ("body", .string s.body)] ++
    Json.listEntry "examples" (s.examples.map .string))

end DocSection

namespace Component

def toJson (c : Component) : Json :=
  .object ([("name", .string c.name)] ++
    Json.optionalEntry "namespace" c.namespaceName ++
    Json.optionalEntry "summary" c.summary ++
    Json.optionalEntry "description" c.description ++
    Json.optionalEntry "category" c.category ++
    Json.optionalEntry "base_type" c.baseType ++
    [("parameters", .array (c.parameters.map Parameter.toJson)),
      ("events", .array (c.events.map Event.toJson)),
      ("methods", .array (c.methods.map Method.toJson)),
      ("examples", .array (c.examples.map Example.toJson)),
      ("related_components", .ofStrings c.relatedComponents)] ++
    Json.optionalEntry "doc_title" c.docTitle ++
    Json.optionalEntry "doc_subtitle" c.docSubtitle ++
    Json.listEntry "sections" (c.sections.map DocSection.toJson) ++
    Json.optionalEntry "source_file" c.sourceFile ++
    [("deprecated", .bool c.deprecated), ("internal", .bool c.isInternal)])

end Component

namespace Category

def toJson (c : Category) : Json :=
  .object [("name", .string c.name), ("title", .ofStringOption c.title),
    ("description", .ofStringOption c.description), ("components", .ofStrings c.components)]

end Category

namespace TypeKind

def toJson (kind : TypeKind) : Json :=
  .string kind.name

end TypeKind

namespace MemberKind

/-- The word for a member's kind in JSON. -/
def name : MemberKind → String
  | .property => "property"
  | .method => "method"

def toJson (kind : MemberKind) : Json :=
  .string kind.name

end MemberKind

namespace TypeMember

def toJson (m : TypeMember) : Json :=
  .object [("name", .string m.name), ("kind", m.kind.toJson), ("type", .string m.type),
    ("summary", .ofStringOption m.summary)]

end TypeMember

namespace EnumValue

def toJson (v : EnumValue) : Json :=
  .object [("name", .string v.name), ("value", .ofStringOption v.value),
    ("summary", .ofStringOption v.summary)]

end EnumValue

namespace TypeReference

def toJson (t : TypeReference) : Json :=
  .object ([("name", .string t.name), ("kind", t.kind.toJson),
      ("namespace", .ofStringOption t.namespaceName),
      ("summary", .ofStringOption t.summary), ("base_type", .ofStringOption t.baseType)] ++
    Json.listEntry "members" (t.members.map TypeMember.toJson) ++
    Json.listEntry "values" (t.values.map EnumValue.toJson) ++
    [("source_file", .ofStringOption t.sourceFile)])

end TypeReference
end ComponentAtlas
