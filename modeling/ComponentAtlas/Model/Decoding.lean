import ComponentAtlas.Json.Decoding
import ComponentAtlas.Model.Encoding

/-!
# Records from JSON

The reading that undoes the writing of records.  What is left out in writing may be left out
here; everything else has to be given.
-/

namespace ComponentAtlas

namespace Parameter

def ofJson? (v : Json) : Option Parameter := do
  let f ← Fields.of? 7 v
  let name ← f.required 0 "name" .string
  let type ← f.required 1 "type" .string
  let description ← f.optional 2 "description" .string
  let defaultValue ← f.optional 3 "default_value" .string
  let isRequired ← f.required 4 "is_required" .bool
  let isCascading ← f.required 5 "is_cascading" .bool
  let uiCategory ← f.optional 6 "ui_category" .string
  some { name, type, description, defaultValue, isRequired, isCascading, uiCategory }

end Parameter

namespace Event

def ofJson? (v : Json) : Option Event := do
  let f ← Fields.of? 3 v
  let name ← f.required 0 "name" .string
  let argsType ← f.optional 1 "event_args_type" .string
  let description ← f.optional 2 "description" .string
  some { name, argsType, description }

end Event

namespace MethodParameter

def ofJson? (v : Json) : Option MethodParameter := do
  let f ← Fields.of? 4 v
  let name ← f.required 0 "name" .string
  let type ← f.required 1 "type" .string
  let defaultValue ← f.optional 2 "default_value" .string
  let description ← f.optional 3 "description" .string
  some { name, type, defaultValue, description }

end MethodParameter

namespace Method

def ofJson? (v : Json) : Option Method := do
  let f ← Fields.of? 5 v
  let name ← f.required 0 "name" .string
  let returnType ← f.required 1 "return_type" .string
  let description ← f.optional 2 "description" .string
  let parameters ← f.required 3 "parameters" (.list MethodParameter.ofJson?)
  let isAsync ← f.required 4 "is_async" .bool
  some { name, returnType, description, parameters, isAsync }

end Method

namespace Example

def ofJson? (v : Json) : Option Example := do
  let f ← Fields.of? 6 v
  let name ← f.required 0 "name" .string
  let description ← f.optional 1 "description" .string
  let markup ← f.required 2 "markup" .string
  let code ← f.optional 3 "csharp_code" .string
  let sourceFile ← f.required 4 "source_file" .string
  let features ← f.required 5 "features" (.list .string)
  some { name, description, markup, code, sourceFile, features }

end Example

namespace DocSection

def ofJson? (v : Json) : Option DocSection := do
  let f ← Fields.of? 3 v
  let heading ← f.required 0 "heading" .string
  let body ← f.required 1 "body" .string
  let examples ← f.defaulted 2 "examples" [] (.list .string)
  some { heading, body, examples }

end DocSection

namespace Component

def ofJson? (v : Json) : Option Component := do
  let f ← Fields.of? 17 v
  let name ← f.required 0 "name" .string
  let namespaceName ← f.optional 1 "namespace" .string
  let summary ← f.optional 2 "summary" .string
  let description ← f.optional 3 "description" .string
  let category ← f.optional 4 "category" .string
  let baseType ← f.optional 5 "base_type" .string
  let parameters ← f.required 6 "parameters" (.list Parameter.ofJson?)
  let events ← f.required 7 "events" (.list Event.ofJson?)
  let methods ← f.required 8 "methods" (.list Method.ofJson?)
  let examples ← f.required 9 "examples" (.list Example.ofJson?)
  let relatedComponents ← f.required 10 "related_components" (.list .string)
  let docTitle ← f.optional 11 "doc_title" .string
  let docSubtitle ← f.optional 12 "doc_subtitle" .string
  let sections ← f.defaulted 13 "sections" [] (.list DocSection.ofJson?)
  let sourceFile ← f.optional 14 "source_file" .string
  let deprecated ← f.defaulted 15 "deprecated" false .bool
  let isInternal ← f.defaulted 16 "internal" false .bool
  some
    { name, namespaceName, summary, description, category, baseType, parameters, events, methods
      examples, relatedComponents, docTitle, docSubtitle, sections, sourceFile, deprecated
      isInternal }

end Component

namespace Category

def ofJson? (v : Json) : Option Category := do
  let f ← Fields.of? 4 v
  let name ← f.required 0 "name" .string
  let title ← f.optional 1 "title" .string
  let description ← f.optional 2 "description" .string
  let components ← f.required 3 "components" (.list .string)
  some { name, title, description, components }

end Category

namespace TypeKind

def ofJson? (v : Json) : Option TypeKind :=
  (Decoder.word v).bind fun s => all.find? fun kind => kind.name == s

end TypeKind

namespace MemberKind

def ofJson? (v : Json) : Option MemberKind :=
  (Decoder.word v).bind fun s => [MemberKind.property, .method].find? fun kind => kind.name == s

end MemberKind

namespace TypeMember

def ofJson? (v : Json) : Option TypeMember := do
  let f ← Fields.of? 4 v
  let name ← f.required 0 "name" .string
  let kind ← f.required 1 "kind" MemberKind.ofJson?
  let type ← f.required 2 "type" .string
  let summary ← f.optional 3 "summary" .string
  some { name, kind, type, summary }

end TypeMember

namespace EnumValue

def ofJson? (v : Json) : Option EnumValue := do
  let f ← Fields.of? 3 v
  let name ← f.required 0 "name" .string
  let value ← f.optional 1 "value" .string
  let summary ← f.optional 2 "summary" .string
  some { name, value, summary }

end EnumValue

namespace TypeReference

def ofJson? (v : Json) : Option TypeReference := do
  let f ← Fields.of? 8 v
  let name ← f.required 0 "name" .string
  let kind ← f.required 1 "kind" TypeKind.ofJson?
  let namespaceName ← f.optional 2 "namespace" .string
  let summary ← f.optional 3 "summary" .string
  let baseType ← f.optional 4 "base_type" .string
  let members ← f.defaulted 5 "members" [] (.list TypeMember.ofJson?)
  let values ← f.defaulted 6 "values" [] (.list EnumValue.ofJson?)
  let sourceFile ← f.optional 7 "source_file" .string
  some { name, kind, namespaceName, summary, baseType, members, values, sourceFile }

end TypeReference
end ComponentAtlas
