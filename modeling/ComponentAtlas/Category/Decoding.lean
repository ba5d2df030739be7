import ComponentAtlas.Category.Standard
import ComponentAtlas.Json.Decoding

/-!
# Category tables from JSON

The parts of a table that are not given are those of the standard table.
-/

namespace ComponentAtlas

namespace CategoryEntry

def ofJson? (v : Json) : Option CategoryEntry := do
  let f ← Fields.of? 4 v
  let name ← f.required 0 "name" .string
  let title ← f.defaulted 1 "title" none (.option .string)
  let description ← f.defaulted 2 "description" none (.option .string)
  let members ← f.defaulted 3 "members" [] (.list .string)
  some { name, title, description, members }

def toJson (e : CategoryEntry) : Json :=
  .object [("name", .string e.name), ("title", .ofStringOption e.title),
    ("description", .ofStringOption e.description), ("members", .ofStrings e.members)]

end CategoryEntry

namespace CategoryRule

def ofJson? (v : Json) : Option CategoryRule := do
  let f ← Fields.of? 3 v
  let category ← f.required 0 "category" .string
  let contains ← f.defaulted 1 "contains" [] (.list .string)
  let endsWith ← f.defaulted 2 "ends_with" [] (.list .string)
  some { category, contains, endsWith }

def toJson (r : CategoryRule) : Json :=
  .object [("category", .string r.category), ("contains", .ofStrings r.contains),
    ("ends_with", .ofStrings r.endsWith)]

end CategoryRule

namespace CategoryTable

def ofJson? (v : Json) : Option CategoryTable := do
  let f ← Fields.of? 3 v
  let entries ← f.defaulted 0 "entries" standard.entries (.list CategoryEntry.ofJson?)
  let rules ← f.defaulted 1 "rules" standard.rules (.list CategoryRule.ofJson?)
  let infer ← f.defaulted 2 "infer" standard.infer .bool
  some { entries, rules, infer }

def toJson (t : CategoryTable) : Json :=
  .object [("entries", .array (t.entries.map CategoryEntry.toJson)),
    ("rules", .array (t.rules.map CategoryRule.toJson)), ("infer", .bool t.infer)]

end CategoryTable
end ComponentAtlas
