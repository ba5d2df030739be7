import ComponentAtlas.Model.Decoding
import ComponentAtlas.Proofs.Json.Reading

/-!
# Records come back from JSON

What is left out in writing is what the reading has a value for: the absent texts of a component,
which the reading may miss, and the empty lists, which are the defaults of their fields.  So each
record is taken back field by field (`Fields.Hold.required`, `Fields.Hold.defaulted`,
`Fields.Hold.optional`), the records in its lists before it.
-/

namespace ComponentAtlas

open Decoder (string_reads bool_reads some_bind)

/-! ## The parts of a component -/

theorem Parameter.reads : Decoder.Reads Parameter.ofJson? Parameter.toJson := by
  intro p v h
  obtain ⟨f, hof, hf⟩ := Fields.of?_of_reordered h 7
  simp only [Parameter.ofJson?, hof, some_bind,
    hf.required 0 "name" string_reads p.name (by simp),
    hf.required 1 "type" string_reads p.type (by simp),
    hf.optional 2 "description" p.description (by simp),
    hf.optional 3 "default_value" p.defaultValue (by simp),
    hf.required 4 "is_required" bool_reads p.isRequired (by simp),
    hf.required 5 "is_cascading" bool_reads p.isCascading (by simp),
    hf.optional 6 "ui_category" p.uiCategory (by simp)]

theorem Event.reads : Decoder.Reads Event.ofJson? Event.toJson := by
  intro e v h
  obtain ⟨f, hof, hf⟩ := Fields.of?_of_reordered h 3
  simp only [Event.ofJson?, hof, some_bind,
    hf.required 0 "name" string_reads e.name (by simp),
    hf.optional 1 "event_args_type" e.argsType (by simp),
    hf.optional 2 "description" e.description (by simp)]

theorem MethodParameter.reads :
    Decoder.Reads MethodParameter.ofJson? MethodParameter.toJson := by
  intro p v h
  obtain ⟨f, hof, hf⟩ := Fields.of?_of_reordered h 4
  simp only [MethodParameter.ofJson?, hof, some_bind,
    hf.required 0 "name" string_reads p.name (by simp),
    hf.required 1 "type" string_reads p.type (by simp),
    hf.optional 2 "default_value" p.defaultValue (by simp),
    hf.optional 3 "description" p.description (by simp)]

theorem Method.reads : Decoder.Reads Method.ofJson? Method.toJson := by
  intro m v h
  obtain ⟨f, hof, hf⟩ := Fields.of?_of_reordered h 5
  simp only [Method.ofJson?, hof, some_bind,
    hf.required 0 "name" string_reads m.name (by simp),
    hf.required 1 "return_type" string_reads m.returnType (by simp),
    hf.optional 2 "description" m.description (by simp),
    hf.required 3 "parameters" MethodParameter.reads.list m.parameters (by simp),
    hf.required 4 "is_async" bool_reads m.isAsync (by simp)]

theorem Example.reads : Decoder.Reads Example.ofJson? Example.toJson := by
  intro e v h
  obtain ⟨f, hof, hf⟩ := Fields.of?_of_reordered h 6
  simp only [Example.ofJson?, hof, some_bind,
    hf.required 0 "name" string_reads e.name (by simp),
    hf.optional 1 "description" e.description (by simp),
    hf.required 2 "markup" string_reads e.markup (by simp),
    hf.optional 3 "csharp_code" e.code (by simp),
    hf.required 4 "source_file" string_reads e.sourceFile (by simp),
    hf.required 5 "features" string_reads.list e.features (by simp [Json.ofStrings])]

theorem DocSection.reads : Decoder.Reads DocSection.ofJson? DocSection.toJson := by
  intro s v h
  obtain ⟨f, hof, hf⟩ := Fields.of?_of_reordered h 3
  simp only [DocSection.ofJson?, hof, some_bind,
    hf.required 0 "heading" string_reads s.heading (by simp),
    hf.required 1 "body" string_reads s.body (by simp),
    hf.list 2 "examples" string_reads s.examples (by simp)]

/-! ## Components and categories -/

theorem Component.reads : Decoder.Reads Component.ofJson? Component.toJson := by
  intro c v h
  obtain ⟨f, hof, hf⟩ := Fields.of?_of_reordered h 17
  simp only [Component.ofJson?, hof, some_bind,
    hf.required 0 "name" string_reads c.name (by simp),
    hf.optional 1 "namespace" c.namespaceName (by simp),
    hf.optional 2 "summary" c.summary (by simp),
    hf.optional 3 "description" c.description (by simp),
    hf.optional 4 "category" c.category (by simp),
    hf.optional 5 "base_type" c.baseType (by simp),
    hf.required 6 "parameters" Parameter.reads.list c.parameters (by simp),
    hf.required 7 "events" Event.reads.list c.events (by simp),
    hf.required 8 "methods" Method.reads.list c.methods (by simp),
    hf.required 9 "examples" Example.reads.list c.examples (by simp),
    hf.required 10 "related_components" string_reads.list c.relatedComponents
      (by simp [Json.ofStrings]),
    hf.optional 11 "doc_title" c.docTitle (by simp),
    hf.optional 12 "doc_subtitle" c.docSubtitle (by simp),
    hf.list 13 "sections" DocSection.reads c.sections (by simp),
    hf.optional 14 "source_file" c.sourceFile (by simp),
    hf.defaulted 15 "deprecated" bool_reads c.deprecated (by simp),
    hf.defaulted 16 "internal" bool_reads c.isInternal (by simp)]

theorem Category.reads : Decoder.Reads Category.ofJson? Category.toJson := by
  intro c v h
  obtain ⟨f, hof, hf⟩ := Fields.of?_of_reordered h 4
  simp only [Category.ofJson?, hof, some_bind,
    hf.required 0 "name" string_reads c.name (by simp),
    hf.optional 1 "title" c.title (by simp),
    hf.optional 2 "description" c.description (by simp),
    hf.required 3 "components" string_reads.list c.components (by simp [Json.ofStrings])]

/-! ## Type references -/

theorem TypeKind.reads : Decoder.Reads TypeKind.ofJson? TypeKind.toJson :=
  Decoder.word_reads fun kind => by cases kind <;> decide

theorem MemberKind.reads : Decoder.Reads MemberKind.ofJson? MemberKind.toJson :=
  Decoder.word_reads fun kind => by cases kind <;> decide

theorem TypeMember.reads : Decoder.Reads TypeMember.ofJson? TypeMember.toJson := by
  intro m v h
  obtain ⟨f, hof, hf⟩ := Fields.of?_of_reordered h 4
  simp only [TypeMember.ofJson?, hof, some_bind,
    hf.required 0 "name" string_reads m.name (by simp),
    hf.required 1 "kind" MemberKind.reads m.kind (by simp),
    hf.required 2 "type" string_reads m.type (by simp),
    hf.optional 3 "summary" m.summary (by simp)]

theorem EnumValue.reads : Decoder.Reads EnumValue.ofJson? EnumValue.toJson := by
  intro e v h
  obtain ⟨f, hof, hf⟩ := Fields.of?_of_reordered h 3
  simp only [EnumValue.ofJson?, hof, some_bind,
    hf.required 0 "name" string_reads e.name (by simp),
    hf.optional 1 "value" e.value (by simp),
    hf.optional 2 "summary" e.summary (by simp)]

theorem TypeReference.reads : Decoder.Reads TypeReference.ofJson? TypeReference.toJson := by
  intro t v h
  obtain ⟨f, hof, hf⟩ := Fields.of?_of_reordered h 8
  simp only [TypeReference.ofJson?, hof, some_bind,
    hf.required 0 "name" string_reads t.name (by simp),
    hf.required 1 "kind" TypeKind.reads t.kind (by simp),
    hf.optional 2 "namespace" t.namespaceName (by simp),
    hf.optional 3 "summary" t.summary (by simp),
    hf.optional 4 "base_type" t.baseType (by simp),
    hf.list 5 "members" TypeMember.reads t.members (by simp),
    hf.list 6 "values" EnumValue.reads t.values (by simp),
    hf.optional 7 "source_file" t.sourceFile (by simp)]

/-! ## The round trip -/

/-- A record is read back as it was from what is written for it, as it was written and with the
entries of its objects, at any depth, in any other order. -/
theorem records_read_back (c : Component) (k : Category) (t : TypeReference) :
    (Component.ofJson? c.toJson = some c ∧
      ∀ v, c.toJson.Reordered v → Component.ofJson? v = some c) ∧
    (Category.ofJson? k.toJson = some k ∧
      ∀ v, k.toJson.Reordered v → Category.ofJson? v = some k) ∧
    (TypeReference.ofJson? t.toJson = some t ∧
      ∀ v, t.toJson.Reordered v → TypeReference.ofJson? v = some t) :=
  ⟨⟨Component.reads c _ (Json.Reordered.refl _), Component.reads c⟩,
    ⟨Category.reads k _ (Json.Reordered.refl _), Category.reads k⟩,
    ⟨TypeReference.reads t _ (Json.Reordered.refl _), TypeReference.reads t⟩⟩

/-- A category whose list of members comes before its name. -/
theorem records_read_back_reversed :
    Category.ofJson? (.object [("components", .array [.string "Chip"]), ("description", .null),
        ("title", .string "Chips"), ("name", .string "chips")]) =
      some { name := "chips", title := some "Chips", description := none
             components := ["Chip"] } :=
  (records_read_back (.ofName "Chip") ⟨"chips", some "Chips", none, ["Chip"]⟩
    ⟨"ChipKind", .enumType, none, none, none, [], [], none⟩).2.1.2 _
    (.object (Json.ReorderedEntries.refl _) (List.reverse_perm _).symm)

end ComponentAtlas
