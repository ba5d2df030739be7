import ComponentAtlas.Proofs.Text.Occurrence
import ComponentAtlas.Snapshot.Search

/-!
# What a search looks for

`HasText` lists the texts of a component that belong to each field, and `Mentions` says that one of
the selected texts holds what is looked for, whatever the case of its letters.  A search of a
snapshot gives the first components that mention it.
-/

namespace ComponentAtlas

namespace Component

/-- The texts of a component that a search in a field reads. -/
inductive HasText (c : Component) : SearchField → String → Prop
  | name : HasText c .name c.name
  | summary {text : String} (h : c.summary = some text) : HasText c .description text
  | description {text : String} (h : c.description = some text) : HasText c .description text
  | parameterName {p : Parameter} (h : p ∈ c.parameters) : HasText c .parameters p.name
  | parameterDescription {p : Parameter} {text : String} (h : p ∈ c.parameters)
      (ht : p.description = some text) : HasText c .parameters text
  | exampleName {e : Example} (h : e ∈ c.examples) : HasText c .examples e.name
  | exampleDescription {e : Example} {text : String} (h : e ∈ c.examples)
      (ht : e.description = some text) : HasText c .examples text
  | exampleMarkup {e : Example} (h : e ∈ c.examples) : HasText c .examples e.markup
  | exampleCode {e : Example} {text : String} (h : e ∈ c.examples) (ht : e.code = some text) :
      HasText c .examples text

/-- A text of a selected field holds `needle` once it is written in lower case. -/
def Mentions (needle : List Char) (fields : SearchFields) (c : Component) : Prop :=
  ∃ field text, fields.selects field = true ∧ c.HasText field text ∧
    needle <:+: Unicode.lowerChars text.toList

theorem mem_textsOf_iff {c : Component} {field : SearchField} {text : String} :
    text ∈ field.textsOf c ↔ c.HasText field text := by
  constructor
  · intro h
    cases field with
    | name =>
        obtain rfl := List.mem_singleton.mp h
        exact .name
    | description =>
        rcases List.mem_append.mp h with hs | hd
        · exact .summary (Option.mem_toList.mp hs)
        · exact .description (Option.mem_toList.mp hd)
    | parameters =>
        obtain ⟨p, hp, hmem⟩ := List.mem_flatMap.mp h
        rcases List.mem_cons.mp hmem with rfl | hd
        · exact .parameterName hp
        · exact .parameterDescription hp (Option.mem_toList.mp hd)
    | examples =>
        obtain ⟨e, he, hmem⟩ := List.mem_flatMap.mp h
        simp only [List.mem_cons, List.mem_append, Option.mem_toList] at hmem
        rcases hmem with rfl | hd | rfl | hc
        · exact .exampleName he
        · exact .exampleDescription he hd
        · exact .exampleMarkup he
        · exact .exampleCode he hc
  · intro h
    cases h with
    | name => exact List.mem_singleton.mpr rfl
    | summary hs => exact List.mem_append_left _ (Option.mem_toList.mpr hs)
    | description hd => exact List.mem_append_right _ (Option.mem_toList.mpr hd)
    | parameterName hp => exact List.mem_flatMap.mpr ⟨_, hp, List.mem_cons_self⟩
    | parameterDescription hp hd =>
        exact List.mem_flatMap.mpr ⟨_, hp, List.mem_cons_of_mem _ (Option.mem_toList.mpr hd)⟩
    | exampleName he => exact List.mem_flatMap.mpr ⟨_, he, List.mem_cons_self⟩
    | exampleDescription he hd => exact List.mem_flatMap.mpr ⟨_, he, by simp [hd]⟩
    | exampleMarkup he => exact List.mem_flatMap.mpr ⟨_, he, by simp⟩
    | exampleCode he hc => exact List.mem_flatMap.mpr ⟨_, he, by simp [hc]⟩

theorem isFoundBy_iff {needle : List Char} {fields : SearchFields} {c : Component} :
    c.isFoundBy needle fields = true ↔ c.Mentions needle fields := by
  have hall : ∀ field : SearchField, field ∈ SearchField.all := by
    intro field
    cases field <;> decide
  simp only [isFoundBy, Mentions, List.any_eq_true, Bool.and_eq_true, mem_textsOf_iff,
    Text.contains_iff]
  constructor
  · rintro ⟨field, -, hsel, text, htext, hin⟩
    exact ⟨field, text, hsel, htext, hin⟩
  · rintro ⟨field, text, hsel, htext, hin⟩
    exact ⟨field, hall field, hsel, text, htext, hin⟩

instance (needle : List Char) (fields : SearchFields) (c : Component) :
    Decidable (c.Mentions needle fields) :=
  decidable_of_iff (c.isFoundBy needle fields = true) isFoundBy_iff

end Component

namespace Snapshot

/-- The first components of a snapshot, at most `limit` and in its order, that mention a text, the
blanks around it and the case of its letters left aside. -/
def firstMentions (s : Snapshot) (query : String) (fields : SearchFields) (limit : Nat) :
    List Component :=
  (s.components.filter fun c =>
    decide (c.Mentions (Unicode.lowerChars (Text.trim query.toList)) fields)).take limit

theorem search_eq_firstMentions (s : Snapshot) (query : String) (fields : SearchFields)
    (limit : Nat) : s.search query fields limit = s.firstMentions query fields limit := by
  unfold search firstMentions needleOf
  congr 1
  refine List.filter_congr fun c _ => ?_
  rw [Bool.eq_iff_iff, decide_eq_true_iff, Component.isFoundBy_iff]

/-- A search depends on its text only by what is looked for. -/
theorem search_congr {s : Snapshot} {query query' : String} {fields : SearchFields} {limit : Nat}
    (h : needleOf query = needleOf query') :
    s.search query fields limit = s.search query' fields limit := by
  unfold search
  rw [h]

end Snapshot
end ComponentAtlas
