import ComponentAtlas.Declaration.Documentation
import ComponentAtlas.DocsPage.Markup
import ComponentAtlas.Proofs.Text.Escape
import ComponentAtlas.Proofs.Text.Recogniser
import ComponentAtlas.Proofs.Text.Solid

/-!
# Escaped prose is read as it stands

Prose is cleaned in passes over the whole text: references and tags go first, then expressions on a
page, then entities, and last the blanks.  In escaped prose no pass before the entities finds
anything, since a reference and a tag begin with a bracket and an expression with an at sign; the
entities then give back the prose, whatever tags and entities that itself spells; and the blanks are
written as single spaces between its words (`escaped_prose_kept`).
-/

namespace ComponentAtlas

open Text

variable {s : List Char}

theorem head?_ne_of_suffix {v : List Char} {d : Char} (hd : d ∉ s) (h : v <:+ s) :
    v.head? ≠ some d := by
  intro hhead
  exact hd (h.subset (List.mem_of_head? hhead))

theorem after?_eq_none_of_head? {d : Char} {p v : List Char} (h : v.head? ≠ some d) :
    after? (d :: p) v = none := by
  rw [after?_eq_none_iff]
  rintro ⟨t, rfl⟩
  exact h rfl

/-- A text without brackets has no references. -/
theorem replace_reference (hs : '<' ∉ s) : Documentation.reference.replace id s = s :=
  replace_ofReading (fun v hv => by
    rw [Documentation.reference?, after?_eq_none_of_head? (head?_ne_of_suffix hs hv),
      Option.bind_none]) id

theorem blankTags_eq_self (hs : '<' ∉ s) : blankTags s = s := by
  refine replace_ofReading (fun v hv => ?_) _
  have hhead := head?_ne_of_suffix hs hv
  have hnone : afterTag? v = none := by
    unfold afterTag?
    split
    · exact absurd rfl hhead
    · rfl
  rw [hnone, Option.map_none]

/-- A text without at signs has no expressions. -/
theorem replace_expression (hs : '@' ∉ s) : Markup.expression.replace id s = s :=
  replace_ofReading (fun v hv => by
    rw [after?_eq_none_of_head? (head?_ne_of_suffix hs hv), Option.bind_none]) id

theorem bracket_notMem_escape (cs : List Char) : '<' ∉ escape cs :=
  notMem_escape (forall_mem_escaped.mpr (by decide)) fun hplain => absurd (by decide) hplain

theorem Documentation.plainText?_escape (cs : List Char) :
    Documentation.plainText? (escape cs) = nonEmpty? (collapse cs) := by
  have hbracket := bracket_notMem_escape cs
  rw [Documentation.plainText?, replace_reference hbracket, blankTags_eq_self hbracket,
    unescape_escape]

theorem Markup.plainText?_escape {cs : List Char} (h : '@' ∉ cs) :
    Markup.plainText? (escape cs) = nonEmpty? (collapse cs) := by
  have hat : '@' ∉ escape cs := notMem_escape (forall_mem_escaped.mpr (by decide)) fun _ => h
  simp only [Markup.plainText?, blankTags_eq_self (bracket_notMem_escape cs),
    replace_expression hat]
  rw [replaceAll_escape (by decide) (forall_mem_escaped.mpr (by decide)), unescape_escape]

/-- Escaped prose is read as the prose with a single space between its words, and as nothing when it
is blank: no entity and no tag that it spells is taken for one.  A page reads it alike unless it
holds an at sign. -/
theorem escaped_prose_kept (cs : List Char) :
    ∃ ws, HasWords cs ws ∧
      Documentation.plainText? (escape cs) =
        (if allBlank cs then none else some (String.ofList ([' '].intercalate ws))) ∧
      ('@' ∉ cs → Markup.plainText? (escape cs) = Documentation.plainText? (escape cs)) := by
  refine ⟨words cs, hasWords_words cs, ?_, fun hat => ?_⟩
  · rw [Documentation.plainText?_escape, nonEmpty?_collapse]
  · rw [Documentation.plainText?_escape, Markup.plainText?_escape hat]

/-- Prose that spells an entity and a tag. -/
theorem escaped_prose_kept_tag :
    '@' ∉ " &lt;b>  <i> ".toList ∧
      Markup.plainText? (escape " &lt;b>  <i> ".toList) = some "&lt;b> <i>" := by
  have hat : '@' ∉ " &lt;b>  <i> ".toList := by decide
  obtain ⟨ws, hws, hread, hpage⟩ := escaped_prose_kept " &lt;b>  <i> ".toList
  have hwords : ws = ["&lt;b>".toList, "<i>".toList] := by
    rw [← hws.words_eq]
    decide
  rw [hpage hat, hread, hwords]
  exact ⟨hat, by decide⟩

end ComponentAtlas
