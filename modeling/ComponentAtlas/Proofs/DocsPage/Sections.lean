import ComponentAtlas.DocsPage.Basic
import ComponentAtlas.Proofs.Distinct
import ComponentAtlas.Proofs.Text.Hits
import ComponentAtlas.Proofs.Text.Occurrence

/-!
# Sections of a page are read apart

A header tag ends with a bracket that it takes, outside of quotes, and so whether there is one and
what it says is settled by the tag alone.  A section is read from its tag and from the text up to
the next one, and from nothing else.  Therefore a page may be cut in front of a header tag, as long
as no tag runs across the cut: the sections are those of the two parts.
-/

namespace ComponentAtlas

open Text Text.Recogniser

namespace Markup

/-- What ends a tag belongs to it: the tag reads alike with anything else behind it. -/
theorem tagEnd?_local {quoted : Bool} {s behind : List Char} {t : OpenTag}
    (h : tagEnd? quoted s = some (t, behind)) :
    ∃ taken, taken ≠ [] ∧ s = taken ++ behind ∧
      ∀ other, tagEnd? quoted (taken ++ other) = some (t, other) := by
  induction s generalizing quoted t with
  | nil => cases h
  | cons c rest ih =>
      cases quoted with
      | true =>
          simp only [tagEnd?, if_true] at h
          obtain ⟨⟨t', behind'⟩, hmore, heq⟩ := Option.map_eq_some_iff.mp h
          obtain ⟨rfl, rfl⟩ := Prod.mk.inj heq
          obtain ⟨taken, -, rfl, hlocal⟩ := ih hmore
          refine ⟨c :: taken, List.cons_ne_nil _ _, rfl, fun other => ?_⟩
          simp only [List.cons_append, tagEnd?, if_true, hlocal, Option.map_some]
      | false =>
          by_cases hend : c = '>'
          · subst hend
            simp only [tagEnd?, Bool.false_eq_true, if_false, if_true] at h
            obtain ⟨rfl, rfl⟩ := Prod.mk.inj (Option.some.inj h)
            exact ⟨['>'], List.cons_ne_nil _ _, rfl, fun other => rfl⟩
          · simp only [tagEnd?, Bool.false_eq_true, if_false, if_neg hend] at h
            cases hclose : (if c = '/' then after? ['>'] rest else none) with
            | some behind' =>
                by_cases hslash : c = '/'
                · subst hslash
                  rw [if_pos rfl] at hclose
                  obtain rfl := after?_eq_some_iff.mp hclose
                  simp only [hclose, if_true] at h
                  obtain ⟨rfl, rfl⟩ := Prod.mk.inj (Option.some.inj h)
                  exact ⟨['/', '>'], List.cons_ne_nil _ _, rfl, fun other => rfl⟩
                · rw [if_neg hslash] at hclose
                  cases hclose
            | none =>
                simp only [hclose] at h
                obtain ⟨⟨t', behind'⟩, hmore, heq⟩ := Option.map_eq_some_iff.mp h
                obtain ⟨rfl, rfl⟩ := Prod.mk.inj heq
                obtain ⟨taken, htaken, rfl, hlocal⟩ := ih hmore
                refine ⟨c :: taken, List.cons_ne_nil _ _, rfl, fun other => ?_⟩
                -- a bracket right behind the slash would be taken too
                have hopen : (if c = '/' then after? ['>'] (taken ++ other) else none) = none := by
                  obtain ⟨d, ds, rfl⟩ := List.exists_cons_of_ne_nil htaken
                  by_cases hslash : c = '/'
                  · rw [if_pos hslash, after?_eq_none_iff] at hclose ⊢
                    simpa using hclose
                  · rw [if_neg hslash]
                simp only [List.cons_append, tagEnd?, Bool.false_eq_true, if_false, if_neg hend,
                  hopen, hlocal, Option.map_some]

theorem endsWord_append {cs : List Char} (h : cs ≠ []) (ds : List Char) :
    endsWord (cs ++ ds) = endsWord cs := by
  obtain ⟨c, cs, rfl⟩ := List.exists_cons_of_ne_nil h
  rfl

theorem openTag_isLocal (name : String) : (openTag name).IsLocal := by
  refine isLocal_ofReading fun s t behind hread => ?_
  obtain ⟨rest, hname, htag⟩ := Option.bind_eq_some_iff.mp hread
  obtain rfl := after?_eq_some_iff.mp hname
  split at htag
  · rename_i hword
    obtain ⟨taken, htaken, rfl, hlocal⟩ := tagEnd?_local htag
    refine ⟨('<' :: name.toList) ++ taken, List.append_ne_nil_of_left_ne_nil
      (List.cons_ne_nil _ _) taken, (List.append_assoc _ _ _).symm, fun other => ?_⟩
    have hsame : endsWord (taken ++ other) = true := by
      rw [endsWord_append htaken] at hword ⊢
      exact hword
    rw [List.append_assoc, after?_eq_some_iff.mpr rfl, Option.bind_some, if_pos hsame, hlocal]
  · cases htag

end Markup

namespace DocsPage

/-- The sections of a page, one for each header tag in order, each from its own tag and the text up
to the next one; the examples of a section are distinct.  A page in two parts, the second of which
begins with a header tag that no tag of the first part runs into, has the sections of the one and
then those of the other. -/
theorem sections_read_apart :
    (∀ source, sectionHeader.Meets source (sectionHeader.hits source) ∧
      sectionsOf source =
        (Hit.segments (sectionHeader.hits source)).map (fun (tag, text) => sectionOf tag text) ∧
      ∀ s ∈ sectionsOf source, s.examples.Nodup) ∧
    ∀ front back : List Char, (sectionHeader back).isSome = true →
      (∀ h ∈ sectionHeader.hits (front ++ back),
        ¬ (back.length < h.here.length ∧ h.behind.length < back.length)) →
      sectionsOf (front ++ back) = sectionsOf front ++ sectionsOf back := by
  refine ⟨fun source => ⟨meets_hits _ _, ?_, fun s hs => ?_⟩, fun front back hback hborder => ?_⟩
  · rw [sectionsOf, pieces_eq]
  · obtain ⟨⟨tag, text⟩, -, rfl⟩ := List.mem_map.mp hs
    have hdistinct := @nodup_firsts String String (· == ·) id (fun a b hab => beq_iff_eq.mpr hab)
      ((exampleTag.findAll text ++ nameOf.findAll text).map String.ofList)
    rwa [List.map_id] at hdistinct
  · have hlocal : sectionHeader.IsLocal := Markup.openTag_isLocal "SectionHeader"
    have hpieces := pieces_append_of_local hlocal hback fun h hh hstarts =>
      Nat.le_of_not_lt fun hends => hborder h hh ⟨hstarts, hends⟩
    rw [sectionsOf, hpieces, List.map_append]
    rfl

/-- A page with a quoted bracket in the second of its header tags. -/
def switchPage : List Char × List Char :=
  ("<SectionHeader Title=\"On\"><OnExample />".toList,
    "<SectionHeader Title=\"On > off\" /><OffExample />".toList)

theorem sections_read_apart_switch :
    (sectionHeader switchPage.2).isSome = true ∧
      (∀ h ∈ sectionHeader.hits (switchPage.1 ++ switchPage.2),
        ¬ (switchPage.2.length < h.here.length ∧ h.behind.length < switchPage.2.length)) ∧
      sectionsOf (switchPage.1 ++ switchPage.2) =
        sectionsOf switchPage.1 ++ sectionsOf switchPage.2 ∧
      (sectionsOf (switchPage.1 ++ switchPage.2)).map DocSection.heading = ["On", "On > off"] := by
  have hback : (sectionHeader switchPage.2).isSome = true := by decide
  have hborder : ∀ h ∈ sectionHeader.hits (switchPage.1 ++ switchPage.2),
      ¬ (switchPage.2.length < h.here.length ∧ h.behind.length < switchPage.2.length) := by
    decide +kernel
  obtain ⟨-, hapart⟩ := sections_read_apart
  exact ⟨hback, hborder, hapart _ _ hback hborder, by decide +kernel⟩

end DocsPage
end ComponentAtlas
