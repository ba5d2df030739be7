import ComponentAtlas.Proofs.Search.Mention
import ComponentAtlas.Proofs.Unicode.Sigma

/-!
# What stands there is found

A search writes the query and each text in lower case, either as a whole, and looks for the one in
the other.  A query that stands in a text keeps its form there as long as its capital sigmas keep
theirs, so it is found (`verbatim_found`).  A query whose sigmas have the same form everywhere is
found wherever it stands; any other one is missed somewhere, since one letter beside it is enough
to change a sigma, and then a form of sigma is lost that the query has once more
(`verbatim_found_iff`).
-/

namespace ComponentAtlas

open Unicode

namespace Component

/-- A text of a selected field holds `query` as it is written. -/
def Holds (query : List Char) (fields : SearchFields) (c : Component) : Prop :=
  ∃ field text, fields.selects field = true ∧ c.HasText field text ∧ query <:+: text.toList

end Component

namespace Unicode

variable {front back cs left right : List Char}

theorem infix_lowerChars (h : SigmasKept left cs right) :
    lowerChars cs <:+: lowerChars (left ++ (cs ++ right)) := by
  rw [lowerChars_append_append, lowerBetween_eq_lowerChars_iff.mpr h]
  exact ⟨_, _, List.append_assoc ..⟩

theorem not_infix_of_count {c : Char} {x y : List Char} (h : y.count c < x.count c) :
    ¬ x <:+: y := by
  intro hinfix
  have hle := hinfix.sublist.count_le c
  omega

/-- A sigma with nothing in front of it and no letter behind it ends a word behind a letter. -/
theorem not_infix_behind_letter (hfront : isPassedOver front = true)
    (hback : startsCased back = false) :
    ¬ lowerChars (front ++ 'Σ' :: back) <:+: lowerChars ('A' :: (front ++ 'Σ' :: back)) := by
  have hreverse : isPassedOver front.reverse = true := by rwa [isPassedOver_reverse]
  have halone : endsWord front.reverse back = false := by
    rw [endsWord, startsCased_of_passedOver hreverse, Bool.false_and]
  have hbehind : endsWord (front.reverse ++ ['A']) back = true := by
    rw [endsWord, startsCased_append, hreverse, if_pos rfl, startsCased_letter, hback]
    rfl
  have hwhole : lowerChars ('A' :: (front ++ 'Σ' :: back)) =
      'a' :: lowerBetween ['A'] (front ++ 'Σ' :: back) [] := by
    rw [lowerChars_eq, lowerBetween]
    rfl
  have hsame : lowerBetween ['A'] front ['Σ'] = lowerBetween [] front ['Σ'] :=
    lowerBetween_of_passedOver hfront
  refine not_infix_of_count (c := 'σ') ?_
  rw [hwhole, lowerChars_eq, lowerBetween_sigma, lowerBetween_sigma, hsame, List.append_nil,
    List.append_nil, halone, hbehind]
  simp [List.count_append]

/-- A sigma that ends a word, with nothing behind it, ends none in front of a letter. -/
theorem not_infix_before_letter (hback : isPassedOver back = true)
    (hfront : startsCased front.reverse = true) :
    ¬ lowerChars (front ++ 'Σ' :: back) <:+: lowerChars ((front ++ 'Σ' :: back) ++ ['A']) := by
  have halone : endsWord front.reverse back = true := by
    rw [endsWord, hfront, startsCased_of_passedOver hback]
    rfl
  have hbefore : endsWord front.reverse (back ++ ['A']) = false := by
    rw [endsWord, startsCased_append, hback, if_pos rfl, startsCased_letter]
    simp
  have hwhole : lowerChars ((front ++ 'Σ' :: back) ++ ['A']) =
      lowerBetween [] (front ++ 'Σ' :: back) ['A'] ++ ['a'] := by
    rw [lowerChars_eq, lowerBetween_append, List.append_nil]
    rfl
  have hsame : lowerBetween ['Σ'] back ['A'] = lowerBetween ['Σ'] back [] :=
    lowerBetween_of_passedOver hback
  refine not_infix_of_count (c := 'ς') ?_
  rw [hwhole, lowerChars_eq, lowerBetween_sigma, lowerBetween_sigma, hsame, List.append_nil,
    List.append_nil, halone, hbefore]
  simp [List.count_append]

end Unicode

namespace Snapshot

variable {s : Snapshot} {query : String} {fields : SearchFields} {limit : Nat} {c : Component}

/-- Where there is no limit, all are found that mention the query. -/
theorem mem_search_iff (hlimit : s.components.length ≤ limit) :
    c ∈ s.search query fields limit ↔
      c ∈ s.components ∧ c.Mentions (needleOf query) fields := by
  have hlength : (s.components.filter (Component.isFoundBy (needleOf query) fields)).length ≤
      limit := Nat.le_trans (List.length_filter_le _ _) hlimit
  rw [search, List.take_of_length_le hlength, List.mem_filter, Component.isFoundBy_iff]

theorem needleOf_of_trimmed (h : Text.trimString query = query) :
    needleOf query = lowerChars query.toList := by
  have hlist : Text.trim query.toList = query.toList := by
    rw [← String.toList_ofList (l := Text.trim query.toList)]
    exact congrArg String.toList h
  rw [needleOf, hlist]

/-- A component whose name is all the text that it has. -/
theorem mentions_name_iff {name : List Char} {needle : List Char} :
    (Component.ofName (String.ofList name)).Mentions needle { SearchFields.empty with name := true }
      ↔ needle <:+: lowerChars name := by
  constructor
  · rintro ⟨field, text, hfield, htext, hinfix⟩
    cases htext with
    | name => rwa [show (Component.ofName (String.ofList name)).name = String.ofList name from rfl,
        String.toList_ofList] at hinfix
    | summary => cases hfield
    | description => cases hfield
    | parameterName => cases hfield
    | parameterDescription => cases hfield
    | exampleName => cases hfield
    | exampleDescription => cases hfield
    | exampleMarkup => cases hfield
    | exampleCode => cases hfield
  · intro hinfix
    refine ⟨.name, _, rfl, .name, ?_⟩
    rwa [show (Component.ofName (String.ofList name)).name = String.ofList name from rfl,
      String.toList_ofList]

theorem verbatim_found (htrim : Text.trimString query = query) (hc : c ∈ s.components)
    (hlimit : s.components.length ≤ limit) {field : SearchField} {text : String}
    (hfield : fields.selects field = true) (htext : c.HasText field text) {left right : List Char}
    (hsplit : text.toList = left ++ (query.toList ++ right))
    (hkept : SigmasKept left query.toList right) : c ∈ s.search query fields limit := by
  refine (mem_search_iff hlimit).mpr ⟨hc, field, text, hfield, htext, ?_⟩
  rw [needleOf_of_trimmed htrim, hsplit]
  exact infix_lowerChars hkept

/-- Where the query is found in every name that it stands in, its sigmas are the same everywhere. -/
theorem sigmasKept_of_found (htrim : Text.trimString query = query)
    (hfound : ∀ (s : Snapshot) (fields : SearchFields) (limit : Nat), ∀ c ∈ s.components,
      s.components.length ≤ limit → c.Holds query.toList fields →
        c ∈ s.search query fields limit) :
    ∀ left right, SigmasKept left query.toList right := by
  have hname : ∀ name : List Char, query.toList <:+: name →
      lowerChars query.toList <:+: lowerChars name := by
    intro name hinfix
    have hholds : (Component.ofName (String.ofList name)).Holds query.toList
        { SearchFields.empty with name := true } := by
      refine ⟨.name, _, rfl, .name, ?_⟩
      rwa [show (Component.ofName (String.ofList name)).name = String.ofList name from rfl,
        String.toList_ofList]
    have hin := hfound ⟨[Component.ofName (String.ofList name)], [], [], "", 0⟩ _ 1 _
      List.mem_cons_self (Nat.le_refl 1) hholds
    have hmentions := ((mem_search_iff (Nat.le_refl 1)).mp hin).2
    rwa [needleOf_of_trimmed htrim, mentions_name_iff] at hmentions
  refine sigmasKept_everywhere_iff.mpr fun front back hquery => ⟨fun hfront => ?_, fun hback => ?_⟩
  · have hin := hname ('A' :: query.toList) ⟨['A'], [], by simp⟩
    rw [hquery] at hin
    cases hcased : startsCased back with
    | true => rfl
    | false => exact absurd hin (not_infix_behind_letter hfront hcased)
  · have hin := hname (query.toList ++ ['A']) ⟨[], ['A'], by simp⟩
    rw [hquery] at hin
    cases hcased : startsCased front.reverse with
    | false => rfl
    | true => exact absurd hin (not_infix_before_letter hback hcased)

/-- A query without blanks around it is found wherever it stands in a selected text with each of its
capital sigmas ending a word there just when it does so in the query.  The queries that are found
wherever they stand are those whose sigmas do so between any two texts. -/
theorem verbatim_found_iff (htrim : Text.trimString query = query) :
    (∀ (s : Snapshot) (fields : SearchFields) (limit : Nat), ∀ c ∈ s.components,
      s.components.length ≤ limit → ∀ (field : SearchField) (text : String),
        fields.selects field = true → c.HasText field text → ∀ left right,
          text.toList = left ++ (query.toList ++ right) → SigmasKept left query.toList right →
            c ∈ s.search query fields limit) ∧
    ((∀ (s : Snapshot) (fields : SearchFields) (limit : Nat), ∀ c ∈ s.components,
      s.components.length ≤ limit → c.Holds query.toList fields →
        c ∈ s.search query fields limit) ↔
      ∀ left right, SigmasKept left query.toList right) := by
  refine ⟨?_, sigmasKept_of_found htrim, ?_⟩
  · intro s fields limit c hc hlimit field text hfield htext left right hsplit hkept
    exact verbatim_found htrim hc hlimit hfield htext hsplit hkept
  · rintro hkept s fields limit c hc hlimit ⟨field, text, hfield, htext, left, right, hsplit⟩
    rw [List.append_assoc] at hsplit
    exact verbatim_found htrim hc hlimit hfield htext hsplit.symm (hkept left right)

/-! ## A word and a compound -/

def signs : Snapshot :=
  ⟨[{ Component.ofName "MudRoad" with summary := some "ΚΑΛΗ ΟΔΟΣ." },
    { Component.ofName "MudSign" with summary := some "ΟΔΟΣΗΜΑΝΣΗ" }], [], [], "Mud", 0⟩

/-- The word is found where it stands by itself. -/
theorem verbatim_found_road :
    Text.trimString "ΟΔΟΣ" = "ΟΔΟΣ" ∧ ∃ c ∈ signs.search "ΟΔΟΣ" .full 2, c.name = "MudRoad" := by
  have htrim : Text.trimString "ΟΔΟΣ" = "ΟΔΟΣ" := by decide
  have hkept : SigmasKept "ΚΑΛΗ ".toList "ΟΔΟΣ".toList ".".toList :=
    lowerBetween_eq_lowerChars_iff.mp (by decide)
  refine ⟨htrim, _, (verbatim_found_iff htrim).1 signs .full 2
    { Component.ofName "MudRoad" with summary := some "ΚΑΛΗ ΟΔΟΣ." } List.mem_cons_self
    (Nat.le_refl 2) .description "ΚΑΛΗ ΟΔΟΣ." rfl (.summary rfl) _ _ ?_ hkept, rfl⟩
  decide

/-- In the compound it is missed. -/
theorem compound_missed :
    Text.trimString "ΟΔΟΣ" = "ΟΔΟΣ" ∧ ∃ c ∈ signs.components,
      signs.components.length ≤ 2 ∧ c.Holds "ΟΔΟΣ".toList .full ∧
        c ∉ signs.search "ΟΔΟΣ" .full 2 := by
  refine ⟨by decide, { Component.ofName "MudSign" with summary := some "ΟΔΟΣΗΜΑΝΣΗ" },
    List.mem_cons_of_mem _ List.mem_cons_self, Nat.le_refl 2, ?_, by decide⟩
  exact ⟨.description, "ΟΔΟΣΗΜΑΝΣΗ", rfl, .summary rfl, [], "ΗΜΑΝΣΗ".toList, by decide⟩

end Snapshot
end ComponentAtlas
