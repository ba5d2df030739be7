import ComponentAtlas.Index.Documentation
import ComponentAtlas.Proofs.CSharp.Names
import ComponentAtlas.Proofs.Snapshot.Spellings
import ComponentAtlas.Proofs.Unicode.Sigma

/-!
# Links while a snapshot is built

The links of a page are resolved before there is a snapshot, by comparing names without regard to
the case of ASCII letters; afterwards the same texts are looked up in lower case.  Both take the
first name that fits, first without and then with what names begin with.  A name that fits a link in
the first sense fits it in the second, as far as the lower-case form of the whole name is that of
its beginning and of the link put together; so what a look-up finds is what the link leads to
whenever it fits in the first sense at all (`link_leads_alike_iff`).
-/

namespace ComponentAtlas

open Text

/-! ## Texts in ASCII -/

namespace Text

/-- A text without characters outside ASCII. -/
def IsAscii (text : String) : Prop :=
  ∀ c ∈ text.toList, c.toNat < 128

instance (text : String) : Decidable (IsAscii text) :=
  List.decidableBAll (fun c : Char => c.toNat < 128) text.toList

theorem IsAscii.append {a b : String} (ha : IsAscii a) (hb : IsAscii b) : IsAscii (a ++ b) := by
  intro c hc
  rw [String.toList_append] at hc
  exact (List.mem_append.mp hc).elim (ha c) (hb c)

end Text

namespace Unicode

theorem toLower_of_ascii {text : String} (h : IsAscii text) :
    toLower text = String.ofList (text.toList.map Char.toLower) := by
  rw [toLower, lowerChars, lowerAfter_of_ascii h]

theorem toLower_append_of_ascii {a b : String} (ha : IsAscii a) (hb : IsAscii b) :
    toLower (a ++ b) = toLower a ++ toLower b := by
  rw [toLower_of_ascii (ha.append hb), toLower_of_ascii ha, toLower_of_ascii hb,
    String.toList_append, List.map_append, String.ofList_append]

theorem sameIgnoringCase_of_ascii {a b : String} (ha : IsAscii a) (hb : IsAscii b)
    (h : toLower a = toLower b) : sameIgnoringCase a b = true := by
  rw [toLower_of_ascii ha, toLower_of_ascii hb, String.ofList_inj] at h
  exact beq_iff_eq.mpr h

end Unicode

/-! ## The first that fits -/

theorem find?_eq_some_of_imp {α : Type} {p q : α → Bool} {xs : List α} {x : α}
    (h : ∀ y ∈ xs, p y = true → q y = true) (hx : xs.find? q = some x) (hp : p x = true) :
    xs.find? p = some x := by
  obtain ⟨-, front, rest, hsplit, hfront⟩ := List.find?_eq_some_iff_append.mp hx
  refine List.find?_eq_some_iff_append.mpr ⟨hp, front, rest, hsplit, fun y hy => ?_⟩
  have hnot : q y = false := by simpa using hfront y hy
  cases hpy : p y with
  | false => rfl
  | true =>
      have hq := h y (hsplit ▸ List.mem_append_left _ hy) hpy
      rw [hnot] at hq
      cases hq

/-- Whether a component is named as a text says, the case of ASCII letters left aside. -/
def fits (text : String) (c : Component) : Bool := sameIgnoringCase c.name text

theorem findName?_eq {settings : IndexSettings} {components : List Component} {text : String}
    (h : trimString text = text) :
    findName? settings components text =
      ((components.find? (fits text)).or
        (components.find? (fits (settings.componentPrefix ++ text)))).map Component.name := by
  unfold findName?
  simp only [h, List.find?_map, Option.map_or]
  rfl

theorem toLower_of_fits {text : String} {c : Component} (h : fits text c = true) :
    Unicode.toLower c.name = Unicode.toLower text :=
  Unicode.toLower_congr h

/-- Nothing in front of a text vanishes in lower case. -/
theorem Unicode.eq_empty_of_toLower_append {a b : String} (h : toLower (a ++ b) = toLower b) : a = "" := by
  have hlist : lowerChars (a.toList ++ b.toList) = lowerChars b.toList := by
    rwa [toLower, toLower, String.ofList_inj, String.toList_append] at h
  rw [lowerChars_eq, lowerBetween_append] at hlist
  have hlength := congrArg List.length hlist
  have hfront := length_le_lowerAfter [] a.toList
  rw [List.length_append, lowerChars_eq, length_lowerBetween (a.toList.reverse ++ []) [] [] [],
    length_lowerBetween [] [] (b.toList ++ []) [], lowerBetween_nil] at hlength
  have hnil : a.toList.length = 0 := by omega
  exact String.toList_eq_nil_iff.mp (List.length_eq_zero_iff.mp hnil)

namespace Snapshot

variable {s : Snapshot} {text : String}

/-- A link leads to a name while a snapshot is built just when the component of that name is looked
up under the text of the link afterwards. -/
def LeadsAlike (settings : IndexSettings) (s : Snapshot) (text : String) : Prop :=
  ∀ name, findName? { settings with componentPrefix := s.namePrefix } s.components text =
      some name ↔
    ∃ c, s.resolve? text = some c ∧ c.name = name

/-- What is looked up under a text is named as the text says, the case of ASCII letters left aside,
and nothing is named so when nothing is looked up. -/
structure NamedAsFound (s : Snapshot) (text : String) : Prop where
  found : ∀ c, s.resolve? text = some c →
    fits text c = true ∨ fits (s.namePrefix ++ text) c = true
  nothing : s.resolve? text = none →
    ∀ c ∈ s.components, fits text c = false ∧ fits (s.namePrefix ++ text) c = false

theorem isBareName_of_link (h : ∀ c ∈ text.toList, Markup.isNameCharacter c = true) :
    IsBareName text.toList := by
  intro c hc
  rcases Bool.or_eq_true_iff.mp (h c hc) with hword | hdash
  · refine ⟨?_, ?_, ?_⟩
    · rintro rfl
      exact absurd hword (by decide)
    · rintro rfl
      exact absurd hword (by decide)
    · cases hblank : isBlank c with
      | false => rfl
      | true =>
          rw [isWord_eq_false_of_blank hblank] at hword
          cases hword
  · obtain rfl := beq_iff_eq.mp hdash
    decide

theorem trimString_of_isBareName (h : IsBareName text.toList) : trimString text = text := by
  rw [trimString, h.trim_eq, String.ofList_toList]

/-- What is looked up is found by one of the two tables' keys. -/
theorem firstNamed?_of_resolve? (h : IsBareName text.toList) {c : Component}
    (hc : s.resolve? text = some c) :
    firstNamed? Component.name (Unicode.toLower text) s.components = some c ∨
      firstNamed? Component.name (Unicode.toLower text) s.components = none ∧
        firstNamed? Component.name (Unicode.toLower s.namePrefix ++ Unicode.toLower text)
          s.components = some c := by
  have hne : text ≠ "" := by
    rintro rfl
    cases hc
  rw [resolve?_of_isBareName s h hne] at hc
  exact Option.or_eq_some_iff.mp hc

/-- Where the found component fits, the link leads to it: whatever fits would be found, so nothing
that fits stands in front of it. -/
theorem findName?_of_resolve? {settings : IndexSettings} (h : IsBareName text.toList)
    {c : Component} (hc : s.resolve? text = some c)
    (hfits : fits text c = true ∨ fits (s.namePrefix ++ text) c = true) :
    findName? { settings with componentPrefix := s.namePrefix } s.components text =
      some c.name := by
  rw [findName?_eq (trimString_of_isBareName h)]
  have hplain : ∀ d ∈ s.components, fits text d = true →
      (Unicode.toLower d.name == Unicode.toLower text) = true := fun d _ hd =>
    beq_iff_eq.mpr (toLower_of_fits hd)
  rcases firstNamed?_of_resolve? h hc with hfirst | ⟨hnone, hfirst⟩
  · obtain ⟨-, hname⟩ := of_firstNamed? hfirst
    have hc : fits text c = true := by
      rcases hfits with hfits | hfits
      · exact hfits
      · -- the name would be longer than the text if something stood in front of the text
        have hempty := Unicode.eq_empty_of_toLower_append
          ((toLower_of_fits hfits).symm.trans hname)
        rwa [hempty, String.empty_append] at hfits
    rw [find?_eq_some_of_imp hplain hfirst hc]
    rfl
  · obtain ⟨hmem, hname⟩ := of_firstNamed? hfirst
    have hnothing : s.components.find? (fits text) = none := by
      refine List.find?_eq_none.mpr fun d hd hfits => ?_
      exact List.find?_eq_none.mp hnone d hd (hplain d hd hfits)
    have hc : fits (s.namePrefix ++ text) c = true := by
      refine hfits.resolve_left fun hfits => ?_
      exact List.find?_eq_none.mp hnothing c hmem hfits
    have hprefixed : ∀ d ∈ s.components, fits (s.namePrefix ++ text) d = true →
        (Unicode.toLower d.name ==
          Unicode.toLower s.namePrefix ++ Unicode.toLower text) = true := fun d _ hd =>
      beq_iff_eq.mpr
        ((toLower_of_fits hd).trans ((toLower_of_fits hc).symm.trans hname))
    rw [hnothing, Option.none_or, find?_eq_some_of_imp hprefixed hfirst hc]
    rfl

theorem findName?_eq_none_iff {settings : IndexSettings} (h : IsBareName text.toList) :
    findName? { settings with componentPrefix := s.namePrefix } s.components text = none ↔
      ∀ c ∈ s.components, fits text c = false ∧ fits (s.namePrefix ++ text) c = false := by
  rw [findName?_eq (trimString_of_isBareName h), Option.map_eq_none_iff, Option.or_eq_none_iff,
    List.find?_eq_none, List.find?_eq_none]
  simp only [Bool.not_eq_true]
  exact ⟨fun ⟨hplain, hprefixed⟩ c hc => ⟨hplain c hc, hprefixed c hc⟩,
    fun h => ⟨fun c hc => (h c hc).1, fun c hc => (h c hc).2⟩⟩

theorem fits_of_findName? {settings : IndexSettings} (h : IsBareName text.toList) {name : String}
    (hname : findName? { settings with componentPrefix := s.namePrefix } s.components text =
      some name) :
    sameIgnoringCase name text = true ∨ sameIgnoringCase name (s.namePrefix ++ text) = true := by
  rw [findName?_eq (trimString_of_isBareName h), Option.map_eq_some_iff] at hname
  obtain ⟨c, hc, rfl⟩ := hname
  rcases Option.or_eq_some_iff.mp hc with hc | ⟨-, hc⟩
  · exact Or.inl (List.find?_some (p := fits text) hc)
  · exact Or.inr (List.find?_some (p := fits (s.namePrefix ++ text)) hc)

/-- Where names that are the same in lower case differ in the case of ASCII letters only, and the
name that a link is completed to is so in lower case as well, what is looked up fits and what fits is
looked up. -/
theorem namedAsFound_of_lower (h : IsBareName text.toList) (hne : text ≠ "")
    (hpieces : Unicode.toLower (s.namePrefix ++ text) =
      Unicode.toLower s.namePrefix ++ Unicode.toLower text)
    (hplain : ∀ c ∈ s.components, Unicode.toLower c.name = Unicode.toLower text →
      fits text c = true)
    (hprefixed : ∀ c ∈ s.components,
      Unicode.toLower c.name = Unicode.toLower (s.namePrefix ++ text) →
        fits (s.namePrefix ++ text) c = true) : s.NamedAsFound text where
  found c hc := by
    rcases firstNamed?_of_resolve? h hc with hfirst | ⟨-, hfirst⟩
    · obtain ⟨hmem, hname⟩ := of_firstNamed? hfirst
      exact Or.inl (hplain c hmem hname)
    · obtain ⟨hmem, hname⟩ := of_firstNamed? hfirst
      exact Or.inr (hprefixed c hmem (hname.trans hpieces.symm))
  nothing hnone c hc := by
    rw [resolve?_of_isBareName s h hne, Option.or_eq_none_iff] at hnone
    obtain ⟨hnoplain, hnoprefixed⟩ := hnone
    constructor
    · refine Bool.eq_false_iff.mpr fun hfits => ?_
      exact List.find?_eq_none.mp hnoplain c hc (beq_iff_eq.mpr (toLower_of_fits hfits))
    · refine Bool.eq_false_iff.mpr fun hfits => ?_
      exact List.find?_eq_none.mp hnoprefixed c hc
        (beq_iff_eq.mpr ((toLower_of_fits hfits).trans hpieces))

theorem leadsAlike_iff (settings : IndexSettings) (h : IsBareName text.toList) :
    s.LeadsAlike settings text ↔ s.NamedAsFound text := by
  constructor
  · intro halike
    refine ⟨fun c hc => fits_of_findName? h ((halike c.name).mpr ⟨c, hc, rfl⟩), fun hnone => ?_⟩
    refine (@findName?_eq_none_iff s text settings h).mp ?_
    refine Option.eq_none_iff_forall_ne_some.mpr fun name hname => ?_
    obtain ⟨c, hc, -⟩ := (halike name).mp hname
    rw [hnone] at hc
    cases hc
  · intro hnamed name
    cases hc : s.resolve? text with
    | none =>
        rw [(findName?_eq_none_iff h).mpr (hnamed.nothing hc)]
        simp
    | some c =>
        rw [findName?_of_resolve? h hc (hnamed.found c hc)]
        simp

/-- The first of two namesakes is what a link in another case leads to. -/
example :
    let s : Snapshot := ⟨[Component.ofName "MudTab", Component.ofName "Mudtab"], [], [], "Mud", 0⟩
    findName? .standard s.components "TAB" = some "MudTab" ∧
      s.resolve? "TAB" = some (Component.ofName "MudTab") := by
  decide +kernel

/-- A link leads to what is looked up under it just when what is looked up is named as the link
says, the case of ASCII letters left aside, and nothing is named so when nothing is looked up.
This is always so in ASCII. -/
theorem link_leads_alike_iff (settings : IndexSettings) (s : Snapshot) {text : String}
    (h : ∀ c ∈ text.toList, Markup.isNameCharacter c = true) :
    (s.LeadsAlike settings text ↔ s.NamedAsFound text) ∧
    (text ≠ "" → IsAscii text → IsAscii s.namePrefix → (∀ c ∈ s.components, IsAscii c.name) →
      s.LeadsAlike settings text) := by
  have hbare := isBareName_of_link h
  refine ⟨leadsAlike_iff settings hbare, fun hne htext hprefix hnames => ?_⟩
  have hwhole : IsAscii (s.namePrefix ++ text) := hprefix.append htext
  refine (leadsAlike_iff settings hbare).mpr (namedAsFound_of_lower hbare hne
    (Unicode.toLower_append_of_ascii hprefix htext) (fun c hc => ?_) (fun c hc => ?_))
  · exact Unicode.sameIgnoringCase_of_ascii (hnames c hc) htext
  · exact Unicode.sameIgnoringCase_of_ascii (hnames c hc) hwhole

/-! ## A letter outside ASCII -/

def cafes : Snapshot :=
  ⟨[Component.ofName "MudCafé", Component.ofName "MudMenu"], [], [], "Mud", 0⟩

def menus : Snapshot :=
  ⟨[Component.ofName "MudMenu", Component.ofName "mudmenu"], [], [], "Mud", 0⟩

/-- A link in ASCII leads to the menu, beside a name that is not in ASCII and among namesakes. -/
theorem link_leads_alike_menu :
    (∀ c ∈ "MENU".toList, Markup.isNameCharacter c = true) ∧
      cafes.resolve? "MENU" = some (Component.ofName "MudMenu") ∧
      cafes.LeadsAlike .standard "MENU" ∧ menus.LeadsAlike .standard "MENU" := by
  have hlink : ∀ c ∈ "MENU".toList, Markup.isNameCharacter c = true :=
    List.all_eq_true.mp (by decide)
  have hmenu : cafes.resolve? "MENU" = some (Component.ofName "MudMenu") := by decide
  refine ⟨hlink, hmenu, ?_, ?_⟩
  · refine (link_leads_alike_iff .standard cafes hlink).1.mpr ⟨fun c hc => ?_, fun hnone => ?_⟩
    · obtain rfl := Option.some.inj (hmenu.symm.trans hc)
      exact Or.inr (by decide)
    · rw [hmenu] at hnone
      cases hnone
  · exact (link_leads_alike_iff .standard menus hlink).2 (by decide) (by decide)
      (by decide) (by decide)

/-- The café is looked up with its accent in another case, but no link written so leads there. -/
theorem link_leads_nowhere :
    (∀ c ∈ "CAFÉ".toList, Markup.isNameCharacter c = true) ∧
      ¬ cafes.LeadsAlike .standard "CAFÉ" := by
  have hcafe : cafes.resolve? "CAFÉ" = some (Component.ofName "MudCafé") := by decide
  have hnowhere : findName? .standard cafes.components "CAFÉ" = none := by decide
  refine ⟨List.all_eq_true.mp (by decide), fun halike => ?_⟩
  have hname := (halike "MudCafé").mpr ⟨_, hcafe, rfl⟩
  rw [show ({ IndexSettings.standard with componentPrefix := cafes.namePrefix } : IndexSettings) =
    .standard from rfl, hnowhere] at hname
  cases hname

end Snapshot
end ComponentAtlas
