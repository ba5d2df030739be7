import ComponentAtlas.Proofs.Snapshot.Lookup
import ComponentAtlas.Proofs.Unicode.Sigma

/-!
# Names without their beginning

A component may be looked up without what all names begin with.  The table is keyed by the lower
case of whole names, while a look-up puts the lower case of the beginning in front of that of the
rest.  The two keys are the same unless a capital sigma ends a word in one of the parts and not in
the name, or the other way round; then the shorter name finds something else or nothing at all.
Blanks, dots and angle brackets play no part, since no name has any.
-/

namespace ComponentAtlas.Snapshot

open Unicode (toLower SigmasKept)

/-- Where no component has the rest of a name for its own name, the rest finds what the name finds,
just when every capital sigma in the name has the form that it has in its part alone. -/
theorem display_name_found_iff {settings : Settings} {tree : SourceTree}
    {availability : Availability} {cancelled : Bool} {s : Snapshot}
    (h : build settings tree availability cancelled = .ok s) {c : Component}
    (hc : c ∈ s.components) {rest : String}
    (hname : c.name = settings.index.componentPrefix ++ rest) (hne : rest ≠ "")
    (hfree : ∀ b ∈ s.components, toLower b.name ≠ toLower rest) :
    (∃ b ∈ s.components, s.resolve? rest = some b ∧
      s.resolve? (settings.index.componentPrefix ++ rest) = some b) ↔
    SigmasKept [] settings.index.componentPrefix.toList rest.toList ∧
      SigmasKept settings.index.componentPrefix.toList rest.toList [] := by
  obtain ⟨files, -, rfl⟩ := ofFiles_of_build h
  have hwhole : IsBareName (settings.index.componentPrefix ++ rest).toList := by
    rw [← hname]
    exact isBareName_of_isName ((isName_of_listed settings tree files).1 c hc)
  have hrest : IsBareName rest.toList := by
    intro d hd
    refine hwhole d ?_
    rw [String.toList_append]
    exact List.mem_append_right _ hd
  have hwhole_ne : settings.index.componentPrefix ++ rest ≠ "" := fun hempty =>
    hne (String.append_eq_empty_iff.mp hempty).2
  -- the whole name is found under its own key
  obtain ⟨b, hb⟩ := exists_firstNamed?_of_mem Component.name hc
  rw [hname] at hb
  obtain ⟨hmem, hkey⟩ := of_firstNamed? hb
  rw [resolve?_of_isBareName _ hwhole hwhole_ne, hb, Option.some_or]
  -- the rest is found under the key of a beginning and a rest
  have hnone : firstNamed? Component.name (toLower rest) (ofFiles settings tree files).components =
      none :=
    List.find?_eq_none.mpr fun d hd heq => hfree d hd (beq_iff_eq.mp heq)
  rw [resolve?_of_isBareName _ hrest hne, hnone, Option.none_or, ← Unicode.toLower_append_iff]
  constructor
  · rintro ⟨d, -, hd, hsame⟩
    obtain rfl := Option.some.inj hsame
    exact hkey.symm.trans (of_firstNamed? hd).2
  · intro hpieces
    refine ⟨b, hmem, ?_, rfl⟩
    rw [show (ofFiles settings tree files).namePrefix = settings.index.componentPrefix from rfl,
      ← hpieces, hb]

/-! ## Names that end in a sigma -/

def sumTree : SourceTree :=
  ⟨⟨[(["lib", "Base.cs"], .text "public class MudΒΑΣ\n\x7b\n\x7d\n"),
    (["lib", "Sum.cs"], .text "public class MudΣ\n\x7b\n\x7d\n")]⟩, "lib"⟩

theorem sumTree_filesIn :
    sumTree.filesIn "." =
      [⟨⟨false, ["lib", "Base.cs"]⟩, "Base.cs", ["lib", "Base.cs"]⟩,
        ⟨⟨false, ["lib", "Sum.cs"]⟩, "Sum.cs", ["lib", "Sum.cs"]⟩] := by
  have hfiles : sumTree.files.filesBelow ["lib"] = [["Base.cs"], ["Sum.cs"]] :=
    FileTree.filesBelow_of_ordered (by decide) (by decide)
  have hplace : SourceTree.placeOf? ((Path.ofString sumTree.root).join
      (Path.ofString ".")) = some ["lib"] := by
    decide
  rw [SourceTree.filesIn]
  simp only [hplace, hfiles]
  decide

/-- The names of the components, and the names of what two shorter names find. -/
def foundAs (s : Snapshot) : List String × Option String × Option String :=
  (s.components.map Component.name, (s.resolve? "ΒΑΣ").map Component.name,
    (s.resolve? "Σ").map Component.name)

theorem sumTree_foundAs :
    ∃ s, build timerSettings sumTree (.answered true) false = .ok s ∧
      s.foundAs = (["MudΒΑΣ", "MudΣ"], some "MudΒΑΣ", none) := by
  refine exists_ok_of_map (f := foundAs) ?_
  rw [build_eq]
  unfold SourceTree.sourceFiles
  rw [show timerSettings.layout.componentsDir = "." from rfl, sumTree_filesIn]
  decide +kernel

theorem named_of_foundAs {s : Snapshot} {names : List String} {found : Option String × Option String}
    (h : s.foundAs = (names, found)) : s.components.map Component.name = names :=
  (Prod.mk.inj h).1

/-- The sigma of the first name ends a word in the whole name as it does in the rest. -/
theorem display_name_found_base :
    ∃ s, build timerSettings sumTree (.answered true) false = .ok s ∧
      (∀ b ∈ s.components, toLower b.name ≠ toLower "ΒΑΣ") ∧
      ∃ b ∈ s.components, s.resolve? "ΒΑΣ" = some b ∧
        s.resolve? (timerSettings.index.componentPrefix ++ "ΒΑΣ") = some b := by
  obtain ⟨s, hs, hfound⟩ := sumTree_foundAs
  have hnames := named_of_foundAs hfound
  have hbase : "MudΒΑΣ" ∈ s.components.map Component.name := by rw [hnames]; decide
  obtain ⟨c, hc, hname⟩ := List.mem_map.mp hbase
  have hnamed : ∀ name ∈ s.components.map Component.name, toLower name ≠ toLower "ΒΑΣ" := by
    rw [hnames]
    decide
  have hfree : ∀ b ∈ s.components, toLower b.name ≠ toLower "ΒΑΣ" := by
    intro b hb
    exact hnamed b.name (List.mem_map_of_mem hb)
  have hkept : SigmasKept [] "Mud".toList "ΒΑΣ".toList ∧ SigmasKept "Mud".toList "ΒΑΣ".toList [] :=
    Unicode.toLower_append_iff.mp (by decide)
  exact ⟨s, hs, hfree, (display_name_found_iff hs hc (hname.trans (by decide)) (by decide)
    hfree).mpr hkept⟩

/-- The sigma of the second name ends a word in the whole name, but not in the rest. -/
theorem display_name_lost :
    ∃ s, build timerSettings sumTree (.answered true) false = .ok s ∧
      (∃ c ∈ s.components, c.name = timerSettings.index.componentPrefix ++ "Σ") ∧
      (∀ b ∈ s.components, toLower b.name ≠ toLower "Σ") ∧
      ¬ ∃ b ∈ s.components, s.resolve? "Σ" = some b ∧
        s.resolve? (timerSettings.index.componentPrefix ++ "Σ") = some b := by
  obtain ⟨s, hs, hfound⟩ := sumTree_foundAs
  have hnames := named_of_foundAs hfound
  have hnamed : ∀ name ∈ s.components.map Component.name, toLower name ≠ toLower "Σ" := by
    rw [hnames]
    decide
  refine ⟨s, hs, List.mem_map.mp ?_, ?_, ?_⟩
  · rw [hnames]
    decide
  · intro b hb
    exact hnamed b.name (List.mem_map_of_mem hb)
  · rintro ⟨b, -, hb, -⟩
    have hnone : (s.resolve? "Σ").map Component.name = none :=
      (Prod.mk.inj (Prod.mk.inj hfound).2).2
    rw [hb] at hnone
    cases hnone

end ComponentAtlas.Snapshot
