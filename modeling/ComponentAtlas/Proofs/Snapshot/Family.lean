import ComponentAtlas.Proofs.Unicode.LowerCase
import ComponentAtlas.Snapshot.Related

/-!
# Parents and children

A parent is looked up by its name in lower case, while children are looked for by comparing names
without regard to the case of ASCII letters.  So a child always has its parent, and the other way
round, except where a base type and a name differ in the case of a letter outside ASCII.
-/

namespace ComponentAtlas.Snapshot

variable {s : Snapshot} {x y : Component}

theorem mem_childrenOf_iff :
    y ∈ s.childrenOf x ↔ y ∈ s.components ∧ y.name ≠ x.name ∧
      ∃ base, y.baseType = some base ∧ Text.sameIgnoringCase base x.name = true := by
  simp only [childrenOf, List.mem_filter, Bool.and_eq_true, bne_iff_ne, Option.any_eq_true]

/-- Where names are told apart, the component with a name is the one whose name is the same in lower
case. -/
theorem named?_eq_some_iff (hnames : (s.components.map fun c => Unicode.toLower c.name).Nodup)
    (hx : x ∈ s.components) {name : String} :
    s.named? name = some x ↔ Unicode.toLower name = Unicode.toLower x.name := by
  unfold named? firstNamed?
  constructor
  · intro h
    have hfound := List.find?_some h
    exact (beq_iff_eq.mp hfound).symm
  · intro h
    -- nothing in front of the component has its name
    obtain ⟨front, rest, hsplit⟩ := List.append_of_mem hx
    have hfront : front.find? (fun c => Unicode.toLower c.name == Unicode.toLower name) = none := by
      refine List.find?_eq_none.mpr fun c hc heq => ?_
      rw [hsplit, List.map_append, List.nodup_append] at hnames
      refine hnames.2.2 _ (List.mem_map_of_mem hc) (Unicode.toLower x.name) ?_ ?_
      · exact List.mem_map_of_mem List.mem_cons_self
      · exact (beq_iff_eq.mp heq).trans h
    rw [hsplit, List.find?_append, hfront, Option.none_or]
    exact List.find?_cons_of_pos (beq_iff_eq.mpr h.symm)

theorem parentOf_eq_singleton_iff
    (hnames : (s.components.map fun c => Unicode.toLower c.name).Nodup) (hx : x ∈ s.components) :
    s.parentOf y = [x] ↔ y.name ≠ x.name ∧
      ∃ base, y.baseType = some base ∧ Unicode.toLower base = Unicode.toLower x.name := by
  unfold parentOf
  rw [Option.toList_eq_singleton_iff, Option.filter_eq_some_iff, Option.bind_eq_some_iff,
    bne_iff_ne, ne_comm, and_comm]
  simp only [named?_eq_some_iff hnames hx]

/-- A child has its parent.  The converse fails just where the base type and the name of the parent
are the same in lower case, but not when only the case of ASCII letters is left aside. -/
theorem parent_child_inverse_iff
    (hnames : (s.components.map fun c => Unicode.toLower c.name).Nodup) (hx : x ∈ s.components)
    (hy : y ∈ s.components) :
    (y ∈ s.related x .child → s.related y .parent = [x]) ∧
      ((y ∈ s.related x .child ↔ s.related y .parent = [x]) ↔
        ¬ (y.name ≠ x.name ∧ ∃ base, y.baseType = some base ∧
          Unicode.toLower base = Unicode.toLower x.name ∧
          Text.sameIgnoringCase base x.name = false)) := by
  have hchild : y ∈ s.related x .child ↔ y ∈ s.components ∧ y.name ≠ x.name ∧
      ∃ base, y.baseType = some base ∧ Text.sameIgnoringCase base x.name = true :=
    mem_childrenOf_iff
  have hparent : s.related y .parent = [x] ↔ y.name ≠ x.name ∧
      ∃ base, y.baseType = some base ∧ Unicode.toLower base = Unicode.toLower x.name :=
    parentOf_eq_singleton_iff hnames hx
  have hforward : y ∈ s.related x .child → s.related y .parent = [x] := by
    rw [hchild, hparent]
    rintro ⟨-, hne, base, hbase, hsame⟩
    exact ⟨hne, base, hbase, Unicode.toLower_congr hsame⟩
  refine ⟨hforward, fun hiff => ?_, fun hnot => ⟨hforward, fun hp => ?_⟩⟩
  · rintro ⟨hne, base, hbase, hlower, hdiffers⟩
    have hc := hchild.mp (hiff.mpr (hparent.mpr ⟨hne, base, hbase, hlower⟩))
    obtain ⟨-, -, base', hbase', hsame⟩ := hc
    obtain rfl := Option.some.inj (hbase.symm.trans hbase')
    rw [hdiffers] at hsame
    cases hsame
  · obtain ⟨hne, base, hbase, hlower⟩ := hparent.mp hp
    refine hchild.mpr ⟨hy, hne, base, hbase, ?_⟩
    cases hsame : Text.sameIgnoringCase base x.name with
    | true => rfl
    | false => exact absurd ⟨hne, base, hbase, hlower, hsame⟩ hnot

/-- A component and its child, whose base type is written in another case. -/
theorem parent_child_inverse_ascii :
    let gauge := Component.ofName "MudGauge"
    let dial := { Component.ofName "MudDial" with baseType := some "mudGAUGE" }
    let s : Snapshot := ⟨[dial, gauge], [], [], "Mud", 1⟩
    dial ∈ s.related gauge .child ↔ s.related dial .parent = [gauge] := by
  intro gauge dial s
  refine ((parent_child_inverse_iff (s := s) (x := gauge) (y := dial) (by decide +kernel)
    (by decide +kernel) (by decide +kernel)).2).mpr ?_
  rintro ⟨-, base, hbase, -, hdiffers⟩
  obtain rfl := Option.some.inj hbase
  exact absurd hdiffers (by decide)

/-- A parent without its child: the base type is the name but for the case of an accented
letter. -/
theorem parent_without_child :
    let gauge := Component.ofName "MudJaugé"
    let dial := { Component.ofName "MudDial" with baseType := some "MudJaugÉ" }
    let s : Snapshot := ⟨[dial, gauge], [], [], "Mud", 1⟩
    (s.components.map fun c => Unicode.toLower c.name).Nodup ∧
      gauge ∈ s.components ∧ dial ∈ s.components ∧
      ¬ (dial ∈ s.related gauge .child ↔ s.related dial .parent = [gauge]) := by
  intro gauge dial s
  have hparent : s.related dial .parent = [gauge] := by decide +kernel
  have hchild : dial ∉ s.related gauge .child := by decide +kernel
  refine ⟨by decide +kernel, by decide +kernel, by decide +kernel, fun hiff => ?_⟩
  exact hchild (hiff.mpr hparent)

end ComponentAtlas.Snapshot
