import ComponentAtlas.Proofs.Index.Entries

/-!
# Merging parts

The parts of a class are merged from left to right, but they could be grouped in any way, and a part
that is in already adds nothing.  Every field is merged by a rule of its own: the first text that is
known, "one of them" or "all of them", or the things of a list whose keys are not met yet.  All
these rules have the three laws of `IsAbsorbing`, and the rest of the development uses only them.

The law that carries the argument is the last one: a part stays absorbed however much is merged
after it (`HasMerged.mergeAll`).
-/

namespace ComponentAtlas

/-- The laws of merging: parts may be grouped in any way, and a part adds nothing once it is in,
whatever was merged since. -/
structure IsAbsorbing {α : Type} (merge : α → α → α) : Prop where
  assoc : ∀ a b c, merge (merge a b) c = merge a (merge b c)
  again : ∀ a, merge a a = a
  later : ∀ a b, merge (merge a b) a = merge a b

/-- What is known holds all that a part would add to it. -/
def HasMerged {α : Type} (merge : α → α → α) (known : Option α) (x : α) : Prop :=
  ∃ y, known = some y ∧ merge y x = y

section

variable {α : Type} {merge : α → α → α} {known : Option α} {x : α}

theorem mergeAll_append (merge : α → α → α) (known : Option α) (xs ys : List α) :
    mergeAll merge known (xs ++ ys) = mergeAll merge (mergeAll merge known xs) ys :=
  List.foldl_append

theorem HasMerged.mergeAll_cons (h : HasMerged merge known x) (xs : List α) :
    mergeAll merge known (x :: xs) = mergeAll merge known xs := by
  obtain ⟨y, rfl, hy⟩ := h
  rw [mergeAll_some, mergeAll_some, List.foldl_cons, hy]

/-- Parts that are all in already are merged without effect. -/
theorem mergeAll_eq_self {xs : List α} (h : ∀ x ∈ xs, HasMerged merge known x) :
    mergeAll merge known xs = known := by
  induction xs with
  | nil => rfl
  | cons x xs ih =>
      rw [(h x List.mem_cons_self).mergeAll_cons]
      exact ih fun y hy => h y (List.mem_cons_of_mem x hy)

/-- Only what a part would add counts. -/
theorem HasMerged.congr {x' : α} (h : HasMerged merge known x)
    (hsame : ∀ y, merge y x' = merge y x) : HasMerged merge known x' := by
  obtain ⟨y, rfl, hy⟩ := h
  exact ⟨y, rfl, (hsame y).trans hy⟩

variable (laws : IsAbsorbing merge)

include laws

theorem IsAbsorbing.merge_eq_self {m p : α} (h : merge m p = m) (q : α) :
    merge (merge m q) p = merge m q :=
  calc merge (merge m q) p
      = merge (merge (merge m p) q) p := by rw [h]
    _ = merge m (merge (merge p q) p) := by rw [laws.assoc m p q, laws.assoc]
    _ = merge m (merge p q) := by rw [laws.later]
    _ = merge m q := by rw [← laws.assoc, h]

theorem HasMerged.step (h : HasMerged merge known x) (q : α) :
    HasMerged merge (mergeAll merge known [q]) x := by
  obtain ⟨y, rfl, hy⟩ := h
  exact ⟨merge y q, rfl, laws.merge_eq_self hy q⟩

theorem hasMerged_now (known : Option α) (x : α) :
    HasMerged merge (mergeAll merge known [x]) x := by
  cases known with
  | none => exact ⟨x, rfl, laws.again x⟩
  | some y => exact ⟨merge y x, rfl, by rw [laws.assoc, laws.again]⟩

/-- What is in stays in, whatever is merged after it. -/
theorem HasMerged.mergeAll (h : HasMerged merge known x) (xs : List α) :
    HasMerged merge (mergeAll merge known xs) x := by
  induction xs generalizing known with
  | nil => exact h
  | cons q xs ih =>
      rw [← List.singleton_append, mergeAll_append]
      exact ih (h.step laws q)

/-- Each of some parts is in when all of them are merged. -/
theorem hasMerged_of_mem {xs : List α} (hx : x ∈ xs) (known : Option α) :
    HasMerged merge (ComponentAtlas.mergeAll merge known xs) x := by
  obtain ⟨before, behind, rfl⟩ := List.append_of_mem hx
  rw [mergeAll_append, ← List.singleton_append, mergeAll_append]
  exact (hasMerged_now laws _ x).mergeAll laws behind

/-- A part that a merged thing was built from adds nothing to it. -/
theorem IsAbsorbing.foldl_merge {first p : α} {rest : List α} (hp : p ∈ first :: rest) :
    merge (rest.foldl merge first) p = rest.foldl merge first := by
  obtain ⟨y, hmerged, hy⟩ := hasMerged_of_mem laws hp none
  rw [mergeAll_none] at hmerged
  obtain rfl := Option.some.inj hmerged
  exact hy

end

/-! ## The rules for fields -/

/-- Appending what is new has the laws of merging, when things are told apart by a key. -/
theorem appendNew_isAbsorbing {α β : Type} {same : α → α → Bool} {key : α → β}
    (hkey : ∀ x y, same x y = true ↔ key x = key y) : IsAbsorbing (appendNew same) where
  assoc := appendNew_assoc hkey
  again _ := appendNew_eq_self hkey fun _ hk => hk
  later _ _ := appendNew_eq_self hkey fun _ hk => (mem_keys_appendNew hkey).mpr (Or.inl hk)

theorem or_isAbsorbing {α : Type} : IsAbsorbing fun a b : Option α => a.or b where
  assoc _ _ _ := Option.or_assoc
  again _ := Option.or_self
  later a b := by cases a <;> cases b <;> rfl

theorem boolOr_isAbsorbing : IsAbsorbing or where
  assoc := Bool.or_assoc
  again := Bool.or_self
  later a b := by cases a <;> cases b <;> rfl

theorem boolAnd_isAbsorbing : IsAbsorbing and where
  assoc := Bool.and_assoc
  again := Bool.and_self
  later a b := by cases a <;> cases b <;> rfl

theorem Text.sameIgnoringCase_iff (a b : String) :
    Text.sameIgnoringCase a b = true ↔ a.toList.map Char.toLower = b.toList.map Char.toLower :=
  beq_iff_eq

namespace Component

/-- Parameters whose names differ in case only count as one. -/
theorem parameters_isAbsorbing :
    IsAbsorbing (appendNew fun p q : Parameter => Text.sameIgnoringCase p.name q.name) :=
  appendNew_isAbsorbing fun p q => Text.sameIgnoringCase_iff p.name q.name

theorem events_isAbsorbing : IsAbsorbing (appendNew fun e f : Event => e.name == f.name) :=
  appendNew_isAbsorbing fun _ _ => beq_iff_eq

theorem methods_isAbsorbing : IsAbsorbing (appendNew fun m n : Method => m.name == n.name) :=
  appendNew_isAbsorbing fun _ _ => beq_iff_eq

theorem merge_isAbsorbing : IsAbsorbing Component.merge where
  assoc a b c := by
    unfold Component.merge
    simp only [or_isAbsorbing.assoc, boolOr_isAbsorbing.assoc, boolAnd_isAbsorbing.assoc,
      parameters_isAbsorbing.assoc, events_isAbsorbing.assoc, methods_isAbsorbing.assoc]
  again a := by
    unfold Component.merge
    simp only [or_isAbsorbing.again, boolOr_isAbsorbing.again, boolAnd_isAbsorbing.again,
      parameters_isAbsorbing.again, events_isAbsorbing.again, methods_isAbsorbing.again]
  later a b := by
    unfold Component.merge
    simp only [or_isAbsorbing.later, boolOr_isAbsorbing.later, boolAnd_isAbsorbing.later,
      parameters_isAbsorbing.later, events_isAbsorbing.later, methods_isAbsorbing.later]

end Component

namespace TypeReference

theorem members_isAbsorbing : IsAbsorbing (appendNew fun m n : TypeMember => m.name == n.name) :=
  appendNew_isAbsorbing fun _ _ => beq_iff_eq

theorem values_isAbsorbing : IsAbsorbing (appendNew fun v w : EnumValue => v.name == w.name) :=
  appendNew_isAbsorbing fun _ _ => beq_iff_eq

theorem merge_isAbsorbing : IsAbsorbing TypeReference.merge where
  assoc t u v := by
    unfold TypeReference.merge
    simp only [or_isAbsorbing.assoc, members_isAbsorbing.assoc, values_isAbsorbing.assoc]
  again t := by
    unfold TypeReference.merge
    simp only [or_isAbsorbing.again, members_isAbsorbing.again, values_isAbsorbing.again]
  later t u := by
    unfold TypeReference.merge
    simp only [or_isAbsorbing.later, members_isAbsorbing.later, values_isAbsorbing.later]

end TypeReference
end ComponentAtlas
