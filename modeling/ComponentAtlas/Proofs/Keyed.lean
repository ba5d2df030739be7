import ComponentAtlas.Keyed

/-!
# What stands under a key

A list of keyed values is a map whose first entry under a key counts: `get?_put` and `get?_erase`
say what is found under every key after a write, and `mem_put` and `mem_erase` which entries are
left.
-/

namespace ComponentAtlas.Keyed

variable {α : Type}

/-! ## Entries -/

theorem mem_of_get? {t : Keyed α} {key : String} {v : α} (h : t.get? key = some v) :
    (key, v) ∈ t := by
  unfold get? at h
  obtain ⟨⟨k, w⟩, hfind, rfl⟩ := Option.map_eq_some_iff.mp h
  have hk := List.find?_some hfind
  simp only [beq_iff_eq] at hk
  subst hk
  exact List.mem_of_find?_eq_some hfind

theorem mem_erase {t : Keyed α} {key : String} {e : String × α} :
    e ∈ t.erase key ↔ e ∈ t ∧ e.1 ≠ key := by
  simp [erase]

theorem mem_put {t : Keyed α} {key : String} {v : α} {e : String × α} :
    e ∈ t.put key v ↔ e = (key, v) ∨ (e ∈ t ∧ e.1 ≠ key) := by
  simp only [put, List.mem_cons, mem_erase]

/-! ## Looking -/

@[simp] theorem get?_nil (k : String) : get? ([] : Keyed α) k = none := rfl

theorem get?_cons (e : String × α) (t : Keyed α) (k : String) :
    get? (e :: t) k = if e.1 = k then some e.2 else get? t k := by
  unfold get?
  by_cases h : e.1 = k <;> simp [h]

theorem get?_filter_key (t : Keyed α) (p : String → Bool) (k : String) :
    get? (t.filter fun e => p e.1) k = if p k then get? t k else none := by
  induction t with
  | nil => simp
  | cons e t ih =>
      by_cases hp : p e.1 = true
      · rw [List.filter_cons_of_pos (by simpa using hp), get?_cons, get?_cons, ih]
        by_cases he : e.1 = k
        · simp [he, he ▸ hp]
        · simp [he]
      · rw [List.filter_cons_of_neg (by simpa using hp), ih, get?_cons]
        by_cases he : e.1 = k
        · simp [he ▸ hp]
        · simp [he]

theorem get?_erase (t : Keyed α) (key k : String) :
    get? (t.erase key) k = if k = key then none else get? t k := by
  have h := get?_filter_key t (fun k => k != key) k
  by_cases hk : k = key
  · rw [if_pos hk]
    simpa [hk, erase] using h
  · rw [if_neg hk]
    simpa [hk, erase] using h

theorem get?_put (t : Keyed α) (key : String) (v : α) (k : String) :
    get? (t.put key v) k = if k = key then some v else get? t k := by
  rw [put, get?_cons, get?_erase]
  by_cases h : k = key
  · simp [h]
  · simp [h, Ne.symm h]

theorem isSome_get?_of_mem {t : Keyed α} {e : String × α} (he : e ∈ t) :
    (t.get? e.1).isSome = true := by
  rw [get?, Option.isSome_map, List.find?_isSome]
  exact ⟨e, he, beq_self_eq_true e.1⟩

theorem get?_put_self (t : Keyed α) (key : String) (v : α) : (t.put key v).get? key = some v := by
  simp [get?, put]

theorem get?_erase_self (t : Keyed α) (key : String) : (t.erase key).get? key = none := by
  simp [get?, erase]

end ComponentAtlas.Keyed
