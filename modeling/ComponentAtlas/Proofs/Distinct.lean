import ComponentAtlas.Distinct

/-!
# Firsts are distinct

An equivalence that never tells equal names apart leaves at most one thing of each name.

Where `same` compares keys and nothing else, what is appended depends on the keys met so far only.
So it does not matter how several lists are grouped when one after the other is appended, and a list
whose keys are all met already adds nothing.
-/

namespace ComponentAtlas

variable {α β : Type} {same : α → α → Bool} {nameOf : α → β}

theorem mem_of_mem_firstsAfter {seen xs : List α} {x : α} (h : x ∈ firstsAfter same seen xs) :
    x ∈ xs := by
  induction xs generalizing seen with
  | nil => exact h
  | cons y ys ih =>
      unfold firstsAfter at h
      split at h
      · exact List.mem_cons_of_mem _ (ih h)
      · rcases List.mem_cons.mp h with rfl | h
        · exact List.mem_cons_self
        · exact List.mem_cons_of_mem _ (ih h)

theorem mem_of_mem_firsts {xs : List α} {x : α} (h : x ∈ firsts same xs) : x ∈ xs :=
  mem_of_mem_firstsAfter h

/-- No first is of the kind of an earlier one, whatever `same` is. -/
theorem firstsAfter_pairwise (seen xs : List α) :
    (firstsAfter same seen xs).Pairwise (fun x y => same x y = false) ∧
      ∀ y ∈ seen, ∀ x ∈ firstsAfter same seen xs, same y x = false := by
  induction xs generalizing seen with
  | nil => exact ⟨List.Pairwise.nil, fun y _ x hx => absurd hx List.not_mem_nil⟩
  | cons x xs ih =>
      unfold firstsAfter
      split
      · exact ih seen
      · rename_i hnew
        obtain ⟨hpairwise, hfresh⟩ := ih (seen ++ [x])
        refine ⟨List.pairwise_cons.mpr ⟨fun z hz => ?_, hpairwise⟩, fun y hy z hz => ?_⟩
        · exact hfresh x (List.mem_append_right _ (List.mem_singleton.mpr rfl)) z hz
        · rcases List.mem_cons.mp hz with rfl | hz
          · exact Bool.eq_false_iff.mpr fun hsame => hnew (List.any_eq_true.mpr ⟨y, hy, hsame⟩)
          · exact hfresh y (List.mem_append_left _ hy) z hz

/-- The names of the firsts are distinct, and none of them was seen. -/
theorem firstsAfter_distinct (hsame : ∀ x y, nameOf x = nameOf y → same x y = true)
    (seen xs : List α) :
    ((firstsAfter same seen xs).map nameOf).Nodup ∧
      ∀ y ∈ seen, ∀ x ∈ firstsAfter same seen xs, nameOf y ≠ nameOf x := by
  have hne {x y : α} (hother : same x y = false) : nameOf x ≠ nameOf y := by
    intro hname
    rw [hsame x y hname] at hother
    cases hother
  obtain ⟨hpairwise, hfresh⟩ := firstsAfter_pairwise seen xs
  exact ⟨List.pairwise_map.mpr (hpairwise.imp hne), fun y hy x hx => hne (hfresh y hy x hx)⟩

theorem nodup_append_firstsAfter (hsame : ∀ x y, nameOf x = nameOf y → same x y = true)
    {seen xs : List α} (hseen : (seen.map nameOf).Nodup) :
    ((seen ++ firstsAfter same seen xs).map nameOf).Nodup := by
  obtain ⟨hdistinct, hfresh⟩ := firstsAfter_distinct hsame seen xs
  rw [List.map_append, List.nodup_append]
  refine ⟨hseen, hdistinct, fun a ha b hb => ?_⟩
  obtain ⟨y, hy, rfl⟩ := List.mem_map.mp ha
  obtain ⟨x, hx, rfl⟩ := List.mem_map.mp hb
  exact hfresh y hy x hx

theorem nodup_appendNew (hsame : ∀ x y, nameOf x = nameOf y → same x y = true) {xs ys : List α}
    (h : (xs.map nameOf).Nodup) : ((appendNew same xs ys).map nameOf).Nodup :=
  nodup_append_firstsAfter hsame h

theorem nodup_firsts (hsame : ∀ x y, nameOf x = nameOf y → same x y = true) (xs : List α) :
    ((firsts same xs).map nameOf).Nodup := by
  have h : (([] ++ firstsAfter same [] xs).map nameOf).Nodup :=
    nodup_append_firstsAfter hsame List.nodup_nil
  exact h

theorem firsts_pairwise (xs : List α) :
    (firsts same xs).Pairwise fun x y => same x y = false :=
  (firstsAfter_pairwise [] xs).1

theorem firstsAfter_append (seen xs ys : List α) :
    firstsAfter same seen (xs ++ ys) =
      firstsAfter same seen xs ++ firstsAfter same (seen ++ firstsAfter same seen xs) ys := by
  induction xs generalizing seen with
  | nil => rw [List.nil_append, firstsAfter, List.nil_append, List.append_nil]
  | cons x xs ih =>
      rw [List.cons_append, firstsAfter, firstsAfter]
      split
      · exact ih seen
      · rw [ih, List.append_assoc, List.singleton_append, List.cons_append]

theorem firsts_concat (xs : List α) (x : α) :
    firsts same (xs ++ [x]) =
      firsts same xs ++ if (firsts same xs).any fun y => same y x then [] else [x] := by
  unfold firsts
  rw [firstsAfter_append, List.nil_append, firstsAfter]
  rfl

theorem firsts_congr {same' : α → α → Bool} {xs : List α}
    (h : ∀ x ∈ xs, ∀ y ∈ xs, same x y = same' x y) : firsts same xs = firsts same' xs := by
  have hafter (seen : List α) (hseen : ∀ x ∈ seen, ∀ y ∈ xs, same x y = same' x y) :
      firstsAfter same seen xs = firstsAfter same' seen xs := by
    induction xs generalizing seen with
    | nil => rfl
    | cons y ys ih =>
        have hmet : (seen.any fun x => same x y) = seen.any fun x => same' x y := by
          rw [Bool.eq_iff_iff, List.any_eq_true, List.any_eq_true]
          exact exists_congr fun x => and_congr_right fun hx => by
            rw [hseen x hx y List.mem_cons_self]
        have hys : ∀ x ∈ ys, ∀ z ∈ ys, same x z = same' x z := fun x hx z hz =>
          h x (List.mem_cons_of_mem _ hx) z (List.mem_cons_of_mem _ hz)
        have hrest : ∀ x ∈ seen, ∀ z ∈ ys, same x z = same' x z := fun x hx z hz =>
          hseen x hx z (List.mem_cons_of_mem _ hz)
        rw [firstsAfter, firstsAfter, hmet, ih hys seen hrest, ih hys (seen ++ [y])
          (List.forall_mem_append.mpr ⟨hrest, List.forall_mem_singleton.mpr fun z hz =>
            h y List.mem_cons_self z (List.mem_cons_of_mem _ hz)⟩)]
  exact hafter [] fun x hx => absurd hx List.not_mem_nil

/-- The firsts among what some things are written as are written by the firsts among these. -/
theorem firsts_map {γ : Type} (f : γ → α) (xs : List γ) :
    firsts same (xs.map f) = (firsts (fun x y => same (f x) (f y)) xs).map f := by
  have hafter (seen : List γ) : firstsAfter same (seen.map f) (xs.map f) =
      (firstsAfter (fun x y => same (f x) (f y)) seen xs).map f := by
    induction xs generalizing seen with
    | nil => rfl
    | cons x xs ih =>
        have hseen : (seen.map f).any (fun y => same y (f x)) =
            seen.any fun y => same (f y) (f x) := List.any_map
        rw [List.map_cons, firstsAfter, firstsAfter, hseen]
        split
        · exact ih seen
        · have hnext := ih (seen ++ [x])
          rw [List.map_append, List.map_singleton] at hnext
          rw [hnext, List.map_cons]
  exact hafter []

/-- What is read off the firsts of a list is what is read off all of it, when nothing is read off
what may not be a first. -/
theorem filterMap_firsts_of_none {γ : Type} {f : α → Option γ}
    (hnone : ∀ x y, same x y = true → f y = none) (xs : List α) :
    (firsts same xs).filterMap f = xs.filterMap f := by
  have hafter (seen : List α) : (firstsAfter same seen xs).filterMap f = xs.filterMap f := by
    induction xs generalizing seen with
    | nil => rfl
    | cons x xs ih =>
        rw [firstsAfter]
        split
        · rename_i hmet
          obtain ⟨y, -, hsame⟩ := List.any_eq_true.mp hmet
          rw [ih, List.filterMap_cons_none (hnone y x hsame)]
        · rw [List.filterMap_cons, List.filterMap_cons, ih]
  exact hafter []

/-- What is read off the firsts are the firsts of what is read, when things are the same exactly when
the same is read off them. -/
theorem filterMap_firsts {γ : Type} {f : α → Option γ} {same' : γ → γ → Bool}
    (hsome : ∀ x y a b, f x = some a → f y = some b → same x y = same' a b)
    (hnone : ∀ x y, f x = none ∨ f y = none → same x y = false) (xs : List α) :
    (firsts same xs).filterMap f = firsts same' (xs.filterMap f) := by
  have hafter (seen : List α) : (firstsAfter same seen xs).filterMap f =
      firstsAfter same' (seen.filterMap f) (xs.filterMap f) := by
    induction xs generalizing seen with
    | nil => rfl
    | cons x xs ih =>
        have hnext := ih (seen ++ [x])
        rw [List.filterMap_append] at hnext
        cases hx : f x with
        | none =>
            have hnew : ¬(seen.any fun y => same y x) = true := fun hmet => by
              obtain ⟨y, -, hsame⟩ := List.any_eq_true.mp hmet
              rw [hnone y x (Or.inr hx)] at hsame
              cases hsame
            have hskip : [x].filterMap f = [] := List.filterMap_cons_none hx
            rw [firstsAfter, if_neg hnew, List.filterMap_cons_none hx, List.filterMap_cons_none hx,
              hnext, hskip, List.append_nil]
        | some a =>
            have hmet : (seen.any fun y => same y x) = (seen.filterMap f).any fun b => same' b a := by
              rw [Bool.eq_iff_iff, List.any_eq_true, List.any_eq_true]
              constructor
              · rintro ⟨y, hy, hsame⟩
                cases hfy : f y with
                | none =>
                    rw [hnone y x (Or.inl hfy)] at hsame
                    cases hsame
                | some b =>
                    exact ⟨b, List.mem_filterMap.mpr ⟨y, hy, hfy⟩, hsome y x b a hfy hx ▸ hsame⟩
              · rintro ⟨b, hb, hsame⟩
                obtain ⟨y, hy, hfy⟩ := List.mem_filterMap.mp hb
                exact ⟨y, hy, hsome y x b a hfy hx ▸ hsame⟩
            have hkeep : [x].filterMap f = [a] := List.filterMap_cons_some hx
            rw [firstsAfter, List.filterMap_cons_some hx, firstsAfter, hmet]
            split
            · exact ih seen
            · rw [List.filterMap_cons_some hx, hnext, hkeep]
  exact hafter []

/-- Two lists appended one after the other are one list appended. -/
theorem appendNew_appendNew (xs ys zs : List α) :
    appendNew same (appendNew same xs ys) zs = appendNew same xs (ys ++ zs) := by
  unfold appendNew
  rw [firstsAfter_append, List.append_assoc]

/-! ## Kinds told by a key -/

section

variable {key : α → β} (hkey : ∀ x y, same x y = true ↔ key x = key y)

include hkey

theorem any_same_iff {seen : List α} {x : α} :
    (seen.any fun y => same y x) = true ↔ key x ∈ seen.map key := by
  rw [List.any_eq_true, List.mem_map]
  exact exists_congr fun y => and_congr_right fun _ => hkey y x

theorem firstsAfter_cons_of_mem {seen xs : List α} {x : α} (h : key x ∈ seen.map key) :
    firstsAfter same seen (x :: xs) = firstsAfter same seen xs := by
  rw [firstsAfter, if_pos ((any_same_iff hkey).mpr h)]

theorem firstsAfter_cons_of_notMem {seen xs : List α} {x : α} (h : key x ∉ seen.map key) :
    firstsAfter same seen (x :: xs) = x :: firstsAfter same (seen ++ [x]) xs := by
  rw [firstsAfter, if_neg fun hany => h ((any_same_iff hkey).mp hany)]

/-- Looking for firsts among firsts, with no less met already, is looking for them at once. -/
theorem firstsAfter_firstsAfter {inner outer xs : List α}
    (h : ∀ k ∈ inner.map key, k ∈ outer.map key) :
    firstsAfter same outer (firstsAfter same inner xs) = firstsAfter same outer xs := by
  induction xs generalizing inner outer with
  | nil => rfl
  | cons x xs ih =>
      by_cases hinner : key x ∈ inner.map key
      · rw [firstsAfter_cons_of_mem hkey hinner, ih h,
          firstsAfter_cons_of_mem hkey (h _ hinner)]
      · rw [firstsAfter_cons_of_notMem hkey hinner]
        by_cases houter : key x ∈ outer.map key
        · rw [firstsAfter_cons_of_mem hkey houter, firstsAfter_cons_of_mem hkey houter]
          refine ih fun k hk => ?_
          rw [List.map_append, List.mem_append] at hk
          rcases hk with hk | hk
          · exact h k hk
          · obtain rfl := List.mem_singleton.mp hk
            exact houter
        · rw [firstsAfter_cons_of_notMem hkey houter, firstsAfter_cons_of_notMem hkey houter]
          refine congrArg (x :: ·) (ih fun k hk => ?_)
          rw [List.map_append, List.mem_append] at hk ⊢
          exact hk.imp_left (h k)

theorem mem_keys_appendNew {xs ys : List α} {k : β} :
    k ∈ (appendNew same xs ys).map key ↔ k ∈ xs.map key ∨ k ∈ ys.map key := by
  unfold appendNew
  induction ys generalizing xs with
  | nil => simp [firstsAfter]
  | cons y ys ih =>
      rw [List.map_cons, List.mem_cons]
      by_cases hy : key y ∈ xs.map key
      · rw [firstsAfter_cons_of_mem hkey hy, ih]
        refine ⟨Or.imp_right Or.inr, ?_⟩
        rintro (hk | rfl | hk)
        · exact Or.inl hk
        · exact Or.inl hy
        · exact Or.inr hk
      · have hstep : xs ++ y :: firstsAfter same (xs ++ [y]) ys =
            (xs ++ [y]) ++ firstsAfter same (xs ++ [y]) ys := by simp
        rw [firstsAfter_cons_of_notMem hkey hy, hstep, ih, List.map_append, List.mem_append,
          List.map_singleton, List.mem_singleton, or_assoc]

/-- What is appended is what no key was met of, and only the first of each key. -/
theorem mem_firstsAfter_iff {seen xs : List α} {x : α} :
    x ∈ firstsAfter same seen xs ↔
      key x ∉ seen.map key ∧ xs.find? (fun y => same y x) = some x := by
  induction xs generalizing seen with
  | nil => simp [firstsAfter]
  | cons y ys ih =>
      by_cases hy : key y ∈ seen.map key
      · rw [firstsAfter_cons_of_mem hkey hy, ih]
        refine and_congr_right fun hx => ?_
        have hother : same y x = false :=
          Bool.eq_false_iff.mpr fun hsame => hx ((hkey y x).mp hsame ▸ hy)
        rw [List.find?_cons_of_neg (by simp [hother])]
      · rw [firstsAfter_cons_of_notMem hkey hy, List.mem_cons, ih, List.map_append, List.mem_append,
          List.map_singleton, List.mem_singleton]
        cases hsame : same y x with
        | true =>
            have hk : key y = key x := (hkey y x).mp hsame
            have hfound : (y :: ys).find? (fun y => same y x) = some y :=
              List.find?_cons_of_pos hsame
            rw [hfound]
            constructor
            · rintro (rfl | ⟨hx, -⟩)
              · exact ⟨hy, rfl⟩
              · exact absurd (Or.inr hk.symm) hx
            · rintro ⟨-, hx⟩
              exact Or.inl (Option.some.inj hx).symm
        | false =>
            have hne : key x ≠ key y := fun hk => by
              rw [(hkey y x).mpr hk.symm] at hsame
              cases hsame
            have hxy : x ≠ y := fun hxy => hne (congrArg key hxy)
            rw [List.find?_cons_of_neg (by simp [hsame]), or_iff_right hxy, or_iff_left hne]

theorem appendNew_assoc (xs ys zs : List α) :
    appendNew same (appendNew same xs ys) zs = appendNew same xs (appendNew same ys zs) := by
  have hmet : ∀ k ∈ ys.map key, k ∈ (appendNew same xs ys).map key :=
    fun k hk => (mem_keys_appendNew hkey).mpr (Or.inr hk)
  calc appendNew same (appendNew same xs ys) zs
      = appendNew same xs ys ++ firstsAfter same (appendNew same xs ys) (firstsAfter same ys zs) :=
        congrArg (appendNew same xs ys ++ ·) (firstsAfter_firstsAfter hkey hmet).symm
    _ = appendNew same xs (appendNew same ys zs) := appendNew_appendNew xs ys _

/-- What is met already adds nothing. -/
theorem appendNew_eq_self {xs ys : List α} (h : ∀ k ∈ ys.map key, k ∈ xs.map key) :
    appendNew same xs ys = xs := by
  have hnone : firstsAfter same xs ys = [] := by
    induction ys with
    | nil => rfl
    | cons y ys ih =>
        rw [firstsAfter_cons_of_mem hkey (h _ List.mem_cons_self)]
        exact ih fun k hk => h k (List.mem_cons_of_mem _ hk)
  rw [appendNew, hnone, List.append_nil]

end

end ComponentAtlas
