import ComponentAtlas.Proofs.Category.Seeds

/-!
# Where names are listed

The category list is made by taking the names one after the other.  The invariant `Lists` says what
it is once some names were taken: the categories have different names, each lists those of the names
that belong to it, in their order, and no name belongs nowhere.  Distinct names are therefore listed
once.
-/

namespace ComponentAtlas.CategoryTable

/-- The categories list the names that were taken. -/
structure Lists (t : CategoryTable) (taken : List String) (cs : List Category) : Prop where
  distinct : (cs.map Category.name).Nodup
  members : ∀ k ∈ cs, k.components = taken.filter fun name => t.categoryOf name == k.name
  complete : ∀ name ∈ taken, ∃ k ∈ cs, k.name = t.categoryOf name

theorem nodup_append_category {cs : List Category} {k : Category}
    (h : (cs.map Category.name).Nodup) (hnew : ∀ c ∈ cs, c.name ≠ k.name) :
    ((cs ++ [k]).map Category.name).Nodup := by
  rw [List.map_append, List.nodup_append]
  refine ⟨h, List.pairwise_singleton _ _, ?_⟩
  intro a ha b hb
  obtain ⟨c, hc, rfl⟩ := List.mem_map.mp ha
  obtain rfl := List.mem_singleton.mp hb
  exact hnew c hc

theorem ne_of_not_any {cs : List Category} {name : String}
    (h : ¬ (cs.any fun c => c.name == name) = true) : ∀ c ∈ cs, c.name ≠ name := by
  intro c hc heq
  exact h (List.any_eq_true.mpr ⟨c, hc, beq_iff_eq.mpr heq⟩)

theorem addMember_of_new {cs : List Category} {category : String}
    (hnew : ∀ c ∈ cs, c.name ≠ category) (component : String) :
    addMember component category cs = cs ++ [⟨category, none, none, [component]⟩] := by
  have hnone : cs.findIdx? (fun c => c.name == category) = none :=
    List.findIdx?_eq_none_iff.mpr fun c hc => beq_eq_false_iff_ne.mpr (hnew c hc)
  simp only [addMember, hnone]

/-- The member goes to the category at the first position of the name. -/
theorem addMember_of_first {as bs : List Category} {k : Category}
    (hfirst : ∀ c ∈ as, c.name ≠ k.name) (component : String) :
    addMember component k.name (as ++ k :: bs) =
      as ++ { k with components := k.components ++ [component] } :: bs := by
  have hposition : (as ++ k :: bs).findIdx? (fun c => c.name == k.name) = some as.length := by
    have hnone : as.findIdx? (fun c => c.name == k.name) = none :=
      List.findIdx?_eq_none_iff.mpr fun c hc => beq_eq_false_iff_ne.mpr (hfirst c hc)
    rw [List.findIdx?_append, hnone, List.findIdx?_cons, if_pos (beq_self_eq_true _)]
    simp
  simp only [addMember, hposition]
  clear hposition hfirst
  induction as with
  | nil => rfl
  | cons c as ih => rw [List.cons_append, List.length_cons, List.modify_succ_cons, ih]; rfl

namespace Lists

variable {t : CategoryTable} {taken : List String} {cs : List Category}

theorem mem_iff (h : t.Lists taken cs) {k : Category} (hk : k ∈ cs) {name : String} :
    name ∈ k.components ↔ name ∈ taken ∧ t.categoryOf name = k.name := by
  rw [h.members k hk, List.mem_filter, beq_iff_eq]

theorem emptyCategories (t : CategoryTable) : t.Lists [] t.emptyCategories where
  distinct := by
    have hnames : t.emptyCategories.map Category.name = t.seeds.categories.map Category.name :=
      List.map_map
    rw [hnames, t.seeds_reads.names_eq]
    exact nodup_firsts (fun _ _ heq => beq_iff_eq.mpr heq) _
  members k hk := by
    obtain ⟨c, -, rfl⟩ := List.mem_map.mp hk
    rfl
  complete name hname := absurd hname List.not_mem_nil

/-- One more name goes to the end of the one category that it belongs to. -/
theorem addMember (h : t.Lists taken cs) (name : String) :
    t.Lists (taken ++ [name]) (CategoryTable.addMember name (t.categoryOf name) cs) := by
  by_cases hold : (cs.any fun c => c.name == t.categoryOf name) = true
  · obtain ⟨k, hk, hname⟩ := List.any_eq_true.mp hold
    rw [← beq_iff_eq.mp hname]
    obtain ⟨as, bs, rfl⟩ := List.append_of_mem hk
    have hnames := h.distinct
    rw [List.map_append, List.map_cons, List.nodup_append] at hnames
    obtain ⟨-, hbs, has⟩ := hnames
    have hfirst : ∀ c ∈ as, c.name ≠ k.name := fun c hc =>
      has _ (List.mem_map_of_mem hc) _ List.mem_cons_self
    have hbehind : ∀ c ∈ bs, c.name ≠ k.name := fun c hc heq =>
      (List.nodup_cons.mp hbs).1 (heq ▸ List.mem_map_of_mem hc)
    -- no category but `k` has the name that the new member belongs to
    have hothers : ∀ c ∈ as ++ k :: bs, c.name ≠ k.name →
        c.components = (taken ++ [name]).filter fun n => t.categoryOf n == c.name := by
      intro c hc hne
      rw [List.filter_append, ← h.members c hc]
      simp [← beq_iff_eq.mp hname, hne.symm]
    rw [addMember_of_first hfirst]
    refine ⟨?_, fun c hc => ?_, fun n hn => ?_⟩
    · have hsame := h.distinct
      rwa [List.map_append, List.map_cons] at hsame ⊢
    · rcases List.mem_append.mp hc with hc | hc
      · exact hothers c (List.mem_append_left _ hc) (hfirst c hc)
      · rcases List.mem_cons.mp hc with rfl | hc
        · rw [List.filter_append, ← h.members k hk]
          simp [← beq_iff_eq.mp hname]
        · exact hothers c (List.mem_append_right _ (List.mem_cons_of_mem _ hc)) (hbehind c hc)
    · have hmem : t.categoryOf n ∈ (as ++ k :: bs).map Category.name := by
        rcases List.mem_append.mp hn with hn | hn
        · obtain ⟨c, hc, hcategory⟩ := h.complete n hn
          exact hcategory ▸ List.mem_map_of_mem hc
        · obtain rfl := List.mem_singleton.mp hn
          exact beq_iff_eq.mp hname ▸ List.mem_map_of_mem hk
      rw [List.map_append, List.map_cons] at hmem
      refine List.mem_map.mp ?_
      rwa [List.map_append, List.map_cons]
  · have hnew := ne_of_not_any hold
    rw [addMember_of_new hnew]
    refine ⟨nodup_append_category h.distinct hnew, fun k hk => ?_, fun n hn => ?_⟩
    · rcases List.mem_append.mp hk with hk | hk
      · rw [List.filter_append, ← h.members k hk]
        simp [(hnew k hk).symm]
      · obtain rfl := List.mem_singleton.mp hk
        have hnone : taken.filter (fun n => t.categoryOf n == t.categoryOf name) = [] := by
          refine List.filter_eq_nil_iff.mpr fun n hn heq => ?_
          obtain ⟨c, hc, hname⟩ := h.complete n hn
          exact hnew c hc (hname.trans (beq_iff_eq.mp heq))
        rw [List.filter_append, hnone]
        simp
    · rcases List.mem_append.mp hn with hn | hn
      · obtain ⟨k, hk, hname⟩ := h.complete n hn
        exact ⟨k, List.mem_append_left _ hk, hname⟩
      · obtain rfl := List.mem_singleton.mp hn
        exact ⟨_, List.mem_append_right _ (List.mem_singleton.mpr rfl), rfl⟩

theorem foldl_addMember (h : t.Lists taken cs) (names : List String) :
    t.Lists (taken ++ names)
      (names.foldl (fun cs name => CategoryTable.addMember name (t.categoryOf name) cs) cs) := by
  induction names generalizing taken cs with
  | nil => simpa using h
  | cons name names ih =>
      have hmore := ih (h.addMember name)
      rwa [List.append_assoc] at hmore

theorem categoriesOf (t : CategoryTable) (names : List String) :
    t.Lists names (t.categoriesOf names) :=
  (emptyCategories t).foldl_addMember names

/-- A name that was taken once is listed once. -/
theorem count_eq_one (h : t.Lists taken cs) (hdistinct : taken.Nodup) {name : String}
    (hname : name ∈ taken) : (cs.flatMap Category.components).count name = 1 := by
  obtain ⟨k, hk, hcategory⟩ := h.complete name hname
  have hone : k.components.count name = 1 := by
    have hnodup : k.components.Nodup := by
      rw [h.members k hk]
      exact hdistinct.filter _
    rw [hnodup.count, if_pos ((h.mem_iff hk).mpr ⟨hname, hcategory.symm⟩)]
  obtain ⟨as, bs, rfl⟩ := List.append_of_mem hk
  -- no category but `k` lists the name, because no other one has the name of its category
  have hnowhere : ∀ cs' : List Category, (∀ c ∈ cs', c ∈ as ++ k :: bs ∧ c.name ≠ k.name) →
      (cs'.flatMap Category.components).count name = 0 := by
    intro cs' hcs'
    refine List.count_eq_zero.mpr fun hlisted => ?_
    obtain ⟨c, hc, hmem⟩ := List.mem_flatMap.mp hlisted
    obtain ⟨hin, hne⟩ := hcs' c hc
    exact hne (((h.mem_iff hin).mp hmem).2.symm.trans hcategory.symm)
  have hnames := h.distinct
  rw [List.map_append, List.map_cons, List.nodup_append] at hnames
  obtain ⟨-, hbs, has⟩ := hnames
  have hbefore := hnowhere as fun c hc => ⟨List.mem_append_left _ hc,
    has _ (List.mem_map_of_mem hc) _ List.mem_cons_self⟩
  have hbehind := hnowhere bs fun c hc => ⟨List.mem_append_right _ (List.mem_cons_of_mem _ hc),
    fun heq => (List.nodup_cons.mp hbs).1 (heq ▸ List.mem_map_of_mem hc)⟩
  rw [List.flatMap_append, List.flatMap_cons, List.count_append, List.count_append, hbefore,
    hbehind, hone]

end Lists
end ComponentAtlas.CategoryTable
