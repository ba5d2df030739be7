import ComponentAtlas.Category.Table
import ComponentAtlas.Proofs.Distinct
import ComponentAtlas.Proofs.Keyed

/-!
# What the entries of a table make

A component is given to a category by the position of the category, and entries of one name share a
position.  Giving members away changes neither the names of the categories nor their order, so a
position once recorded goes on to mean the same category.  `Reads` says what stands there after some
entries: a category for each name, described as in the first entry of that name, and as the owner of
a component the name of the first entry that lists it.
-/

namespace ComponentAtlas

/-- A category as it is described, without its members. -/
def Category.heading (k : Category) : String × Option String × Option String :=
  (k.name, k.title, k.description)

/-- The category of an entry as it is described. -/
def CategoryEntry.heading (e : CategoryEntry) : String × Option String × Option String :=
  (e.name, e.title, e.description)

/-- One more member changes no heading. -/
theorem headings_modify (cs : List Category) (position : Nat) (component : String) :
    (cs.modify position fun c => { c with components := c.components ++ [component] }).map
      Category.heading = cs.map Category.heading := by
  induction cs generalizing position with
  | nil => cases position <;> rfl
  | cons c cs ih =>
      cases position with
      | zero => rfl
      | succ position => rw [List.modify_succ_cons, List.map_cons, List.map_cons, ih]

theorem names_eq_of_headings {cs : List Category} :
    cs.map Category.name = (cs.map Category.heading).map Prod.fst := by
  rw [List.map_map]
  rfl

/-- The category of a name that is found by its position. -/
theorem name_of_findIdx? {cs : List Category} {name : String} {position : Nat}
    (h : cs.findIdx? (fun c => c.name == name) = some position) :
    (cs.map Category.name)[position]? = some name := by
  obtain ⟨hposition, hname, -⟩ := List.findIdx?_eq_some_iff_getElem.mp h
  rw [List.getElem?_map, List.getElem?_eq_getElem hposition]
  exact congrArg some (beq_iff_eq.mp hname)

theorem notMem_of_findIdx? {cs : List Category} {name : String}
    (h : cs.findIdx? (fun c => c.name == name) = none) : name ∉ cs.map Category.name := by
  intro hmem
  obtain ⟨c, hc, rfl⟩ := List.mem_map.mp hmem
  exact beq_eq_false_iff_ne.mp (List.findIdx?_eq_none_iff.mp h c hc) rfl

namespace CategorySeeds

variable {s : CategorySeeds} {entries : List CategoryEntry}

/-! ## Members -/

/-- The members of an entry go to its position, as far as they belong nowhere yet. -/
theorem get?_foldl_addMember (position : Nat) (members : List String) (s : CategorySeeds)
    (component : String) :
    (members.foldl (addMember position) s).owners.get? component =
      (s.owners.get? component).or (if component ∈ members then some position else none) := by
  induction members generalizing s with
  | nil => simp
  | cons member members ih =>
      have hstep : (s.addMember position member).owners.get? component =
          (s.owners.get? component).or (if component = member then some position else none) := by
        unfold addMember
        split
        · rename_i howned
          obtain ⟨owner, howner⟩ := Option.isSome_iff_exists.mp howned
          by_cases hsame : component = member
          · rw [hsame, howner, Option.some_or]
          · rw [if_neg hsame, Option.or_none]
        · rename_i hfree
          rw [Keyed.get?_put]
          by_cases hsame : component = member
          · rw [if_pos hsame, if_pos hsame, hsame,
              Option.not_isSome_iff_eq_none.mp hfree, Option.none_or]
          · rw [if_neg hsame, if_neg hsame, Option.or_none]
      rw [List.foldl_cons, ih, hstep, Option.or_assoc]
      congr 1
      by_cases hsame : component = member <;> simp [hsame]

theorem headings_foldl_addMember (position : Nat) (members : List String) (s : CategorySeeds) :
    (members.foldl (addMember position) s).categories.map Category.heading =
      s.categories.map Category.heading := by
  induction members generalizing s with
  | nil => rfl
  | cons member members ih =>
      rw [List.foldl_cons, ih]
      unfold addMember
      split
      · rfl
      · exact headings_modify s.categories position member

/-! ## Entries -/

/-- An entry has a position, at which a category of its name stands, and a category is added for it
only when its name is new. -/
theorem addEntry_spec (s : CategorySeeds) (e : CategoryEntry) :
    (s.addEntry e).categories.map Category.heading = s.categories.map Category.heading ++
        (if e.name ∈ s.categories.map Category.name then [] else [e.heading]) ∧
      ∃ position, ((s.addEntry e).categories.map Category.name)[position]? = some e.name ∧
        ∀ component, (s.addEntry e).owners.get? component = (s.owners.get? component).or
          (if component ∈ e.members then some position else none) := by
  unfold addEntry
  cases hfound : s.categories.findIdx? fun c => c.name == e.name with
  | some position =>
      have hname := name_of_findIdx? hfound
      refine ⟨?_, position, ?_, get?_foldl_addMember position e.members s⟩
      · rw [if_pos (List.mem_of_getElem? hname), List.append_nil]
        exact headings_foldl_addMember position e.members s
      · rw [names_eq_of_headings, headings_foldl_addMember, ← names_eq_of_headings, hname]
  | none =>
      refine ⟨?_, s.categories.length, ?_, get?_foldl_addMember _ e.members _⟩
      · rw [if_neg (notMem_of_findIdx? hfound)]
        simp only [headings_foldl_addMember, List.map_append, List.map_singleton]
        rfl
      · rw [names_eq_of_headings, headings_foldl_addMember, ← names_eq_of_headings]
        simp

/-- What stands in the seeds after some entries. -/
structure Reads (entries : List CategoryEntry) (s : CategorySeeds) : Prop where
  headings : s.categories.map Category.heading =
    (firsts (fun e f => e.name == f.name) entries).map CategoryEntry.heading
  owner : ∀ component, s.ownerOf? component =
    (entries.find? fun e => e.members.contains component).map CategoryEntry.name
  placed : ∀ component position, s.owners.get? component = some position →
    position < s.categories.length

theorem ownerOf?_eq (s : CategorySeeds) (component : String) :
    s.ownerOf? component = (s.owners.get? component).bind fun position =>
      (s.categories.map Category.name)[position]? := by
  simp only [ownerOf?, List.getElem?_map]

theorem Reads.names_eq (h : s.Reads entries) : s.categories.map Category.name =
    (firsts (fun e f => e.name == f.name) entries).map CategoryEntry.name := by
  rw [names_eq_of_headings, h.headings, List.map_map]
  rfl

/-- One more entry. -/
theorem Reads.addEntry (h : s.Reads entries) (e : CategoryEntry) :
    (s.addEntry e).Reads (entries ++ [e]) := by
  obtain ⟨hheadings, position, hposition, howners⟩ := s.addEntry_spec e
  have hnames : (s.addEntry e).categories.map Category.name =
      s.categories.map Category.name ++
        (if e.name ∈ s.categories.map Category.name then [] else [e.name]) := by
    rw [names_eq_of_headings, hheadings, List.map_append, ← names_eq_of_headings]
    split <;> rfl
  refine ⟨?_, fun component => ?_, fun component there hthere => ?_⟩
  · have hmet : ((firsts (fun e f => e.name == f.name) entries).any
        fun f : CategoryEntry => f.name == e.name) = true ↔
          e.name ∈ s.categories.map Category.name := by
      rw [h.names_eq]
      exact any_same_iff fun _ _ => beq_iff_eq
    rw [hheadings, h.headings, firsts_concat, List.map_append]
    refine congrArg (_ ++ ·) ?_
    by_cases hold : e.name ∈ s.categories.map Category.name
    · rw [if_pos hold, if_pos (hmet.mpr hold)]
      rfl
    · rw [if_neg hold, if_neg (mt hmet.mp hold)]
      rfl
  · rw [ownerOf?_eq, howners, List.find?_append, Option.map_or, ← h.owner component, ownerOf?_eq]
    cases howner : s.owners.get? component with
    | some there =>
        have hthere := h.placed component there howner
        rw [← List.length_map Category.name] at hthere
        rw [Option.some_or, Option.bind_some, Option.bind_some, hnames,
          List.getElem?_append_left hthere, List.getElem?_eq_getElem hthere, Option.some_or]
    | none =>
        rw [Option.none_or, Option.bind_none, Option.none_or]
        by_cases hmember : component ∈ e.members
        · rw [if_pos hmember, Option.bind_some, hposition]
          simp [hmember]
        · simp [hmember]
  · rw [howners] at hthere
    rcases Option.or_eq_some_iff.mp hthere with hthere | ⟨-, hthere⟩
    · have hlt := h.placed component there hthere
      have hlength := congrArg List.length hnames
      rw [List.length_map, List.length_append, List.length_map] at hlength
      omega
    · split at hthere
      · obtain rfl := Option.some.inj hthere
        obtain ⟨hlt, -⟩ := List.getElem?_eq_some_iff.mp hposition
        rwa [List.length_map] at hlt
      · cases hthere

theorem Reads.foldl_addEntry {read : List CategoryEntry} (h : s.Reads read)
    (entries : List CategoryEntry) :
    (entries.foldl CategorySeeds.addEntry s).Reads (read ++ entries) := by
  induction entries generalizing s read with
  | nil => simpa using h
  | cons e entries ih =>
      have hmore := ih (h.addEntry e)
      rwa [List.append_assoc] at hmore

end CategorySeeds

namespace CategoryTable

theorem seeds_reads (t : CategoryTable) : t.seeds.Reads t.entries := by
  have hnothing : (⟨[], []⟩ : CategorySeeds).Reads [] :=
    ⟨rfl, fun _ => rfl, fun _ _ h => by cases h⟩
  exact hnothing.foldl_addEntry t.entries

/-- The entries are told by the first one that lists a component. -/
theorem listed?_eq (t : CategoryTable) (component : String) :
    t.listed? component =
      (t.entries.find? fun e => e.members.contains component).map CategoryEntry.name :=
  t.seeds_reads.owner component

end CategoryTable
end ComponentAtlas
