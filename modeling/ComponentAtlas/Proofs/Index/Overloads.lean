import ComponentAtlas.Proofs.Index.Entries

/-!
# Methods of a class in several parts

Inside one file methods are told apart by name and parameter types, so every overload is read.  When
the parts of a class are merged, methods are told apart by name alone, and the list that a method is
looked up in grows while the methods of the next part are added.  So the first part keeps all its
overloads, but of all that later parts declare under one name only the first method is kept, and
none when the name was met before.

Hence no name is lost and no signature comes twice; overloads are lost exactly when a name that is
overloaded is declared anywhere else than in the first part.
-/

namespace ComponentAtlas

namespace Method

/-- What tells overloads apart: the name and the types of the parameters. -/
def signature (m : Method) : String × List String :=
  (m.name, m.parameters.map MethodParameter.type)

theorem sameSignature_iff {m n : Method} :
    m.sameSignature n = true ↔ m.signature = n.signature := by
  rw [sameSignature, Bool.and_eq_true, beq_iff_eq, beq_iff_eq, signature, signature, Prod.mk.injEq]

end Method

/-! ## One file -/

theorem methodsOf_firsts_nodup (cs : List Contribution) :
    ((methodsOf (firsts Contribution.sameSignature cs)).map Method.signature).Nodup := by
  rw [List.Nodup, List.pairwise_map, methodsOf, List.pairwise_filterMap]
  refine (firsts_pairwise cs).imp fun {a b} hother m hm n hn hsame => ?_
  rw [Contribution.sameSignature, hm, hn] at hother
  exact absurd (Method.sameSignature_iff.mpr hsame) (Bool.eq_false_iff.mp hother)

namespace Declaration

variable {includeInternal : Bool} {path source : String} {d : Declaration}

/-- No two methods that are read from one file have the same signature. -/
theorem signatures_nodup_of_ofFile? (h : ofFile? includeInternal path source = some d) :
    (d.component.methods.map Method.signature).Nodup := by
  obtain ⟨t, file, -, hd⟩ := exists_type_of_ofFile? h
  rw [hd]
  exact methodsOf_firsts_nodup _

end Declaration

/-! ## Several parts -/

namespace Component

variable {first : Component} {rest : List Component}

/-- All methods that the parts of a component declare, in order. -/
def methodsOfParts (parts : List Component) : List Method :=
  parts.flatMap Component.methods

theorem methods_foldl_merge (first : Component) (rest : List Component) :
    (rest.foldl Component.merge first).methods =
      appendNew (fun m n => m.name == n.name) first.methods (methodsOfParts rest) := by
  induction rest generalizing first with
  | nil => exact (List.append_nil _).symm
  | cons d rest ih =>
      rw [List.foldl_cons, ih, methodsOfParts, methodsOfParts, List.flatMap_cons]
      exact appendNew_appendNew first.methods d.methods _

/-- The first part keeps its methods, and of the others those are kept that are the first of their
name in all parts. -/
theorem mem_methods_foldl_merge {m : Method} :
    m ∈ (rest.foldl Component.merge first).methods ↔ m ∈ first.methods ∨
      (methodsOfParts (first :: rest)).find? (fun n => n.name == m.name) = some m := by
  have hkey (x y : Method) : (x.name == y.name) = true ↔ x.name = y.name := beq_iff_eq
  rw [methods_foldl_merge, appendNew, List.mem_append, mem_firstsAfter_iff hkey, methodsOfParts,
    methodsOfParts, List.flatMap_cons, List.find?_append, Option.or_eq_some_iff]
  have hnone : first.methods.find? (fun n => n.name == m.name) = none ↔
      m.name ∉ first.methods.map Method.name := by
    simp [List.find?_eq_none]
  rw [hnone]
  constructor
  · rintro (hfirst | hlater)
    · exact Or.inl hfirst
    · exact Or.inr (Or.inr hlater)
  · rintro (hfirst | hfound | hlater)
    · exact Or.inl hfirst
    · exact Or.inl (List.mem_of_find?_eq_some hfound)
    · exact Or.inr hlater

/-- No name of a method is lost, and none comes in. -/
theorem mem_methodNames_foldl_merge {name : String} :
    name ∈ (rest.foldl Component.merge first).methods.map Method.name ↔
      name ∈ (methodsOfParts (first :: rest)).map Method.name := by
  have hkey (x y : Method) : (x.name == y.name) = true ↔ x.name = y.name := beq_iff_eq
  rw [methods_foldl_merge, mem_keys_appendNew hkey, methodsOfParts, methodsOfParts,
    List.flatMap_cons, List.map_append, List.mem_append]

theorem signatures_nodup_foldl_merge (h : (first.methods.map Method.signature).Nodup) :
    ((rest.foldl Component.merge first).methods.map Method.signature).Nodup := by
  rw [methods_foldl_merge]
  refine nodup_appendNew (fun m n hsame => ?_) h
  exact beq_iff_eq.mpr (congrArg Prod.fst hsame)

/-- Overloads of one name stand in the first part: of two methods with one name, either both have
the same signature or the first part declares the signature of each. -/
def OverloadsStandFirst (first : Component) (rest : List Component) : Prop :=
  ∀ m ∈ methodsOfParts (first :: rest), ∀ n ∈ methodsOfParts (first :: rest), m.name = n.name →
    m.signature = n.signature ∨ m.signature ∈ first.methods.map Method.signature

instance decidableOverloadsStandFirst (first : Component) (rest : List Component) :
    Decidable (OverloadsStandFirst first rest) :=
  inferInstanceAs (Decidable (∀ m ∈ _, ∀ n ∈ _, _ → _ ∨ _))

/-- A signature is kept if the first part has it, or if the first method of its name does. -/
theorem signature_mem_foldl_merge {s : String × List String} :
    s ∈ (rest.foldl Component.merge first).methods.map Method.signature ↔
      s ∈ first.methods.map Method.signature ∨
        ((methodsOfParts (first :: rest)).find? fun n => n.name == s.1).map Method.signature =
          some s := by
  rw [List.mem_map, List.mem_map]
  constructor
  · rintro ⟨m, hm, rfl⟩
    rcases mem_methods_foldl_merge.mp hm with hfirst | hfound
    · exact Or.inl ⟨m, hfirst, rfl⟩
    · exact Or.inr (by rw [Method.signature, hfound]; rfl)
  · rintro (⟨m, hm, rfl⟩ | hfound)
    · exact ⟨m, mem_methods_foldl_merge.mpr (Or.inl hm), rfl⟩
    · obtain ⟨m, hm, rfl⟩ := Option.map_eq_some_iff.mp hfound
      exact ⟨m, mem_methods_foldl_merge.mpr (Or.inr hm), rfl⟩

/-- Where the first part has a method of a name, it has the first method of this name. -/
theorem mem_first_of_find? {m n : Method} (hm : m ∈ first.methods)
    (hfound : (methodsOfParts (first :: rest)).find? (fun k => k.name == m.name) = some n) :
    n ∈ first.methods := by
  rw [methodsOfParts, List.flatMap_cons, List.find?_append] at hfound
  rcases Option.or_eq_some_iff.mp hfound with hfound | ⟨hnone, -⟩
  · exact List.mem_of_find?_eq_some hfound
  · exact absurd (beq_self_eq_true m.name) (List.find?_eq_none.mp hnone m hm)

/-- Every signature is kept exactly when overloads of one name stand in the first part. -/
theorem signatures_kept_iff :
    (∀ m ∈ methodsOfParts (first :: rest),
        m.signature ∈ (rest.foldl Component.merge first).methods.map Method.signature) ↔
      OverloadsStandFirst first rest := by
  constructor
  · intro hkept m hm n hn hname
    refine Classical.or_iff_not_imp_right.mpr fun hlater => ?_
    -- the signature of `m` is that of the first method of its name, which is in a later part
    obtain ⟨f, hf, hsignature⟩ := Option.map_eq_some_iff.mp
      ((signature_mem_foldl_merge.mp (hkept m hm)).resolve_left hlater)
    have hf' : (methodsOfParts (first :: rest)).find? (fun k => k.name == n.name) = some f := by
      rw [← hname]
      exact hf
    rcases signature_mem_foldl_merge.mp (hkept n hn) with hfirst | hfound
    · obtain ⟨g, hg, hgn⟩ := List.mem_map.mp hfirst
      have hgname : g.name = n.name := congrArg Prod.fst hgn
      rw [← hgname] at hf'
      exact absurd (List.mem_map.mpr ⟨f, mem_first_of_find? hg hf', hsignature⟩) hlater
    · have hsame := (congrArg (Option.map Method.signature) hf').symm.trans hfound
      exact hsignature.symm.trans (Option.some.inj hsame)
  · intro hstand m hm
    refine signature_mem_foldl_merge.mpr (Classical.or_iff_not_imp_left.mpr fun hlater => ?_)
    cases hfound : (methodsOfParts (first :: rest)).find? fun n => n.name == m.name with
    | none => exact absurd (beq_self_eq_true m.name) (List.find?_eq_none.mp hfound m hm)
    | some f =>
        have hbeq : (f.name == m.name) = true :=
          List.find?_some (p := fun n : Method => n.name == m.name) hfound
        have hname : m.name = f.name := (beq_iff_eq.mp hbeq).symm
        have hsame := (hstand m hm f (List.mem_of_find?_eq_some hfound) hname).resolve_right hlater
        rw [Method.signature, hfound]
        exact congrArg some hsame.symm

end Component

namespace Declarations

open Component

/-- When the parts of a component are merged, no name of a method is lost and no signature comes
twice.  The first part keeps all its methods, and of each later one the methods are kept that are
the first of their name.  All signatures are kept exactly when overloads of one name stand in the
first part. -/
theorem methods_merged_by_name {settings : IndexSettings} {files : List (Bool × Declaration)}
    {name : String} {first : Component} {rest : List Component}
    (hread : ∀ file ∈ files, ∃ path source,
      Declaration.ofFile? settings.includeInternal path source = some file.2)
    (hparts : partsNamed settings name files = first :: rest)
    (hshown : settings.includeInternal = true ∨ ∀ p ∈ first :: rest, p.deprecated = false) :
    ∃ c, (ofFiles settings files).component? name = some c ∧
      (∀ n, n ∈ c.methods.map Method.name ↔
        n ∈ (methodsOfParts (first :: rest)).map Method.name) ∧
      (c.methods.map Method.signature).Nodup ∧
      (∀ m, m ∈ c.methods ↔ m ∈ first.methods ∨
        (methodsOfParts (first :: rest)).find? (fun n => n.name == m.name) = some m) ∧
      ((∀ m ∈ methodsOfParts (first :: rest),
          (c.methods.map Method.signature).count m.signature = 1) ↔
        OverloadsStandFirst first rest) := by
  have hkept : (!settings.includeInternal && (first :: rest).any Component.deprecated) = false := by
    rcases hshown with hinternal | hcurrent
    · rw [hinternal]
      rfl
    · rw [List.any_eq_false.mpr fun p hp => Bool.eq_false_iff.mp (hcurrent p hp), Bool.and_false]
  have hfirst : (first.methods.map Method.signature).Nodup := by
    have hmem : first ∈ partsNamed settings name files := by
      rw [hparts]
      exact List.mem_cons_self
    obtain ⟨file, hfile, rfl⟩ := List.mem_map.mp hmem
    obtain ⟨path, source, hd⟩ := hread file (List.mem_filter.mp hfile).1
    exact Declaration.signatures_nodup_of_ofFile? hd
  have hnodup : ((rest.foldl Component.merge first).methods.map Method.signature).Nodup :=
    signatures_nodup_foldl_merge hfirst
  refine ⟨rest.foldl Component.merge first, ?_, fun n => mem_methodNames_foldl_merge, hnodup,
    fun m => mem_methods_foldl_merge, ?_⟩
  · rw [component?_eq_mergeParts, hparts, hkept]
    rfl
  · rw [← signatures_kept_iff]
    refine forall_congr' fun m => forall_congr' fun _ => ?_
    rw [hnodup.count]
    split <;> simp_all

/-! ## A grid in two parts -/

/-- What the files at some paths declare, each of which may declare a component. -/
def readFiles (files : List (String × String)) : List (Bool × Declaration) :=
  files.filterMap fun file => (Declaration.ofFile? false file.1 file.2).map (true, ·)

theorem exists_of_mem_readFiles {files : List (String × String)} {file : Bool × Declaration}
    (h : file ∈ readFiles files) :
    ∃ path source, Declaration.ofFile? false path source = some file.2 := by
  obtain ⟨⟨path, source⟩, -, hread⟩ := List.mem_filterMap.mp h
  obtain ⟨d, hd, rfl⟩ := Option.map_eq_some_iff.mp hread
  exact ⟨path, source, hd⟩

/-- Both overloads of a method in the first part, and another method in the second one. -/
def gridFiles : List (String × String) :=
  [("Grid.cs", "public partial class MudGrid\n\x7b\n  public void Reset() \x7b \x7d\n" ++
      "  public void Reset(int row) \x7b \x7d\n\x7d\n"),
    ("GridRows.cs", "public partial class MudGrid\n\x7b\n" ++
      "  public void Add(string row) \x7b \x7d\n\x7d\n")]

/-- One overload in each part. -/
def splitGridFiles : List (String × String) :=
  [("Grid.cs", "public partial class MudGrid\n\x7b\n  public void Reset() \x7b \x7d\n\x7d\n"),
    ("GridRows.cs", "public partial class MudGrid\n\x7b\n" ++
      "  public void Reset(int row) \x7b \x7d\n\x7d\n")]

/-- The grid keeps the methods of both parts. -/
theorem methods_merged_by_name_grid :
    ∃ first rest, partsNamed .standard "MudGrid" (readFiles gridFiles) = first :: rest ∧
      (methodsOfParts (first :: rest)).map Method.signature =
        [("Reset", []), ("Reset", ["int"]), ("Add", ["string"])] ∧
      ∃ c, (ofFiles .standard (readFiles gridFiles)).component? "MudGrid" = some c ∧
        ∀ m ∈ methodsOfParts (first :: rest),
          (c.methods.map Method.signature).count m.signature = 1 := by
  let parts := partsNamed .standard "MudGrid" (readFiles gridFiles)
  let first := parts.headD (Component.ofName "")
  obtain ⟨hparts, hsignatures, hcurrent, hstand⟩ : parts = first :: parts.tail ∧
      (methodsOfParts (first :: parts.tail)).map Method.signature =
        [("Reset", []), ("Reset", ["int"]), ("Add", ["string"])] ∧
      (∀ p ∈ first :: parts.tail, p.deprecated = false) ∧
      OverloadsStandFirst first parts.tail := by decide +kernel
  obtain ⟨c, hc, -, -, -, hkept⟩ := methods_merged_by_name
    (fun _ hfile => exists_of_mem_readFiles hfile) hparts (Or.inr hcurrent)
  exact ⟨first, parts.tail, hparts, hsignatures, c, hc, hkept.mpr hstand⟩

/-- The grid loses the overload of its second part, although both parts are components of one name
that are not deprecated. -/
theorem overload_lost :
    (∀ file ∈ readFiles splitGridFiles, file.1 = true ∧ file.2.isComponent .standard = true ∧
      file.2.component.name = "MudGrid" ∧ file.2.component.deprecated = false) ∧
    (readFiles splitGridFiles).map (fun file => file.2.component.methods.map Method.signature) =
      [[("Reset", [])], [("Reset", ["int"])]] ∧
    ((ofFiles .standard (readFiles splitGridFiles)).component? "MudGrid").map
      (fun c => c.methods.map Method.signature) = some [("Reset", [])] := by
  decide +kernel

end Declarations
end ComponentAtlas
