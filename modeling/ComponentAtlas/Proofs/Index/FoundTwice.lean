import ComponentAtlas.Proofs.Index.InternalTypes
import ComponentAtlas.Proofs.Index.Partials

/-!
# Files that are found twice

A directory of types may lie inside the directory of components, or around it; then one file is read
once for its component and its types and once more for its types alone.  The second reading differs
from the first at most in the path under which the types are recorded, which merging passes over.
Hence all types of the second reading are in when it comes, and it changes nothing.
-/

namespace ComponentAtlas

/-- Merging the parts of some things is merging those of the things that are kept, if the parts of
the others are in already. -/
theorem mergeAll_flatMap_filter {α β : Type} {merge : α → α → α} (laws : IsAbsorbing merge)
    {parts : β → List α} {keep : β → Bool} {xs : List β} {known : Option α}
    (h : ∀ x ∈ xs, keep x = false → ∀ p ∈ parts x, HasMerged merge known p) :
    mergeAll merge known ((xs.filter keep).flatMap parts) =
      mergeAll merge known (xs.flatMap parts) := by
  induction xs generalizing known with
  | nil => rfl
  | cons x xs ih =>
      have hbehind : ∀ y ∈ xs, keep y = false → ∀ p ∈ parts y, HasMerged merge known p :=
        fun y hy => h y (List.mem_cons_of_mem x hy)
      rw [List.flatMap_cons, mergeAll_append]
      cases hx : keep x with
      | true =>
          rw [List.filter_cons_of_pos hx, List.flatMap_cons, mergeAll_append]
          exact ih fun y hy hdropped p hp => (hbehind y hy hdropped p hp).mergeAll laws _
      | false =>
          rw [List.filter_cons_of_neg (by simp [hx]),
            mergeAll_eq_self (h x List.mem_cons_self hx)]
          exact ih hbehind

/-! ## One text under two paths -/

namespace TypeReference

/-- A type wherever it is declared. -/
def anywhere (t : TypeReference) : TypeReference :=
  { t with sourceFile := none }

/-- Merging passes over the path of what is merged. -/
theorem merge_congr {u v : TypeReference} (h : u.anywhere = v.anywhere) (t : TypeReference) :
    t.merge u = t.merge v := by
  have hu : t.merge u.anywhere = t.merge u := rfl
  have hv : t.merge v.anywhere = t.merge v := rfl
  rw [← hu, h, hv]

end TypeReference

namespace Declaration

/-- A class file declares the same types under every path. -/
theorem types_of_ofClassFile? {includeInternal : Bool} {path source : String} {d : Declaration}
    (h : ofClassFile? includeInternal path source = some d) (otherPath : String) :
    ∃ e, ofClassFile? includeInternal otherPath source = some e ∧
      e.types.map TypeReference.anywhere = d.types.map TypeReference.anywhere := by
  obtain ⟨first, hfirst, rfl⟩ := Option.map_eq_some_iff.mp h
  refine ⟨_, Option.map_eq_some_iff.mpr ⟨first, hfirst, rfl⟩, ?_⟩
  rw [List.map_map, List.map_map]
  rfl

end Declaration

/-! ## Places and paths

Where a file is tells its name, and the name of a class file ends in an `s`.  So a file found at the
place of a class file is read as a class file, whatever way leads there. -/

namespace Text

theorem endsWith_razor_eq_false {cs : List Char} (h : cs.getLast? = some 's') :
    endsWith ".razor".toList cs = false := by
  obtain ⟨before, rfl⟩ := List.getLast?_eq_some_iff.mp h
  simp [endsWith, beforeEnd?, after?]

/-- What stands behind the last separator ends as the whole text does. -/
theorem getLast?_of_afterLast {c d : Char} {cs : List Char}
    (h : (afterLast c cs).getLast? = some d) : cs.getLast? = some d := by
  rw [afterLast, List.getLast?_reverse] at h
  rw [← List.head?_reverse]
  cases hcs : cs.reverse with
  | nil =>
      rw [hcs] at h
      cases h
  | cons e rest =>
      rw [hcs, List.takeWhile_cons] at h
      split at h
      · exact h
      · cases h

end Text

namespace Path

theorem getLast?_of_extension? {p : Path} (h : p.extension? = some "cs") :
    ∃ name, p.parts.getLast? = some name ∧ name.toList.getLast? = some 's' := by
  obtain ⟨name, hname, hcut⟩ := Option.bind_eq_some_iff.mp h
  obtain ⟨last, hlast, hfile⟩ := Option.bind_eq_some_iff.mp hname
  split at hfile
  · cases hfile
  · obtain rfl := Option.some.inj hfile
    refine ⟨last, hlast, ?_⟩
    unfold cutAtDot at hcut
    simp only at hcut
    split at hcut
    · split at hcut
      · cases hcut
      · refine Text.getLast?_of_afterLast (c := '.') ?_
        rw [← String.toList_ofList (l := Text.afterLast '.' last.toList), Option.some.inj hcut]
        rfl
    · cases hcut

end Path

namespace SourceTree

variable {tree : SourceTree} {directory : String} {file : SourceFile}

theorem ne_nil_of_mem_filesBelow {t : FileTree} {place rest : List String}
    (h : rest ∈ t.filesBelow place) : rest ≠ [] := by
  obtain ⟨⟨path, entry⟩, -, hfound⟩ :=
    List.mem_filterMap.mp ((List.mergeSort_perm _ _).mem_iff.mp h)
  simp only [Option.ite_none_left_eq_some] at hfound
  obtain ⟨-, hreached⟩ := Option.filter_eq_some_iff.mp hfound.2
  rintro rfl
  simp at hreached

/-- A text of names between separators ends as its last name does. -/
theorem getLast?_intercalate {names : List String} {name : String} {c : Char}
    (h : names.getLast? = some name) (hname : name.toList.getLast? = some c) :
    ("/".intercalate names).toList.getLast? = some c := by
  rw [String.toList_intercalate]
  induction names with
  | nil => cases h
  | cons first names ih =>
      cases names with
      | nil =>
          obtain rfl := Option.some.inj h
          rwa [List.map_singleton, List.intercalate_singleton]
      | cons second names =>
          rw [List.getLast?_cons_cons] at h
          rw [List.map_cons, List.map_cons, List.intercalate_cons_cons, List.getLast?_append,
            ← List.map_cons, ih h]
          rfl

theorem parts_join {p q : Path} (hq : q.isAbsolute = false) :
    ∃ more, (p.join q).parts = p.parts ++ more := by
  rw [Path.join, if_neg (by simp [hq])]
  exact ⟨_, rfl⟩

/-- The last part of the place of a file is its name, and ends the text of its path as well. -/
theorem names_of_mem_filesIn (h : file ∈ tree.filesIn directory) :
    ∃ name, file.place.getLast? = some name ∧ file.path.parts.getLast? = some name ∧
      (name.toList.getLast? = some 's' → file.relative.toList.getLast? = some 's') := by
  unfold filesIn at h
  simp only at h
  split at h
  · cases h
  · rename_i place hplace
    obtain ⟨rest, hrest, rfl⟩ := List.mem_map.mp h
    have hne := ne_nil_of_mem_filesBelow hrest
    have hname : rest.getLast? = some (rest.getLast hne) := List.getLast?_eq_some_getLast hne
    have hlast (before : List String) : (before ++ rest).getLast? = some (rest.getLast hne) := by
      rw [List.getLast?_append, hname]
      rfl
    refine ⟨rest.getLast hne, hlast place, hlast _, fun hend => ?_⟩
    have hrelative : (Path.ofString directory).isAbsolute = false := by
      refine Bool.eq_false_iff.mpr fun habsolute => ?_
      rw [Path.join, if_pos habsolute, placeOf?, if_pos habsolute] at hplace
      cases hplace
    obtain ⟨more, hmore⟩ := parts_join (p := Path.ofString tree.root) hrelative
    rw [hmore, List.append_assoc, List.drop_left, String.toList_ofList, List.getLast?_map,
      getLast?_intercalate (hlast more) hend]
    rfl

theorem sourceFiles_eq {layout : LayoutSettings} {files : SourceFiles}
    (h : tree.sourceFiles layout = .ok files) :
    files.declarations = (tree.filesIn layout.componentsDir).filter (fun file =>
        SourceKind.ofPath? file.path == some .declaration) ∧
      files.types = layout.typeDirs.flatMap fun directory =>
        (tree.filesIn directory).filter fun file => file.path.extension? == some "cs" := by
  unfold sourceFiles at h
  split at h
  · cases h
  · obtain rfl := Except.ok.inj h
    exact ⟨rfl, rfl⟩

/-- A file of types that is at the place of a declaration file declares the same types there. -/
theorem declaration?_of_place {layout : LayoutSettings} {files : SourceFiles}
    (hfiles : tree.sourceFiles layout = .ok files) {f g : SourceFile} (hf : f ∈ files.types)
    (hg : g ∈ files.declarations) (hplace : g.place = f.place) {includeInternal : Bool}
    {d : Declaration} (hd : tree.declaration? includeInternal f = some d) :
    ∃ e, tree.declaration? includeInternal g = some e ∧
      e.types.map TypeReference.anywhere = d.types.map TypeReference.anywhere := by
  obtain ⟨hdeclarations, htypes⟩ := sourceFiles_eq hfiles
  rw [htypes] at hf
  rw [hdeclarations] at hg
  obtain ⟨directory, -, hf⟩ := List.mem_flatMap.mp hf
  obtain ⟨hf, hclass⟩ := List.mem_filter.mp hf
  obtain ⟨name, hname, hpath, hend⟩ := names_of_mem_filesIn hf
  obtain ⟨name', hname', -, hend'⟩ := names_of_mem_filesIn (List.mem_filter.mp hg).1
  obtain ⟨last, hlast, hs⟩ := Path.getLast?_of_extension? (beq_iff_eq.mp hclass)
  obtain rfl : name = last := Option.some.inj (hpath.symm.trans hlast)
  obtain rfl : name' = name := Option.some.inj (hname'.symm.trans (hplace ▸ hname))
  obtain ⟨text, htext, hdeclared⟩ := Option.bind_eq_some_iff.mp hd
  have hread : tree.read? g = some text := by rw [read?, hplace, ← read?, htext]
  unfold declaration? Declaration.ofFile? at *
  rw [if_neg (Bool.eq_false_iff.mp (Text.endsWith_razor_eq_false (hend hs)))] at hdeclared
  obtain ⟨e, he, hsame⟩ := Declaration.types_of_ofClassFile? hdeclared g.relative
  refine ⟨e, ?_, hsame⟩
  rw [hread, Option.bind_some,
    if_neg (Bool.eq_false_iff.mp (Text.endsWith_razor_eq_false (hend' hs)))]
  exact he

/-- The types of a name that a file declares. -/
def typesNamedIn (tree : SourceTree) (settings : IndexSettings) (name : String)
    (file : SourceFile) : List TypeReference :=
  (tree.declaration? settings.includeInternal file).toList.flatMap fun d =>
    d.types.filter fun t => t.name == name

/-- Whether a file is at the place of a declaration file. -/
def IsFoundTwice (files : SourceFiles) (file : SourceFile) : Bool :=
  files.declarations.any fun g => g.place == file.place

end SourceTree

namespace Declarations

variable {settings : IndexSettings} {tree : SourceTree}

theorem typePartsNamed_append (name : String) (xs ys : List (Bool × Declaration)) :
    typePartsNamed name (xs ++ ys) = typePartsNamed name xs ++ typePartsNamed name ys := by
  rw [typePartsNamed, List.flatMap_append, List.filter_append]
  rfl

theorem typePartsNamed_declarationsIn (name : String) (mayBeComponent : Bool)
    (files : List SourceFile) :
    typePartsNamed name ((declarationsIn settings tree files).map (mayBeComponent, ·)) =
      files.flatMap (tree.typesNamedIn settings name) := by
  induction files with
  | nil => rfl
  | cons file files ih =>
      rw [List.flatMap_cons, ← ih]
      have hdeclares : declarationsIn settings tree (file :: files) =
          (tree.declaration? settings.includeInternal file).toList ++
            declarationsIn settings tree files := by
        unfold declarationsIn
        rw [List.filterMap_cons, SourceTree.declaration?]
        cases (tree.read? file).bind
          (Declaration.ofFile? settings.includeInternal file.relative) <;> rfl
      rw [hdeclares, List.map_append, typePartsNamed_append, SourceTree.typesNamedIn]
      cases tree.declaration? settings.includeInternal file with
      | none => rfl
      | some d => simp [typePartsNamed]

theorem partsNamed_append_types (name : String) (xs : List (Bool × Declaration))
    (ds : List Declaration) :
    partsNamed settings name (xs ++ ds.map (false, ·)) = partsNamed settings name xs := by
  have hnone : (ds.map (false, ·)).filter (fun file =>
      file.1 && file.2.isComponent settings && file.2.component.name == name) = [] := by
    simp [List.filter_map]
  rw [partsNamed, List.filter_append, hnone, List.append_nil, partsNamed]

/-- Files of types that are declaration files as well need not be read for their types again. -/
theorem ofFiles_without_again {layout : LayoutSettings} {files : SourceFiles}
    (hfiles : tree.sourceFiles layout = .ok files) :
    ofFiles settings ((declarationsIn settings tree files.declarations).map (true, ·) ++
        (declarationsIn settings tree (files.types.filter fun f =>
          !SourceTree.IsFoundTwice files f)).map (false, ·)) =
      ofFiles settings ((declarationsIn settings tree files.declarations).map (true, ·) ++
        (declarationsIn settings tree files.types).map (false, ·)) := by
  refine ofFiles_eq_of_entries (fun name => ?_) (fun name => ?_)
  · rw [component?_eq_mergeParts, component?_eq_mergeParts, partsNamed_append_types,
      partsNamed_append_types]
  · rw [type?_eq_mergeParts, type?_eq_mergeParts, ← mergeAll_none, ← mergeAll_none,
      typePartsNamed_append, typePartsNamed_append, mergeAll_append, mergeAll_append,
      typePartsNamed_declarationsIn, typePartsNamed_declarationsIn, typePartsNamed_declarationsIn]
    refine mergeAll_flatMap_filter TypeReference.merge_isAbsorbing fun f hf hagain t ht => ?_
    obtain ⟨g, hg, hplace⟩ : ∃ g ∈ files.declarations, g.place = f.place := by
      simpa [SourceTree.IsFoundTwice] using hagain
    obtain ⟨d, hd, ht⟩ := List.mem_flatMap.mp ht
    obtain ⟨ht, hname⟩ := List.mem_filter.mp ht
    obtain ⟨e, he, hsame⟩ :=
      SourceTree.declaration?_of_place hfiles hf hg hplace (Option.mem_toList.mp hd)
    have hmem : t.anywhere ∈ e.types.map TypeReference.anywhere := by
      rw [hsame]
      exact List.mem_map_of_mem ht
    obtain ⟨u, hu, hut⟩ := List.mem_map.mp hmem
    have hsameName : u.anywhere.name = t.anywhere.name := congrArg TypeReference.name hut
    have huname : (u.name == name) = true := by
      rw [show u.name = t.name from hsameName]
      exact hname
    have hpart : u ∈ files.declarations.flatMap (tree.typesNamedIn settings name) :=
      List.mem_flatMap.mpr ⟨g, hg, List.mem_flatMap.mpr
        ⟨e, Option.mem_toList.mpr he, List.mem_filter.mpr ⟨hu, huname⟩⟩⟩
    exact (hasMerged_of_mem TypeReference.merge_isAbsorbing hpart none).congr
      (TypeReference.merge_congr hut.symm)

end Declarations

/-- Merging the parts of a component or of a type may be grouped in any way; merging a part again
that is in already changes nothing.  So files that are found both among the declarations and among
the types can be left out of the types, and the same snapshot is built. -/
theorem parts_grouped_and_repeated :
    (∀ a b c : Component, (a.merge b).merge c = a.merge (b.merge c)) ∧
      (∀ (first : Component) (rest : List Component), ∀ p ∈ first :: rest,
        (rest.foldl Component.merge first).merge p = rest.foldl Component.merge first) ∧
      (∀ t u v : TypeReference, (t.merge u).merge v = t.merge (u.merge v)) ∧
      (∀ (first : TypeReference) (rest : List TypeReference), ∀ p ∈ first :: rest,
        (rest.foldl TypeReference.merge first).merge p = rest.foldl TypeReference.merge first) ∧
      ∀ (settings : Settings) (tree : SourceTree) (files : SourceFiles),
        tree.sourceFiles settings.layout = .ok files →
        Snapshot.ofFiles settings tree
            { files with types := files.types.filter fun f => !SourceTree.IsFoundTwice files f } =
          Snapshot.ofFiles settings tree files := by
  refine ⟨Component.merge_isAbsorbing.assoc, fun first rest p hp => ?_,
    TypeReference.merge_isAbsorbing.assoc, fun first rest p hp => ?_, ?_⟩
  · exact Component.merge_isAbsorbing.foldl_merge hp
  · exact TypeReference.merge_isAbsorbing.foldl_merge hp
  · intro settings tree files hfiles
    have hdeclared := @Declarations.ofFiles_without_again settings.index tree _ _ hfiles
    unfold Snapshot.ofFiles
    simp only [hdeclared]
    rfl

/-! ## One directory for components and types -/

def knobTree : SourceTree :=
  ⟨⟨[(["lib", "Knob.cs"], .text
    "public class MudKnob\n\x7b\n  [Parameter] public int Size \x7b get; \x7d\n\x7d\n")]⟩, "lib"⟩

/-- Types are looked for in the directory of components, which is spelled in another way. -/
def knobSettings : Settings :=
  { Settings.standard with
    layout := { Settings.standard.layout with componentsDir := ".", typeDirs := ["../lib"] } }

def knobSize : Component :=
  { Component.ofName "MudKnob" with parameters := [⟨"Size", "int", none, none, false, false, none⟩] }

def knobTurned : Component :=
  { Component.ofName "MudKnob" with events := [⟨"Turned", none, none⟩] }

/-- The file of the knob is found under two paths and needed under one; and its parameters add
nothing to a knob that has them. -/
theorem parts_grouped_and_repeated_knob :
    ∃ files, knobTree.sourceFiles knobSettings.layout = .ok files ∧
      (files.declarations ++ files.types).map SourceFile.relative = ["Knob.cs", "../lib/Knob.cs"] ∧
      (files.types.filter fun f => !SourceTree.IsFoundTwice files f) = [] ∧
      Snapshot.ofFiles knobSettings knobTree { files with types := [] } =
        Snapshot.ofFiles knobSettings knobTree files ∧
      (knobSize.merge knobTurned).merge knobSize = knobSize.merge knobTurned := by
  obtain ⟨-, hcomponent, -, -, hfound⟩ := parts_grouped_and_repeated
  have hview : (knobTree.sourceFiles knobSettings.layout).toOption.map (fun files =>
      ((files.declarations ++ files.types).map SourceFile.relative,
        files.types.filter fun f => !SourceTree.IsFoundTwice files f)) =
      some (["Knob.cs", "../lib/Knob.cs"], []) := by decide +kernel
  obtain ⟨files, hfiles, hpair⟩ := exists_ok_of_map hview
  obtain ⟨hpaths, hnone⟩ := Prod.mk.inj hpair
  refine ⟨files, hfiles, hpaths, hnone, ?_, ?_⟩
  · rw [← hfound knobSettings knobTree files hfiles, hnone]
  · exact hcomponent knobSize [knobTurned] knobSize List.mem_cons_self

end ComponentAtlas
