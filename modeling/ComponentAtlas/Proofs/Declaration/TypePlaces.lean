import ComponentAtlas.Proofs.CSharp.Places
import ComponentAtlas.Proofs.CSharp.Spelling
import ComponentAtlas.Proofs.Text.Solid

/-!
# The types of a source and their namespaces

A source file contributes its types in source order, and the first of them as a component.  Their
namespaces are dotted paths of names, and a name is taken with all that stands between its parts.  A
path is never too short by that, so it is the path of the bare names exactly when no name on it has
anything between its parts.
-/

namespace ComponentAtlas

open Text

/-! ## Names with nothing between their parts -/

namespace Text

/-- Collapsing leaves the characters that are no blanks, and a space between two words. -/
theorem length_collapse (cs : List Char) :
    (collapse cs).length = (solid cs).length + ((words cs).length - 1) := by
  rw [collapse, ← flatten_words]
  induction words cs with
  | nil => rfl
  | cons w ws ih =>
      cases ws with
      | nil => simp
      | cons v vs =>
          rw [List.intercalate_cons_cons, List.length_append, List.length_append, ih]
          simp only [List.flatten_cons, List.length_append, List.length_cons, List.length_nil]
          omega

/-- A blank between other characters makes at least two words. -/
theorem two_le_length_words {a b : List Char} {c x y : Char} (hc : isBlank c = true) (hx : x ∈ a)
    (hxsolid : isBlank x = false) (hy : y ∈ b) (hysolid : isBlank y = false) :
    2 ≤ (words (a ++ c :: b)).length := by
  have hne {cs : List Char} {z : Char} (hz : z ∈ cs) (hsolid : isBlank z = false) :
      0 < (words cs).length := by
    refine List.length_pos_iff.mpr fun hnone => ?_
    rw [words_eq_nil_iff.mp hnone z hz] at hsolid
    cases hsolid
  have ha := hne hx hxsolid
  have hb := hne hy hysolid
  rw [words_append hc, List.length_append]
  omega

end Text

namespace CSharp

section

variable {t : Token} {ts : List Token}

theorem length_solid_fullText (hsolid : ∀ u ∈ ts, ∀ c ∈ u.text, isBlank c = false) :
    (solid (ts.flatMap Token.fullText)).length
      = (ts.flatMap Token.text).length + (ts.flatMap fun u => solid u.gap).length := by
  induction ts with
  | nil => rfl
  | cons u ts ih =>
      obtain ⟨hu, hts⟩ := List.forall_mem_cons.mp hsolid
      have hfull : solid u.fullText = solid u.gap ++ u.text := by
        rw [Token.fullText, solid_append]
        exact congrArg _ (solid_eq_self hu)
      simp only [List.flatMap_cons, solid_append, List.length_append, hfull, ih hts]
      omega

/-- Words and marks that follow one another are no shorter for what stands between them, and as
short only when nothing does. -/
theorem length_collapse_span
    (hsolid : ∀ u ∈ t :: ts, u.text ≠ [] ∧ ∀ c ∈ u.text, isBlank c = false) :
    ((t :: ts).flatMap Token.text).length ≤ (collapse (spanText (t :: ts))).length ∧
      ((collapse (spanText (t :: ts))).length = ((t :: ts).flatMap Token.text).length →
        ∀ u ∈ ts, u.gap = []) := by
  obtain ⟨⟨ht, htsolid⟩, hts⟩ := List.forall_mem_cons.mp hsolid
  have hlength : (solid (spanText (t :: ts))).length
      = ((t :: ts).flatMap Token.text).length + (ts.flatMap fun u => solid u.gap).length := by
    rw [spanText, solid_append, List.length_append, solid_eq_self htsolid,
      length_solid_fullText fun u hu => (hts u hu).2, List.flatMap_cons, List.length_append]
    omega
  have hcollapse := length_collapse (spanText (t :: ts))
  refine ⟨by omega, fun hsame u hu => ?_⟩
  have hnone : (ts.flatMap fun u => solid u.gap) = [] := List.eq_nil_of_length_eq_zero (by omega)
  have hblank : ∀ c ∈ u.gap, isBlank c = true :=
    solid_eq_nil_iff.mp (List.flatMap_eq_nil_iff.mp hnone u hu)
  cases hgap : u.gap with
  | nil => rfl
  | cons c gap =>
      -- the blank stands behind the first token and in front of the text of `u`
      obtain ⟨xs, ys, rfl⟩ := List.append_of_mem hu
      obtain ⟨x, hx⟩ := List.exists_mem_of_ne_nil _ ht
      obtain ⟨y, hy⟩ := List.exists_mem_of_ne_nil _ (hts u hu).1
      have hspan : spanText (t :: (xs ++ u :: ys)) = (t.text ++ xs.flatMap Token.fullText) ++
          c :: (gap ++ (u.text ++ ys.flatMap Token.fullText)) := by
        have hfull : u.fullText = c :: (gap ++ u.text) := by
          rw [Token.fullText, show u.leading.flatMap (·.text) = c :: gap from hgap]
          rfl
        simp [spanText, hfull]
      have hwords := two_le_length_words (hblank c (by rw [hgap]; exact List.mem_cons_self))
        (List.mem_append_left (xs.flatMap Token.fullText) hx) (htsolid x hx)
        (List.mem_append_right gap (List.mem_append_left (ys.flatMap Token.fullText) hy))
        ((hts u hu).2 y hy)
      rw [← hspan] at hwords
      omega

theorem collapse_span_of_gaps
    (hsolid : ∀ u ∈ t :: ts, u.text ≠ [] ∧ ∀ c ∈ u.text, isBlank c = false)
    (hgaps : ∀ u ∈ ts, u.gap = []) :
    collapse (spanText (t :: ts)) = (t :: ts).flatMap Token.text := by
  have hspan : spanText (t :: ts) = (t :: ts).flatMap Token.text := by
    rw [spanText, List.flatMap_cons]
    congr 1
    refine List.flatMap_congr fun u hu => ?_
    rw [Token.fullText, show u.leading.flatMap (·.text) = [] from hgaps u hu, List.nil_append]
    rfl
  have hall : ∀ c ∈ spanText (t :: ts), isBlank c = false := by
    rw [hspan]
    intro c hc
    obtain ⟨u, hu, hc⟩ := List.mem_flatMap.mp hc
    exact (hsolid u hu).2 c hc
  have hne : spanText (t :: ts) ≠ [] := by
    rw [spanText]
    exact List.append_ne_nil_of_left_ne_nil (hsolid t List.mem_cons_self).1 _
  rw [collapse, words_solid hne hall, List.intercalate_singleton, hspan]

end

namespace NamespaceName

variable (n : NamespaceName)

/-- The words and dots of a name. -/
def tokens : List Token :=
  (n.name.front.flatMap fun x => [x.1.word, x.2]) ++ [n.name.last.word]

/-- The words of a name with dots between them. -/
def dotted : List Char :=
  ['.'].intercalate (n.name.front.map (fun x => x.1.word.text) ++ [n.name.last.word.text])

/-- Whether nothing stands between the parts of a name. -/
def IsTight : Prop :=
  ∀ t ∈ n.tokens.tail, t.gap = []

instance : Decidable n.IsTight :=
  inferInstanceAs (Decidable (∀ t ∈ n.tokens.tail, t.gap = []))

theorem trees_eq : n.name.trees = n.tokens.map .leaf := by
  have hpart {p : NamePart} (hp : p.arguments = none) : p.trees = [.leaf p.word] := by
    rw [NamePart.trees, hp]
    rfl
  have hfront : ∀ front : List (NamePart × Token), (∀ x ∈ front, x.1.arguments = none) →
      (front.flatMap fun x => x.1.trees ++ [Tree.leaf x.2])
        = (front.flatMap fun x => [x.1.word, x.2]).map .leaf := by
    intro front h
    rw [List.map_flatMap]
    exact List.flatMap_congr fun x hx => by rw [hpart (h x hx)]; rfl
  rw [WrittenName.trees, tokens, List.map_append, hpart n.isPlain,
    hfront _ fun x hx => (n.isDotted x hx).1]
  rfl

theorem allTokens_map_leaf (ts : List Token) : Tree.allTokens (ts.map .leaf) = ts := by
  induction ts with
  | nil => rfl
  | cons t ts ih => rw [List.map_cons, Tree.allTokens, ih]; rfl

theorem span_eq : Tree.span n.name.trees = spanText n.tokens := by
  rw [Tree.span, n.trees_eq, allTokens_map_leaf]

theorem flatMap_text_tokens : n.tokens.flatMap Token.text = n.dotted := by
  have hfront : ∀ front : List (NamePart × Token), (∀ x ∈ front, x.2.text = ".".toList) →
      ((front.flatMap fun x => [x.1.word, x.2]) ++ [n.name.last.word]).flatMap Token.text
        = ['.'].intercalate (front.map (fun x => x.1.word.text) ++ [n.name.last.word.text]) := by
    intro front h
    induction front with
    | nil => simp
    | cons x front ih =>
        obtain ⟨hx, hfront⟩ := List.forall_mem_cons.mp h
        rw [List.map_cons, List.cons_append, List.intercalate_cons_of_ne_nil (by simp), ← ih hfront]
        simp [hx]
  exact hfront n.name.front fun x hx => (n.isDotted x hx).2

theorem exists_tokens_eq : ∃ t ts, n.tokens = t :: ts := by
  rw [tokens]
  cases n.name.front with
  | nil => exact ⟨_, _, rfl⟩
  | cons x front => exact ⟨_, _, rfl⟩

/-- Words and dots hold no blanks. -/
theorem solid_tokens : ∀ t ∈ n.tokens, t.text ≠ [] ∧ ∀ c ∈ t.text, isBlank c = false := by
  have hword (p : NamePart) : p.word.text ≠ [] ∧ ∀ c ∈ p.word.text, isBlank c = false :=
    ⟨p.isName.ne_nil, p.isName.not_blank⟩
  have hdot {t : Token} (ht : t.text = ['.']) : t.text ≠ [] ∧ ∀ c ∈ t.text, isBlank c = false := by
    rw [ht]
    exact ⟨List.cons_ne_nil _ _, List.forall_mem_singleton.mpr (by decide)⟩
  intro t ht
  rcases List.mem_append.mp ht with ht | ht
  · obtain ⟨x, hx, ht⟩ := List.mem_flatMap.mp ht
    rcases List.mem_cons.mp ht with rfl | ht
    · exact hword x.1
    · obtain rfl := List.mem_singleton.mp ht
      exact hdot (n.isDotted x hx).2
  · obtain rfl := List.mem_singleton.mp ht
    exact hword n.name.last

/-- A name is read no shorter than its words and dots, and as short only when it is tight. -/
theorem length_read : n.dotted.length ≤ n.read.toList.length ∧
    (n.read.toList.length = n.dotted.length → n.IsTight) := by
  obtain ⟨t, ts, htokens⟩ := n.exists_tokens_eq
  have hsolid : ∀ u ∈ t :: ts, u.text ≠ [] ∧ ∀ c ∈ u.text, isBlank c = false :=
    htokens ▸ n.solid_tokens
  have hlength := length_collapse_span hsolid
  rw [IsTight, read, collapseString, String.toList_ofList, String.toList_ofList, n.span_eq,
    ← n.flatMap_text_tokens, htokens]
  exact hlength

theorem read_of_isTight (h : n.IsTight) : n.read.toList = n.dotted := by
  obtain ⟨t, ts, htokens⟩ := n.exists_tokens_eq
  rw [IsTight, htokens] at h
  rw [read, collapseString, String.toList_ofList, String.toList_ofList, n.span_eq,
    ← n.flatMap_text_tokens, htokens]
  exact collapse_span_of_gaps (htokens ▸ n.solid_tokens) h

end NamespaceName

/-! ## Paths -/

/-- Texts that are no longer than others make no longer text, and as long a one only when each of
them is as long. -/
theorem length_intercalate_le {α : Type} (sep : List Char) (f g : α → List Char) (l : List α)
    (h : ∀ a ∈ l, (f a).length ≤ (g a).length) :
    (sep.intercalate (l.map f)).length ≤ (sep.intercalate (l.map g)).length ∧
      ((sep.intercalate (l.map g)).length = (sep.intercalate (l.map f)).length →
        ∀ a ∈ l, (g a).length = (f a).length) := by
  induction l with
  | nil => exact ⟨Nat.le_refl _, fun _ a ha => absurd ha List.not_mem_nil⟩
  | cons a l ih =>
      obtain ⟨ha, hl⟩ := List.forall_mem_cons.mp h
      obtain ⟨hle, hsame⟩ := ih hl
      cases l with
      | nil =>
          refine ⟨by simpa using ha, fun heq => List.forall_mem_singleton.mpr ?_⟩
          simpa using heq
      | cons b l =>
          have hcons (k : α → List Char) : (sep.intercalate ((a :: b :: l).map k)).length
              = (k a).length + sep.length + (sep.intercalate ((b :: l).map k)).length := by
            rw [List.map_cons, List.map_cons, List.intercalate_cons_cons, List.length_append,
              List.length_append]
          rw [hcons, hcons]
          refine ⟨by omega, fun heq => List.forall_mem_cons.mpr ⟨by omega, hsame (by omega)⟩⟩

/-- The dotted path of some names, when there are any. -/
def dottedPath? (names : List NamespaceName) : Option String :=
  if names.isEmpty then none
  else some (".".intercalate (names.map fun n => String.ofList n.dotted))

/-- The path of names as they are read is the path of the bare names exactly when all are tight. -/
theorem path_read_iff (names : List NamespaceName) :
    (if names.isEmpty then none else some (".".intercalate (names.map NamespaceName.read)))
        = dottedPath? names ↔ ∀ n ∈ names, n.IsTight := by
  have htext (k : NamespaceName → String) : (".".intercalate (names.map k)).toList
      = ".".toList.intercalate (names.map fun m => (k m).toList) := by
    rw [String.toList_intercalate, List.map_map]
    rfl
  have hread (m : NamespaceName) : (String.ofList m.dotted).toList = m.dotted := String.toList_ofList
  have hlength := length_intercalate_le ".".toList NamespaceName.dotted
    (fun m : NamespaceName => m.read.toList) names fun m _ => m.length_read.1
  rw [dottedPath?]
  cases hempty : names.isEmpty with
  | true =>
      rw [List.isEmpty_iff.mp hempty]
      simp
  | false =>
      simp only [Bool.false_eq_true, if_false, Option.some.injEq]
      constructor
      · intro hsame m hm
        have hlists := congrArg String.toList hsame
        simp only [htext, hread] at hlists
        exact m.length_read.2 (hlength.2 (congrArg List.length hlists) m hm)
      · intro htight
        refine congrArg _ (List.map_congr_left fun m hm => ?_)
        rw [← m.read_of_isTight (htight m hm), String.ofList_toList]

end CSharp

/-! ## The types of a source -/

open CSharp

/-- The namespace of a type that is found is the path of the names as they are read. -/
theorem namespacePath?_eq (ws : List WrittenItem) (p : TypePlace) :
    namespacePath? ((fileNames ws).getLast?.map NamespaceName.read) (p.blocks.map NamespaceName.read)
      = if (p.namespaces ws).isEmpty then none
        else some (".".intercalate ((p.namespaces ws).map NamespaceName.read)) := by
  have hparts : ((fileNames ws).getLast?.map NamespaceName.read).toList
      ++ p.blocks.map NamespaceName.read = (p.namespaces ws).map NamespaceName.read := by
    rw [TypePlace.namespaces, List.map_append, Option.toList_map]
  rw [namespacePath?, hparts]
  cases p.namespaces ws <;> rfl

namespace Declaration

variable {source : String} {ws : List WrittenItem}

theorem fileNamespaces_parse (h : ConsistsOf source ws) :
    (fileNamespaces (CSharp.parse source)).getLast?
      = (fileNames ws).getLast?.map NamespaceName.read := by
  rw [parse_eq h, fileNamespaces_items ws [] rfl, List.getLast?_map]
  rfl

/-- A source contributes exactly its visible types outside other types, in source order, and the
first of them as its component; it contributes nothing exactly when there are none.  Their
namespaces are the dotted paths of the namespaces around them exactly when nothing stands between
the parts of these namespaces' names. -/
theorem types_located_iff (includeInternal : Bool) (path : String) (h : ConsistsOf source ws) :
    (ofClassFile? includeInternal path source = none ↔ shownTypes includeInternal ws = []) ∧
      ∀ d, ofClassFile? includeInternal path source = some d →
        (d.types.map fun t => (t.name, t.kind))
            = (shownTypes includeInternal ws).map (fun p =>
              (String.ofList p.head.name.text, p.head.kind)) ∧
          (∃ first, d.types.head? = some first ∧ d.kind = first.kind ∧
            d.component.name = first.name ∧ d.component.namespaceName = first.namespaceName ∧
            d.component.summary = first.summary ∧ d.component.baseType = first.baseType) ∧
          (d.types.map (fun t => t.namespaceName)
              = (shownTypes includeInternal ws).map (fun p => dottedPath? (p.namespaces ws)) ↔
            ∀ p ∈ shownTypes includeInternal ws, ∀ n ∈ p.namespaces ws, n.IsTight) := by
  have hfound := shownTypes_found h includeInternal
  have hfile := fileNamespaces_parse h
  unfold ofClassFile? ofItems?
  rw [hfile]
  generalize (declaredTypes [] [] (CSharp.parse source)).filter _ = visible at hfound ⊢
  constructor
  · rw [Option.map_eq_none_iff, List.head?_eq_none_iff]
    constructor
    · rintro rfl
      exact List.forall₂_nil_right_iff.mp hfound
    · intro hnone
      rw [hnone] at hfound
      exact List.forall₂_nil_left_iff.mp hfound
  · intro d hd
    obtain ⟨first, hfirst, rfl⟩ := Option.map_eq_some_iff.mp hd
    refine ⟨?_, ⟨first.reference path _, ?_, rfl, rfl, rfl, rfl, rfl⟩, ?_⟩
    · rw [List.map_map]
      refine (map_eq_of_found hfound fun p t hpt => ?_).symm
      simp only [Function.comp_apply, DeclaredType.reference, hpt.2.1]
      rfl
    · simp only [List.head?_map, hfirst, Option.map_some]
    · have hpaths : (visible.map
          (·.reference path ((fileNames ws).getLast?.map NamespaceName.read))).map
          (fun t => t.namespaceName) = (shownTypes includeInternal ws).map fun p =>
            if (p.namespaces ws).isEmpty then none
            else some (".".intercalate ((p.namespaces ws).map NamespaceName.read)) := by
        rw [List.map_map]
        refine (map_eq_of_found hfound fun p t hpt => ?_).symm
        rw [Function.comp_apply, DeclaredType.reference, hpt.1]
        exact (namespacePath?_eq ws p).symm
      rw [hpaths, List.map_inj_left]
      exact forall₂_congr fun p _ => path_read_iff (p.namespaces ws)

/-- A class with another one in it, two namespaces deep, and then an enumeration, which is no longer
in the inner namespace. -/
def nestedTypes : List WrittenItem :=
  [.namespaceBlock (keyword "" "namespace")
    (dottedName [(plainPart " " "A" (by decide), mark "" ".")]
      (plainPart "" "B" (by decide)))
    (brackets '{' " " " ")
    [.namespaceBlock (keyword " " "namespace") (dottedName [] (plainPart " " "C" (by decide)))
      (brackets '{' " " " ")
      [.type (plainHead [wordToken " " "public"] .classType " " "D" (by decide))
        (by decide +kernel) (by decide) (brackets '{' " " " ")
        [.type (plainHead [wordToken " " "public"] .classType " " "E" (by decide))
          (by decide +kernel) (by decide) (brackets '{' " " " ") [] none] none] none,
      .enumeration (plainHead [] .enumType " " "F" (by decide))
        (by decide +kernel) rfl (brackets '{' " " " ") ⟨[], none⟩ none] none]

def nestedSource : String :=
  "namespace A.B { namespace C { public class D { public class E { } } } enum F { } }"

theorem types_located_nested :
    ∃ d, ofClassFile? true "D.cs" nestedSource = some d ∧
      (d.types.map fun t => (t.name, t.kind)) = [("D", .classType), ("F", .enumType)] ∧
      d.types.map (fun t => t.namespaceName) = [some "A.B.C", some "A.B"] := by
  have hsource : ConsistsOf nestedSource nestedTypes := by decide +kernel
  have hshown : (shownTypes true nestedTypes).map (fun p =>
      (String.ofList p.head.name.text, p.head.kind)) = [("D", .classType), ("F", .enumType)] := by
    decide +kernel
  have htight : ∀ p ∈ shownTypes true nestedTypes, ∀ n ∈ p.namespaces nestedTypes, n.IsTight := by
    decide +kernel
  have hdotted : (shownTypes true nestedTypes).map (fun p => dottedPath? (p.namespaces nestedTypes))
      = [some "A.B.C", some "A.B"] := by decide +kernel
  obtain ⟨hnone, hall⟩ := types_located_iff true "D.cs" hsource
  cases hd : ofClassFile? true "D.cs" nestedSource with
  | none =>
      rw [hnone.mp hd] at hshown
      cases hshown
  | some d =>
      obtain ⟨htypes, -, hpaths⟩ := hall d hd
      exact ⟨d, rfl, htypes.trans hshown, (hpaths.mpr htight).trans hdotted⟩

/-- A public class in a namespace of two parts, with `gap` in front of the dot. -/
def inDottedNamespace (gap : String) : List WrittenItem :=
  [.namespaceBlock (keyword "" "namespace")
    (dottedName [(plainPart " " "A" (by decide), mark gap ".")]
      (plainPart "" "B" (by decide)))
    (brackets '{' " " " ")
    [.type (plainHead [wordToken " " "public"] .classType " " "C" (by decide))
      (by decide +kernel) (by decide) (brackets '{' " " " ") [] none] none]

/-- A blank between the parts of a namespace's name gets into the namespace of its types. -/
theorem namespace_read_with_blank :
    ConsistsOf "namespace A .B { public class C { } }" (inDottedNamespace " ") ∧
      (shownTypes false (inDottedNamespace " ")).map
        (fun p => dottedPath? (p.namespaces (inDottedNamespace " "))) = [some "A.B"] ∧
      (ofClassFile? false "C.cs" "namespace A .B { public class C { } }").map
        (fun d => d.types.map fun t => t.namespaceName) = some [some "A .B"] :=
  ⟨by decide +kernel, by decide +kernel, by decide +kernel⟩

end Declaration
end ComponentAtlas
