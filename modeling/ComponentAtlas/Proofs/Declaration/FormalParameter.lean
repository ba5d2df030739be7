import ComponentAtlas.Declaration.FormalParameter
import ComponentAtlas.Proofs.CSharp.Signs
import ComponentAtlas.Proofs.Text.Occurrence
import ComponentAtlas.Proofs.Text.TopLevel
import Mathlib.Data.List.Flatten

/-!
# Formal parameters are read as they are written

A list of formal parameters is read back exactly when its texts come apart at the commas and no word
of a type and no name is one that says how a parameter is passed (`listOfText_writtenList_iff`).
One half follows the reading of one text.  For the other, characters that are no blanks are counted:
a parameter that is read holds no more of them than the part it is read from, and there are as many
in all parts as in all texts; so every part is as large as its text, and stands at the same place.

The texts do come apart when the brackets of every type are level and each default is a C#
expression of which the marks are level, angle brackets among them, and character literals hold no
bracket, comma or quotation mark (`comeApart_of_level`).
-/

namespace ComponentAtlas

open Text CSharp

/-! ## Attribute lists -/

namespace Text

theorem afterList?_suffix {depth : Nat} {quoted : Bool} {cs rest : List Char}
    (h : afterList? depth quoted cs = some rest) : rest <:+ cs := by
  induction cs generalizing depth quoted with
  | nil => cases h
  | cons c cs ih =>
      refine List.IsSuffix.trans ?_ (List.suffix_cons c cs)
      unfold afterList? at h
      split at h
      · exact ih h
      split at h
      · exact ih h
      split at h
      · exact ih h
      split at h
      · cases depth with
        | zero => rw [← Option.some.inj h]
        | succ depth => exact ih h
      · exact ih h

theorem dropListsWithin_suffix (fuel : Nat) (cs : List Char) : dropListsWithin fuel cs <:+ cs := by
  induction fuel generalizing cs with
  | zero => exact List.suffix_rfl
  | succ fuel ih =>
      unfold dropListsWithin
      split
      · split
        · rename_i rest _ behind hbehind
          have hlist : trimStart behind <:+ rest :=
            (List.dropWhile_suffix _).trans (afterList?_suffix hbehind)
          exact (ih _).trans (hlist.trans (List.suffix_cons _ _))
        · exact List.suffix_rfl
      · exact List.suffix_rfl

theorem dropLists_suffix (cs : List Char) : dropLists cs <:+ cs :=
  (dropListsWithin_suffix _ _).trans (List.dropWhile_suffix _)

theorem dropLists_eq_self {cs : List Char} (h : IsTrimmed cs) (hlist : cs.head? ≠ some '[') :
    dropLists cs = cs := by
  obtain ⟨c, hhead, hc⟩ := h.first
  obtain ⟨ds, rfl⟩ := List.head?_eq_some_iff.mp hhead
  have hstart : trimStart (c :: ds) = c :: ds := List.dropWhile_cons_of_neg (by simp [hc])
  rw [dropLists, hstart, List.length_cons]
  unfold dropListsWithin
  split
  · rename_i hsame
    obtain ⟨rfl, -⟩ := List.cons.inj hsame
    exact absurd rfl hlist
  · rfl

end Text

/-! ## One part -/

/-- Whether a word says how a parameter is passed. -/
def isPassing (w : List Char) : Bool :=
  passingWords.any fun p => p.toList == w

/-- A declaration and the text of its default, if it has one. -/
def assigned (declared : List Char) : Option (List Char) → List Char
  | none => declared
  | some value => declared ++ '=' :: value

namespace MethodParameter

variable {docs : Documentation} {part : List Char} {p : MethodParameter}

theorem exists_assigned (text : List Char) :
    ∃ declared default, text = assigned declared default ∧ '=' ∉ declared := by
  cases h : cut? ['='] text with
  | none => exact ⟨text, none, rfl, cut?_char_eq_none_iff.mp h⟩
  | some cut =>
      obtain ⟨declared, value⟩ := cut
      obtain ⟨htext, hnone⟩ := cut?_char_eq_some_iff.mp h
      exact ⟨declared, some value, htext, hnone⟩

/-- The parameter that some words declare: the last one is its name. -/
def ofWords? (docs : Documentation) (default : Option String) (ws : List (List Char)) :
    Option MethodParameter :=
  match ws.reverse with
  | name :: typeWord :: more =>
    some ⟨String.ofList name, String.ofList ([' '].intercalate (typeWord :: more).reverse), default,
      docs.parameter? (String.ofList name)⟩
  | _ => none

theorem ofText?_of_assigned {declared : List Char} {default : Option (List Char)}
    (htext : dropLists part = assigned declared default) (hnone : '=' ∉ declared) :
    ofText? docs part = ofWords? docs (default.map fun value => String.ofList (trim value))
      ((words declared).filter fun w => !isPassing w) := by
  unfold ofText?
  dsimp only
  rw [htext]
  cases default with
  | none =>
      have hcut : cut? ['='] (assigned declared none) = none := cut?_char_eq_none_iff.mpr hnone
      rw [hcut]
      rfl
  | some value =>
      have hcut : cut? ['='] (assigned declared (some value)) = some (declared, value) :=
        cut?_char_eq_some_iff.mpr ⟨rfl, hnone⟩
      rw [hcut]
      rfl

theorem ofWords?_eq_some_iff {default : Option String} {ws : List (List Char)} :
    ofWords? docs default ws = some p ↔ ∃ typeWords name, ws = typeWords ++ [name] ∧
      typeWords ≠ [] ∧ p = ⟨String.ofList name, String.ofList ([' '].intercalate typeWords),
        default, docs.parameter? (String.ofList name)⟩ := by
  unfold ofWords?
  constructor
  · intro h
    split at h
    · rename_i name typeWord more hws
      refine ⟨(typeWord :: more).reverse, name, ?_, by simp, (Option.some.inj h).symm⟩
      rw [← List.reverse_reverse ws, hws, List.reverse_cons]
    · cases h
  · rintro ⟨typeWords, name, rfl, htype, rfl⟩
    obtain ⟨typeWord, more, hmore⟩ :=
      List.exists_cons_of_ne_nil (mt List.reverse_eq_nil_iff.mp htype)
    rw [List.reverse_append, List.reverse_singleton, List.singleton_append, hmore]
    simp only
    rw [← hmore, List.reverse_reverse]

/-- What the reading of one part comes to. -/
theorem exists_of_ofText? (h : ofText? docs part = some p) :
    ∃ declared default typeWords name, dropLists part = assigned declared default ∧
      '=' ∉ declared ∧ (words declared).filter (fun w => !isPassing w) = typeWords ++ [name] ∧
      p = ⟨String.ofList name, String.ofList ([' '].intercalate typeWords),
        default.map fun value => String.ofList (trim value),
        docs.parameter? (String.ofList name)⟩ := by
  obtain ⟨declared, default, htext, hnone⟩ := exists_assigned (dropLists part)
  rw [ofText?_of_assigned htext hnone] at h
  obtain ⟨typeWords, name, hwords, -, hp⟩ := ofWords?_eq_some_iff.mp h
  exact ⟨declared, default, typeWords, name, htext, hnone, hwords, hp⟩

/-- The characters of a parameter, blanks aside. -/
def held (p : MethodParameter) : List Char :=
  assigned (solid p.type.toList ++ solid p.name.toList)
    (p.defaultValue.map fun value => solid value.toList)

theorem solid_assigned (declared : List Char) (default : Option (List Char)) :
    solid (assigned declared default) = assigned (solid declared) (default.map solid) := by
  cases default with
  | none => rfl
  | some value =>
      have hsign : isBlank '=' = false := by decide
      simp [assigned, solid_cons hsign]

theorem length_assigned_le {x y : List Char} (h : x.length ≤ y.length)
    (default : Option (List Char)) :
    (assigned x default).length ≤ (assigned y default).length := by
  cases default with
  | none => exact h
  | some value =>
      simp only [assigned, List.length_append]
      omega

/-- A parameter holds no more than the part it is read from. -/
theorem length_held_le (h : ofText? docs part = some p) :
    p.held.length ≤ (solid part).length := by
  obtain ⟨declared, default, typeWords, name, htext, -, hwords, rfl⟩ := exists_of_ofText? h
  have hkept : (typeWords ++ [name]).flatten.length ≤ (solid declared).length := by
    rw [← hwords, ← flatten_words]
    exact List.filter_sublist.flatten.length_le
  have hdeclared : (solid ([' '].intercalate typeWords) ++ solid name).length ≤
      (solid declared).length := by
    refine Nat.le_trans ?_ hkept
    have hall : (typeWords ++ [name]).flatten = typeWords.flatten ++ name := by simp
    rw [hall, solid_intercalate (by simp [isBlank]), ← solid_append]
    exact List.length_filter_le _ _
  have hpart : (solid (dropLists part)).length ≤ (solid part).length :=
    ((dropLists_suffix part).sublist.filter _).length_le
  refine Nat.le_trans ?_ hpart
  rw [htext, solid_assigned]
  simpa [held, Function.comp_def] using length_assigned_le hdeclared (default.map solid)

/-- The words of a type that is read, and its name, say nothing about passing, and they hold no
equals sign. -/
theorem words_of_ofText? (h : ofText? docs part = some p) :
    '=' ∉ p.type.toList ∧ ∀ w ∈ words p.type.toList ++ [p.name.toList], isPassing w = false := by
  obtain ⟨declared, default, typeWords, name, -, hnone, hwords, rfl⟩ := exists_of_ofText? h
  have hkept : ∀ w ∈ typeWords ++ [name], w ∈ words declared ∧ isPassing w = false := by
    intro w hw
    rw [← hwords] at hw
    simpa using List.mem_filter.mp hw
  have htype : ∀ w ∈ typeWords, w ∈ words declared := fun w hw =>
    (hkept w (List.mem_append_left _ hw)).1
  simp only [String.toList_ofList]
  constructor
  · intro hmem
    have hsolid : '=' ∈ solid typeWords.flatten := by
      have hspace : ∀ c ∈ [' '], isBlank c = true := by simp [isBlank]
      rw [← solid_intercalate hspace]
      exact List.mem_filter.mpr ⟨hmem, by decide⟩
    obtain ⟨w, hw, hsign⟩ := List.mem_flatten.mp (List.mem_filter.mp hsolid).1
    have hdeclared : '=' ∈ solid declared := by
      rw [← flatten_words]
      exact List.mem_flatten_of_mem (htype w hw) hsign
    exact hnone (List.mem_filter.mp hdeclared).1
  · rw [words_intercalate (fun w hw => ne_nil_of_mem_words (htype w hw))
      fun w hw => isBlank_of_mem_words (htype w hw)]
    exact fun w hw => (hkept w hw).2

/-- The parameters of a list, part by part. -/
theorem listOfText_eq (docs : Documentation) (text : List Char) :
    listOfText docs text = (partsFrom .start text).filterMap fun t => ofText? docs (trim t) := by
  have hnone : ofText? docs [] = none := by
    have hdrop : dropLists [] = assigned [] none := rfl
    rw [ofText?_of_assigned hdrop List.not_mem_nil]
    rfl
  rw [listOfText, splitTopLevel, List.filterMap_filter, List.filterMap_map]
  congr 1
  funext t
  simp only [Function.comp_apply]
  split
  · rfl
  · rename_i hempty
    have hblank : trim t = [] := by simpa using hempty
    rw [hblank, hnone]

end MethodParameter

/-! ## Reading a list, counted -/

section

variable {α β γ : Type} {read : α → Option β} {size : α → List γ} {held : β → List γ}

theorem length_flatMap_filterMap_le
    (hread : ∀ a b, read a = some b → (held b).length ≤ (size a).length) (l : List α) :
    ((l.filterMap read).flatMap held).length ≤ (l.flatMap size).length := by
  induction l with
  | nil => exact Nat.le_refl _
  | cons a l ih =>
      rw [List.flatMap_cons, List.length_append]
      cases ha : read a with
      | none =>
          rw [List.filterMap_cons_none ha]
          omega
      | some b =>
          have := hread a b ha
          rw [List.filterMap_cons_some ha, List.flatMap_cons, List.length_append]
          omega

/-- Where nothing is left out and all is as large as it can be, each one is. -/
theorem sizes_of_filterMap
    (hread : ∀ a b, read a = some b → (held b).length ≤ (size a).length) {l : List α}
    (hcount : l.length ≤ (l.filterMap read).length)
    (htotal : (l.flatMap size).length ≤ ((l.filterMap read).flatMap held).length) :
    l.map (fun a => (size a).length) = (l.filterMap read).map fun b => (held b).length := by
  induction l with
  | nil => rfl
  | cons a l ih =>
      have hfewer := List.length_filterMap_le read l
      have hsmaller := length_flatMap_filterMap_le hread l
      cases ha : read a with
      | none =>
          rw [List.filterMap_cons_none ha, List.length_cons] at hcount
          omega
      | some b =>
          have hfirst := hread a b ha
          rw [List.filterMap_cons_some ha] at hcount htotal ⊢
          simp only [List.length_cons, List.flatMap_cons, List.length_append] at hcount htotal
          rw [List.map_cons, List.map_cons, ih (by omega) (by omega)]
          congr 1
          omega

end

/-! ## Written parameters -/

/-- A formal parameter of a declaration. -/
structure FormalParameter where
  type : List Char
  name : List Char
  default : Option (List Char)

namespace FormalParameter

def written (f : FormalParameter) : List Char :=
  match f.default with
  | none => f.type ++ ' ' :: f.name
  | some value => f.type ++ ' ' :: (f.name ++ (" = ".toList ++ value))

/-- The text of a parameter list. -/
def writtenList (fs : List FormalParameter) : List Char :=
  ", ".toList.intercalate (fs.map written)

/-- What stands between the commas of a list. -/
def segments : List FormalParameter → List (List Char)
  | [] => [[]]
  | f :: fs => f.written :: fs.map fun g => ' ' :: g.written

/-- What a parameter is read as: its name, its type with single spaces, and its default. -/
def reading (docs : Documentation) (f : FormalParameter) : MethodParameter :=
  ⟨String.ofList f.name, String.ofList (collapse f.type), f.default.map String.ofList,
    docs.parameter? (String.ofList f.name)⟩

/-- A type without an attribute list in front of it, a name, and no blanks around a type or a
default. -/
structure IsWellFormed (f : FormalParameter) : Prop where
  type : IsTrimmed f.type
  unattributed : f.type.head? ≠ some '['
  name : IsName f.name
  default : ∀ value ∈ f.default, IsTrimmed value

/-- A parameter of which no word says how it is passed, and the type holds no equals sign. -/
structure IsPlain (f : FormalParameter) : Prop where
  unassigned : '=' ∉ f.type
  words : ∀ w ∈ words f.type ++ [f.name], isPassing w = false

/-- Brackets that are level: those of the type, those among the marks of the default, and those in
each lexeme of the default that is not read sign by sign. -/
structure IsLevel (f : FormalParameter) : Prop where
  type : brackets.IsLevelUnquoted f.type
  marks : ∀ value ∈ f.default, brackets.IsLevel (marks (lexemes value))
  hidden : ∀ value ∈ f.default, ∀ l ∈ lexemes value, l.hidesSigns = true →
    brackets.IsLevelUnquoted l.text

variable {f : FormalParameter} {fs : List FormalParameter}

theorem intercalate_cons_space (t : List Char) (ts : List (List Char)) :
    [','].intercalate ((' ' :: t) :: ts) = ' ' :: [','].intercalate (t :: ts) := by
  cases ts with
  | nil => simp
  | cons u us => rw [List.intercalate_cons_cons, List.intercalate_cons_cons]; rfl

theorem writtenList_eq (fs : List FormalParameter) :
    writtenList fs = [','].intercalate (segments fs) := by
  have hcomma : ", ".toList = [',', ' '] := by decide +kernel
  cases fs with
  | nil => rfl
  | cons f fs =>
      rw [writtenList, hcomma, segments, List.map_cons]
      induction fs generalizing f with
      | nil => simp
      | cons g fs ih =>
          rw [List.map_cons, List.map_cons, List.intercalate_cons_cons, ih g,
            List.intercalate_cons_cons, intercalate_cons_space]
          simp

theorem isTrimmed_written (hf : f.IsWellFormed) : IsTrimmed f.written := by
  have hname : IsTrimmed f.name := isTrimmed_of_solid hf.name.ne_nil hf.name.not_blank
  unfold written
  cases hdefault : f.default with
  | none => exact hf.type.between hname [' ']
  | some value =>
      have hall := hf.type.between (hf.default value hdefault) (' ' :: (f.name ++ " = ".toList))
      simpa only [List.cons_append, List.append_assoc] using hall

theorem map_trim_segments (hfs : ∀ f ∈ fs, f.IsWellFormed) (hne : fs ≠ []) :
    (segments fs).map trim = fs.map written := by
  obtain ⟨f, fs, rfl⟩ := List.exists_cons_of_ne_nil hne
  obtain ⟨hf, hfs⟩ := List.forall_mem_cons.mp hfs
  rw [segments, List.map_cons, List.map_cons, (isTrimmed_written hf).trim_eq, List.map_map]
  congr 1
  refine List.map_congr_left fun g hg => ?_
  rw [Function.comp_apply, trim_cons_blank (by decide), (isTrimmed_written (hfs g hg)).trim_eq]

theorem ofText?_written (docs : Documentation) (hf : f.IsWellFormed) (hplain : f.IsPlain) :
    MethodParameter.ofText? docs f.written = some (f.reading docs) := by
  have hdrop : dropLists f.written = f.written := by
    refine dropLists_eq_self (isTrimmed_written hf) ?_
    obtain ⟨c, hhead, -⟩ := hf.type.first
    obtain ⟨cs, htype⟩ := List.head?_eq_some_iff.mp hhead
    have hfirst := hf.unattributed
    unfold written
    rw [htype] at hfirst ⊢
    split <;> exact hfirst
  have hname : words f.name = [f.name] := words_solid hf.name.ne_nil hf.name.not_blank
  have hsign : '=' ∉ f.name := fun hmem =>
    hf.name.ne_of_not_word (by decide +kernel) (by decide) _ hmem rfl
  have hkept : (words f.type ++ [f.name]).filter (fun w => !isPassing w) =
      words f.type ++ [f.name] :=
    List.filter_eq_self.mpr fun w hw => by rw [hplain.words w hw]; rfl
  have htype : words f.type ≠ [] := by
    obtain ⟨c, hhead, hc⟩ := hf.type.first
    intro hnone
    rw [words_eq_nil_iff.mp hnone c (List.mem_of_head? hhead)] at hc
    cases hc
  unfold reading collapse
  cases hdefault : f.default with
  | none =>
      have htext : dropLists f.written = assigned (f.type ++ ' ' :: f.name) none := by
        rw [hdrop, written, hdefault]
        rfl
      have hnone : '=' ∉ f.type ++ ' ' :: f.name := by
        simp [hplain.unassigned, hsign]
      rw [MethodParameter.ofText?_of_assigned htext hnone, words_append (by decide), hname, hkept]
      exact MethodParameter.ofWords?_eq_some_iff.mpr ⟨_, _, rfl, htype, rfl⟩
  | some value =>
      have hequals : " = ".toList = [' ', '=', ' '] := by decide +kernel
      have htext : dropLists f.written =
          assigned (f.type ++ ' ' :: (f.name ++ [' '])) (some (' ' :: value)) := by
        rw [hdrop, written, hdefault, hequals]
        simp [assigned]
      have hnone : '=' ∉ f.type ++ ' ' :: (f.name ++ [' ']) := by
        simp [hplain.unassigned, hsign]
      have hbehind : words (f.name ++ [' ']) = [f.name] := by
        rw [words_append (by decide), hname]
        rfl
      have htrim : trim (' ' :: value) = value := by
        rw [trim_cons_blank (by decide), (hf.default value hdefault).trim_eq]
      rw [MethodParameter.ofText?_of_assigned htext hnone, words_append (by decide), hbehind, hkept,
        Option.map_some, htrim]
      exact MethodParameter.ofWords?_eq_some_iff.mpr ⟨_, _, rfl, htype, rfl⟩

theorem held_reading (docs : Documentation) (hf : f.IsWellFormed) :
    (f.reading docs).held = solid f.written := by
  have hsign : isBlank '=' = false := by decide
  have hblank : isBlank ' ' = true := by decide
  have hname : solid f.name = f.name := solid_eq_self hf.name.not_blank
  unfold MethodParameter.held reading written
  cases f.default with
  | none => simp [assigned, solid_collapse, solid_cons_blank hblank, hname]
  | some value =>
      have hequals : " = ".toList = [' ', '=', ' '] := by decide +kernel
      simp [assigned, solid_collapse, solid_cons_blank hblank, solid_cons hsign, hequals, hname]

theorem map_solid_segments (docs : Documentation) (hfs : ∀ f ∈ fs, f.IsWellFormed)
    (hne : fs ≠ []) :
    (segments fs).map solid = (fs.map (reading docs)).map MethodParameter.held := by
  obtain ⟨f, fs, rfl⟩ := List.exists_cons_of_ne_nil hne
  obtain ⟨hf, hfs⟩ := List.forall_mem_cons.mp hfs
  simp only [segments, List.map_cons, List.map_map, held_reading docs hf]
  congr 1
  refine List.map_congr_left fun g hg => ?_
  simp only [Function.comp_apply]
  rw [solid_cons_blank (by decide), held_reading docs (hfs g hg)]

/-- A list that is read as it is written is cut where it is written. -/
theorem partsFrom_of_listOfText {docs : Documentation} (hfs : ∀ f ∈ fs, f.IsWellFormed)
    (hne : fs ≠ [])
    (h : MethodParameter.listOfText docs (writtenList fs) = fs.map (reading docs)) :
    partsFrom .start (writtenList fs) = segments fs := by
  have hread : ∀ t p, MethodParameter.ofText? docs (trim t) = some p →
      p.held.length ≤ (solid t).length := by
    intro t p hp
    rw [← solid_trim]
    exact MethodParameter.length_held_le hp
  have hsolid := map_solid_segments docs hfs hne
  have hsegments : segments fs ≠ [] := by
    intro hnone
    rw [hnone, List.map_nil] at hsolid
    simp [hne] at hsolid
  have htext : [','].intercalate (partsFrom .start (writtenList fs)) =
      [','].intercalate (segments fs) := (intercalate_partsFrom _ _).trans (writtenList_eq fs)
  rw [MethodParameter.listOfText_eq] at h
  generalize hps : partsFrom .start (writtenList fs) = ps at h htext
  have hpsne : ps ≠ [] := hps ▸ partsFrom_ne_nil _ _
  -- as many characters in the parts as in the segments, up to a comma for each
  have hparts := length_solid_intercalate hpsne
  have hwritten := length_solid_intercalate hsegments
  rw [htext] at hparts
  have hall := length_flatMap_filterMap_le hread ps
  have hcount := List.length_filterMap_le (fun t => MethodParameter.ofText? docs (trim t)) ps
  have hlength := congrArg List.length hsolid
  rw [h] at hall hcount
  rw [List.flatMap_def, ← hsolid, ← List.flatMap_def] at hall
  simp only [List.length_map] at hlength hcount
  have hsizes := sizes_of_filterMap hread (l := ps) (by rw [h, List.length_map]; omega)
    (by rw [h, List.flatMap_def (f := MethodParameter.held), ← hsolid, ← List.flatMap_def]; omega)
  rw [h] at hsizes
  have hlengths := congrArg (List.map List.length) hsolid
  rw [List.map_map, List.map_map] at hlengths
  exact eq_of_intercalate_eq hpsne htext (hsizes.trans hlengths.symm)

/-- Nothing of a parameter that is read as it is written says how it is passed. -/
theorem isPlain_of_listOfText {docs : Documentation}
    (h : MethodParameter.listOfText docs (writtenList fs) = fs.map (reading docs))
    (hmem : f ∈ fs) : f.IsPlain := by
  have hread : f.reading docs ∈ MethodParameter.listOfText docs (writtenList fs) := by
    rw [h]
    exact List.mem_map_of_mem hmem
  obtain ⟨part, -, hpart⟩ := List.mem_filterMap.mp hread
  obtain ⟨hsign, hwords⟩ := MethodParameter.words_of_ofText? hpart
  unfold reading at hsign hwords
  simp only [String.toList_ofList, words_collapse] at hsign hwords
  refine ⟨fun htype => hsign ?_, hwords⟩
  have hsolid : '=' ∈ solid (collapse f.type) := by
    rw [solid_collapse]
    exact List.mem_filter.mpr ⟨htype, by decide⟩
  exact (List.mem_filter.mp hsolid).1

theorem isLevelUnquoted_written (hf : f.IsWellFormed) (hlevel : f.IsLevel) :
    brackets.IsLevelUnquoted f.written := by
  have hspace : ' ' ∉ signs := by decide
  have hequals : ∀ c ∈ " = ".toList, c ∉ signs := by
    have htext : " = ".toList = [' ', '=', ' '] := by decide +kernel
    have hsign : '=' ∉ signs := by decide
    simp [htext, hspace, hsign]
  have hname := not_sign_of_isName hf.name
  unfold written
  cases hdefault : f.default with
  | none =>
      exact hlevel.type.append (isLevelUnquoted_of_not_sign brackets_subset_signs
        (List.forall_mem_cons.mpr ⟨hspace, hname⟩))
  | some value =>
      have hvalue : brackets.IsLevelUnquoted value :=
        isLevelUnquoted_of_marks brackets_subset_signs (hlevel.marks value hdefault)
          (hlevel.hidden value hdefault)
      have hfront : ∀ c ∈ ' ' :: (f.name ++ " = ".toList), c ∉ signs :=
        List.forall_mem_cons.mpr ⟨hspace, fun c hc =>
          (List.mem_append.mp hc).elim (hname c) (hequals c)⟩
      have hall := hlevel.type.append
        ((isLevelUnquoted_of_not_sign brackets_subset_signs hfront).append hvalue)
      simpa only [List.cons_append, List.append_assoc] using hall

theorem comeApart_of_level (hfs : ∀ f ∈ fs, f.IsWellFormed) (hlevel : ∀ f ∈ fs, f.IsLevel) :
    ComeApart .start (segments fs) := by
  have hwritten : ∀ f ∈ fs, f.written.foldlM Nesting.within? .start = some .start := fun f hf =>
    scan_list_of_level (isLevelUnquoted_written (hfs f hf) (hlevel f hf))
  cases fs with
  | nil => exact .last rfl
  | cons f fs =>
      obtain ⟨hfirst, hrest⟩ := List.forall_mem_cons.mp hwritten
      refine comeApart_of_within (List.cons_ne_nil _ _) (List.forall_mem_cons.mpr ⟨hfirst, ?_⟩)
      intro t ht
      obtain ⟨g, hg, rfl⟩ := List.mem_map.mp ht
      exact hrest g hg

theorem listOfText_of_comeApart (docs : Documentation) (hfs : ∀ f ∈ fs, f.IsWellFormed)
    (happart : ComeApart .start (segments fs)) (hplain : ∀ f ∈ fs, f.IsPlain) :
    MethodParameter.listOfText docs (writtenList fs) = fs.map (reading docs) := by
  by_cases hne : fs = []
  · subst hne
    rfl
  have hparts : partsFrom .start (writtenList fs) = segments fs := by
    rw [writtenList_eq]
    exact partsFrom_intercalate_iff.mpr happart
  have hmap (read : List Char → Option MethodParameter) :
      (segments fs).filterMap (fun t => read (trim t)) = (fs.map written).filterMap read := by
    rw [← map_trim_segments hfs hne, List.filterMap_map]
    rfl
  rw [MethodParameter.listOfText_eq, hparts, hmap, List.filterMap_map]
  clear happart hparts hmap hne
  induction fs with
  | nil => rfl
  | cons f fs ih =>
      obtain ⟨hf, hfs⟩ := List.forall_mem_cons.mp hfs
      obtain ⟨hplainf, hplain⟩ := List.forall_mem_cons.mp hplain
      have hfirst : (MethodParameter.ofText? docs ∘ written) f = some (f.reading docs) :=
        ofText?_written docs hf hplainf
      rw [List.filterMap_cons_some hfirst, ih hfs hplain, List.map_cons]

/-- A parameter list is read as it is written, each parameter with its name, its type and its
default, exactly when the parameters come apart at the commas between them and no type holds an
equals sign, nor is a word of it or a name one that says how a parameter is passed.  They come apart
whenever brackets are level and hold all commas: in each type, among the marks of each default, and
in each lexeme of a default that may hold brackets of its own, as a character literal does. -/
theorem listOfText_writtenList_iff (docs : Documentation) (hfs : ∀ f ∈ fs, f.IsWellFormed) :
    (MethodParameter.listOfText docs (writtenList fs) = fs.map (reading docs) ↔
        ComeApart .start (segments fs) ∧ ∀ f ∈ fs, f.IsPlain) ∧
      ((∀ f ∈ fs, f.IsLevel) → (∀ f ∈ fs, f.IsPlain) →
        MethodParameter.listOfText docs (writtenList fs) = fs.map (reading docs)) := by
  refine ⟨⟨fun h => ⟨?_, fun f hf => isPlain_of_listOfText h hf⟩, fun h => ?_⟩,
    fun hlevel hplain => ?_⟩
  · by_cases hne : fs = []
    · subst hne
      exact .last rfl
    · rw [← partsFrom_intercalate_iff, ← writtenList_eq]
      exact partsFrom_of_listOfText hfs hne h
  · exact listOfText_of_comeApart docs hfs h.1 h.2
  · exact listOfText_of_comeApart docs hfs (comeApart_of_level hfs hlevel) hplain

/-- Parameters with a comma between angle brackets, in a string literal, and a character literal. -/
def levelParameters : List FormalParameter :=
  [⟨"Func<int,  bool>".toList, "accept".toList, some "null".toList⟩,
    ⟨"string".toList, "text".toList, some "\"a, (b\"".toList⟩,
    ⟨"char".toList, "mark".toList, some "'x'".toList⟩]

theorem listOfText_levelParameters :
    (∀ f ∈ levelParameters, f.IsWellFormed ∧ f.IsLevel ∧ f.IsPlain) ∧
      MethodParameter.listOfText .empty
          "Func<int,  bool> accept = null, string text = \"a, (b\", char mark = 'x'".toList =
        [⟨"accept", "Func<int, bool>", some "null", none⟩,
          ⟨"text", "string", some "\"a, (b\"", none⟩, ⟨"mark", "char", some "'x'", none⟩] := by
  have hname : ∀ f ∈ levelParameters, IsName f.name := by
    have hchecked : ∀ f ∈ levelParameters,
        (f.name.head?.any startsWord && f.name.tail.all Unicode.isWord) = true := by decide +kernel
    intro f hf
    obtain ⟨hstart, hword⟩ := Bool.and_eq_true_iff.mp (hchecked f hf)
    obtain ⟨c, hhead, hc⟩ := Option.any_eq_true .. |>.mp hstart
    obtain ⟨rest, hrest⟩ := List.head?_eq_some_iff.mp hhead
    rw [hrest] at hword ⊢
    exact ⟨c, rest, Or.inl rfl, hc, List.all_eq_true.mp hword⟩
  have htrimmed : ∀ f ∈ levelParameters, IsTrimmed f.type ∧ f.type.head? ≠ some '[' ∧
      ∀ value ∈ f.default, IsTrimmed value := by decide +kernel
  have hmarks : ∀ f ∈ levelParameters, ∀ value ∈ f.default,
      brackets.IsLevel (marks (lexemes value)) := by decide +kernel
  have hhidden : ∀ f ∈ levelParameters, ∀ value ∈ f.default, ∀ l ∈ lexemes value,
      l.hidesSigns = true → brackets.IsLevel l.text ∧ '"' ∉ l.text := by decide +kernel
  have htype : ∀ f ∈ levelParameters, brackets.IsLevel f.type ∧ '"' ∉ f.type := by decide +kernel
  have hwords : ∀ f ∈ levelParameters, '=' ∉ f.type ∧
      ∀ w ∈ words f.type ++ [f.name], isPassing w = false := by decide +kernel
  have hwell : ∀ f ∈ levelParameters, f.IsWellFormed := fun f hf =>
    ⟨(htrimmed f hf).1, (htrimmed f hf).2.1, hname f hf, (htrimmed f hf).2.2⟩
  have hlevel : ∀ f ∈ levelParameters, f.IsLevel := fun f hf =>
    ⟨(htype f hf).1.isLevelUnquoted (htype f hf).2, hmarks f hf, fun value hvalue l hl hhides =>
      have hsigns := hhidden f hf value hvalue l hl hhides
      hsigns.1.isLevelUnquoted hsigns.2⟩
  have hplain : ∀ f ∈ levelParameters, f.IsPlain := fun f hf => ⟨(hwords f hf).1, (hwords f hf).2⟩
  have hread := (listOfText_writtenList_iff .empty hwell).2 hlevel hplain
  have htext : writtenList levelParameters =
      "Func<int,  bool> accept = null, string text = \"a, (b\", char mark = 'x'".toList := by
    decide +kernel
  rw [htext] at hread
  refine ⟨fun f hf => ⟨hwell f hf, hlevel f hf, hplain f hf⟩, hread.trans ?_⟩
  decide +kernel

/-- A comma in a character literal cuts the default in two. -/
theorem listOfText_comma_character :
    lexemes "','".toList = [⟨.literal, "','".toList⟩] ∧
      writtenList [⟨"char".toList, "separator".toList, some "','".toList⟩,
          ⟨"int".toList, "count".toList, some "1".toList⟩] =
        "char separator = ',', int count = 1".toList ∧
      MethodParameter.listOfText .empty "char separator = ',', int count = 1".toList =
        [⟨"separator", "char", some "'", none⟩, ⟨"count", "int", some "1", none⟩] :=
  ⟨by decide +kernel, by decide +kernel, by decide +kernel⟩

end FormalParameter
end ComponentAtlas
