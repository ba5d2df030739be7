import ComponentAtlas.Proofs.Text.TopLevel

/-!
# Argument lists are read back

The arguments of a list are its parts without the blanks around them; a part that holds nothing else
is no argument.  Texts of which none is blank are read back from a list exactly when they come apart
at the commas between them (`splitTopLevel_intercalate_iff`).  Where they are read back, the
characters that are no blanks are counted, in the parts and in the texts: there are as many of them,
so there are as many commas between parts as between texts, no part was left out, and each part is
as large as its text.  Level texts come apart, whatever blanks stand around them
(`splitTopLevel_written`).

Of any other text it can still be said where its arguments are: they stand in it one behind the
other, parted by commas, and all the rest is blanks and commas (`hasArguments_splitTopLevel`).  The
depth is counted without a bound, which makes no difference as long as the characters of a text can
be counted (`natAbs_depth_scan_le`).
-/

namespace ComponentAtlas.Text

open Nesting

variable {t : List Char} {ts : List (List Char)}

/-- What is left of the parts of a list: each without the blanks around it, unless it holds nothing
else. -/
def argumentsOf (parts : List (List Char)) : List (List Char) :=
  (parts.map trim).filter fun part => !part.isEmpty

theorem splitTopLevel_eq (cs : List Char) : splitTopLevel cs = argumentsOf (partsFrom .start cs) :=
  rfl

theorem argumentsOf_cons_blank (h : allBlank t = true) (ts : List (List Char)) :
    argumentsOf (t :: ts) = argumentsOf ts :=
  List.filter_cons_of_neg (by simp [trim_eq_nil_iff.mpr h])

theorem argumentsOf_cons (h : allBlank t = false) (ts : List (List Char)) :
    argumentsOf (t :: ts) = trim t :: argumentsOf ts := by
  have hfull : trim t ≠ [] := fun hnil => by
    rw [trim_eq_nil_iff.mp hnil] at h
    cases h
  exact List.filter_cons_of_pos (by simpa using hfull)

theorem isTrimmed_of_mem_argumentsOf {a : List Char} (h : a ∈ argumentsOf ts) : IsTrimmed a := by
  obtain ⟨hmem, hfull⟩ := List.mem_filter.mp h
  obtain ⟨t, -, rfl⟩ := List.mem_map.mp hmem
  exact isTrimmed_trim (by simpa using hfull)

/-! ## Lists that are read back -/

theorem argumentsOf_eq_map (h : ∀ t ∈ ts, allBlank t = false) : argumentsOf ts = ts.map trim := by
  induction ts with
  | nil => rfl
  | cons t ts ih =>
      obtain ⟨ht, hts⟩ := List.forall_mem_cons.mp h
      rw [argumentsOf_cons ht, ih hts, List.map_cons]

/-- Only blanks are lost. -/
theorem flatMap_solid_argumentsOf (ts : List (List Char)) :
    (argumentsOf ts).flatMap solid = ts.flatMap solid := by
  induction ts with
  | nil => rfl
  | cons t ts ih =>
      cases ht : allBlank t with
      | true =>
          have hnone : solid t = [] := solid_eq_nil_iff.mpr (List.all_eq_true.mp ht)
          rw [argumentsOf_cons_blank ht, ih, List.flatMap_cons, hnone, List.nil_append]
      | false => rw [argumentsOf_cons ht, List.flatMap_cons, List.flatMap_cons, solid_trim, ih]

/-- Parts with as many arguments as parts are all arguments. -/
theorem argumentsOf_eq_map_of_length (h : (argumentsOf ts).length = ts.length) :
    argumentsOf ts = ts.map trim := by
  have hall : (argumentsOf ts).length = (ts.map trim).length := by rw [h, List.length_map]
  exact List.filter_eq_self.mpr (List.length_filter_eq_length_iff.mp hall)

/-- Parts that make the same text as some others, with these for arguments, are these. -/
theorem eq_of_argumentsOf_eq {ps : List (List Char)} (hps : ps ≠ []) (hts : ts ≠ [])
    (htext : [','].intercalate ps = [','].intercalate ts) (h : argumentsOf ps = ts.map trim) :
    ps = ts := by
  have hsolid : ps.flatMap solid = ts.flatMap solid := by
    rw [← flatMap_solid_argumentsOf ps, h, List.flatMap_map]
    simp only [solid_trim]
  have hlength : ps.length = ts.length := by
    have hparts := length_solid_intercalate hps
    have htexts := length_solid_intercalate hts
    rw [htext, hsolid] at hparts
    omega
  have hall : ps.map trim = ts.map trim := by
    rw [← h]
    exact (argumentsOf_eq_map_of_length (by rw [h, List.length_map, hlength])).symm
  have hsize := congrArg (List.map fun a => (solid a).length) hall
  simp only [List.map_map, Function.comp_def, solid_trim] at hsize
  exact eq_of_intercalate_eq hps htext hsize

/-- Texts that are not blank are read back from a list, up to the blanks around them, exactly when
they come apart at the commas between them. -/
theorem splitTopLevel_intercalate_iff (hne : ts ≠ []) (hts : ∀ t ∈ ts, allBlank t = false) :
    splitTopLevel ([','].intercalate ts) = ts.map trim ↔ ComeApart .start ts := by
  rw [splitTopLevel_eq, ← partsFrom_intercalate_iff]
  constructor
  · exact eq_of_argumentsOf_eq (partsFrom_ne_nil _ _) hne (intercalate_partsFrom _ _)
  · intro hparts
    rw [hparts, argumentsOf_eq_map hts]

/-! ## Blanks around a level text -/

theorem isBlank_bracket :
    ∀ c ∈ brackets.opening ++ brackets.closing ++ brackets.inner, isBlank c = false := by
  simp [brackets, isBlank]

theorem isLevelUnquoted_of_allBlank {gap : List Char} (h : allBlank gap = true) :
    brackets.IsLevelUnquoted gap :=
  Bracketing.isLevelUnquoted_of_plain (notMem_of_allBlank h (by decide)) fun c hc hbracket =>
    notMem_of_allBlank h (isBlank_bracket c hbracket) hc

/-- An argument as it is written in a list: a level text that neither begins nor ends with a blank,
and the blanks around it. -/
structure Argument where
  before : List Char
  text : List Char
  behind : List Char
  blank_before : allBlank before = true
  blank_behind : allBlank behind = true
  trimmed : IsTrimmed text
  level : brackets.IsLevelUnquoted text

namespace Argument

def written (a : Argument) : List Char :=
  a.before ++ (a.text ++ a.behind)

theorem trim_written (a : Argument) : trim a.written = a.text := by
  rw [written, trim_append a.trimmed a.blank_behind, trimStart_eq_nil a.blank_before,
    List.nil_append]

theorem allBlank_written (a : Argument) : allBlank a.written = false := by
  obtain ⟨c, hfirst, -⟩ := a.trimmed.first
  rw [← Bool.not_eq_true, ← trim_eq_nil_iff, a.trim_written]
  intro hnil
  rw [hnil] at hfirst
  cases hfirst

theorem scan_written (a : Argument) : a.written.foldlM within? .start = some .start :=
  scan_list_of_level ((isLevelUnquoted_of_allBlank a.blank_before).append
    (a.level.append (isLevelUnquoted_of_allBlank a.blank_behind)))

end Argument

/-- Level texts are read back whatever blanks stand around the commas. -/
theorem splitTopLevel_written (as : List Argument) :
    splitTopLevel ([','].intercalate (as.map Argument.written)) = as.map Argument.text := by
  by_cases hnone : as = []
  · subst hnone
    rfl
  have hne : as.map Argument.written ≠ [] := mt List.map_eq_nil_iff.mp hnone
  have happart : ComeApart .start (as.map Argument.written) :=
    comeApart_of_within hne (List.forall_mem_map.mpr fun a _ => a.scan_written)
  rw [(splitTopLevel_intercalate_iff hne
    (List.forall_mem_map.mpr fun a _ => a.allBlank_written)).mpr happart, List.map_map]
  exact List.map_congr_left fun a _ => a.trim_written

/-! ## The arguments of any text -/

/-- A text and what stands in it one behind the other, parted by commas: all the rest is blanks and
commas. -/
inductive HasArguments : List Char → List (List Char) → Prop
  | none {gap : List Char} (outside : ∀ c ∈ gap, isBlank c = true ∨ c = ',') : HasArguments gap []
  | last {gap a behind : List Char} (outside : ∀ c ∈ gap, isBlank c = true ∨ c = ',')
      (blank : ∀ c ∈ behind, isBlank c = true) : HasArguments (gap ++ (a ++ behind)) [a]
  | cons {gap a behind rest : List Char} {as : List (List Char)}
      (outside : ∀ c ∈ gap, isBlank c = true ∨ c = ',') (blank : ∀ c ∈ behind, isBlank c = true)
      (more : HasArguments rest as) : HasArguments (gap ++ (a ++ (behind ++ ',' :: rest))) (a :: as)

namespace HasArguments

variable {cs gap : List Char} {as : List (List Char)}

/-- More blanks and commas may stand in front. -/
theorem append_left (hgap : ∀ c ∈ gap, isBlank c = true ∨ c = ',') (h : HasArguments cs as) :
    HasArguments (gap ++ cs) as := by
  have hboth {gap' : List Char} (hgap' : ∀ c ∈ gap', isBlank c = true ∨ c = ',') :
      ∀ c ∈ gap ++ gap', isBlank c = true ∨ c = ',' := fun c hc =>
    (List.mem_append.mp hc).elim (hgap c) (hgap' c)
  cases h with
  | none outside => exact .none (hboth outside)
  | last outside blank =>
      rw [← List.append_assoc]
      exact .last (hboth outside) blank
  | cons outside blank more =>
      rw [← List.append_assoc]
      exact .cons (hboth outside) blank more

end HasArguments

theorem hasArguments_part (t : List Char) : HasArguments t (argumentsOf [t]) := by
  cases ht : allBlank t with
  | true =>
      rw [argumentsOf_cons_blank ht]
      exact .none fun c hc => Or.inl (List.all_eq_true.mp ht c hc)
  | false =>
      obtain ⟨before, behind, hsplit, hbefore, hbehind⟩ := exists_trim t
      have hlast := HasArguments.last (a := trim t) (fun c hc => Or.inl (hbefore c hc)) hbehind
      rw [← hsplit] at hlast
      rwa [argumentsOf_cons ht]

theorem hasArguments_cons {cs : List Char} (t : List Char) (h : HasArguments cs (argumentsOf ts)) :
    HasArguments (t ++ ',' :: cs) (argumentsOf (t :: ts)) := by
  cases ht : allBlank t with
  | true =>
      -- a part that is left out stands in front of the next argument, and its comma with it
      have hgap : ∀ c ∈ t ++ [','], isBlank c = true ∨ c = ',' := fun c hc =>
        (List.mem_append.mp hc).imp (List.all_eq_true.mp ht c) List.mem_singleton.mp
      rw [argumentsOf_cons_blank ht, List.append_cons]
      exact h.append_left hgap
  | false =>
      obtain ⟨before, behind, hsplit, hbefore, hbehind⟩ := exists_trim t
      have hcons := HasArguments.cons (a := trim t) (fun c hc => Or.inl (hbefore c hc)) hbehind h
      have htext : before ++ (trim t ++ (behind ++ ',' :: cs)) = t ++ ',' :: cs := by
        rw [← List.append_assoc (trim t), ← List.append_assoc before, ← hsplit]
      rw [htext] at hcons
      rwa [argumentsOf_cons ht]

theorem hasArguments_intercalate (ts : List (List Char)) :
    HasArguments ([','].intercalate ts) (argumentsOf ts) := by
  induction ts with
  | nil => exact .none (by simp)
  | cons t ts ih =>
      by_cases hnone : ts = []
      · subst hnone
        rw [List.intercalate_singleton]
        exact hasArguments_part t
      · rw [List.intercalate_cons_of_ne_nil hnone, List.append_assoc, List.singleton_append]
        exact hasArguments_cons t ih

/-- The arguments of a text stand in it in order, apart from each other. -/
theorem hasArguments_splitTopLevel (cs : List Char) : HasArguments cs (splitTopLevel cs) := by
  have hparts := hasArguments_intercalate (partsFrom .start cs)
  rwa [intercalate_partsFrom] at hparts

/-- Cutting a list at its commas undoes the writing of it: level texts are read back as they are,
whatever blanks stand around the commas between them.  What is read of any text neither begins nor
ends with a blank, and stands in the text in order and apart from what else is read. -/
theorem arguments_read_back :
    (∀ as : List Argument,
      splitTopLevel ([','].intercalate (as.map Argument.written)) = as.map Argument.text) ∧
    ∀ cs, (∀ a ∈ splitTopLevel cs, IsTrimmed a) ∧ HasArguments cs (splitTopLevel cs) :=
  ⟨splitTopLevel_written, fun cs =>
    ⟨fun _ ha => isTrimmed_of_mem_argumentsOf ha, hasArguments_splitTopLevel cs⟩⟩

/-- A comma between angle brackets, and one behind an escaped quotation mark in a string literal. -/
theorem arguments_read_back_escaped :
    splitTopLevel "Func<int, bool> test ,\n Obsolete(\"\\\",(\")".toList =
        ["Func<int, bool> test".toList, "Obsolete(\"\\\",(\")".toList] ∧
      "Func<int, bool> test".toList ∈
        splitTopLevel "Func<int, bool> test ,\n Obsolete(\"\\\",(\")".toList ∧
      IsTrimmed "Func<int, bool> test".toList := by
  have hquotation : IsQuotation ['\\', '"', ',', '(', '"'] :=
    .escape '"' (.char (by decide) (by decide) (.char (by decide) (by decide) .close))
  have hmark : '"' ∉ "Obsolete(".toList := by decide
  have hopen : Unquoted "Obsolete(".toList "Obsolete(".toList :=
    .refl fun _ hc hquote => hmark (hquote ▸ hc)
  have hlevel : brackets.IsLevelUnquoted "Obsolete(\"\\\",(\")".toList :=
    ⟨"Obsolete()".toList, hopen.append (.literal hquotation (.char (by decide) .nil)), by decide⟩
  have hread : splitTopLevel "Func<int, bool> test ,\n Obsolete(\"\\\",(\")".toList =
      ["Func<int, bool> test".toList, "Obsolete(\"\\\",(\")".toList] :=
    arguments_read_back.1
      [⟨[], "Func<int, bool> test".toList, [' '], rfl, rfl, by decide,
          Bracketing.IsLevel.isLevelUnquoted (by decide) (by decide)⟩,
        ⟨"\n ".toList, "Obsolete(\"\\\",(\")".toList, [], rfl, rfl, by decide, hlevel⟩]
  have hmem : "Func<int, bool> test".toList ∈
      splitTopLevel "Func<int, bool> test ,\n Obsolete(\"\\\",(\")".toList := by
    rw [hread]
    exact List.mem_cons_self
  exact ⟨hread, hmem, (arguments_read_back.2 _).1 _ hmem⟩

/-! ## How deep a scan gets -/

namespace Nesting

/-- The bracket depth at which a scan stands. -/
def depth : Nesting → Int
  | .outside d => d
  | .quoted d _ => d

theorem natAbs_depth_next_le (n : Nesting) (c : Char) :
    (n.next c).depth.natAbs ≤ n.depth.natAbs + 1 := by
  cases n with
  | outside d =>
      rw [next]
      split
      · exact Nat.le_succ _
      split
      · simp only [depth]
        omega
      split
      · simp only [depth]
        omega
      · exact Nat.le_succ _
  | quoted d escaped =>
      have hsame : ((Nesting.quoted d escaped).next c).depth = d := by
        cases escaped with
        | true => rfl
        | false =>
            rw [next]
            split
            · rfl
            split <;> rfl
      rw [hsame]
      exact Nat.le_succ _

/-- A scan is never further from depth zero than it has passed characters, so a counter of fixed
width holds the depth in every text of which it holds the length. -/
theorem natAbs_depth_scan_le (cs : List Char) :
    (cs.foldl next .start).depth.natAbs ≤ cs.length := by
  have hfrom (n : Nesting) : (cs.foldl next n).depth.natAbs ≤ n.depth.natAbs + cs.length := by
    induction cs generalizing n with
    | nil => exact Nat.le_refl _
    | cons c cs ih =>
        have hstep := natAbs_depth_next_le n c
        have hrun := ih (n.next c)
        rw [List.foldl_cons, List.length_cons]
        omega
  have hstart := hfrom .start
  rwa [start, depth, Int.natAbs_zero, Nat.zero_add] at hstart

end Nesting

end ComponentAtlas.Text
