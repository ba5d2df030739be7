import ComponentAtlas.Razor.CodeBlock
import ComponentAtlas.Text.TopLevel

/-!
# Brackets outside of string literals

Two scans pass over string literals and count brackets in what is left: the one that looks for the
end of a code block, and the one that cuts a list at its commas.  What both should see is said here
without either of them: a text has characters outside of its string literals (`Unquoted`), and
these are level for some kinds of brackets when every bracket has its other half and certain signs
stand within brackets only (`Bracketing.IsLevel`).

The first scan comes back to where it began exactly when the braces are level
(`scan_block_iff`); the second does when all brackets are, commas within them
(`scan_list_of_level`), and then no comma was taken for the end of a part.
-/

namespace ComponentAtlas.Text

/-! ## Outside of string literals -/

/-- What follows the opening mark of a string literal, to its closing mark.  A backslash takes the
next character with it. -/
inductive IsQuotation : List Char → Prop
  | close : IsQuotation ['"']
  | escape (c : Char) {q : List Char} (rest : IsQuotation q) : IsQuotation ('\\' :: c :: q)
  | char {c : Char} {q : List Char} (mark : c ≠ '"') (backslash : c ≠ '\\')
      (rest : IsQuotation q) : IsQuotation (c :: q)

/-- A text of which all string literals are closed, and its characters outside of them. -/
inductive Unquoted : List Char → List Char → Prop
  | nil : Unquoted [] []
  | char {c : Char} {cs out : List Char} (mark : c ≠ '"') (rest : Unquoted cs out) :
      Unquoted (c :: cs) (c :: out)
  | literal {q cs out : List Char} (quotation : IsQuotation q) (rest : Unquoted cs out) :
      Unquoted ('"' :: (q ++ cs)) out

namespace Unquoted

theorem append {cs ds out out' : List Char} (h : Unquoted cs out) (h' : Unquoted ds out') :
    Unquoted (cs ++ ds) (out ++ out') := by
  induction h with
  | nil => exact h'
  | char mark _ ih => exact .char mark ih
  | literal quotation _ ih =>
      rw [List.cons_append, List.append_assoc]
      exact .literal quotation ih

/-- A text without a string literal. -/
theorem refl {cs : List Char} (h : ∀ c ∈ cs, c ≠ '"') : Unquoted cs cs := by
  induction cs with
  | nil => exact .nil
  | cons c cs ih =>
      exact .char (h c List.mem_cons_self) (ih fun d hd => h d (List.mem_cons_of_mem _ hd))

/-- A text that is one string literal. -/
theorem of_quotation {q : List Char} (h : IsQuotation q) : Unquoted ('"' :: q) [] := by
  have hliteral := Unquoted.literal h .nil
  rwa [List.append_nil] at hliteral

end Unquoted

/-! ## Brackets -/

/-- Some kinds of brackets, all counted alike, and signs that should stand within them. -/
structure Bracketing where
  opening : List Char
  closing : List Char
  inner : List Char

namespace Bracketing

/-- The depth behind one more character; `none` when it closes what is not open, or should stand
within brackets and does not. -/
def next? (b : Bracketing) (depth : Nat) (c : Char) : Option Nat :=
  if b.opening.contains c then some (depth + 1)
  else if b.closing.contains c then
    match depth with
    | 0 => none
    | d + 1 => some d
  else if b.inner.contains c then
    match depth with
    | 0 => none
    | d + 1 => some (d + 1)
  else some depth

/-- Whether every bracket of a text has its other half, and the inner signs stand within
brackets. -/
def IsLevel (b : Bracketing) (cs : List Char) : Prop :=
  cs.foldlM b.next? 0 = some 0

instance decidableIsLevel (b : Bracketing) (cs : List Char) : Decidable (b.IsLevel cs) :=
  inferInstanceAs (Decidable (_ = _))

/-- Whether the string literals of a text are closed and the text is level outside of them. -/
def IsLevelUnquoted (b : Bracketing) (cs : List Char) : Prop :=
  ∃ out, Unquoted cs out ∧ b.IsLevel out

variable {b : Bracketing}

/-- At a greater depth no more can go wrong. -/
theorem next?_add {c : Char} {d e : Nat} (h : b.next? d c = some e) (k : Nat) :
    b.next? (d + k) c = some (e + k) := by
  unfold next? at h ⊢
  split at h
  · rename_i hopen
    rw [if_pos hopen, ← Option.some.inj h, Nat.add_right_comm]
  rename_i hopen
  rw [if_neg hopen]
  split at h
  · rename_i hclose
    rw [if_pos hclose]
    cases d with
    | zero => cases h
    | succ d =>
        obtain rfl := Option.some.inj h
        rw [Nat.add_right_comm]
  rename_i hclose
  rw [if_neg hclose]
  split at h
  · rename_i hinner
    rw [if_pos hinner]
    cases d with
    | zero => cases h
    | succ d =>
        obtain rfl := Option.some.inj h
        rw [Nat.add_right_comm]
  · rename_i hinner
    rw [if_neg hinner, ← Option.some.inj h]

theorem foldlM_next?_add {cs : List Char} {d e : Nat} (h : cs.foldlM b.next? d = some e)
    (k : Nat) : cs.foldlM b.next? (d + k) = some (e + k) := by
  induction cs generalizing d with
  | nil => rw [← Option.some.inj h]; rfl
  | cons c cs ih =>
      rw [List.foldlM_cons] at h ⊢
      obtain ⟨d', hd', hrest⟩ := Option.bind_eq_some_iff.mp h
      exact Option.bind_eq_some_iff.mpr ⟨d' + k, next?_add hd' k, ih hrest⟩

/-- A level text leaves the depth as it is. -/
theorem IsLevel.foldlM_eq {cs : List Char} (h : b.IsLevel cs) (d : Nat) :
    cs.foldlM b.next? d = some d := by
  have hdeeper := foldlM_next?_add h d
  rwa [Nat.zero_add] at hdeeper

theorem isLevel_nil : b.IsLevel [] := rfl

theorem IsLevel.append {cs ds : List Char} (h : b.IsLevel cs) (h' : b.IsLevel ds) :
    b.IsLevel (cs ++ ds) := by
  unfold IsLevel at h ⊢
  rw [List.foldlM_append, h]
  exact h'

theorem IsLevel.isLevelUnquoted {cs : List Char} (h : b.IsLevel cs) (hmark : '"' ∉ cs) :
    b.IsLevelUnquoted cs :=
  ⟨cs, .refl fun _ hc hquote => hmark (hquote ▸ hc), h⟩

/-- A text without brackets, inner signs and quotation marks is level. -/
theorem isLevelUnquoted_of_plain {cs : List Char} (hmark : '"' ∉ cs)
    (h : ∀ c ∈ cs, c ∉ b.opening ++ b.closing ++ b.inner) : b.IsLevelUnquoted cs := by
  refine IsLevel.isLevelUnquoted ?_ hmark
  clear hmark
  induction cs with
  | nil => rfl
  | cons c cs ih =>
      obtain ⟨hc, hcs⟩ := List.forall_mem_cons.mp h
      simp only [List.mem_append, not_or] at hc
      have hsame : b.next? 0 c = some 0 := by simp [next?, hc.1.1, hc.1.2, hc.2]
      rw [IsLevel, List.foldlM_cons, hsame]
      exact ih hcs

theorem IsLevelUnquoted.append {cs ds : List Char} (h : b.IsLevelUnquoted cs)
    (h' : b.IsLevelUnquoted ds) : b.IsLevelUnquoted (cs ++ ds) := by
  obtain ⟨out, hout, hlevel⟩ := h
  obtain ⟨out', hout', hlevel'⟩ := h'
  exact ⟨out ++ out', hout.append hout', hlevel.append hlevel'⟩

end Bracketing

/-- The braces of a block of code. -/
def braces : Bracketing :=
  ⟨['\x7b'], ['}'], []⟩

/-- All brackets of a list, with its commas between them. -/
def brackets : Bracketing :=
  ⟨['<', '(', '[', '\x7b'], ['>', ')', ']', '}'], [',']⟩

end ComponentAtlas.Text

/-! ## The scan of a code block -/

namespace ComponentAtlas.Razor

open Text

theorem next?_code {c : Char} (hc : c ≠ '"') (d : Nat) :
    (BlockPlace.code d).next? c = (braces.next? d c).map .code := by
  unfold BlockPlace.next? Bracketing.next? braces
  by_cases hopen : c = '\x7b'
  · simp [hopen]
  by_cases hclose : c = '}'
  · cases d <;> simp [hclose]
  · simp [hc, hopen, hclose]

theorem scan_block_quotation {q : List Char} (h : IsQuotation q) (d : Nat) :
    q.foldlM BlockPlace.next? (.quoted d false) = some (.code d) := by
  induction h with
  | close => rfl
  | escape c _ ih => exact ih
  | char mark backslash _ ih =>
      rw [List.foldlM_cons, BlockPlace.next?, if_neg backslash, if_neg mark]
      exact ih

/-- The scan passes over string literals and counts the braces outside of them. -/
theorem scan_block_unquoted {cs out : List Char} (h : Unquoted cs out) (d : Nat) :
    cs.foldlM BlockPlace.next? (.code d) = (out.foldlM braces.next? d).map .code := by
  induction h generalizing d with
  | nil => rfl
  | char mark _ ih =>
      rw [List.foldlM_cons, List.foldlM_cons, next?_code mark]
      cases braces.next? d _ with
      | none => rfl
      | some e => exact ih e
  | @literal q cs out quotation _ ih =>
      have hopen : (BlockPlace.code d).next? '"' = some (.quoted d false) := rfl
      rw [List.foldlM_cons, hopen, Option.bind_eq_bind, Option.bind_some, List.foldlM_append,
        scan_block_quotation quotation]
      exact ih d

theorem exists_quotation {cs : List Char} {d e : Nat}
    (h : cs.foldlM BlockPlace.next? (.quoted d false) = some (.code e)) :
    ∃ q rest, cs = q ++ rest ∧ IsQuotation q ∧
      rest.foldlM BlockPlace.next? (.code d) = some (.code e) := by
  match cs with
  | [] => cases h
  | c :: cs =>
    by_cases hescape : c = '\\'
    · subst hescape
      match cs with
      | [] => cases h
      | c :: cs =>
        obtain ⟨q, rest, rfl, hq, hrest⟩ := @exists_quotation cs _ _ h
        exact ⟨'\\' :: c :: q, rest, rfl, .escape c hq, hrest⟩
    by_cases hmark : c = '"'
    · subst hmark
      exact ⟨['"'], cs, rfl, .close, h⟩
    · rw [List.foldlM_cons, BlockPlace.next?, if_neg hescape, if_neg hmark] at h
      obtain ⟨q, rest, rfl, hq, hrest⟩ := @exists_quotation cs _ _ h
      exact ⟨c :: q, rest, rfl, .char hmark hescape hq, hrest⟩

theorem exists_unquoted {cs : List Char} {d e : Nat}
    (h : cs.foldlM BlockPlace.next? (.code d) = some (.code e)) :
    ∃ out, Unquoted cs out ∧ out.foldlM braces.next? d = some e := by
  match cs with
  | [] =>
    obtain rfl := BlockPlace.code.inj (Option.some.inj h)
    exact ⟨[], .nil, rfl⟩
  | c :: cs =>
    by_cases hmark : c = '"'
    · subst hmark
      obtain ⟨q, rest, hsplit, hq, hrest⟩ := @exists_quotation cs _ _ h
      have hshorter : rest.length < (['"'] ++ cs).length := by
        rw [hsplit]
        simp only [List.length_append, List.length_singleton]
        omega
      obtain ⟨out, hout, hlevel⟩ := exists_unquoted hrest
      rw [hsplit]
      exact ⟨out, .literal hq hout, hlevel⟩
    · rw [List.foldlM_cons, next?_code hmark] at h
      obtain ⟨place, hplace, hrest⟩ := Option.bind_eq_some_iff.mp h
      obtain ⟨d', hd', rfl⟩ := Option.map_eq_some_iff.mp hplace
      obtain ⟨out, hout, hlevel⟩ := exists_unquoted hrest
      refine ⟨c :: out, .char hmark hout, ?_⟩
      rw [List.foldlM_cons, hd']
      exact hlevel
termination_by cs.length

/-- The scan comes back to where it began, without an end of the block before, exactly when the
braces are level outside of the string literals. -/
theorem scan_block_iff {cs : List Char} :
    cs.foldlM BlockPlace.next? (.code 0) = some (.code 0) ↔ braces.IsLevelUnquoted cs := by
  refine ⟨exists_unquoted, fun h => ?_⟩
  obtain ⟨out, hout, hlevel⟩ := h
  rw [scan_block_unquoted hout, hlevel]
  rfl

end ComponentAtlas.Razor

/-! ## The scan of a list -/

namespace ComponentAtlas.Text

namespace Nesting

/-- Where the scan stands behind a character of a part; `none` when that ends the part. -/
def within? (n : Nesting) (c : Char) : Option Nesting :=
  if c = ',' ∧ n.separates then none else some (n.next c)

theorem within?_quoted (depth : Int) (escaped : Bool) (c : Char) :
    (Nesting.quoted depth escaped).within? c = some ((Nesting.quoted depth escaped).next c) :=
  if_neg fun h => Bool.noConfusion h.2

end Nesting

open Nesting

theorem within?_outside {c : Char} (hc : c ≠ '"') {d e : Nat} (h : brackets.next? d c = some e) :
    (Nesting.outside d).within? c = some (.outside e) := by
  unfold Bracketing.next? brackets at h
  simp only [List.contains_cons, List.contains_nil, Bool.or_eq_true, beq_iff_eq,
    Bool.or_false] at h
  unfold within? next separates
  split at h
  · rename_i hopen
    obtain rfl := Option.some.inj h
    have hcomma : c ≠ ',' := by rintro rfl; simp at hopen
    rw [if_neg (fun h => hcomma h.1)]
    simp only [if_neg hc, if_pos hopen]
    rfl
  rename_i hopen
  split at h
  · rename_i hclose
    have hcomma : c ≠ ',' := by rintro rfl; simp at hclose
    rw [if_neg (fun h => hcomma h.1)]
    cases d with
    | zero => cases h
    | succ d =>
        obtain rfl := Option.some.inj h
        have hback : ((d + 1 : Nat) : Int) - 1 = d := by omega
        simp only [if_neg hc, if_neg hopen, if_pos hclose, hback]
  rename_i hclose
  split at h
  · rename_i hcomma
    cases d with
    | zero => cases h
    | succ d =>
        obtain rfl := Option.some.inj h
        simp [hcomma]
  · rename_i hcomma
    obtain rfl := Option.some.inj h
    simp [hcomma, hc, hopen, hclose]

theorem scan_list_quotation {q : List Char} (h : IsQuotation q) (d : Int) :
    q.foldlM within? (.quoted d false) = some (.outside d) := by
  induction h with
  | close => rfl
  | @escape c q _ ih =>
      have hescaped : (c :: q).foldlM within? (.quoted d true) = some (.outside d) := by
        rw [List.foldlM_cons, within?_quoted]
        exact ih
      exact hescaped
  | char mark backslash _ ih =>
      rw [List.foldlM_cons, within?_quoted, next, if_neg backslash, if_neg mark]
      exact ih

theorem scan_list_unquoted {cs out : List Char} (h : Unquoted cs out) {d e : Nat}
    (hlevel : out.foldlM brackets.next? d = some e) :
    cs.foldlM within? (.outside d) = some (.outside e) := by
  induction h generalizing d with
  | nil => rw [← Option.some.inj hlevel]; rfl
  | char mark _ ih =>
      rw [List.foldlM_cons] at hlevel ⊢
      obtain ⟨d', hd', hrest⟩ := Option.bind_eq_some_iff.mp hlevel
      exact Option.bind_eq_some_iff.mpr ⟨_, within?_outside mark hd', ih hrest⟩
  | @literal q cs out quotation _ ih =>
      have hopen : (Nesting.outside d).within? '"' = some (.quoted d false) := rfl
      rw [List.foldlM_cons, hopen, Option.bind_eq_bind, Option.bind_some, List.foldlM_append,
        scan_list_quotation quotation]
      exact ih hlevel

/-- A text with all brackets level outside of its string literals, commas within them, is part of
one part. -/
theorem scan_list_of_level {cs : List Char} (h : brackets.IsLevelUnquoted cs) :
    cs.foldlM within? .start = some .start := by
  obtain ⟨out, hout, hlevel⟩ := h
  exact scan_list_unquoted hout hlevel

end ComponentAtlas.Text
