import ComponentAtlas.Text.Blank

/-!
# Trimmed texts
-/

namespace ComponentAtlas.Text

/-- The code points of the blanks. -/
def blankCodes : List Nat :=
  List.range' 9 5 ++ [32, 0x85, 0xA0, 0x1680] ++ List.range' 0x2000 11 ++
    [0x2028, 0x2029, 0x202F, 0x205F, 0x3000]

/-- What is to be seen of all blanks can be checked on finitely many code points. -/
theorem toNat_mem_blankCodes {c : Char} (h : isBlank c = true) : c.toNat ∈ blankCodes := by
  simp only [isBlank, Bool.or_eq_true, Bool.and_eq_true, decide_eq_true_eq, beq_iff_eq] at h
  simp only [blankCodes, List.mem_append, List.mem_range'_1, List.mem_cons, List.not_mem_nil,
    or_false]
  grind

theorem dropWhile_eq_self {p : Char → Bool} {cs : List Char} (h : ∀ c ∈ cs, p c = false) :
    cs.dropWhile p = cs := by
  cases cs with
  | nil => rfl
  | cons c cs => rw [List.dropWhile_cons, h c List.mem_cons_self, if_neg Bool.false_ne_true]

theorem takeWhile_eq_self {p : Char → Bool} {cs : List Char} (h : ∀ c ∈ cs, p c = true) :
    cs.takeWhile p = cs := by
  have happend : (cs ++ []).takeWhile p = cs ++ [].takeWhile p := List.takeWhile_append_of_pos h
  rwa [List.append_nil, List.takeWhile_nil, List.append_nil] at happend

theorem dropEndWhile_eq_self {p : Char → Bool} {cs : List Char} (h : ∀ c ∈ cs, p c = false) :
    dropEndWhile p cs = cs := by
  rw [dropEndWhile, dropWhile_eq_self fun c hc => h c (List.mem_reverse.mp hc),
    List.reverse_reverse]

theorem dropEndWhile_eq_nil_iff {p : Char → Bool} {cs : List Char} :
    dropEndWhile p cs = [] ↔ ∀ c ∈ cs, p c = true := by
  unfold dropEndWhile
  rw [List.reverse_eq_nil_iff]
  constructor
  · intro h
    have hany := List.any_dropWhile (p := p) (l := cs.reverse)
    rw [h] at hany
    simpa using hany
  · intro h
    have hall : ∀ c ∈ cs.reverse, p c = true := fun c hc => h c (List.mem_reverse.mp hc)
    have hdrop : (cs.reverse ++ []).dropWhile p = [] := List.dropWhile_append_of_pos hall
    rwa [List.append_nil] at hdrop

/-- Trimming leaves nothing exactly of a text without anything but blanks. -/
theorem trim_eq_nil_iff {cs : List Char} : trim cs = [] ↔ allBlank cs = true := by
  simp only [trim, trimEnd, trimStart, allBlank, dropEndWhile_eq_nil_iff, List.all_eq_true]
  constructor
  · intro h
    -- a text that begins with something else would keep it through both trims
    have hany := List.any_dropWhile (p := isBlank) (l := cs)
    have hnone : (cs.dropWhile isBlank).any (fun c => !isBlank c) = false :=
      List.any_eq_false.mpr fun c hc => by simp [h c hc]
    rw [hnone] at hany
    simpa using hany
  · intro h c hc
    exact h c (List.dropWhile_subset isBlank hc)

theorem trim_cons_blank {c : Char} (h : isBlank c = true) (cs : List Char) :
    trim (c :: cs) = trim cs := by
  rw [trim, trimStart, List.dropWhile_cons_of_pos h]
  rfl

theorem exists_trimStart (cs : List Char) :
    ∃ before, cs = before ++ trimStart cs ∧ ∀ c ∈ before, isBlank c = true :=
  ⟨cs.takeWhile isBlank, List.takeWhile_append_dropWhile.symm,
    fun c hc => List.all_eq_true.mp List.all_takeWhile c hc⟩

theorem exists_trimEnd (cs : List Char) :
    ∃ behind, cs = trimEnd cs ++ behind ∧ ∀ c ∈ behind, isBlank c = true := by
  obtain ⟨before, hsplit, hblank⟩ := exists_trimStart cs.reverse
  refine ⟨before.reverse, ?_, fun c hc => hblank c (List.mem_reverse.mp hc)⟩
  have hreverse := congrArg List.reverse hsplit
  rwa [List.reverse_reverse, List.reverse_append] at hreverse

/-- Trimming takes blanks off either side. -/
theorem exists_trim (cs : List Char) :
    ∃ before behind, cs = before ++ (trim cs ++ behind) ∧ (∀ c ∈ before, isBlank c = true) ∧
      ∀ c ∈ behind, isBlank c = true := by
  obtain ⟨before, hstart, hbefore⟩ := exists_trimStart cs
  obtain ⟨behind, hend, hbehind⟩ := exists_trimEnd (trimStart cs)
  refine ⟨before, behind, ?_, hbefore, hbehind⟩
  rw [trim, ← hend, ← hstart]

theorem head?_trimStart (cs : List Char) : ∀ c ∈ (trimStart cs).head?, isBlank c = false := by
  intro c hc
  have hnot := List.head?_dropWhile_not isBlank cs
  rw [← trimStart, Option.mem_def.mp hc] at hnot
  exact hnot

theorem getLast?_trimEnd (cs : List Char) : ∀ c ∈ (trimEnd cs).getLast?, isBlank c = false := by
  intro c hc
  rw [trimEnd, dropEndWhile, List.getLast?_reverse] at hc
  exact head?_trimStart cs.reverse c hc

/-- A text with something else than a blank at either end. -/
structure IsTrimmed (cs : List Char) : Prop where
  first : ∃ c, cs.head? = some c ∧ isBlank c = false
  last : ∃ c, cs.getLast? = some c ∧ isBlank c = false

theorem isTrimmed_iff {cs : List Char} : IsTrimmed cs ↔
    (cs.head?.any (!isBlank ·) && cs.getLast?.any (!isBlank ·)) = true := by
  rw [Bool.and_eq_true, Option.any_eq_true, Option.any_eq_true]
  simp only [Bool.not_eq_true']
  exact ⟨fun h => ⟨h.first, h.last⟩, fun h => ⟨h.1, h.2⟩⟩

instance decidableIsTrimmed (cs : List Char) : Decidable (IsTrimmed cs) :=
  decidable_of_decidable_of_iff isTrimmed_iff.symm

theorem IsTrimmed.trim_eq {cs : List Char} (h : IsTrimmed cs) : trim cs = cs := by
  obtain ⟨c, hfirst, hc⟩ := h.first
  obtain ⟨d, hlast, hd⟩ := h.last
  obtain ⟨cs', rfl⟩ := List.head?_eq_some_iff.mp hfirst
  obtain ⟨front, hfront⟩ := List.getLast?_eq_some_iff.mp hlast
  have hstart : trimStart (c :: cs') = c :: cs' := List.dropWhile_cons_of_neg (by simp [hc])
  rw [trim, hstart, hfront, trimEnd, dropEndWhile, List.reverse_append, List.reverse_singleton,
    List.singleton_append, List.dropWhile_cons_of_neg (by simp [hd]), List.reverse_cons,
    List.reverse_reverse]

theorem isTrimmed_trim {cs : List Char} (h : trim cs ≠ []) : IsTrimmed (trim cs) where
  first := by
    -- the blanks taken off behind the first character leave it where it is
    obtain ⟨behind, hsplit, -⟩ := exists_trimEnd (trimStart cs)
    have hhead : (trimStart cs).head? = some ((trim cs).head h) := by
      rw [hsplit, List.head?_append, ← trim, List.head?_eq_some_head h, Option.some_or]
    exact ⟨(trim cs).head h, List.head?_eq_some_head h, head?_trimStart cs _ hhead⟩
  last := ⟨(trim cs).getLast h, List.getLast?_eq_some_getLast h,
    getLast?_trimEnd (trimStart cs) _ (List.getLast?_eq_some_getLast h)⟩

/-- Whatever stands between two trimmed texts, all of it is trimmed. -/
theorem IsTrimmed.between {cs ds : List Char} (hcs : IsTrimmed cs) (hds : IsTrimmed ds)
    (inner : List Char) : IsTrimmed (cs ++ (inner ++ ds)) := by
  obtain ⟨c, hfirst, hc⟩ := hcs.first
  obtain ⟨d, hlast, hd⟩ := hds.last
  obtain ⟨rest, rfl⟩ := List.head?_eq_some_iff.mp hfirst
  obtain ⟨front, rfl⟩ := List.getLast?_eq_some_iff.mp hlast
  refine ⟨⟨c, rfl, hc⟩, d, ?_, hd⟩
  rw [← List.append_assoc, ← List.append_assoc, List.getLast?_concat]

theorem isTrimmed_of_solid {w : List Char} (hw : w ≠ []) (h : ∀ c ∈ w, isBlank c = false) :
    IsTrimmed w where
  first := ⟨w.head hw, List.head?_eq_some_head hw, h _ (List.head_mem hw)⟩
  last := ⟨w.getLast hw, List.getLast?_eq_some_getLast hw, h _ (List.getLast_mem hw)⟩

theorem infix_of_blanks {op before cs : List Char} (hop : IsTrimmed op)
    (hblank : ∀ c ∈ before, isBlank c = true) (h : op <:+: before ++ cs) : op <:+: cs := by
  induction before with
  | nil => exact h
  | cons b before ih =>
      obtain ⟨hb, hblank⟩ := List.forall_mem_cons.mp hblank
      rw [List.cons_append, List.infix_cons_iff] at h
      refine h.elim (fun hprefix => ?_) (ih hblank)
      obtain ⟨c, hhead, hc⟩ := hop.first
      obtain ⟨op, rfl⟩ := List.head?_eq_some_iff.mp hhead
      rw [(List.cons_prefix_cons.mp hprefix).1, hb] at hc
      cases hc

theorem IsTrimmed.reverse {cs : List Char} (h : IsTrimmed cs) : IsTrimmed cs.reverse where
  first := by rw [List.head?_reverse]; exact h.last
  last := by rw [List.getLast?_reverse]; exact h.first

/-- Trimming takes no trimmed part away. -/
theorem infix_trim_iff {op cs : List Char} (hop : IsTrimmed op) : op <:+: trim cs ↔ op <:+: cs := by
  obtain ⟨before, behind, hsplit, hbefore, hbehind⟩ := exists_trim cs
  constructor
  · intro h
    rw [hsplit]
    exact h.trans ⟨before, behind, List.append_assoc ..⟩
  · intro h
    rw [hsplit] at h
    have hend := List.reverse_infix.mpr (infix_of_blanks hop hbefore h)
    rw [List.reverse_append] at hend
    exact List.reverse_infix.mp
      (infix_of_blanks hop.reverse (by simpa using hbehind) hend)

section

variable {x y gap : List Char}

theorem trimStart_append_of_first (h : ∃ c, y.head? = some c ∧ isBlank c = false) :
    trimStart (x ++ y) = trimStart x ++ y := by
  obtain ⟨c, hhead, hc⟩ := h
  obtain ⟨rest, rfl⟩ := List.head?_eq_some_iff.mp hhead
  induction x with
  | nil => exact List.dropWhile_cons_of_neg (by simp [hc])
  | cons d x ih =>
      cases hd : isBlank d with
      | true =>
          rw [List.cons_append, trimStart, List.dropWhile_cons_of_pos hd, trimStart,
            List.dropWhile_cons_of_pos hd]
          exact ih
      | false =>
          rw [List.cons_append, trimStart, List.dropWhile_cons_of_neg (by simp [hd]), trimStart,
            List.dropWhile_cons_of_neg (by simp [hd]), List.cons_append]

theorem trimEnd_append_of_last (h : ∃ c, x.getLast? = some c ∧ isBlank c = false) :
    trimEnd (x ++ y) = x ++ trimEnd y := by
  obtain ⟨c, hlast, hc⟩ := h
  have hfirst : ∃ c, x.reverse.head? = some c ∧ isBlank c = false :=
    ⟨c, by rw [List.head?_reverse, hlast], hc⟩
  have hstart : (y.reverse ++ x.reverse).dropWhile isBlank
      = y.reverse.dropWhile isBlank ++ x.reverse := trimStart_append_of_first hfirst
  rw [trimEnd, dropEndWhile, List.reverse_append, hstart, List.reverse_append,
    List.reverse_reverse]
  rfl

theorem trimEnd_eq_nil (h : allBlank gap = true) : trimEnd gap = [] :=
  dropEndWhile_eq_nil_iff.mpr (List.all_eq_true.mp h)

/-- Trimming leaves what is trimmed with everything in front of it that is. -/
theorem trim_append (hy : IsTrimmed y) (hgap : allBlank gap = true) :
    trim (x ++ (y ++ gap)) = trimStart x ++ y := by
  have hfirst : ∃ c, (y ++ gap).head? = some c ∧ isBlank c = false := by
    obtain ⟨c, hhead, hc⟩ := hy.first
    exact ⟨c, by rw [List.head?_append, hhead]; rfl, hc⟩
  have hlast : ∃ c, (trimStart x ++ y).getLast? = some c ∧ isBlank c = false := by
    obtain ⟨c, hend, hc⟩ := hy.last
    exact ⟨c, by rw [List.getLast?_append, hend]; rfl, hc⟩
  rw [trim, trimStart_append_of_first hfirst, ← List.append_assoc, trimEnd_append_of_last hlast,
    trimEnd_eq_nil hgap, List.append_nil]

theorem trimStart_eq_nil (h : allBlank gap = true) : trimStart gap = [] := by
  have hall : ∀ c ∈ gap, isBlank c = true := List.all_eq_true.mp h
  have hdrop : (gap ++ []).dropWhile isBlank = [] := List.dropWhile_append_of_pos hall
  rwa [List.append_nil] at hdrop

theorem notMem_of_allBlank {c : Char} (h : allBlank gap = true) (hc : isBlank c = false) :
    c ∉ gap := fun hmem => by
  rw [List.all_eq_true.mp h c hmem] at hc
  cases hc

end

end ComponentAtlas.Text
