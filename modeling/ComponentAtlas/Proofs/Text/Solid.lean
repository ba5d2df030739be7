import ComponentAtlas.Proofs.Text.Blank

/-!
# The characters that are no blanks

Trimming and collapsing change blanks only: what else a text holds stays, in the same order
(`solid_trim`, `solid_collapse`).  The words of a text are these characters cut up at the blanks, so
two texts with a blank between them have the words of the one and then those of the other
(`words_append`).
-/

namespace ComponentAtlas.Text

/-- The characters of a text that are no blanks, in order. -/
def solid (cs : List Char) : List Char :=
  cs.filter fun c => !isBlank c

@[simp] theorem solid_nil : solid [] = [] := rfl

@[simp] theorem solid_append (cs ds : List Char) : solid (cs ++ ds) = solid cs ++ solid ds :=
  List.filter_append ..

theorem solid_cons_blank {c : Char} (h : isBlank c = true) (cs : List Char) :
    solid (c :: cs) = solid cs :=
  List.filter_cons_of_neg (by simp [h])

theorem solid_cons {c : Char} (h : isBlank c = false) (cs : List Char) :
    solid (c :: cs) = c :: solid cs :=
  List.filter_cons_of_pos (by simp [h])

theorem solid_eq_nil_iff {cs : List Char} : solid cs = [] ↔ ∀ c ∈ cs, isBlank c = true := by
  simp [solid]

theorem solid_eq_self {cs : List Char} (h : ∀ c ∈ cs, isBlank c = false) : solid cs = cs :=
  List.filter_eq_self.mpr fun c hc => by simp [h c hc]

/-- A text around which there is nothing but blanks. -/
theorem solid_between {before cs behind : List Char} (hbefore : ∀ c ∈ before, isBlank c = true)
    (hbehind : ∀ c ∈ behind, isBlank c = true) : solid (before ++ (cs ++ behind)) = solid cs := by
  rw [solid_append, solid_append, solid_eq_nil_iff.mpr hbefore, solid_eq_nil_iff.mpr hbehind,
    List.nil_append, List.append_nil]

@[simp] theorem solid_trim (cs : List Char) : solid (trim cs) = solid cs := by
  obtain ⟨before, behind, hsplit, hbefore, hbehind⟩ := exists_trim cs
  exact (congrArg solid hsplit |>.trans (solid_between hbefore hbehind)).symm

/-- A cut of two texts put together is a cut of the second or of the first. -/
theorem cut_cases {c : Char} {a b x y : List Char} (h : a ++ b = x ++ c :: y) :
    (∃ w, x = a ++ w ∧ b = w ++ c :: y) ∨ ∃ w, a = x ++ c :: w ∧ y = w ++ b := by
  rcases List.append_eq_append_iff.mp h with ⟨w, hx, hb⟩ | ⟨w, ha, hw⟩
  · exact Or.inl ⟨w, hx, hb⟩
  · cases w with
    | nil => exact Or.inl ⟨[], by rw [ha, List.append_nil, List.append_nil], hw.symm⟩
    | cons d w =>
        obtain ⟨rfl, rfl⟩ := List.cons.inj hw
        exact Or.inr ⟨w, ha, rfl⟩

/-- Two cuts of one text at a character that is no blank are the same when as many characters that
are no blanks stand in front of them. -/
theorem cut_unique {c : Char} (hc : isBlank c = false) {a b x y : List Char}
    (h : a ++ c :: x = b ++ c :: y) (hlength : (solid a).length = (solid b).length) :
    a = b ∧ x = y := by
  rcases cut_cases h with ⟨w, rfl, hw⟩ | ⟨w, rfl, -⟩
  · cases w with
    | nil => exact ⟨(List.append_nil a).symm, (List.cons.inj hw).2⟩
    | cons d w =>
        obtain ⟨rfl, -⟩ := List.cons.inj hw
        simp [solid_cons hc] at hlength
  · simp [solid_cons hc] at hlength

/-! ## Words -/

theorem wordsFrom_cons (c : Char) (cs : List Char) : wordsFrom (c :: cs) =
    if isBlank c then ([], words cs) else (c :: (wordsFrom cs).1, (wordsFrom cs).2) := rfl

theorem words_cons_blank {c : Char} (h : isBlank c = true) (cs : List Char) :
    words (c :: cs) = words cs := by
  unfold words
  rw [wordsFrom_cons, if_pos h]
  rfl

theorem words_cons {c : Char} (h : isBlank c = false) (cs : List Char) :
    words (c :: cs) = (c :: (wordsFrom cs).1) :: (wordsFrom cs).2 := by
  unfold words
  rw [wordsFrom_cons, if_neg (by simp [h])]
  rfl

/-- The words on either side of a blank. -/
theorem words_append {c : Char} (h : isBlank c = true) (cs ds : List Char) :
    words (cs ++ c :: ds) = words cs ++ words ds := by
  -- the first word is told apart from the others until the blank is reached
  have hfrom : wordsFrom (cs ++ c :: ds) = ((wordsFrom cs).1, (wordsFrom cs).2 ++ words ds) := by
    induction cs with
    | nil => rw [List.nil_append, wordsFrom_cons, if_pos h]; rfl
    | cons d cs ih =>
        have hwords : words (cs ++ c :: ds) = words cs ++ words ds := by
          unfold words at ih ⊢
          rw [ih]
          by_cases hfirst : (wordsFrom cs).1.isEmpty <;> simp [hfirst]
        rw [List.cons_append, wordsFrom_cons, wordsFrom_cons, hwords, ih]
        by_cases hd : isBlank d = true <;> simp [hd]
  have hsplit : words (cs ++ c :: ds) = if (wordsFrom cs).1.isEmpty then
      (wordsFrom cs).2 ++ words ds else (wordsFrom cs).1 :: ((wordsFrom cs).2 ++ words ds) := by
    rw [words.eq_1, hfrom]
  rw [hsplit, words.eq_1 cs]
  by_cases hfirst : (wordsFrom cs).1.isEmpty <;> simp [hfirst]

theorem words_solid {w : List Char} (hw : w ≠ []) (h : ∀ c ∈ w, isBlank c = false) :
    words w = [w] := by
  have hfrom : wordsFrom w = (w, []) := by
    clear hw
    induction w with
    | nil => rfl
    | cons c w ih =>
        rw [wordsFrom_cons, if_neg (by simp [h c List.mem_cons_self]),
          ih fun d hd => h d (List.mem_cons_of_mem _ hd)]
  unfold words
  rw [hfrom]
  cases w with
  | nil => exact absurd rfl hw
  | cons c w => rfl

theorem flatten_words (cs : List Char) : (words cs).flatten = solid cs := by
  -- the first word is told apart from the others
  have hfrom : (wordsFrom cs).1 ++ (wordsFrom cs).2.flatten = solid cs ∧
      (words cs).flatten = solid cs := by
    induction cs with
    | nil => exact ⟨rfl, rfl⟩
    | cons c cs ih =>
        cases hc : isBlank c with
        | true =>
            rw [words_cons_blank hc, wordsFrom_cons, if_pos hc, solid_cons_blank hc]
            exact ⟨ih.2, ih.2⟩
        | false =>
            rw [words_cons hc, wordsFrom_cons, if_neg (by simp [hc]), solid_cons hc]
            exact ⟨congrArg (c :: ·) ih.1, congrArg (c :: ·) ih.1⟩
  exact hfrom.2

theorem words_eq_nil_iff {cs : List Char} : words cs = [] ↔ ∀ c ∈ cs, isBlank c = true := by
  induction cs with
  | nil => simp [words, wordsFrom]
  | cons c cs ih =>
      cases hc : isBlank c with
      | true => simp [words_cons_blank hc, ih, hc]
      | false => simp [words_cons hc, hc]

/-- A word holds no blank. -/
theorem isBlank_of_mem_words {cs w : List Char} (hw : w ∈ words cs) :
    ∀ c ∈ w, isBlank c = false := by
  intro c hc
  have hmem : c ∈ solid cs := by
    rw [← flatten_words]
    exact List.mem_flatten_of_mem hw hc
  simpa using (List.mem_filter.mp hmem).2

theorem ne_nil_of_mem_words {cs w : List Char} (hw : w ∈ words cs) : w ≠ [] := by
  -- the words behind the first one are looked at with all of them
  have hfrom : [] ∉ (wordsFrom cs).2 ∧ [] ∉ words cs := by
    clear hw
    induction cs with
    | nil => exact ⟨List.not_mem_nil, List.not_mem_nil⟩
    | cons c cs ih =>
        cases hc : isBlank c with
        | true =>
            rw [words_cons_blank hc, wordsFrom_cons, if_pos hc]
            exact ⟨ih.2, ih.2⟩
        | false =>
            rw [words_cons hc, wordsFrom_cons, if_neg (by simp [hc])]
            exact ⟨ih.1, by simpa using ih.1⟩
  rintro rfl
  exact hfrom.2 hw

/-- Words are found again when they are written with a space between them. -/
theorem words_intercalate {ws : List (List Char)} (hne : ∀ w ∈ ws, w ≠ [])
    (hsolid : ∀ w ∈ ws, ∀ c ∈ w, isBlank c = false) : words ([' '].intercalate ws) = ws := by
  induction ws with
  | nil => rfl
  | cons w ws ih =>
      obtain ⟨hw, hne⟩ := List.forall_mem_cons.mp hne
      obtain ⟨hwsolid, hsolid⟩ := List.forall_mem_cons.mp hsolid
      have hword := words_solid hw hwsolid
      cases ws with
      | nil => simpa using hword
      | cons v ws =>
          rw [List.intercalate_cons_cons, List.append_assoc, List.singleton_append,
            words_append (by decide), hword, ih hne hsolid, List.singleton_append]

theorem words_collapse (cs : List Char) : words (collapse cs) = words cs :=
  words_intercalate (fun _ hw => ne_nil_of_mem_words hw) fun _ hw => isBlank_of_mem_words hw

theorem words_append_blanks {gap : List Char} (h : ∀ c ∈ gap, isBlank c = true) (cs : List Char) :
    words (gap ++ cs) = words cs := by
  induction gap with
  | nil => rfl
  | cons c gap ih =>
      obtain ⟨hc, hgap⟩ := List.forall_mem_cons.mp h
      rw [List.cons_append, words_cons_blank hc, ih hgap]

/-- A text and its words: blanks stand around the words, and behind each of them but the last. -/
inductive HasWords : List Char → List (List Char) → Prop
  | none {gap : List Char} (blank : ∀ c ∈ gap, isBlank c = true) : HasWords gap []
  | cons {gap w rest : List Char} {ws : List (List Char)} (blank : ∀ c ∈ gap, isBlank c = true)
      (nonempty : w ≠ []) (solid : ∀ c ∈ w, isBlank c = false)
      (parted : ∀ c ∈ rest.head?, isBlank c = true) (more : HasWords rest ws) :
      HasWords (gap ++ (w ++ rest)) (w :: ws)

theorem HasWords.words_eq {cs : List Char} {ws : List (List Char)} (h : HasWords cs ws) :
    words cs = ws := by
  induction h with
  | none blank => exact words_eq_nil_iff.mpr blank
  | @cons gap w rest ws blank nonempty solid parted more ih =>
      rw [words_append_blanks blank]
      cases rest with
      | nil => rw [List.append_nil, words_solid nonempty solid, ← ih]; rfl
      | cons c rest =>
          have hc := parted c rfl
          rw [words_append hc, words_solid nonempty solid, ← ih, words_cons_blank hc,
            List.singleton_append]

theorem hasWords_words (cs : List Char) : HasWords cs (words cs) := by
  obtain ⟨gap, hsplit, hgap⟩ := exists_trimStart cs
  cases hrest : trimStart cs with
  | nil =>
      rw [hrest, List.append_nil] at hsplit
      rw [hsplit, words_eq_nil_iff.mpr hgap]
      exact .none hgap
  | cons c behind =>
      have hc : isBlank c = false := head?_trimStart cs c (by rw [hrest]; rfl)
      let word := (c :: behind).takeWhile fun d => !isBlank d
      let rest := (c :: behind).dropWhile fun d => !isBlank d
      have hword : word ≠ [] := by simp [word, hc]
      have htext : cs = gap ++ (word ++ rest) := by
        rw [hsplit, hrest, List.takeWhile_append_dropWhile]
      have hsolid : ∀ d ∈ word, isBlank d = false := fun d hd => by
        simpa using List.all_eq_true.mp List.all_takeWhile d hd
      have hparted : ∀ d ∈ rest.head?, isBlank d = true := fun d hd => by
        have hnot := List.head?_dropWhile_not (fun d => !isBlank d) (c :: behind)
        rw [Option.mem_def.mp hd] at hnot
        simpa using hnot
      have hlength : rest.length < cs.length := by
        have := List.length_pos_iff.mpr hword
        rw [htext, List.length_append, List.length_append]
        omega
      have hall := HasWords.cons hgap hword hsolid hparted (hasWords_words rest)
      rw [← htext] at hall
      rwa [hall.words_eq]
termination_by cs.length

/-- Texts joined by blanks. -/
theorem solid_intercalate {sep : List Char} (hsep : ∀ c ∈ sep, isBlank c = true)
    (ls : List (List Char)) : solid (sep.intercalate ls) = solid ls.flatten := by
  induction ls with
  | nil => rfl
  | cons l ls ih =>
      cases ls with
      | nil => simp
      | cons l' ls =>
          rw [List.intercalate_cons_cons, solid_append, solid_append, solid_eq_nil_iff.mpr hsep, ih,
            List.append_nil, ← solid_append, ← List.flatten_cons]

theorem solid_collapse (cs : List Char) : solid (collapse cs) = solid cs := by
  rw [collapse, solid_intercalate (by simp [isBlank]), flatten_words]
  simp [solid]

theorem nonEmpty?_collapse_eq_none_iff {cs : List Char} :
    nonEmpty? (collapse cs) = none ↔ allBlank cs = true := by
  have hempty : collapse cs = [] ↔ allBlank cs = true := by
    rw [allBlank, List.all_eq_true, ← words_eq_nil_iff]
    constructor
    · intro h
      rw [← words_collapse, h]
      rfl
    · intro h
      rw [collapse, h]
      rfl
  rw [← hempty, nonEmpty?]
  cases collapse cs <;> simp

/-- A text is collapsed to its words with single spaces between them, and to nothing when it is
blank. -/
theorem nonEmpty?_collapse (cs : List Char) : nonEmpty? (collapse cs) =
    if allBlank cs then none else some (String.ofList ([' '].intercalate (words cs))) := by
  by_cases hblank : allBlank cs = true
  · rw [if_pos hblank, nonEmpty?_collapse_eq_none_iff.mpr hblank]
  · have hfull : ¬ (collapse cs).isEmpty = true := fun hempty =>
      hblank (nonEmpty?_collapse_eq_none_iff.mp (if_pos hempty))
    rw [if_neg hblank, nonEmpty?, if_neg hfull]
    rfl

end ComponentAtlas.Text
