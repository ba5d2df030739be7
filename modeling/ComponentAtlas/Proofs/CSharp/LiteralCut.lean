import ComponentAtlas.CSharp.Lexeme

/-!
# Literals in front of a cut

A literal that ends in front of some place of a text is the same literal when the text is cut at
that place and goes on with something else than a quotation mark (`EndsLiteral`).  The scan of a
literal looks ahead, over runs of quotation marks, braces and dollar signs and at the two characters
behind them; but what is open has still to be closed by a quotation mark or a brace in front of the
place, and no run goes past that.

A text is written `w ++ z` throughout, with the place behind `w`, and `w ++ e :: y` after the cut.
-/

namespace ComponentAtlas.CSharp

/-- A character that takes no literal further: no quotation mark of either kind. -/
def EndsLiteral (e : Char) : Prop :=
  e ≠ '"' ∧ e ≠ '\''

/-! ## Runs of characters -/

theorem takeWhile_append_of_lt {p : Char → Bool} {w z : List Char}
    (h : ((w ++ z).takeWhile p).length < w.length) (y : List Char) :
    (w ++ y).takeWhile p = (w ++ z).takeWhile p := by
  induction w with
  | nil => exact absurd h (Nat.not_lt_zero _)
  | cons c w ih =>
      rw [List.cons_append, List.takeWhile_cons] at h ⊢
      rw [List.cons_append, List.takeWhile_cons]
      split
      · rename_i hc
        rw [if_pos hc, List.length_cons, List.length_cons, Nat.succ_lt_succ_iff] at h
        rw [ih h]
      · rfl

theorem length_takeWhile_lt {p : Char → Bool} {w : List Char} (h : ∃ d ∈ w, p d = false)
    (z : List Char) : ((w ++ z).takeWhile p).length < w.length := by
  induction w with
  | nil => simp at h
  | cons c w ih =>
      rw [List.cons_append, List.takeWhile_cons, List.length_cons]
      split
      · rename_i hc
        obtain ⟨d, hd, hstop⟩ := h
        rcases List.mem_cons.mp hd with rfl | hd
        · rw [hc] at hstop
          cases hstop
        · exact Nat.succ_lt_succ (ih ⟨d, hd, hstop⟩)
      · exact Nat.succ_pos _

theorem takeWhile_append_of_stop {p : Char → Bool} {w : List Char} (h : ∃ d ∈ w, p d = false)
    (y z : List Char) : (w ++ y).takeWhile p = (w ++ z).takeWhile p :=
  takeWhile_append_of_lt (length_takeWhile_lt h z) y

theorem takeWhile_append_cut {p : Char → Bool} {e : Char} (hp : p e = false) {w z : List Char}
    (h : ((w ++ z).takeWhile p).length ≤ w.length) (y : List Char) :
    (w ++ e :: y).takeWhile p = (w ++ z).takeWhile p := by
  induction w with
  | nil =>
      rw [List.nil_append, List.length_nil, Nat.le_zero, List.length_eq_zero_iff] at h
      rw [List.nil_append, List.nil_append, h, List.takeWhile_cons_of_neg (by simp [hp])]
  | cons c w ih =>
      rw [List.cons_append, List.takeWhile_cons] at h ⊢
      rw [List.cons_append, List.takeWhile_cons]
      split
      · rename_i hc
        rw [if_pos hc, List.length_cons, List.length_cons, Nat.succ_le_succ_iff] at h
        rw [ih h]
      · rfl

theorem exists_stop {p : Char → Bool} {w : List Char} (h : ∃ d ∈ w, p d = false) :
    ∃ run e v, w = run ++ e :: v ∧ (∀ d ∈ run, p d = true) ∧ p e = false := by
  induction w with
  | nil => simp at h
  | cons c w ih =>
      by_cases hc : p c = true
      · have hlater : ∃ d ∈ w, p d = false := by
          obtain ⟨d, hd, hstop⟩ := h
          rcases List.mem_cons.mp hd with rfl | hd
          · rw [hc] at hstop
            cases hstop
          · exact ⟨d, hd, hstop⟩
        obtain ⟨run, e, v, rfl, hrun, he⟩ := ih hlater
        refine ⟨c :: run, e, v, rfl, ?_, he⟩
        intro d hd
        rcases List.mem_cons.mp hd with rfl | hd
        · exact hc
        · exact hrun d hd
      · exact ⟨[], c, w, rfl, by simp, by simpa using hc⟩

theorem takeWhile_run {p : Char → Bool} {run : List Char} {e : Char} (hrun : ∀ d ∈ run, p d = true)
    (he : p e = false) (x : List Char) : (run ++ e :: x).takeWhile p = run := by
  rw [List.takeWhile_append_of_pos hrun, List.takeWhile_cons_of_neg (by simp [he]),
    List.append_nil]

theorem runLength_all {ch : Char} {w : List Char} (h : ∀ d ∈ w, d = ch) (z : List Char) :
    runLength ch (w ++ z) = w.length + runLength ch z := by
  unfold runLength
  rw [List.takeWhile_append_of_pos (by simpa using h), List.length_append]

theorem runLength_cons_of_ne {ch e : Char} (he : e ≠ ch) (y : List Char) :
    runLength ch (e :: y) = 0 := by
  unfold runLength
  rw [List.takeWhile_cons_of_neg (by simpa using he), List.length_nil]

theorem runLength_stop {ch : Char} {w : List Char} (h : ∃ d ∈ w, d ≠ ch) (x y : List Char) :
    runLength ch (w ++ x) = runLength ch (w ++ y) := by
  unfold runLength
  rw [takeWhile_append_of_stop (by simpa using h) x y]

/-! ## Closing what is open -/

theorem next_cases {top : Open} {under opened : List Open} {c : Char} {cs : List Char} {k : Nat}
    (h : top.next under c cs = some (k, opened)) :
    (opened = under ∧ (c = '"' ∨ c = '}')) ∨ under.length < opened.length := by
  have hcons (o : Open) : under.length < (o :: under).length := Nat.lt_succ_self _
  have hcons₂ (o o' : Open) : under.length < (o :: o' :: under).length :=
    Nat.lt_succ_of_lt (Nat.lt_succ_self _)
  cases top with
  | quote style dollars =>
      simp only [Open.next] at h
      split at h
      · cases h; exact Or.inr (hcons _)
      split at h
      · cases h
      split at h
      · cases h; exact Or.inr (hcons _)
      split at h
      · rename_i hclosed
        cases h
        refine Or.inl ⟨rfl, Or.inl ?_⟩
        grind
      split at h
      · cases h; exact Or.inr (hcons _)
      split at h
      · cases h; exact Or.inr (hcons₂ _ _)
      split at h
      · obtain ⟨-, rfl⟩ := Prod.mk.inj (Option.some.inj h)
        split
        · exact Or.inr (hcons _)
        · exact Or.inr (hcons₂ _ _)
      · cases h; exact Or.inr (hcons _)
  | hole dollars depth =>
      simp only [Open.next] at h
      split at h
      · cases h; exact Or.inr (hcons₂ _ _)
      split at h
      · cases h; exact Or.inr (hcons _)
      split at h
      · rename_i hc
        cases depth with
        | zero => cases h; exact Or.inl ⟨rfl, Or.inr hc⟩
        | succ d => cases h; exact Or.inr (hcons _)
      split at h
      · cases h; exact Or.inr (hcons _)
      · cases h; exact Or.inr (hcons _)

theorem le_closingLength? {skip m : Nat} {opened : List Open} {cs : List Char}
    (h : closingLength? skip opened cs = some m) : skip + opened.length ≤ m := by
  fun_induction closingLength? generalizing m with
  | case1 skip _ => cases h; exact Nat.le_refl _
  | case2 => cases h
  | case3 skip c cs opened hopened ih =>
      obtain ⟨k, hk, rfl⟩ := Option.map_eq_some_iff.mp h
      have := ih hk
      omega
  | case4 top under c cs skip opened hnext ih =>
      obtain ⟨k, hk, rfl⟩ := Option.map_eq_some_iff.mp h
      have := ih hk
      have : under.length ≤ opened.length := by
        rcases next_cases hnext with ⟨rfl, -⟩ | hlt
        · exact Nat.le_refl _
        · exact Nat.le_of_lt hlt
      simp only [List.length_cons]
      omega
  | case5 => cases h

theorem closingLength?_succ (skip : Nat) (top : Open) (under : List Open) (c : Char)
    (cs : List Char) : closingLength? (skip + 1) (top :: under) (c :: cs) =
      (closingLength? skip (top :: under) cs).map (· + 1) := by
  rw [closingLength?]
  exact List.cons_ne_nil _ _

/-- A character that can close a literal or a hole. -/
def HasCloser (w : List Char) : Prop :=
  ∃ d ∈ w, d = '"' ∨ d = '}'

theorem HasCloser.stop {w : List Char} (h : HasCloser w) {p : Char → Bool} (hquote : p '"' = false)
    (hbrace : p '}' = false) : ∃ d ∈ w, p d = false := by
  obtain ⟨d, hd, rfl | rfl⟩ := h
  · exact ⟨'"', hd, hquote⟩
  · exact ⟨'}', hd, hbrace⟩

theorem not_hasCloser_nil : ¬ HasCloser [] := by
  rintro ⟨d, hd, -⟩
  cases hd

theorem HasCloser.cons {w : List Char} (h : HasCloser w) (c : Char) : HasCloser (c :: w) := by
  obtain ⟨d, hd, hcloses⟩ := h
  exact ⟨d, List.mem_cons_of_mem c hd, hcloses⟩

theorem HasCloser.tail {c : Char} {w : List Char} (h : HasCloser (c :: w))
    (hc : ¬ (c = '"' ∨ c = '}')) : HasCloser w := by
  obtain ⟨d, hd, hcloses⟩ := h
  rcases List.mem_cons.mp hd with rfl | hd
  · exact absurd hcloses hc
  · exact ⟨d, hd, hcloses⟩

theorem HasCloser.of_drop {w : List Char} {n : Nat} (h : HasCloser (w.drop n)) : HasCloser w := by
  obtain ⟨d, hd, hcloses⟩ := h
  exact ⟨d, List.mem_of_mem_drop hd, hcloses⟩

/-- What is open is closed behind the characters that are taken unseen. -/
theorem hasCloser_of_closingLength? {skip m : Nat} {opened : List Open} {w z : List Char}
    (h : closingLength? skip opened (w ++ z) = some m) (hm : m ≤ w.length) (hopened : opened ≠ []) :
    HasCloser (w.drop skip) := by
  induction w generalizing skip m opened with
  | nil =>
      have := le_closingLength? h
      have := List.length_pos_iff.mpr hopened
      rw [List.length_nil] at hm
      omega
  | cons c w ih =>
      rw [List.length_cons] at hm
      cases opened with
      | nil => exact absurd rfl hopened
      | cons top under =>
          cases skip with
          | succ skip =>
              rw [List.cons_append, closingLength?_succ] at h
              obtain ⟨k, hk, rfl⟩ := Option.map_eq_some_iff.mp h
              exact ih hk (Nat.le_of_succ_le_succ hm) (List.cons_ne_nil _ _)
          | zero =>
              rw [List.cons_append, closingLength?] at h
              split at h
              · rename_i skip opened hnext
                obtain ⟨k, hk, rfl⟩ := Option.map_eq_some_iff.mp h
                by_cases hend : opened = []
                · rcases next_cases hnext with ⟨-, hc⟩ | hlt
                  · exact ⟨c, List.mem_cons_self, hc⟩
                  · rw [hend] at hlt
                    exact absurd hlt (Nat.not_lt_zero _)
                · exact (ih hk (Nat.le_of_succ_le_succ hm) hend).of_drop.cons c
              · cases h

/-! ## Openings -/

section

variable {dollars v : List Char} {e : Char}

theorem opening?_run (hdollars : ∀ d ∈ dollars, decide (d = '$') = true) (he : e ≠ '$')
    (x : List Char) : runLength '$' (dollars ++ e :: x) = dollars.length := by
  rw [runLength, takeWhile_run hdollars (by simpa using he)]

/-- Behind an at sign two more characters are looked at; a closer is one of them or comes later. -/
theorem opening?_at (hdollars : ∀ d ∈ dollars, decide (d = '$') = true) (hcloser : HasCloser v)
    (x y : List Char) :
    opening? (dollars ++ '@' :: (v ++ x)) = opening? (dollars ++ '@' :: (v ++ y)) := by
  unfold opening?
  simp only [opening?_run hdollars (by decide : '@' ≠ '$'), List.drop_left]
  cases v with
  | nil => exact absurd hcloser not_hasCloser_nil
  | cons e v =>
      by_cases hquote : e = '"'
      · subst hquote
        rfl
      by_cases hdollar : e = '$'
      · subst hdollar
        cases v with
        | nil => exact absurd (hcloser.tail (by decide)) not_hasCloser_nil
        | cons e v =>
            by_cases hquote : e = '"'
            · subst hquote
              rfl
            · simp [hquote]
      · simp [hquote, hdollar]

/-- A run of quotation marks that reaches the cut is too short for a raw literal, since the opening
itself ends in front of the cut. -/
theorem opening?_quote {z : List Char} (he : EndsLiteral e)
    (hdollars : ∀ d ∈ dollars, decide (d = '$') = true)
    (hlength : ∀ n o, opening? (dollars ++ '"' :: (v ++ z)) = some (n, o) →
      n ≤ dollars.length + v.length) (y : List Char) :
    opening? (dollars ++ '"' :: (v ++ e :: y)) = opening? (dollars ++ '"' :: (v ++ z)) := by
  unfold opening? at hlength ⊢
  simp only [opening?_run hdollars (by decide : '"' ≠ '$'), List.drop_left] at hlength ⊢
  by_cases hstop : ∃ d ∈ v, d ≠ '"'
  · simp only [runLength_stop hstop (e :: y) z]
  · have hall : ∀ d ∈ v, d = '"' := by simpa using hstop
    simp only [runLength_all hall] at hlength ⊢
    rw [runLength_cons_of_ne he.1]
    have hshort : ¬ 3 ≤ v.length + runLength '"' z + 1 := by
      intro hlong
      have := hlength _ _ (if_pos hlong)
      omega
    rw [if_neg hshort, if_neg (by omega)]

end

theorem opening?_append_cut {c e : Char} {w z : List Char} (he : EndsLiteral e)
    (hcloser : HasCloser w)
    (hlength : ∀ n o, opening? (c :: (w ++ z)) = some (n, o) → n ≤ w.length) (y : List Char) :
    opening? (c :: (w ++ e :: y)) = opening? (c :: (w ++ z)) := by
  have hcloser' : HasCloser (c :: w) := hcloser.cons c
  obtain ⟨dollars, f, v, hsplit, hdollars, hf⟩ :=
    exists_stop (hcloser'.stop (p := fun d => decide (d = '$')) rfl rfl)
  have hcut (x : List Char) : c :: (w ++ x) = dollars ++ f :: (v ++ x) := by
    rw [← List.cons_append, hsplit, List.append_assoc, List.cons_append]
  have hw : w.length = dollars.length + v.length := by
    have := congrArg List.length hsplit
    rw [List.length_cons, List.length_append, List.length_cons] at this
    omega
  rw [hcut, hw] at hlength
  rw [hcut, hcut]
  by_cases hquote : f = '"'
  · subst hquote
    exact opening?_quote he hdollars hlength y
  by_cases hat : f = '@'
  · subst hat
    refine opening?_at hdollars ?_ _ _
    obtain ⟨d, hd, hcloses⟩ := hcloser'
    rw [hsplit] at hd
    rcases List.mem_append.mp hd with hd | hd
    · have := hdollars d hd
      rcases hcloses with rfl | rfl <;> cases this
    · exact HasCloser.tail ⟨d, hd, hcloses⟩ (by decide)
  · unfold opening?
    simp [opening?_run hdollars (by simpa using hf : f ≠ '$'), hquote, hat]

/-! ## Character literals -/

/-- How many digits an escape takes. -/
def escapeDigits (c : Char) (rest : List Char) : Nat :=
  if c = 'u' ∨ c = 'U' ∨ c = 'x' then
    (rest.takeWhile fun d => d.isDigit || (d.toLower.isAlpha && d.toLower ≤ 'f')).length
  else 0

theorem characterLength?_escaped (c : Char) (rest : List Char) :
    characterLength? ('\'' :: '\\' :: c :: rest) =
      if (rest.drop (escapeDigits c rest)).head? = some '\'' then some (escapeDigits c rest + 4)
      else none := by
  rw [characterLength?, ← escapeDigits]
  generalize escapeDigits c rest = digits
  cases rest.drop digits with
  | nil => rfl
  | cons e v =>
      by_cases hquote : e = '\''
      · subst hquote
        rfl
      · simp [hquote]

theorem characterLength?_single {d : Char} (hd : d ≠ '\\') (rest : List Char) :
    characterLength? ('\'' :: d :: rest) =
      if rest.head? = some '\'' ∧ d ≠ '\'' ∧ d ≠ '\n' then some 3 else none := by
  cases rest with
  | nil => simp [characterLength?]
  | cons e v =>
      by_cases hquote : e = '\''
      · subst hquote
        by_cases hplain : d = '\'' ∨ d = '\n'
        · simp only [characterLength?, if_pos hplain]
          rw [if_neg fun h => hplain.elim h.2.1 h.2.2]
        · simp only [characterLength?, if_neg hplain]
          rw [if_pos (by simpa using hplain)]
      · simp [characterLength?, hd, hquote]

theorem characterLength?_other {c : Char} (hc : c ≠ '\'') (rest : List Char) :
    characterLength? (c :: rest) = none := by
  simp [characterLength?, hc]

theorem three_le_characterLength? {cs : List Char} {n : Nat} (h : characterLength? cs = some n) :
    3 ≤ n := by
  unfold characterLength? at h
  split at h
  · simp only at h
    split at h
    · cases h; omega
    · cases h
  · split at h
    · cases h
    · cases h; omega
  · cases h

theorem escapeDigits_append {c : Char} {w z : List Char} (h : escapeDigits c (w ++ z) < w.length)
    (y : List Char) : escapeDigits c (w ++ y) = escapeDigits c (w ++ z) ∧
      ((w ++ y).drop (escapeDigits c (w ++ z))).head? =
        ((w ++ z).drop (escapeDigits c (w ++ z))).head? := by
  constructor
  · unfold escapeDigits at h ⊢
    split
    · rename_i hc
      rw [if_pos hc] at h
      rw [takeWhile_append_of_lt h y]
    · rfl
  · generalize escapeDigits c (w ++ z) = digits at h
    rw [List.drop_append_of_le_length (Nat.le_of_lt h),
      List.drop_append_of_le_length (Nat.le_of_lt h)]
    cases hdrop : w.drop digits with
    | nil =>
        rw [List.drop_eq_nil_iff] at hdrop
        omega
    | cons e v => rfl

theorem characterLength?_of_some {c : Char} {w z : List Char} {n : Nat}
    (h : characterLength? (c :: (w ++ z)) = some n) (hn : n ≤ w.length + 1) (y : List Char) :
    characterLength? (c :: (w ++ y)) = some n := by
  have hthree := three_le_characterLength? h
  obtain rfl : c = '\'' := Decidable.byContradiction fun hc => by
    rw [characterLength?_other hc] at h
    cases h
  match w, hn with
  | [], hn =>
    rw [List.length_nil] at hn
    omega
  | [d], hn =>
    rw [List.length_singleton] at hn
    omega
  | d :: e :: w, hn =>
    rw [List.length_cons, List.length_cons] at hn
    by_cases hd : d = '\\'
    · subst hd
      rw [List.cons_append, List.cons_append, characterLength?_escaped] at h ⊢
      split at h
      · rename_i hhead
        cases h
        have hlt : escapeDigits e (w ++ z) < w.length := by omega
        obtain ⟨hdigits, hsame⟩ := escapeDigits_append hlt y
        rw [hdigits, hsame, if_pos hhead]
      · cases h
    · rw [List.cons_append, characterLength?_single hd] at h ⊢
      exact h

theorem characterLength?_of_none {c e : Char} {w z : List Char} (he : EndsLiteral e)
    (h : characterLength? (c :: (w ++ z)) = none) (hcloser : HasCloser w) (y : List Char) :
    characterLength? (c :: (w ++ e :: y)) = none := by
  by_cases hc : c ≠ '\''
  · exact characterLength?_other hc _
  obtain rfl := Decidable.not_not.mp hc
  match w with
  | [] => exact absurd hcloser not_hasCloser_nil
  | d :: w =>
    by_cases hd : d ≠ '\\'
    · rw [List.cons_append, characterLength?_single hd] at h ⊢
      cases w with
      | nil => simp [he.2]
      | cons f w => exact h
    obtain rfl := Decidable.not_not.mp hd
    match w with
    | [] => exact absurd (hcloser.tail (by decide)) not_hasCloser_nil
    | f :: w =>
      rw [List.cons_append, List.cons_append, characterLength?_escaped] at h ⊢
      by_cases hlt : escapeDigits f (w ++ z) < w.length
      · obtain ⟨hdigits, hsame⟩ := escapeDigits_append hlt (e :: y)
        rw [hdigits, hsame]
        split at h
        · cases h
        · rename_i hhead
          rw [if_neg hhead]
      · -- digits that reach the cut would hold the closer, so there are none
        have hplain : ¬ (f = 'u' ∨ f = 'U' ∨ f = 'x') := by
          intro hx
          have hcloser' : HasCloser w := by
            refine (hcloser.tail (by decide)).tail ?_
            rcases hx with rfl | rfl | rfl <;> decide
          rw [escapeDigits, if_pos hx] at hlt
          exact hlt (length_takeWhile_lt (hcloser'.stop rfl rfl) z)
        rw [escapeDigits, if_neg hplain, Nat.not_lt, Nat.le_zero, List.length_eq_zero_iff] at hlt
        subst hlt
        rw [escapeDigits, if_neg hplain]
        simp [he.2]

/-! ## Steps of a scan -/

theorem next_quote_append_cut {style : Quoting} {dollars : Nat} {under opened : List Open}
    {c e : Char} {w z : List Char} {k m : Nat} (he : EndsLiteral e)
    (h : (Open.quote style dollars).next under c (w ++ z) = some (k, opened))
    (hclose : closingLength? k opened (w ++ z) = some m) (hm : m ≤ w.length) (y : List Char) :
    (Open.quote style dollars).next under c (w ++ e :: y) = some (k, opened) := by
  have hle := le_closingLength? hclose
  rw [← h]
  by_cases hbrace : c = '{'
  · subst hbrace
    have hopened : opened ≠ [] := by
      intro hnone
      rcases next_cases h with ⟨-, hc | hc⟩ | hlt
      · cases hc
      · cases hc
      · rw [hnone] at hlt
        exact absurd hlt (Nat.not_lt_zero _)
    have hcloser := (hasCloser_of_closingLength? hclose hm hopened).of_drop
    have hstop : ∃ d ∈ w, d ≠ '{' := by
      simpa using hcloser.stop (p := fun d => decide (d = '{')) rfl rfl
    cases style <;> simp [Open.next, runLength_stop hstop (e :: y) z]
  by_cases hquote : c = '"'
  · subst hquote
    cases style with
    | plain => simp [Open.next]
    | verbatim =>
        have hdoubled : 0 < runLength '"' (w ++ e :: y) ↔ 0 < runLength '"' (w ++ z) := by
          cases w with
          | nil =>
              have hz : ¬ 0 < runLength '"' z := by
                intro hz
                simp [Open.next, hz] at h
                rw [List.length_nil] at hm
                omega
              simp [hz, runLength_cons_of_ne he.1]
          | cons d w =>
              simp only [List.cons_append, runLength, List.takeWhile_cons]
              split <;> simp
        simp [Open.next, hdoubled]
    | raw quotes =>
        have hclosed : quotes ≤ runLength '"' (w ++ e :: y) + 1 ↔
            quotes ≤ runLength '"' (w ++ z) + 1 := by
          by_cases hstop : ∃ d ∈ w, d ≠ '"'
          · rw [runLength_stop hstop (e :: y) z]
          · have hall : ∀ d ∈ w, d = '"' := by simpa using hstop
            rw [runLength_all hall, runLength_all hall, runLength_cons_of_ne he.1]
            constructor
            · omega
            · intro hquotes
              simp [Open.next, runLength_all hall, hquotes] at h
              omega
        simp [Open.next, hclosed]
  · cases style <;> simp [Open.next, hbrace, hquote]

theorem next_hole_append_cut {dollars depth : Nat} {under opened : List Open} {c e : Char}
    {w z : List Char} {k m : Nat} (he : EndsLiteral e)
    (h : (Open.hole dollars depth).next under c (w ++ z) = some (k, opened))
    (hclose : closingLength? k opened (w ++ z) = some m) (hm : m ≤ w.length) (y : List Char) :
    (Open.hole dollars depth).next under c (w ++ e :: y) = some (k, opened) := by
  have hle := le_closingLength? hclose
  have hcloser (hopened : opened ≠ []) : HasCloser w :=
    (hasCloser_of_closingLength? hclose hm hopened).of_drop
  by_cases hbrace : c = '{' ∨ c = '}'
  · have hopening (x : List Char) : opening? (c :: x) = none := by
      rcases hbrace with rfl | rfl <;> rfl
    rw [← h]
    rcases hbrace with rfl | rfl <;> simp [Open.next, hopening]
  · obtain ⟨hleft, hright⟩ := not_or.mp hbrace
    simp only [Open.next] at h ⊢
    cases hfound : opening? (c :: (w ++ z)) with
    | some found =>
        obtain ⟨n, o⟩ := found
        rw [hfound] at h
        cases h
        have hlength (n' : Nat) (o' : Open) (hn : opening? (c :: (w ++ z)) = some (n', o')) :
            n' ≤ w.length := by
          rw [hfound] at hn
          cases hn
          simp only [List.length_cons] at hle
          omega
        rw [opening?_append_cut he (hcloser (List.cons_ne_nil _ _)) hlength, hfound]
    | none =>
        rw [hfound] at h
        simp only [hleft, hright, if_false] at h
        have hopened : opened ≠ [] := by
          split at h <;> cases h <;> exact List.cons_ne_nil _ _
        have hnothing (n : Nat) (o : Open) (hn : opening? (c :: (w ++ z)) = some (n, o)) :
            n ≤ w.length := by
          rw [hfound] at hn
          cases hn
        rw [opening?_append_cut he (hcloser hopened) hnothing, hfound]
        simp only [hleft, hright, if_false]
        cases hcharacter : characterLength? (c :: (w ++ z)) with
        | some n =>
            rw [hcharacter] at h
            cases h
            simp only [List.length_cons] at hle
            rw [characterLength?_of_some hcharacter (by omega)]
        | none =>
            rw [hcharacter] at h
            rw [characterLength?_of_none he hcharacter (hcloser hopened)]
            exact h

theorem next_append_cut {top : Open} {under opened : List Open} {c e : Char} {w z : List Char}
    {k m : Nat} (he : EndsLiteral e) (h : top.next under c (w ++ z) = some (k, opened))
    (hclose : closingLength? k opened (w ++ z) = some m) (hm : m ≤ w.length) (y : List Char) :
    top.next under c (w ++ e :: y) = some (k, opened) := by
  cases top with
  | quote style dollars => exact next_quote_append_cut he h hclose hm y
  | hole dollars depth => exact next_hole_append_cut he h hclose hm y

/-! ## String literals -/

theorem closingLength?_append_cut {e : Char} {skip m : Nat} {opened : List Open}
    {w z : List Char} (he : EndsLiteral e)
    (h : closingLength? skip opened (w ++ z) = some m) (hm : m ≤ w.length) (y : List Char) :
    closingLength? skip opened (w ++ e :: y) = some m := by
  induction w generalizing skip m opened with
  | nil =>
      have hle := le_closingLength? h
      rw [List.length_nil] at hm
      obtain rfl : skip = 0 := by omega
      obtain rfl : opened = [] := List.length_eq_zero_iff.mp (by omega)
      rw [closingLength?] at h ⊢
      exact h
  | cons c w ih =>
      rw [List.length_cons] at hm
      cases opened with
      | nil =>
          rw [closingLength?] at h ⊢
          exact h
      | cons top under =>
          cases skip with
          | succ skip =>
              rw [List.cons_append, closingLength?_succ] at h ⊢
              obtain ⟨k, hk, rfl⟩ := Option.map_eq_some_iff.mp h
              rw [ih hk (Nat.le_of_succ_le_succ hm), Option.map_some]
          | zero =>
              rw [List.cons_append, closingLength?] at h ⊢
              split at h
              · rename_i skip opened hnext
                obtain ⟨k, hk, rfl⟩ := Option.map_eq_some_iff.mp h
                have hk' := Nat.le_of_succ_le_succ hm
                rw [next_append_cut he hnext hk hk' y]
                simp only [ih hk hk', Option.map_some]
              · cases h

theorem opening?_pos {cs : List Char} {n : Nat} {o : Open} (h : opening? cs = some (n, o)) :
    0 < n := by
  unfold opening? at h
  simp only at h
  split at h
  · split at h
    · cases h; omega
    · split at h
      · cases h; omega
      · cases h
  · split at h
    · cases h; omega
    · cases h
  · split at h
    · cases h; omega
    · cases h
  · cases h

theorem stringLength?_append_cut {c e : Char} {w z : List Char} {n : Nat} (he : EndsLiteral e)
    (h : stringLength? (c :: (w ++ z)) = some n) (hn : n ≤ w.length + 1) (y : List Char) :
    stringLength? (c :: (w ++ e :: y)) = some n := by
  unfold stringLength? at h ⊢
  split at h
  · rename_i length opened hopening
    obtain ⟨m, hm, rfl⟩ := Option.map_eq_some_iff.mp h
    obtain ⟨l, rfl⟩ := Nat.exists_eq_succ_of_ne_zero (Nat.ne_of_gt (opening?_pos hopening))
    have hle := le_closingLength? hm
    rw [List.length_singleton] at hle
    have hdrop (x : List Char) : (c :: (w ++ x)).drop (l + 1) = w.drop l ++ x := by
      rw [List.drop_succ_cons, List.drop_append_of_le_length (by omega)]
    rw [Nat.succ_eq_add_one, hdrop] at hm
    have hfits : m ≤ (w.drop l).length := by
      rw [List.length_drop]
      omega
    have hcloser := (hasCloser_of_closingLength? hm hfits (List.cons_ne_nil _ _)).of_drop.of_drop
    have hlength (n' : Nat) (o' : Open) (hn' : opening? (c :: (w ++ z)) = some (n', o')) :
        n' ≤ w.length := by
      rw [hopening] at hn'
      cases hn'
      omega
    rw [opening?_append_cut he hcloser hlength, hopening]
    simp only [Nat.succ_eq_add_one, hdrop, closingLength?_append_cut he hm hfits, Option.map_some]
  · cases h

end ComponentAtlas.CSharp
