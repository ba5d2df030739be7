import ComponentAtlas.Proofs.CSharp.LiteralCut

/-!
# Lexemes in front of a cut

A lexeme that ends in front of some place of a text is the same lexeme when the text is cut at that
place and goes on with a blank, with a mark that makes no other mark double, or with a slash, so
that a comment can begin there (`IsCut`).  Three kinds of lexemes are in the way: one that takes the
character at the cut in, when it stands directly in front of the place (`Lexeme.takes`); a sign that
begins nothing, which a quotation mark further on might complete; and an opened comment without an
end, which might be closed further on.

What begins a lexeme decides how it is read on, so there is one lemma for every kind of beginning.
-/

namespace ComponentAtlas.CSharp

/-! ## The lexemes that begin with a given character -/

theorem measure_slash (cs : List Char) : measure '/' cs =
    match commentLength? ('/' :: cs) with
    | some n => (.comment, n)
    | none => (.mark, 1) := by
  have hword : startsWord '/' = false := by decide
  have hdigit : Unicode.isDecimalDigit '/' = false := by decide
  have hstring : stringLength? ('/' :: cs) = none := rfl
  unfold measure
  cases commentLength? ('/' :: cs) with
  | some n => rfl
  | none =>
      simp [isSpace, directiveLength?, hstring, characterLength?, hword, hdigit, doubleMarks]

theorem measure_hash (cs : List Char) :
    measure '#' cs = (directiveLength? ('#' :: cs)).getD (.stray, 1) := by
  have hword : startsWord '#' = false := by decide
  have hdigit : Unicode.isDecimalDigit '#' = false := by decide
  have hstring : stringLength? ('#' :: cs) = none := rfl
  unfold measure
  cases directiveLength? ('#' :: cs) with
  | some found => rfl
  | none =>
      simp [isSpace, commentLength?, hstring, characterLength?, hword, hdigit, doubleMarks]

theorem measure_quote {c : Char} (hc : c = '"' ∨ c = '$') (cs : List Char) : measure c cs =
    match stringLength? (c :: cs) with
    | some n => (.literal, n)
    | none => (.stray, 1) := by
  have hword : startsWord c = false := by rcases hc with rfl | rfl <;> decide
  have hdigit : Unicode.isDecimalDigit c = false := by rcases hc with rfl | rfl <;> decide
  unfold measure
  cases stringLength? (c :: cs) with
  | some n => rcases hc with rfl | rfl <;> rfl
  | none =>
      rcases hc with rfl | rfl <;>
        simp [isSpace, commentLength?, directiveLength?, characterLength?, hword, hdigit,
          doubleMarks]

theorem measure_apostrophe (cs : List Char) : measure '\'' cs =
    match characterLength? ('\'' :: cs) with
    | some n => (.literal, n)
    | none => (.stray, 1) := by
  have hword : startsWord '\'' = false := by decide
  have hdigit : Unicode.isDecimalDigit '\'' = false := by decide
  have hstring : stringLength? ('\'' :: cs) = none := rfl
  unfold measure
  cases characterLength? ('\'' :: cs) with
  | some n => simp [isSpace, commentLength?, directiveLength?, hstring]
  | none => simp [isSpace, commentLength?, directiveLength?, hstring, hword, hdigit, doubleMarks]

theorem measure_at (cs : List Char) : measure '@' cs =
    match stringLength? ('@' :: cs) with
    | some n => (.literal, n)
    | none => match cs with
      | d :: rest =>
        if startsWord d then (.word, (rest.takeWhile Unicode.isWord).length + 2) else (.stray, 1)
      | [] => (.stray, 1) := by
  have hword : startsWord '@' = false := by decide
  unfold measure
  cases stringLength? ('@' :: cs) with
  | some n => rfl
  | none =>
      cases cs with
      | nil => simp [isSpace, commentLength?, directiveLength?, characterLength?, hword]
      | cons d rest => simp [isSpace, commentLength?, directiveLength?, characterLength?, hword]

theorem measure_plain {c : Char} (hc : c ∉ ['/', '#', '"', '$', '\'', '@']) (cs : List Char) :
    measure c cs =
      if isSpace c then (.space, (cs.takeWhile isSpace).length + 1)
      else if startsWord c then (.word, (cs.takeWhile Unicode.isWord).length + 1)
      else if Unicode.isDecimalDigit c then (.number, (cs.takeWhile Unicode.isWord).length + 1)
      else if doubleMarks.contains [c, cs.headD ' '] then (.mark, 2)
      else if "{}()[]<>;:,.=?!+-*/%&|^~".toList.contains c then (.mark, 1)
      else (.stray, 1) := by
  simp only [List.mem_cons, List.not_mem_nil, or_false, not_or] at hc
  obtain ⟨hslash, hhash, hquote, hdollar, hapostrophe, hat⟩ := hc
  have hopening : opening? (c :: cs) = none := by
    simp [opening?, runLength, hdollar, hquote, hat]
  have hstring : stringLength? (c :: cs) = none := by
    rw [stringLength?, hopening]
  unfold measure
  simp [commentLength?, directiveLength?, hstring, characterLength?, hslash, hhash, hapostrophe,
    hat]

/-! ## A cut behind a lexeme -/

/-- A character that takes no word, no number and no literal further, and that is not the second one
of a double mark. -/
structure IsCut (e : Char) : Prop where
  literal : EndsLiteral e
  word : Unicode.isWord e = false
  double : e ∉ ['=', '>', ':']

/-- Whether a lexeme would take in a character put directly behind it: blanks another one, a slash
what makes a comment of it, a line comment all but a line end; and a preprocessor line that has no
line end takes in anything. -/
def Lexeme.takes (e : Char) (l : Lexeme) : Bool :=
  match l.kind with
  | .space => isSpace e
  | .mark => l.text == ['/'] && (e == '/' || e == '*')
  | .comment => ['/', '/'].isPrefixOf l.text && (e != '\n' && e != '\r')
  | .directive | .conditional => l.text.getLast? != some '\n'
  | _ => false

/-- Whether a lexeme would take in a slash put directly behind it: a slash, a line comment, or a
preprocessor line without its line end. -/
def Lexeme.takesSlash (l : Lexeme) : Bool :=
  match l.kind with
  | .mark => l.text == ['/']
  | .comment => ['/', '/'].isPrefixOf l.text
  | .directive | .conditional => l.text.getLast? != some '\n'
  | _ => false

theorem isCut_slash : IsCut '/' :=
  ⟨⟨by decide, by decide⟩, by decide +kernel, by decide⟩

theorem Lexeme.takes_slash (l : Lexeme) : l.takes '/' = l.takesSlash := by
  unfold takes takesSlash
  cases l.kind <;> simp [isSpace]

theorem blockCommentLength?_cons (c : Char) (cs : List Char) : blockCommentLength? (c :: cs) =
    if c = '*' ∧ cs.head? = some '/' then some 2 else (blockCommentLength? cs).map (· + 1) := by
  by_cases hclose : c = '*' ∧ cs.head? = some '/'
  · obtain ⟨rfl, hhead⟩ := hclose
    obtain ⟨rest, rfl⟩ := List.head?_eq_some_iff.mp hhead
    rfl
  · rw [if_neg hclose, blockCommentLength?]
    rintro rest rfl rfl
    exact hclose ⟨rfl, rfl⟩

theorem two_le_blockCommentLength? {cs : List Char} {n : Nat}
    (h : blockCommentLength? cs = some n) : 2 ≤ n := by
  induction cs generalizing n with
  | nil => cases h
  | cons c cs ih =>
      rw [blockCommentLength?_cons] at h
      split at h
      · cases h
        exact Nat.le_refl 2
      · obtain ⟨k, hk, rfl⟩ := Option.map_eq_some_iff.mp h
        exact Nat.le_succ_of_le (ih hk)

theorem blockCommentLength?_append {w z : List Char} {n : Nat}
    (h : blockCommentLength? (w ++ z) = some n) (hn : n ≤ w.length) (y : List Char) :
    blockCommentLength? (w ++ y) = some n := by
  have htwo := two_le_blockCommentLength? h
  induction w generalizing n with
  | nil =>
      rw [List.length_nil] at hn
      omega
  | cons c w ih =>
      rw [List.length_cons] at hn
      cases w with
      | nil =>
          rw [List.length_nil] at hn
          omega
      | cons d w =>
          rw [List.cons_append, blockCommentLength?_cons] at h ⊢
          have hhead (x : List Char) : (d :: w ++ x).head? = some d := rfl
          by_cases hclose : c = '*' ∧ d = '/'
          · rw [if_pos ⟨hclose.1, by rw [hhead, hclose.2]⟩] at h ⊢
            exact h
          · have hopen (x : List Char) : ¬ (c = '*' ∧ (d :: w ++ x).head? = some '/') := by
              rw [hhead]
              exact fun h => hclose ⟨h.1, Option.some.inj h.2⟩
            rw [if_neg (hopen _)] at h ⊢
            obtain ⟨k, hk, rfl⟩ := Option.map_eq_some_iff.mp h
            rw [ih hk (Nat.le_of_succ_le_succ hn) (two_le_blockCommentLength? hk), Option.map_some]

theorem takeWhile_append_cons_of_not {p : Char → Bool} (l : List Char) {e : Char} (he : p e = false)
    (x : List Char) : (l ++ e :: x).takeWhile p = l.takeWhile p := by
  induction l with
  | nil => rw [List.nil_append, List.takeWhile_cons_of_neg (by simp [he]), List.takeWhile_nil]
  | cons c l ih =>
      rw [List.cons_append, List.takeWhile_cons, List.takeWhile_cons, ih]

/-- A preprocessor line is read up to its line end. -/
theorem directiveLength?_line {l : List Char} (hl : ∀ d ∈ l, d ≠ '\n') (x y : List Char) :
    directiveLength? ('#' :: (l ++ '\n' :: x)) = directiveLength? ('#' :: (l ++ '\n' :: y)) := by
  have hblanks (x : List Char) : (l ++ '\n' :: x).takeWhile (fun c => c = ' ' || c = '\t') =
      l.takeWhile (fun c => c = ' ' || c = '\t') := takeWhile_append_cons_of_not l rfl x
  have hdrop (x : List Char) :
      (l ++ '\n' :: x).drop (l.takeWhile fun c => c = ' ' || c = '\t').length =
        l.drop (l.takeWhile fun c => c = ' ' || c = '\t').length ++ '\n' :: x :=
    List.drop_append_of_le_length (List.takeWhile_sublist _).length_le
  have hname (l x : List Char) : (l ++ '\n' :: x).takeWhile Char.isAlpha =
      l.takeWhile Char.isAlpha := takeWhile_append_cons_of_not l rfl x
  have hline (x : List Char) : (l ++ '\n' :: x).takeWhile (fun c => decide (c ≠ '\n')) = l :=
    takeWhile_run (by simpa using hl) rfl x
  have hends (x : List Char) : l.length < (l ++ '\n' :: x).length := by
    rw [List.length_append, List.length_cons]
    omega
  simp only [directiveLength?, hblanks, hdrop, hname, hline, hends, if_true]

theorem exists_line {w z : List Char}
    (h : ((w ++ z).takeWhile fun c => decide (c ≠ '\n')).length < w.length) :
    ∃ l v, w = l ++ '\n' :: v ∧ ∀ d ∈ l, d ≠ '\n' := by
  have hstop : ∃ d ∈ w, decide (d ≠ '\n') = false := by
    refine Decidable.byContradiction fun hnone => ?_
    have hall : ∀ d ∈ w, decide (d ≠ '\n') = true := by
      intro d hd
      exact decide_eq_true fun hnewline => hnone ⟨d, hd, by simp [hnewline]⟩
    rw [List.takeWhile_append_of_pos hall, List.length_append] at h
    omega
  obtain ⟨l, e, v, rfl, hl, he⟩ := exists_stop hstop
  obtain rfl : e = '\n' := by simpa using he
  exact ⟨l, v, rfl, by simpa using hl⟩

/-- A preprocessor line that has reached a place without a line end takes in anything there. -/
theorem takes_of_line {e : Char} {w z : List Char} {kind : LexemeKind}
    (hkind : kind = .directive ∨ kind = .conditional)
    (h : ¬ ((w ++ z).takeWhile fun c => decide (c ≠ '\n')).length < w.length) :
    Lexeme.takes e ⟨kind, '#' :: w⟩ = true := by
  have hall : ∀ d ∈ '#' :: w, d ≠ '\n' := by
    intro d hd hnewline
    rcases List.mem_cons.mp hd with rfl | hd
    · cases hnewline
    · exact h (length_takeWhile_lt ⟨d, hd, by simp [hnewline]⟩ z)
  have hend : (('#' :: w).getLast? != some '\n') = true := by
    rw [bne_iff_ne]
    intro hend
    exact hall _ (List.mem_of_getLast? hend) rfl
  rcases hkind with rfl | rfl <;> exact hend

theorem directiveLength?_append_cut {e : Char} {w z : List Char} {kind : LexemeKind} {n : Nat}
    (h : directiveLength? ('#' :: (w ++ z)) = some (kind, n)) (hn : n ≤ w.length + 1)
    (hlast : n = w.length + 1 → Lexeme.takes e ⟨kind, '#' :: w⟩ = false) (y : List Char) :
    directiveLength? ('#' :: (w ++ e :: y)) = some (kind, n) := by
  by_cases hline : ((w ++ z).takeWhile fun c => decide (c ≠ '\n')).length < w.length
  · obtain ⟨l, v, rfl, hl⟩ := exists_line hline
    rw [List.append_assoc, List.cons_append] at h ⊢
    rw [← h]
    exact directiveLength?_line hl _ _
  · have hopen (hkind : kind = .directive ∨ kind = .conditional) : n ≠ w.length + 1 := by
      intro hend
      have := takes_of_line (e := e) hkind hline
      rw [hlast hend] at this
      cases this
    simp only [directiveLength?] at h ⊢
    generalize hblanks : (w ++ z).takeWhile (fun c => decide (c = ' ') || decide (c = '\t')) =
      blanks at h
    generalize hname : ((w ++ z).drop blanks.length).takeWhile Char.isAlpha = name at h
    generalize (w ++ z).takeWhile (fun c => decide (c ≠ '\n')) = line at h hline
    split at h
    · cases h
      refine absurd ?_ (hopen (Or.inl rfl))
      split at hn <;> split <;> omega
    rename_i hplain
    split at h
    · cases h
      refine absurd ?_ (hopen (Or.inr rfl))
      omega
    rename_i hopens
    split at h
    · rename_i hcloses
      cases h
      have hfits : blanks.length + name.length ≤ w.length := Nat.le_of_succ_le_succ hn
      have hshort := hopen (Or.inr rfl)
      have hblanks' : (w ++ e :: y).takeWhile (fun c => decide (c = ' ') || decide (c = '\t')) =
          (w ++ z).takeWhile fun c => decide (c = ' ') || decide (c = '\t') :=
        takeWhile_append_of_lt (by rw [hblanks]; omega) _
      have hdrop (x : List Char) : (w ++ x).drop blanks.length = w.drop blanks.length ++ x :=
        List.drop_append_of_le_length (by omega)
      rw [hdrop] at hname
      have hname' : (w.drop blanks.length ++ e :: y).takeWhile Char.isAlpha =
          (w.drop blanks.length ++ z).takeWhile Char.isAlpha :=
        takeWhile_append_of_lt (by rw [hname, List.length_drop]; omega) _
      rw [hblanks', hblanks, hdrop, hname', hname, if_neg hplain, if_neg hopens, if_pos hcloses]
    · cases h

theorem commentLength?_append_cut {e : Char} {w z : List Char} {n : Nat}
    (h : commentLength? ('/' :: (w ++ z)) = some n) (hn : n ≤ w.length + 1)
    (hlast : n = w.length + 1 → Lexeme.takes e ⟨.comment, '/' :: w⟩ = false) (y : List Char) :
    commentLength? ('/' :: (w ++ e :: y)) = some n := by
  cases w with
  | nil =>
      have htwo : 2 ≤ n := by
        unfold commentLength? at h
        split at h
        · cases h; omega
        · obtain ⟨k, -, rfl⟩ := Option.map_eq_some_iff.mp h
          omega
        · cases h
      rw [List.length_nil] at hn
      omega
  | cons d w =>
      rw [List.length_cons] at hn hlast
      by_cases hline : d = '/'
      · subst hline
        simp only [List.cons_append, commentLength?, Option.some.injEq] at h ⊢
        rw [← h]
        congr 2
        by_cases hend : n = w.length + 1 + 1
        · have hstop : (e != '\n' && e != '\r') = false := by simpa [Lexeme.takes] using hlast hend
          exact takeWhile_append_cut (by simpa using hstop) (by omega) y
        · exact takeWhile_append_of_lt (by omega) _
      by_cases hblock : d = '*'
      · subst hblock
        simp only [List.cons_append, commentLength?] at h ⊢
        obtain ⟨k, hk, rfl⟩ := Option.map_eq_some_iff.mp h
        rw [blockCommentLength?_append hk (by omega), Option.map_some]
      · simp [commentLength?, hline, hblock] at h

section

variable {c e : Char} {w z : List Char} {kind : LexemeKind} {n : Nat}

theorem measure_quote_append_cut (he : IsCut e) (hc : c = '"' ∨ c = '$')
    (h : measure c (w ++ z) = (kind, n)) (hn : n ≤ w.length + 1) (hstray : kind ≠ .stray)
    (y : List Char) : measure c (w ++ e :: y) = (kind, n) := by
  rw [measure_quote hc] at h ⊢
  split at h
  · rename_i k hfound
    obtain ⟨rfl, rfl⟩ := Prod.mk.inj h
    rw [stringLength?_append_cut he.literal hfound hn]
  · exact absurd (Prod.mk.inj h).1.symm hstray

theorem measure_apostrophe_append_cut (h : measure '\'' (w ++ z) = (kind, n))
    (hn : n ≤ w.length + 1) (hstray : kind ≠ .stray) (y : List Char) :
    measure '\'' (w ++ e :: y) = (kind, n) := by
  rw [measure_apostrophe] at h ⊢
  split at h
  · rename_i k hfound
    obtain ⟨rfl, rfl⟩ := Prod.mk.inj h
    rw [characterLength?_of_some hfound hn]
  · exact absurd (Prod.mk.inj h).1.symm hstray

theorem measure_at_append_cut (he : IsCut e) (h : measure '@' (w ++ z) = (kind, n))
    (hn : n ≤ w.length + 1) (hstray : kind ≠ .stray) (y : List Char) :
    measure '@' (w ++ e :: y) = (kind, n) := by
  rw [measure_at] at h ⊢
  split at h
  · rename_i k hfound
    obtain ⟨rfl, rfl⟩ := Prod.mk.inj h
    rw [stringLength?_append_cut he.literal hfound hn]
  cases w with
  | nil =>
      rw [List.length_nil] at hn
      split at h
      · split at h
        · obtain ⟨rfl, rfl⟩ := Prod.mk.inj h
          omega
        · exact absurd (Prod.mk.inj h).1.symm hstray
      · exact absurd (Prod.mk.inj h).1.symm hstray
  | cons d w =>
      simp only [List.cons_append] at h ⊢
      split at h
      · rename_i hd
        obtain ⟨rfl, rfl⟩ := Prod.mk.inj h
        have hquote : d ≠ '"' := by
          rintro rfl
          exact absurd hd (by decide)
        have hdollar : d ≠ '$' := by
          rintro rfl
          exact absurd hd (by decide)
        have hstring (x : List Char) : stringLength? ('@' :: d :: x) = none := by
          simp [stringLength?, opening?, runLength, hquote, hdollar]
        have hfits := Nat.le_of_succ_le_succ (Nat.le_of_succ_le_succ hn)
        rw [hstring, if_pos hd, takeWhile_append_cut he.word hfits]
      · exact absurd (Prod.mk.inj h).1.symm hstray

theorem measure_hash_append_cut (h : measure '#' (w ++ z) = (kind, n)) (hn : n ≤ w.length + 1)
    (hstray : kind ≠ .stray)
    (hlast : n = w.length + 1 → Lexeme.takes e ⟨kind, '#' :: w⟩ = false) (y : List Char) :
    measure '#' (w ++ e :: y) = (kind, n) := by
  rw [measure_hash] at h ⊢
  cases hfound : directiveLength? ('#' :: (w ++ z)) with
  | some found =>
      rw [hfound, Option.getD_some] at h
      rw [h] at hfound
      rw [directiveLength?_append_cut hfound hn hlast, Option.getD_some]
  | none =>
      rw [hfound] at h
      exact absurd (Prod.mk.inj h).1.symm hstray

theorem measure_slash_append_cut (h : measure '/' (w ++ z) = (kind, n)) (hn : n ≤ w.length + 1)
    (hcomment : kind = .mark → w.head? ≠ some '*')
    (hlast : n = w.length + 1 → Lexeme.takes e ⟨kind, '/' :: w⟩ = false) (y : List Char) :
    measure '/' (w ++ e :: y) = (kind, n) := by
  rw [measure_slash] at h ⊢
  split at h
  · rename_i k hfound
    obtain ⟨rfl, rfl⟩ := Prod.mk.inj h
    rw [commentLength?_append_cut hfound hn hlast]
  · rename_i hnone
    obtain ⟨rfl, rfl⟩ := Prod.mk.inj h
    cases w with
    | nil =>
        have hopens : e ≠ '/' ∧ e ≠ '*' := by simpa [Lexeme.takes] using hlast rfl
        simp [commentLength?, hopens.1, hopens.2]
    | cons d w =>
        have hline : d ≠ '/' := by
          rintro rfl
          cases hnone
        have hblock : d ≠ '*' := fun hd => hcomment rfl (by rw [hd, List.head?_cons])
        simp [commentLength?, hline, hblock]

theorem measure_plain_append_cut (he : IsCut e) (hc : c ∉ ['/', '#', '"', '$', '\'', '@'])
    (h : measure c (w ++ z) = (kind, n)) (hn : n ≤ w.length + 1)
    (hlast : n = w.length + 1 → Lexeme.takes e ⟨kind, c :: w⟩ = false) (y : List Char) :
    measure c (w ++ e :: y) = (kind, n) := by
  rw [measure_plain hc] at h ⊢
  split at h
  · rename_i hspace
    obtain ⟨rfl, rfl⟩ := Prod.mk.inj h
    rw [if_pos hspace]
    congr 2
    by_cases hend : ((w ++ z).takeWhile isSpace).length = w.length
    · rw [hend] at hlast
      rw [takeWhile_append_cut (hlast rfl) (Nat.le_of_succ_le_succ hn)]
    · rw [takeWhile_append_of_lt (z := z) (by omega)]
  rename_i hspace
  rw [if_neg hspace]
  split at h
  · rename_i hword
    obtain ⟨rfl, rfl⟩ := Prod.mk.inj h
    rw [if_pos hword, takeWhile_append_cut he.word (Nat.le_of_succ_le_succ hn)]
  rename_i hword
  rw [if_neg hword]
  split at h
  · rename_i hdigit
    obtain ⟨rfl, rfl⟩ := Prod.mk.inj h
    rw [if_pos hdigit, takeWhile_append_cut he.word (Nat.le_of_succ_le_succ hn)]
  rename_i hdigit
  rw [if_neg hdigit]
  cases w with
  | nil =>
      have hsingle : ¬ doubleMarks.contains [c, e] = true := by
        have hdouble := he.double
        simp only [List.mem_cons, List.not_mem_nil, or_false, not_or] at hdouble
        simp [doubleMarks, hdouble]
      rw [List.nil_append, List.headD_cons, if_neg hsingle]
      split at h
      · obtain ⟨rfl, rfl⟩ := Prod.mk.inj h
        rw [List.length_nil] at hn
        omega
      · exact h
  | cons d w => exact h

/-- A lexeme is measured alike, whatever it begins with. -/
theorem measure_append_cut (he : IsCut e) (h : measure c (w ++ z) = (kind, n))
    (hn : n ≤ w.length + 1) (hstray : kind ≠ .stray)
    (hcomment : c = '/' → kind = .mark → w.head? ≠ some '*')
    (hlast : n = w.length + 1 → Lexeme.takes e ⟨kind, c :: w⟩ = false) (y : List Char) :
    measure c (w ++ e :: y) = (kind, n) := by
  by_cases hspecial : c ∈ ['/', '#', '"', '$', '\'', '@']
  · simp only [List.mem_cons, List.not_mem_nil, or_false] at hspecial
    rcases hspecial with rfl | rfl | hquote | hquote | rfl | rfl
    · exact measure_slash_append_cut h hn (hcomment rfl) hlast y
    · exact measure_hash_append_cut h hn hstray hlast y
    · exact measure_quote_append_cut he (Or.inl hquote) h hn hstray y
    · exact measure_quote_append_cut he (Or.inr hquote) h hn hstray y
    · exact measure_apostrophe_append_cut h hn hstray y
    · exact measure_at_append_cut he h hn hstray y
  · exact measure_plain_append_cut he hspecial h hn hlast y

end

/-! ## All lexemes in front of a cut -/

theorem measure_star (cs : List Char) : measure '*' cs = (.mark, 1) := by
  have hdouble : ¬ doubleMarks.contains ['*', cs.headD ' '] = true := by simp [doubleMarks]
  have hword : ¬ startsWord '*' = true := by decide
  have hdigit : ¬ Unicode.isDecimalDigit '*' = true := by decide
  rw [measure_plain (by decide), if_neg (by decide), if_neg hword, if_neg hdigit, if_neg hdouble]
  rfl

theorem isSpace_of_measure {c : Char} {cs : List Char} (h : isSpace c = true) :
    (measure c cs).1 = .space := by
  unfold measure
  rw [if_pos h]

theorem text_ne_nil_of_mem_lexemes {cs : List Char} {l : Lexeme} (h : l ∈ lexemes cs) :
    l.text ≠ [] := by
  induction cs using lexemes.induct with
  | case1 => rw [lexemes] at h; cases h
  | case2 c cs kind length hmeasure ih =>
      rw [lexemes, hmeasure] at h
      rcases List.mem_cons.mp h with rfl | h
      · exact List.cons_ne_nil _ _
      · exact ih h

theorem lexemes_cons {c : Char} {t rest : List Char} {kind : LexemeKind} {n : Nat}
    (h : measure c (t ++ rest) = (kind, n)) (hn : n - 1 = t.length) :
    lexemes (c :: (t ++ rest)) = ⟨kind, c :: t⟩ :: lexemes rest := by
  rw [lexemes, h]
  simp only [hn, List.take_left, List.drop_left]

/-- The first of several lexemes, and the others. -/
theorem lexemes_eq_cons {cs : List Char} {l : Lexeme} {ls : List Lexeme}
    (h : lexemes cs = l :: ls) (hls : ls ≠ []) :
    ∃ c t rest n, cs = c :: (t ++ rest) ∧ l.text = c :: t ∧
      measure c (t ++ rest) = (l.kind, n) ∧ n - 1 = t.length ∧ lexemes rest = ls := by
  cases cs with
  | nil => rw [lexemes] at h; cases h
  | cons c cs =>
      rw [lexemes] at h
      cases hmeasure : measure c cs with
      | mk kind n =>
          rw [hmeasure] at h
          obtain ⟨rfl, hrest⟩ := List.cons.inj h
          have hn : n - 1 ≤ cs.length := by
            refine Nat.le_of_not_lt fun hlong => hls ?_
            rw [← hrest, List.drop_of_length_le (Nat.le_of_lt hlong), lexemes]
          refine ⟨c, cs.take (n - 1), cs.drop (n - 1), n, ?_, rfl, ?_, ?_, hrest⟩
          · rw [List.take_append_drop]
          · rw [List.take_append_drop, hmeasure]
          · rw [List.length_take, Nat.min_eq_left hn]

/-- Behind a slash that is a mark stands no star, unless a mark again. -/
theorem head?_ne_star {before after : List Lexeme} {left z : List Char}
    (h : lexemes (before.flatMap (·.text) ++ (left ++ z)) = before ++ after)
    (hleft : ∀ c ∈ left, isSpace c = true)
    (hclosed : ¬ [⟨.mark, ['/']⟩, ⟨.mark, ['*']⟩] <:+: ⟨.mark, ['/']⟩ :: before) :
    (before.flatMap (·.text) ++ left).head? ≠ some '*' := by
  intro hhead
  cases before with
  | nil =>
      cases left with
      | nil => cases hhead
      | cons c left =>
          cases hhead
          exact absurd (hleft '*' List.mem_cons_self) (by decide)
  | cons l before =>
      have hmem : l ∈ lexemes ((l :: before).flatMap (·.text) ++ (left ++ z)) := by
        rw [h]
        exact List.mem_cons_self
      obtain ⟨c, t, htext⟩ := List.exists_cons_of_ne_nil (text_ne_nil_of_mem_lexemes hmem)
      rw [List.flatMap_cons, htext] at hhead
      cases hhead
      rw [List.flatMap_cons, htext, List.cons_append, List.cons_append, lexemes, measure_star] at h
      obtain ⟨rfl, -⟩ := List.cons.inj h
      exact hclosed (List.prefix_append [_, _] before).isInfix

/-- The lexemes in front of a place are the same whatever stands behind it, when that begins with a
character for a cut and the last of them does not take it in. -/
theorem lexemes_append_cut {e : Char} {before after : List Lexeme} {left z : List Char}
    (he : IsCut e)
    (h : lexemes (before.flatMap (·.text) ++ (left ++ z)) = before ++ after) (hafter : after ≠ [])
    (hleft : ∀ c ∈ left, isSpace c = true) (hclean : ∀ l ∈ before, l.kind ≠ .stray)
    (hclosed : ¬ [⟨.mark, ['/']⟩, ⟨.mark, ['*']⟩] <:+: before)
    (hfree : left = [] → ∀ l ∈ before.getLast?, l.takes e = false) (y : List Char) :
    lexemes (before.flatMap (·.text) ++ (left ++ e :: y)) =
      before ++ lexemes (left ++ e :: y) := by
  induction before with
  | nil => rfl
  | cons l before ih =>
      obtain ⟨c, t, rest, n, hsplit, htext, hmeasure, hn, hrest⟩ :=
        lexemes_eq_cons h (by simp [hafter])
      rw [List.flatMap_cons, htext, List.cons_append, List.cons_append, List.append_assoc] at hsplit
      obtain rfl := List.append_cancel_left (List.cons.inj hsplit).2
      have hfree' (hnone : left = []) : ∀ l ∈ before.getLast?, l.takes e = false := by
        intro l' hl'
        refine hfree hnone l' ?_
        cases before with
        | nil => cases hl'
        | cons l'' before => rwa [List.getLast?_cons_cons]
      have hrest' := ih hrest (fun l hl => hclean l (List.mem_cons_of_mem _ hl))
        (fun hbefore => hclosed (hbefore.trans (List.suffix_cons _ _).isInfix)) hfree'
      have hnew : measure c (t ++ (before.flatMap (·.text) ++ (left ++ e :: y))) =
          (l.kind, n) := by
        rw [← List.append_assoc, ← List.append_assoc] at hmeasure ⊢
        refine measure_append_cut he hmeasure ?_ (hclean l List.mem_cons_self) ?_ ?_ y
        · simp only [List.length_append]
          omega
        · rintro rfl hkind
          rw [measure_slash, hkind] at hmeasure
          split at hmeasure
          · cases hmeasure
          · obtain ⟨-, rfl⟩ := Prod.mk.inj hmeasure
            obtain rfl : t = [] := List.length_eq_zero_iff.mp hn.symm
            obtain rfl : l = ⟨.mark, ['/']⟩ := by rw [← hkind, ← htext]
            exact head?_ne_star hrest hleft hclosed
        · intro hend
          have hbehind : (before.flatMap (·.text) ++ left).length = 0 := by
            simp only [List.length_append] at hend ⊢
            omega
          obtain ⟨hbefore, rfl⟩ := List.append_eq_nil_iff.mp (List.length_eq_zero_iff.mp hbehind)
          obtain rfl : before = [] := by
            cases before with
            | nil => rfl
            | cons l' before =>
                have hmem : l' ∈ lexemes ((l' :: before).flatMap (·.text) ++ ([] ++ z)) := by
                  rw [hrest]
                  exact List.mem_cons_self
                rw [List.flatMap_cons] at hbefore
                have htext' := (List.append_eq_nil_iff.mp hbefore).1
                exact absurd htext' (text_ne_nil_of_mem_lexemes hmem)
          rw [List.flatMap_nil, List.append_nil, List.append_nil, ← htext]
          exact hfree rfl l rfl
      rw [List.flatMap_cons, htext, List.cons_append, List.cons_append, List.append_assoc,
        lexemes_cons hnew hn, hrest', ← htext]
      rfl

theorem lexemes_append_slash {before after : List Lexeme} {left z : List Char}
    (h : lexemes (before.flatMap (·.text) ++ (left ++ z)) = before ++ after) (hafter : after ≠ [])
    (hleft : ∀ c ∈ left, isSpace c = true) (hclean : ∀ l ∈ before, l.kind ≠ .stray)
    (hclosed : ¬ [⟨.mark, ['/']⟩, ⟨.mark, ['*']⟩] <:+: before)
    (hfree : left = [] → ∀ l ∈ before.getLast?, l.takesSlash = false) (y : List Char) :
    lexemes (before.flatMap (·.text) ++ (left ++ '/' :: y)) =
      before ++ lexemes (left ++ '/' :: y) :=
  lexemes_append_cut isCut_slash h hafter hleft hclean hclosed
    (fun hnone l hl => l.takes_slash.trans (hfree hnone l hl)) y

end ComponentAtlas.CSharp
