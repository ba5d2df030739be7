import ComponentAtlas.Proofs.Text.Blank
import ComponentAtlas.Text.Preview

/-!
# Where a preview is cut

A text that is too long loses the word that the width cuts in two, and the blanks in front of that
word; a text without a blank in the part that fits is cut where the width ends.  So the part that
fits is looked at from its last blank (`exists_last_of_any`), and both the characters that are kept
and the place of the cut are told by what stands in front of that blank.

The place is a byte: the one at which the last blank starts, or the first character that does not
fit.  The bytes of the characters in front of the cut are as many as that (`cutByte_of_last`,
`cutByte_of_none`), so it is never within a character, however many bytes the characters take.
-/

namespace ComponentAtlas.Text

variable {cs : List Char}

/-! ## The last blank -/

/-- Either no character satisfies `p`, or the last one that does stands between the others. -/
theorem exists_last_of_any (p : Char → Bool) (cs : List Char) :
    (∀ c ∈ cs, p c = false) ∨
      ∃ before c w, cs = before ++ c :: w ∧ p c = true ∧ ∀ d ∈ w, p d = false := by
  induction cs with
  | nil => exact Or.inl (by simp)
  | cons c cs ih =>
      rcases ih with hnone | ⟨before, d, w, rfl, hd, hw⟩
      · cases hc : p c with
        | false => exact Or.inl (List.forall_mem_cons.mpr ⟨hc, hnone⟩)
        | true => exact Or.inr ⟨[], c, cs, rfl, hc, hnone⟩
      · exact Or.inr ⟨c :: before, d, w, rfl, hd, hw⟩

theorem beforeLastBlank?_of_none (h : ∀ c ∈ cs, isBlank c = false) :
    beforeLastBlank? cs = none := by
  have hdrop : (cs.reverse ++ []).dropWhile (fun c => !isBlank c) = [] :=
    List.dropWhile_append_of_pos fun c hc => by simp [h c (List.mem_reverse.mp hc)]
  rw [List.append_nil] at hdrop
  rw [beforeLastBlank?, hdrop]

theorem beforeLastBlank?_of_last {before w : List Char} {c : Char} (hc : isBlank c = true)
    (hw : ∀ d ∈ w, isBlank d = false) : beforeLastBlank? (before ++ c :: w) = some before := by
  have hdrop :
      (before ++ c :: w).reverse.dropWhile (fun c => !isBlank c) = c :: before.reverse := by
    rw [List.reverse_append, List.reverse_cons, List.append_assoc,
      List.dropWhile_append_of_pos fun d hd => by simp [hw d (List.mem_reverse.mp hd)],
      List.singleton_append, List.dropWhile_cons_of_neg (by simp [hc])]
  simp only [beforeLastBlank?, hdrop, List.reverse_reverse]

/-! ## The byte of the cut -/

/-- The characters of a text, each with the byte at which it starts. -/
def charStarts (start : Nat) : List Char → List (Nat × Char)
  | [] => []
  | c :: cs => (start, c) :: charStarts (start + c.utf8Size) cs

/-- The byte in front of which a text is cut: where the last blank starts among the characters that
fit, or else the first character that does not. -/
def cutByte (width : Nat) (cs : List Char) : Nat :=
  let blanks := ((charStarts 0 cs).take width).filter fun e => isBlank e.2
  ((blanks.getLast?.or (charStarts 0 cs)[width]?).map Prod.fst).getD
    (String.ofList cs).utf8ByteSize

theorem utf8ByteSize_cons (c : Char) (cs : List Char) :
    (String.ofList (c :: cs)).utf8ByteSize = c.utf8Size + (String.ofList cs).utf8ByteSize := by
  rw [String.ofList_cons, String.utf8ByteSize_append, String.utf8ByteSize_singleton]

theorem charStarts_append (start : Nat) (cs ds : List Char) :
    charStarts start (cs ++ ds) =
      charStarts start cs ++ charStarts (start + (String.ofList cs).utf8ByteSize) ds := by
  induction cs generalizing start with
  | nil => rfl
  | cons c cs ih =>
      rw [List.cons_append, charStarts, ih, charStarts, utf8ByteSize_cons, Nat.add_assoc]
      rfl

theorem length_charStarts (start : Nat) (cs : List Char) :
    (charStarts start cs).length = cs.length := by
  induction cs generalizing start with
  | nil => rfl
  | cons c cs ih => rw [charStarts, List.length_cons, ih, List.length_cons]

theorem take_charStarts (start width : Nat) (cs : List Char) :
    (charStarts start cs).take width = charStarts start (cs.take width) := by
  induction cs generalizing start width with
  | nil => simp [charStarts]
  | cons c cs ih =>
      cases width with
      | zero => rfl
      | succ width => rw [charStarts, List.take_succ_cons, ih, List.take_succ_cons, charStarts]

theorem filter_charStarts (h : ∀ c ∈ cs, isBlank c = false) (start : Nat) :
    (charStarts start cs).filter (fun e => isBlank e.2) = [] := by
  induction cs generalizing start with
  | nil => rfl
  | cons c cs ih =>
      obtain ⟨hc, hcs⟩ := List.forall_mem_cons.mp h
      rw [charStarts, List.filter_cons_of_neg (by simp [hc]), ih hcs]

/-- The last blank that fits starts behind the characters in front of it. -/
theorem cutByte_of_last {width : Nat} {before w : List Char} {c : Char}
    (h : cs.take width = before ++ c :: w) (hc : isBlank c = true)
    (hw : ∀ d ∈ w, isBlank d = false) :
    cutByte width cs = (String.ofList before).utf8ByteSize := by
  have hlast : (((charStarts 0 cs).take width).filter fun e => isBlank e.2).getLast? =
      some ((String.ofList before).utf8ByteSize, c) := by
    rw [take_charStarts, h, charStarts_append, List.filter_append, charStarts,
      List.filter_cons_of_pos (by simpa using hc), filter_charStarts hw, List.getLast?_concat,
      Nat.zero_add]
  simp only [cutByte, hlast, Option.some_or, Option.map_some, Option.getD_some]

/-- Without a blank that fits, the cut is behind what fits. -/
theorem cutByte_of_none {width : Nat} (h : ∀ c ∈ cs.take width, isBlank c = false)
    (hlong : width < cs.length) :
    cutByte width cs = (String.ofList (cs.take width)).utf8ByteSize := by
  have hnone : ((charStarts 0 cs).take width).filter (fun e => isBlank e.2) = [] := by
    rw [take_charStarts, filter_charStarts h]
  have hnext : (charStarts 0 cs)[width]? =
      some ((String.ofList (cs.take width)).utf8ByteSize, cs[width]) := by
    have hsplit := charStarts_append 0 (cs.take width) (cs.drop width)
    have hlength : (charStarts 0 (cs.take width)).length = width := by
      rw [length_charStarts, List.length_take, Nat.min_eq_left (Nat.le_of_lt hlong)]
    rw [List.take_append_drop, List.drop_eq_getElem_cons hlong, charStarts] at hsplit
    rw [hsplit, List.getElem?_append_right (Nat.le_of_eq hlength), hlength, Nat.sub_self,
      Nat.zero_add]
    rfl
  simp only [cutByte, hnone, hnext, List.getLast?_nil, Option.none_or, Option.map_some,
    Option.getD_some]

/-! ## The preview -/

/-- What a preview keeps of a text that does not fit, and what it leaves out. -/
structure IsCut (width : Nat) (cs kept rest : List Char) : Prop where
  text : cs = kept ++ rest
  fits : kept.length ≤ width
  /-- The kept part does not end with a blank. -/
  trimmed : ∀ c ∈ kept.getLast?, isBlank c = false
  /-- With a blank in the part that fits, the cut is in front of one. -/
  parted : (∃ c ∈ cs.take width, isBlank c = true) → ∃ c, rest.head? = some c ∧ isBlank c = true
  /-- Of the part that fits, nothing is left out but blanks and the start of a word behind them. -/
  last_word : ∃ gap word, cs.take width = kept ++ (gap ++ word) ∧
    (∀ c ∈ gap, isBlank c = true) ∧ ∀ c ∈ word, isBlank c = false
  /-- Without a blank in the part that fits, all of it is kept. -/
  whole : (∀ c ∈ cs.take width, isBlank c = false) → kept = cs.take width

theorem isCut_of_last {width : Nat} {before w : List Char} {c : Char}
    (h : cs.take width = before ++ c :: w) (hc : isBlank c = true)
    (hw : ∀ d ∈ w, isBlank d = false) :
    ∃ rest, IsCut width cs (trimEnd before) rest := by
  obtain ⟨behind, hbefore, hbehind⟩ := exists_trimEnd before
  have htake : cs.take width = trimEnd before ++ ((behind ++ [c]) ++ w) := by
    rw [h, List.append_assoc, ← List.append_assoc (trimEnd before), ← hbefore]
    rfl
  have htext : cs = trimEnd before ++ ((behind ++ c :: w) ++ cs.drop width) := by
    rw [← List.append_assoc, ← List.append_assoc, ← hbefore, ← h, List.take_append_drop]
  refine ⟨_, htext, ?_, getLast?_trimEnd before, fun _ => ?_, ⟨_, w, htake, ?_, hw⟩,
    fun hnone => ?_⟩
  · have hlength := congrArg List.length htake
    simp only [List.length_append, List.length_take] at hlength
    omega
  · cases behind with
    | nil => exact ⟨c, rfl, hc⟩
    | cons d behind => exact ⟨d, rfl, hbehind d List.mem_cons_self⟩
  · intro d hd
    rcases List.mem_append.mp hd with hd | hd
    · exact hbehind d hd
    · rwa [List.mem_singleton.mp hd]
  · rw [hnone c (by rw [h]; exact List.mem_append_right _ List.mem_cons_self)] at hc
    cases hc

theorem isCut_of_none {width : Nat} (h : ∀ c ∈ cs.take width, isBlank c = false) :
    IsCut width cs (cs.take width) (cs.drop width) where
  text := (List.take_append_drop width cs).symm
  fits := List.length_take_le _ _
  trimmed c hc := h c (List.mem_of_getLast? hc)
  parted := by
    rintro ⟨c, hmem, hc⟩
    rw [h c hmem] at hc
    cases hc
  last_word := ⟨[], [], by simp, by simp, by simp⟩
  whole _ := rfl

/-- A text that fits is its own preview, and a longer one is cut at a word and marked with an
ellipsis.  The byte of the cut is one at which a character of the text starts; in front of it stand
the characters of which the preview keeps all but blanks at the end. -/
theorem preview_cuts_at_word (width : Nat) (cs : List Char) :
    (cs.length ≤ width → preview width cs = cs) ∧
      (width < cs.length →
        (∃ kept rest, IsCut width cs kept rest ∧ preview width cs = kept ++ ['…']) ∧
          ∃ before behind, cs = before ++ behind ∧
            (String.ofList before).utf8ByteSize = cutByte width cs ∧
            preview width cs = trimEnd before ++ ['…']) := by
  refine ⟨fun hfits => if_pos hfits, fun hlong => ?_⟩
  have hpreview : preview width cs =
      trimEnd ((beforeLastBlank? (cs.take width)).getD (cs.take width)) ++ ['…'] :=
    if_neg (Nat.not_le_of_lt hlong)
  rcases exists_last_of_any isBlank (cs.take width) with hnone | ⟨before, c, w, htake, hc, hw⟩
  · rw [beforeLastBlank?_of_none hnone, Option.getD_none] at hpreview
    have hsame : trimEnd (cs.take width) = cs.take width := dropEndWhile_eq_self hnone
    refine ⟨⟨_, _, isCut_of_none hnone, by rw [hpreview, hsame]⟩, _, _,
      (List.take_append_drop width cs).symm, (cutByte_of_none hnone hlong).symm, hpreview⟩
  · rw [htake, beforeLastBlank?_of_last hc hw, Option.getD_some] at hpreview
    obtain ⟨rest, hcut⟩ := isCut_of_last htake hc hw
    refine ⟨⟨_, rest, hcut, hpreview⟩, before, c :: w ++ cs.drop width, ?_,
      (cutByte_of_last htake hc hw).symm, hpreview⟩
    rw [← List.append_assoc, ← htake, List.take_append_drop]

/-- Two blanks in front of the word that is cut off, and letters of two bytes. -/
theorem preview_cuts_accented :
    6 < "été  à la mer".toList.length ∧
      preview 6 "été  à la mer".toList = "été…".toList ∧ cutByte 6 "été  à la mer".toList = 6 ∧
      ∃ kept rest, IsCut 6 "été  à la mer".toList kept rest ∧
        preview 6 "été  à la mer".toList = kept ++ ['…'] := by
  have hlong : 6 < "été  à la mer".toList.length := by decide
  obtain ⟨-, hcut⟩ := preview_cuts_at_word 6 "été  à la mer".toList
  exact ⟨hlong, by decide, by decide, (hcut hlong).1⟩

end ComponentAtlas.Text
