import ComponentAtlas.Proofs.Razor.Dedent
import ComponentAtlas.Proofs.Text.Recogniser
import ComponentAtlas.Proofs.Text.Solid
import ComponentAtlas.Proofs.Text.Unquoted

/-!
# The parts of a Razor file

A file is what stands in front of its first opener, the opener, the code of the block, its closing
brace, and what follows; the brace and the rest are missing when the block is never closed
(`exists_block`).  Its markup and its code are made of these parts by leaving out blanks and putting
a line feed between two of them, so no other character is lost or comes twice (`split_keeps_text`).

The block is closed at the first brace in front of which the braces outside of string literals are
level: the scan comes to a brace that closes nothing exactly there (`blockFrom_cases`), and had it
met such a brace before, it would not have gone on (`not_isLevelUnquoted_within`).
-/

namespace ComponentAtlas.Razor

open Text

/-! ## Openers -/

/-- A text that opens a code block. -/
def IsOpener (cs : List Char) : Prop :=
  ∃ blanks, cs = "@code".toList ++ (blanks ++ ['\x7b']) ∧ ∀ c ∈ blanks, isBlank c = true

/-- Whether a code block opens somewhere in a text. -/
def OpensBlock (cs : List Char) : Prop :=
  ∃ op, IsOpener op ∧ op <:+: cs

theorem afterOpener?_eq_some_iff {s body : List Char} :
    afterOpener? s = some body ↔ ∃ op, IsOpener op ∧ s = op ++ body := by
  constructor
  · intro h
    obtain ⟨rest, hword, hbrace⟩ := Option.bind_eq_some_iff.mp h
    have hsplit := List.takeWhile_append_dropWhile (p := isBlank) (l := rest)
    split at hbrace
    · rename_i hdrop
      obtain rfl := Option.some.inj hbrace
      refine ⟨_, ⟨rest.takeWhile isBlank, rfl, List.all_eq_true.mp List.all_takeWhile⟩, ?_⟩
      rw [hdrop] at hsplit
      rw [after?_eq_some_iff.mp hword]
      simpa using hsplit.symm
    · cases hbrace
  · rintro ⟨op, ⟨blanks, rfl, hblanks⟩, rfl⟩
    have hword : after? "@code".toList ("@code".toList ++ (blanks ++ ['\x7b']) ++ body) =
        some (blanks ++ '\x7b' :: body) := by
      rw [after?_eq_some_iff]
      simp
    rw [afterOpener?, hword, Option.bind_some, List.dropWhile_append_of_pos hblanks,
      List.dropWhile_cons_of_neg (by decide)]
    rfl

theorem opener_of_isOpener {op : List Char} (h : IsOpener op) (body : List Char) :
    ∃ m : Match Unit (op ++ body), opener (op ++ body) = some m ∧ m.rest = body := by
  have hread : (afterOpener? (op ++ body)).map (fun body => ((), body)) = some ((), body) := by
    rw [afterOpener?_eq_some_iff.mpr ⟨op, h, rfl⟩]
    rfl
  have hshort : body.length < (op ++ body).length := by
    obtain ⟨blanks, rfl, -⟩ := h
    simp only [List.length_append, List.length_singleton]
    omega
  exact ⟨_, ofReading_eq_some hread hshort, rfl⟩

theorem isOpener_of_opener {s : List Char} {m : Match Unit s} (h : opener s = some m) :
    ∃ op, IsOpener op ∧ s = op ++ m.rest := by
  unfold opener Recogniser.ofReading at h
  obtain ⟨⟨⟨⟩, body⟩, hread, hmatch⟩ := Option.bind_eq_some_iff.mp h
  obtain ⟨body', hbody, hsame⟩ := Option.map_eq_some_iff.mp hread
  obtain ⟨-, rfl⟩ := Prod.mk.inj hsame
  obtain ⟨op, hop, hs⟩ := afterOpener?_eq_some_iff.mp hbody
  refine ⟨op, hop, ?_⟩
  simp only [Match.of?] at hmatch
  split at hmatch
  · rw [← Option.some.inj hmatch]
    exact hs
  · cases hmatch

theorem opener_eq_none_of_not {v t : List Char} (h : opener (v ++ t) = none) :
    ∀ op, IsOpener op → ¬ op <+: v := by
  rintro op hop ⟨w, rfl⟩
  obtain ⟨m, hm, -⟩ := opener_of_isOpener hop (w ++ t)
  rw [List.append_assoc, hm] at h
  cases h

theorem ne_nil_of_isOpener {op : List Char} (h : IsOpener op) : op ≠ [] := by
  obtain ⟨blanks, rfl, -⟩ := h
  simp

/-- No block opens where the recogniser finds nothing. -/
theorem not_opensBlock {p t : List Char}
    (h : ∀ v, v ≠ [] → v <:+ p → opener (v ++ t) = none) : ¬ OpensBlock p := by
  rintro ⟨op, hop, u, w, rfl⟩
  have hne : op ++ w ≠ [] := List.append_ne_nil_of_left_ne_nil (ne_nil_of_isOpener hop) w
  rw [List.append_assoc] at h
  exact opener_eq_none_of_not (h _ hne (List.suffix_append _ _)) op hop (List.prefix_append _ _)

theorem opensBlock_iff {source : List Char} :
    OpensBlock source ↔ opener.findFirst? source ≠ none := by
  constructor
  · intro hopens hnone
    refine not_opensBlock (t := []) (fun v hv hsuffix => ?_) hopens
    rw [List.append_nil]
    exact findFirst?_eq_none hnone v hv hsuffix
  · intro h
    obtain ⟨⟨value, body⟩, hfirst⟩ := Option.ne_none_iff_exists'.mp h
    obtain ⟨t, m, hsplit, hm, -, -⟩ := exists_first_match hfirst
    obtain ⟨op, hop, ht⟩ := isOpener_of_opener hm
    exact ⟨op, hop, _, m.rest, by rw [List.append_assoc, ← ht, ← hsplit]⟩

/-! ## The block -/

/-- A scan that has not closed the block goes on behind it. -/
theorem blockFrom_append {body rest : List Char} {place place' : BlockPlace}
    (h : body.foldlM BlockPlace.next? place = some place') :
    blockFrom place (body ++ rest) =
      (body ++ (blockFrom place' rest).1, (blockFrom place' rest).2) := by
  induction body generalizing place with
  | nil =>
      obtain rfl := Option.some.inj h
      rfl
  | cons c body ih =>
      rw [List.foldlM_cons] at h
      obtain ⟨next, hnext, hbody⟩ := Option.bind_eq_some_iff.mp h
      rw [List.cons_append, blockFrom, hnext]
      simp only [ih hbody, List.cons_append]

theorem next?_eq_none {place : BlockPlace} {c : Char} (h : place.next? c = none) :
    place = .code 0 ∧ c = '}' := by
  cases place with
  | code d =>
      simp only [BlockPlace.next?] at h
      split at h
      · cases h
      split at h
      · cases h
      split at h
      · cases d with
        | zero => exact ⟨rfl, ‹_›⟩
        | succ d => cases h
      · cases h
  | quoted d escaped => cases escaped <;> cases h

/-- A block ends in front of a brace that closes nothing, or with the text. -/
theorem blockFrom_cases (place : BlockPlace) (s : List Char) :
    ((blockFrom place s).1.foldlM BlockPlace.next? place = some (.code 0) ∧
        s = (blockFrom place s).1 ++ '}' :: (blockFrom place s).2) ∨
      ((∃ place', (blockFrom place s).1.foldlM BlockPlace.next? place = some place') ∧
        s = (blockFrom place s).1 ∧ (blockFrom place s).2 = []) := by
  induction s generalizing place with
  | nil => exact Or.inr ⟨⟨place, rfl⟩, rfl, rfl⟩
  | cons c s ih =>
      cases hnext : place.next? c with
      | none =>
          obtain ⟨rfl, rfl⟩ := next?_eq_none hnext
          exact Or.inl ⟨rfl, rfl⟩
      | some next =>
          have hblock : blockFrom place (c :: s) =
              (c :: (blockFrom next s).1, (blockFrom next s).2) := by
            rw [blockFrom, hnext]
          rw [hblock]
          simp only [List.foldlM_cons, hnext, Option.bind_eq_bind, Option.bind_some,
            List.cons_append]
          rcases ih next with ⟨hlevel, hs⟩ | ⟨hlevel, hs, hnone⟩
          · exact Or.inl ⟨hlevel, congrArg (c :: ·) hs⟩
          · exact Or.inr ⟨hlevel, congrArg (c :: ·) hs, hnone⟩

/-- In front of no brace within a block is the code level. -/
theorem not_isLevelUnquoted_within {raw code more : List Char} {place : BlockPlace}
    (h : raw.foldlM BlockPlace.next? (.code 0) = some place) (hraw : raw = code ++ '}' :: more) :
    ¬ braces.IsLevelUnquoted code := by
  intro hlevel
  rw [hraw, List.foldlM_append, scan_block_iff.mpr hlevel] at h
  cases h

/-- The text in front of the first code block; all of it when there is none. -/
def front (source : List Char) : List Char :=
  match opener.findFirst? source with
  | some _ => (opener.pieces source).1
  | none => source

/-- The text behind the first code block. -/
def behind (source : List Char) : List Char :=
  match opener.findFirst? source with
  | some (_, body) => (blockFrom (.code 0) body).2
  | none => []

/-- Markup in front of a block and behind it. -/
def aroundBlock (before after : List Char) : List Char :=
  if allBlank after then before else before ++ '\n' :: after

theorem split_of_findFirst? {source body : List Char} {value : Unit}
    (h : opener.findFirst? source = some (value, body)) : split source =
      ⟨aroundBlock (opener.pieces source).1 (blockFrom (.code 0) body).2,
        some (dedent (blockFrom (.code 0) body).1)⟩ := by
  rw [split, h]
  rfl

theorem split_of_not_opensBlock {source : List Char} (h : ¬ OpensBlock source) :
    split source = ⟨source, none⟩ ∧ front source = source ∧ behind source = [] := by
  rw [opensBlock_iff, ne_eq, Classical.not_not] at h
  unfold split front behind
  rw [h]
  exact ⟨rfl, rfl, rfl⟩

/-- A file with a code block, taken apart. -/
theorem exists_block {source : List Char} (h : OpensBlock source) :
    ∃ op raw rest, source = front source ++ (op ++ (raw ++ rest)) ∧ IsOpener op ∧
      ¬ OpensBlock (front source) ∧
      split source = ⟨aroundBlock (front source) (behind source), some (dedent raw)⟩ ∧
      (braces.IsLevelUnquoted raw ∧ rest = '}' :: behind source ∨
        rest = [] ∧ behind source = []) ∧
      ∀ code more, raw = code ++ '}' :: more → ¬ braces.IsLevelUnquoted code := by
  obtain ⟨⟨value, body⟩, hfirst⟩ := Option.ne_none_iff_exists'.mp (opensBlock_iff.mp h)
  obtain ⟨t, m, hsource, hm, rfl, hnone⟩ := exists_first_match hfirst
  obtain ⟨op, hop, ht⟩ := isOpener_of_opener hm
  have hfront : front source = (opener.pieces source).1 := by rw [front, hfirst]
  have hbehind : behind source = (blockFrom (.code 0) m.rest).2 := by rw [behind, hfirst]
  have hsplit : split source = ⟨aroundBlock (front source) (behind source),
      some (dedent (blockFrom (.code 0) m.rest).1)⟩ := by
    rw [split_of_findFirst? hfirst, hfront, hbehind]
  rw [hsplit, hfront, hbehind]
  rcases blockFrom_cases (.code 0) m.rest with ⟨hlevel, hbody⟩ | ⟨⟨place, hopen⟩, hbody, hafter⟩
  · refine ⟨op, _, '}' :: (blockFrom (.code 0) m.rest).2, ?_, hop, not_opensBlock hnone, rfl,
      Or.inl ⟨scan_block_iff.mp hlevel, rfl⟩, fun _ _ => not_isLevelUnquoted_within hlevel⟩
    rw [← hbody, ← ht]
    exact hsource
  · refine ⟨op, _, [], ?_, hop, not_opensBlock hnone, rfl,
      Or.inr ⟨rfl, hafter⟩, fun _ _ => not_isLevelUnquoted_within hopen⟩
    rw [List.append_nil, ← hbody, ← ht]
    exact hsource

/-! ## Nothing lost and nothing twice -/

theorem Reindented.solid_eq {x y : List Char} (h : Reindented x y) : solid y = solid x := by
  induction h with
  | last blank gap =>
      rw [solid_eq_nil_iff.mpr blank, solid_eq_nil_iff.mpr (gap.isBlank blank)]
  | cons blank gap hsolid _ ih =>
      rw [solid_append, solid_append, solid_eq_nil_iff.mpr blank,
        solid_eq_nil_iff.mpr (gap.isBlank blank), solid_cons hsolid, solid_cons hsolid, ih]

theorem solid_dedent (body : List Char) : solid (dedent body) = solid body := by
  have hfeed : isBlank '\n' = true := rfl
  have h := (reindented_dedent body []).solid_eq
  rwa [solid_cons_blank hfeed, solid_cons_blank hfeed, solid_append, solid_append,
    solid_cons_blank hfeed, solid_nil, List.append_nil, List.append_nil] at h

theorem solid_aroundBlock (before after : List Char) :
    solid (aroundBlock before after) = solid before ++ solid after := by
  unfold aroundBlock
  split
  · rename_i hblank
    rw [solid_eq_nil_iff.mpr (List.all_eq_true.mp hblank), List.append_nil]
  · rw [solid_append, solid_cons_blank rfl]

/-- Splitting a file loses no text and duplicates none.  A file without an opener is all markup.
Any other file is the text in front of its first opener, the opener, the code, and behind it nothing
or the closing brace and a rest; and apart from blanks the markup is the text in front and the rest,
and the code is the code.  The closing brace is the first one in front of which the code is
level. -/
theorem split_keeps_text (source : List Char) :
    match (split source).code with
    | none => (split source).markup = source ∧ ¬ OpensBlock source
    | some code => ∃ before op raw rest after, source = before ++ (op ++ (raw ++ rest)) ∧
        ¬ OpensBlock before ∧ IsOpener op ∧
        (rest = [] ∧ after = [] ∨ rest = '}' :: after ∧ braces.IsLevelUnquoted raw) ∧
        (∀ shorter more, raw = shorter ++ '}' :: more → ¬ braces.IsLevelUnquoted shorter) ∧
        solid code = solid raw ∧ solid (split source).markup = solid before ++ solid after := by
  by_cases hopens : OpensBlock source
  · obtain ⟨op, raw, rest, hsource, hop, hfront, hsplit, hend, hshorter⟩ := exists_block hopens
    rw [hsplit]
    refine ⟨front source, op, raw, rest, behind source, hsource, hfront, hop, ?_, hshorter,
      solid_dedent raw, solid_aroundBlock _ _⟩
    exact hend.elim (fun h => Or.inr ⟨h.2, h.1⟩) Or.inl
  · rw [(split_of_not_opensBlock hopens).1]
    exact ⟨rfl, hopens⟩

/-! ## How deep a scan gets -/

namespace BlockPlace

variable {place place' : BlockPlace} {c : Char} {cs : List Char}

/-- How many braces are open inside the block where a scan stands. -/
def depth : BlockPlace → Nat
  | .code d => d
  | .quoted d _ => d

theorem depth_next_le (h : place.next? c = some place') : place'.depth ≤ place.depth + 1 := by
  cases place with
  | code d =>
      simp only [next?] at h
      split at h
      · obtain rfl := Option.some.inj h
        exact Nat.le_succ d
      split at h
      · obtain rfl := Option.some.inj h
        exact Nat.le_refl (d + 1)
      split at h
      · cases d with
        | zero => cases h
        | succ d =>
            obtain rfl := Option.some.inj h
            exact Nat.le_add_right d 2
      · obtain rfl := Option.some.inj h
        exact Nat.le_succ d
  | quoted d escaped =>
      have hsame : place'.depth = d := by
        cases escaped with
        | true => exact congrArg depth (Option.some.inj h).symm
        | false =>
            obtain rfl := Option.some.inj h
            split
            · rfl
            split <;> rfl
      rw [hsame]
      exact Nat.le_succ d

/-- A scan opens no more braces than it passes characters, so a counter of fixed width holds the
depth in every text of which it holds the length. -/
theorem depth_scan_le (h : cs.foldlM next? place = some place') :
    place'.depth ≤ place.depth + cs.length := by
  induction cs generalizing place with
  | nil =>
      obtain rfl := Option.some.inj h
      exact Nat.le_refl _
  | cons c cs ih =>
      rw [List.foldlM_cons] at h
      obtain ⟨between, hnext, hrest⟩ := Option.bind_eq_some_iff.mp h
      have hstep := depth_next_le hnext
      have hrun := ih hrest
      rw [List.length_cons]
      omega

end BlockPlace

end ComponentAtlas.Razor
