import ComponentAtlas.Proofs.CSharp.Signs
import ComponentAtlas.Proofs.Razor.CodeBlock

/-!
# Where a code block ends

A block with some code in it ends at its own closing brace exactly when the braces of the code
are level outside of string literals (`split_around_iff`).  For C# code whose braces balance this
fails only because of what the scan for the brace does not know: character literals, literals other
than those with backslash escapes, and comments.  If each of them is level by itself, the block ends
where it should.
-/

namespace ComponentAtlas.Razor

open Text CSharp

/-- A file with a code block between markup. -/
def withBlock (before code after : List Char) : List Char :=
  before ++ ("@code \x7b".toList ++ (code ++ '}' :: after))

theorem isOpener_code : IsOpener "@code \x7b".toList :=
  ⟨[' '], by decide, by simp [isBlank]⟩

/-- In front of the opener nothing opens a block, unless its word stands there. -/
theorem opener_front {before v : List Char} (h : ¬ "@code".toList <:+: before) (hv : v ≠ [])
    (hsuffix : v <:+ before) (rest : List Char) :
    opener (v ++ ("@code \x7b".toList ++ rest)) = none := by
  refine Option.eq_none_iff_forall_ne_some.mpr fun m hm => ?_
  obtain ⟨op, ⟨blanks, rfl, -⟩, hsplit⟩ := isOpener_of_opener hm
  generalize m.rest = body at hsplit
  have hword : "@code \x7b".toList = '@' :: "code \x7b".toList := by decide
  rw [List.append_assoc, hword, List.cons_append] at hsplit
  rcases List.append_eq_append_iff.mp hsplit with ⟨w, hcode, hw⟩ | ⟨w, rfl, -⟩
  · -- the word would begin in front of the opener and go on in it
    cases w with
    | nil =>
        rw [List.append_nil] at hcode
        exact h (hcode ▸ hsuffix.isInfix)
    | cons c w =>
        obtain ⟨rfl, -⟩ := List.cons.inj hw
        obtain ⟨d, v, rfl⟩ := List.exists_cons_of_ne_nil hv
        have hmem : '@' ∈ "code".toList := by
          have hrest : "code".toList = v ++ '@' :: w := (List.cons.inj hcode).2
          rw [hrest]
          exact List.mem_append_right _ List.mem_cons_self
        exact absurd hmem (by decide)
  · exact h ((List.prefix_append _ _).isInfix.trans hsuffix.isInfix)

theorem split_withBlock {before : List Char} (h : ¬ "@code".toList <:+: before)
    (code after : List Char) : split (withBlock before code after) =
      ⟨aroundBlock before (blockFrom (.code 0) (code ++ '}' :: after)).2,
        some (dedent (blockFrom (.code 0) (code ++ '}' :: after)).1)⟩ := by
  have hfront : ∀ v, v ≠ [] → v <:+ before →
      opener (v ++ ("@code \x7b".toList ++ (code ++ '}' :: after))) = none :=
    fun v hv hsuffix => opener_front h hv hsuffix _
  obtain ⟨m, hm, hrest⟩ := opener_of_isOpener isOpener_code (code ++ '}' :: after)
  have hfirst : opener.findFirst? (withBlock before code after) =
      some (m.value, code ++ '}' :: after) := by
    rw [withBlock, findFirst?_append hfront, findFirst?_of_some hm, hrest]
  have hpieces : (opener.pieces (withBlock before code after)).1 = before := by
    rw [withBlock, pieces_append hfront, pieces_of_some hm, List.append_nil]
  rw [split_of_findFirst? hfirst, hpieces]

/-- The block around some code ends with it exactly when the code is level. -/
theorem split_around_iff {before : List Char} (h : ¬ "@code".toList <:+: before)
    (code after : List Char) : split (withBlock before code after) =
      ⟨aroundBlock before after, some (dedent code)⟩ ↔ braces.IsLevelUnquoted code := by
  rw [split_withBlock h]
  constructor
  · intro hsplit
    have hcode : dedent (blockFrom (.code 0) (code ++ '}' :: after)).1 = dedent code :=
      Option.some.inj (Parts.mk.inj hsplit).2
    have hsolid : solid (blockFrom (.code 0) (code ++ '}' :: after)).1 = solid code := by
      rw [← solid_dedent, hcode, solid_dedent]
    have hbrace : isBlank '}' = false := by decide
    rcases blockFrom_cases (.code 0) (code ++ '}' :: after) with ⟨hlevel, hend⟩ | ⟨-, hend, -⟩
    · obtain ⟨hsame, -⟩ := cut_unique hbrace hend (congrArg List.length hsolid.symm)
      rw [← hsame] at hlevel
      exact scan_block_iff.mp hlevel
    · -- code without an end would have taken the brace in
      rw [← hend] at hsolid
      simp [solid_cons hbrace] at hsolid
  · intro hlevel
    rw [blockFrom_append (scan_block_iff.mpr hlevel)]
    simp [blockFrom, BlockPlace.next?]

/-- A code block ends at its own closing brace, what follows it is markup, and its code is dedented,
exactly when the braces of the code are level outside of string literals.  They are whenever the
braces among the marks of the code balance, and each lexeme that may hold braces and quotation marks
of its own is level by itself: the comments, and the literals other than strings with backslash
escapes. -/
theorem block_ends_at_own_brace {before : List Char} (h : ¬ "@code".toList <:+: before)
    (code after : List Char) :
    (split (withBlock before code after) = ⟨aroundBlock before after, some (dedent code)⟩ ↔
        braces.IsLevelUnquoted code) ∧
      (braces.IsLevel (marks (lexemes code)) →
        (∀ l ∈ lexemes code, l.hidesSigns = true → braces.IsLevelUnquoted l.text) →
        split (withBlock before code after) =
          ⟨aroundBlock before after, some (dedent code)⟩) := by
  refine ⟨split_around_iff h code after, fun hmarks hhides => ?_⟩
  exact (split_around_iff h code after).mpr
    (isLevelUnquoted_of_marks braces_subset_signs hmarks hhides)

/-- A brace in a string literal, a comment with a block in it, and a character literal. -/
def levelCode : List Char :=
  "\n    string s = \"\\\"\x7d\"; // if (x) \x7b y \x7d\n    char c = 'x';\n".toList

theorem block_ends_at_own_brace_comment :
    ¬ "@code".toList <:+: "<p>\n".toList ∧
      split (withBlock "<p>\n".toList levelCode "\n</p>".toList) =
        ⟨"<p>\n\n\n</p>".toList,
          some "string s = \"\\\"\x7d\"; // if (x) \x7b y \x7d\nchar c = 'x';".toList⟩ := by
  have hfront : ¬ "@code".toList <:+: "<p>\n".toList := by
    rw [← contains_iff]
    decide +kernel
  have hhides : ∀ l ∈ lexemes levelCode, l.hidesSigns = true → braces.IsLevelUnquoted l.text := by
    have hscan : ∀ l ∈ lexemes levelCode, l.hidesSigns = true →
        l.text.foldlM BlockPlace.next? (.code 0) = some (.code 0) := by decide +kernel
    exact fun l hl hkind => scan_block_iff.mp (hscan l hl hkind)
  have hends := (block_ends_at_own_brace hfront levelCode "\n</p>".toList).2 (by decide +kernel) hhides
  refine ⟨hfront, hends.trans ?_⟩
  decide +kernel

/-- A closing brace in a character literal ends the block, although the braces of the code
balance. -/
theorem block_ends_in_character :
    braces.IsLevel (marks (lexemes "\n    char c = '\x7d';\n".toList)) ∧
      split (withBlock "<p>\n".toList "\n    char c = '\x7d';\n".toList "\n</p>".toList) =
        ⟨"<p>\n\n';\n\x7d\n</p>".toList, some "char c = '".toList⟩ :=
  ⟨by decide +kernel, by decide +kernel⟩

end ComponentAtlas.Razor
