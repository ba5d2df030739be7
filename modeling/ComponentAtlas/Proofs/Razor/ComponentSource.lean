import ComponentAtlas.Declaration.ComponentFile
import ComponentAtlas.Proofs.CSharp.LiteralCut
import ComponentAtlas.Proofs.Razor.CodeBlock
import ComponentAtlas.Proofs.Text.Blank
import ComponentAtlas.Proofs.Text.Occurrence

/-!
# What a component file says about its class

A component file names its namespace and its base in two directives, and the rest of its class
stands in the code block.  All three are found again, as they are written, when the values are
trimmed parts of a line and the braces of the block balance (`standInClass_componentSource`).

The directives are looked for in the whole file, so a line of the block that looks like one counts
as one, too; `hasClassDirective` tells whether there is such a line.
-/

namespace ComponentAtlas

open Text Razor

/-- The source of a component: its namespace, its base, and a code block. -/
def componentSource (ns base body : List Char) : List Char :=
  "@namespace".toList ++ ' ' :: (ns ++ '\n' :: ("@inherits".toList ++ ' ' :: (base ++ '\n' ::
    ("@code \x7b".toList ++ (body ++ ['}'])))))

namespace Razor

/-! ## The values of directives -/

/-- A value for a directive: a part of a line with no blank at either end, and no brace that would
open the code block. -/
structure IsDirectiveValue (v : List Char) : Prop extends IsTrimmed v where
  line : ∀ c ∈ v, c ≠ '\n' ∧ c ≠ '\r' ∧ c ≠ '\x7b'

theorem isDirectiveValue_iff {v : List Char} : IsDirectiveValue v ↔
    IsTrimmed v ∧ v.all (fun c => c != '\n' && c != '\r' && c != '\x7b') = true := by
  rw [List.all_eq_true]
  simp only [Bool.and_eq_true, bne_iff_ne, and_assoc]
  exact ⟨fun h => ⟨h.toIsTrimmed, h.line⟩, fun h => ⟨h.1, h.2⟩⟩

instance decidableIsDirectiveValue (v : List Char) : Decidable (IsDirectiveValue v) :=
  decidable_of_decidable_of_iff isDirectiveValue_iff.symm

theorem not_endsLine {v rest : List Char} (hlast : ∃ c, v.getLast? = some c ∧ isBlank c = false)
    (hline : ∀ c ∈ v, c ≠ '\n' ∧ c ≠ '\r') : endsLine (v ++ rest) = false := by
  obtain ⟨c, hlast, hc⟩ := hlast
  have hstop : ∃ d ∈ v, isBlank d = false := ⟨c, List.mem_of_getLast? hlast, hc⟩
  obtain ⟨blanks, d, w, rfl, hblanks, hd⟩ := CSharp.exists_stop hstop
  unfold endsLine
  rw [List.append_assoc, List.cons_append, CSharp.takeWhile_run hblanks hd,
    List.dropWhile_append_of_pos hblanks, List.dropWhile_cons_of_neg (by simp [hd])]
  have hfeed : '\n' ∉ blanks := fun hmem => (hline _ (List.mem_append_left _ hmem)).1 rfl
  simpa using hfeed

theorem endsLine_feed {d : Char} (hd : isBlank d = false) (rest : List Char) :
    endsLine ('\n' :: d :: rest) = true ∧
      fromLineEnd ('\n' :: d :: rest) = '\n' :: d :: rest := by
  have hblank : isBlank '\n' = true := rfl
  have htake : ('\n' :: d :: rest).takeWhile isBlank = ['\n'] := by
    simp [hblank, hd]
  have hdrop : ('\n' :: d :: rest).dropWhile isBlank = d :: rest := by
    simp [hblank, hd]
  constructor
  · rw [endsLine, htake]
    rfl
  · rw [fromLineEnd, htake, hdrop]
    rfl

/-- The value of a directive is what stands on its line. -/
theorem directiveValue?_eq {v rest : List Char} {d : Char}
    (hlast : ∃ c, v.getLast? = some c ∧ isBlank c = false)
    (hline : ∀ c ∈ v, c ≠ '\n' ∧ c ≠ '\r') (hd : isBlank d = false) :
    directiveValue? (v ++ '\n' :: d :: rest) = some (v, '\n' :: d :: rest) := by
  induction v with
  | nil =>
      obtain ⟨c, hlast, -⟩ := hlast
      cases hlast
  | cons c v ih =>
      have hc := hline c List.mem_cons_self
      have hline' : ∀ c ∈ v, c ≠ '\n' ∧ c ≠ '\r' := fun c hc => hline c (List.mem_cons_of_mem _ hc)
      rw [List.cons_append, directiveValue?, if_neg (by simp [hc])]
      cases v with
      | nil =>
          obtain ⟨hends, hfrom⟩ := endsLine_feed hd rest
          rw [List.nil_append, if_pos hends, hfrom]
      | cons c' v =>
          rw [List.getLast?_cons_cons] at hlast
          rw [if_neg (Bool.eq_false_iff.mp (not_endsLine hlast hline')), ih hlast hline',
            Option.map_some]

theorem valueBehind?_eq {v rest : List Char} {d : Char} (h : IsDirectiveValue v)
    (hd : isBlank d = false) :
    valueBehind? (' ' :: (v ++ '\n' :: d :: rest))
        ((' ' :: (v ++ '\n' :: d :: rest)).takeWhile isBlank).length =
      some (v, '\n' :: d :: rest) := by
  obtain ⟨c, hfirst, hc⟩ := h.first
  have hvalue := @directiveValue?_eq v rest d h.last
    (fun c hc => ⟨(h.line c hc).1, (h.line c hc).2.1⟩) hd
  obtain ⟨v, rfl⟩ := List.head?_eq_some_iff.mp hfirst
  have hblank : isBlank ' ' = true := rfl
  have htake : (' ' :: (c :: v ++ '\n' :: d :: rest)).takeWhile isBlank = [' '] := by
    simp [hblank, hc]
  rw [htake, List.length_singleton, valueBehind?, List.drop_succ_cons, List.drop_zero, hvalue]
  rfl

/-! ## Directives -/

theorem findAll_of_some {α : Type} {r : Recogniser α} {c : Char} {cs : List Char}
    {m : Match α (c :: cs)} (h : r (c :: cs) = some m) :
    r.findAll (c :: cs) = m.value :: r.findAll m.rest := by
  simp only [Recogniser.findAll, Recogniser.pieces, h, List.map_cons]

theorem findAll_of_none {α : Type} {r : Recogniser α} {c : Char} {cs : List Char}
    (h : r (c :: cs) = none) : r.findAll (c :: cs) = r.findAll cs := by
  simp only [Recogniser.findAll, Recogniser.pieces, h]

theorem findAll_feed {s rest : List Char} {found : DirectiveKind × List Char}
    (h : directiveBehind? s = some (found, rest)) (hrest : rest.length ≤ s.length) :
    directive.findAll ('\n' :: s) = found :: directive.findAll rest := by
  have hread : (after? ['\n'] ('\n' :: s)).bind directiveBehind? = some (found, rest) := h
  exact findAll_of_some (ofReading_eq_some hread (Nat.lt_succ_of_le hrest))

/-- No word of a directive begins another. -/
theorem directiveWords_apart :
    ∀ a ∈ directiveWords, ∀ b ∈ directiveWords, a.1.toList <+: b.1.toList → a = b := by
  decide

theorem findSome?_of_only {α β : Type} {f : α → Option β} {a : α} {as : List α} (ha : a ∈ as)
    (honly : ∀ b ∈ as, f b ≠ none → b = a) : as.findSome? f = f a := by
  induction as with
  | nil => cases ha
  | cons b as ih =>
      rw [List.findSome?_cons]
      cases hb : f b with
      | some found => rw [← honly b List.mem_cons_self (by simp [hb]), hb]
      | none =>
          rcases List.mem_cons.mp ha with rfl | ha
          · -- the rest of the list finds nothing either
            rw [hb]
            refine List.findSome?_eq_none_iff.mpr fun c hc => ?_
            refine Classical.byContradiction fun hfound => hfound ?_
            rw [honly c (List.mem_cons_of_mem _ hc) hfound, hb]
          · exact ih ha fun c hc => honly c (List.mem_cons_of_mem _ hc)

section

variable {word : String} {kind : DirectiveKind}

theorem directiveBehind?_word (h : (word, kind) ∈ directiveWords) (s : List Char) :
    directiveBehind? ('@' :: (word.toList ++ ' ' :: s)) =
      (valueBehind? (' ' :: s) ((' ' :: s).takeWhile isBlank).length).map fun (value, behind) =>
        ((kind, trim value), behind) := by
  have hsign : after? ['@'] ('@' :: (word.toList ++ ' ' :: s)) = some (word.toList ++ ' ' :: s) :=
    after?_eq_some_iff.mpr rfl
  have hword : after? word.toList (word.toList ++ ' ' :: s) = some (' ' :: s) :=
    after?_eq_some_iff.mpr rfl
  rw [directiveBehind?, List.dropWhile_cons_of_neg (by decide), hsign, Option.bind_some,
    findSome?_of_only h]
  · simp only [hword, Option.bind_some]
  · rintro ⟨word', kind'⟩ h' hfound
    obtain ⟨found, hfound⟩ := Option.ne_none_iff_exists'.mp hfound
    obtain ⟨rest, hrest, -⟩ := Option.bind_eq_some_iff.mp hfound
    have hbegins : word'.toList <+: word.toList ++ ' ' :: s :=
      ⟨rest, (after?_eq_some_iff.mp hrest).symm⟩
    rcases List.prefix_or_prefix_of_prefix hbegins (List.prefix_append _ _) with hle | hle
    · exact directiveWords_apart _ h' _ h hle
    · exact (directiveWords_apart _ h _ h' hle).symm

theorem findAll_word {v rest : List Char} {d : Char} (h : (word, kind) ∈ directiveWords)
    (hv : IsDirectiveValue v) (hd : isBlank d = false) :
    directive.findAll ('\n' :: '@' :: (word.toList ++ ' ' :: (v ++ '\n' :: d :: rest))) =
      (kind, v) :: directive.findAll ('\n' :: d :: rest) := by
  refine findAll_feed ?_ ?_
  · simp only [directiveBehind?_word h, valueBehind?_eq hv hd, Option.map_some, hv.trim_eq]
  · simp only [List.length_append, List.length_cons]
    omega

end

/-! ## Directives within a block -/

/-- Whether a line behind another begins with a directive that names the base or the namespace. -/
def hasClassDirective : List Char → Bool
  | [] => false
  | c :: rest =>
    (c == '\n' && ["@inherits", "@namespace"].any fun word =>
      word.toList.isPrefixOf (rest.dropWhile isBlank)) || hasClassDirective rest

theorem hasClassDirective_of_suffix {s cs : List Char} (h : s <:+ cs)
    (hnone : hasClassDirective cs = false) : hasClassDirective s = false := by
  obtain ⟨u, rfl⟩ := h
  induction u with
  | nil => exact hnone
  | cons c u ih =>
      rw [List.cons_append, hasClassDirective, Bool.or_eq_false_iff] at hnone
      exact ih hnone.2

theorem directiveValue?_suffix {s value behind : List Char}
    (h : directiveValue? s = some (value, behind)) : behind <:+ s := by
  induction s generalizing value with
  | nil => cases h
  | cons c rest ih =>
      rw [directiveValue?] at h
      split at h
      · cases h
      split at h
      · obtain ⟨-, rfl⟩ := Prod.mk.inj (Option.some.inj h)
        refine List.IsSuffix.trans ?_ (List.suffix_cons c rest)
        unfold fromLineEnd
        split
        · exact List.nil_suffix
        · exact List.drop_suffix _ _
      · obtain ⟨⟨value', behind'⟩, hfound, hcons⟩ := Option.map_eq_some_iff.mp h
        obtain ⟨-, rfl⟩ := Prod.mk.inj hcons
        exact (ih hfound).trans (List.suffix_cons c rest)

theorem valueBehind?_suffix {s value behind : List Char} {n : Nat}
    (h : valueBehind? s n = some (value, behind)) : behind <:+ s := by
  induction n with
  | zero => cases h
  | succ n ih =>
      rw [valueBehind?, Option.or_eq_some_iff] at h
      rcases h with h | ⟨-, h⟩
      · exact (directiveValue?_suffix h).trans (List.drop_suffix _ _)
      · exact ih h

/-- A directive is one of the three, and what follows it is a part of the text behind it. -/
theorem directiveBehind?_cases {s value behind : List Char} {kind : DirectiveKind}
    (h : directiveBehind? s = some ((kind, value), behind)) :
    behind <:+ s ∧ (kind = .typeParameter ∨ "@inherits".toList <+: s.dropWhile isBlank ∨
      "@namespace".toList <+: s.dropWhile isBlank) := by
  unfold directiveBehind? at h
  obtain ⟨named, hnamed, h⟩ := Option.bind_eq_some_iff.mp h
  obtain ⟨⟨word, kind'⟩, hword, h⟩ := List.exists_of_findSome?_eq_some h
  obtain ⟨rest, hrest, h⟩ := Option.bind_eq_some_iff.mp h
  obtain ⟨⟨value', behind'⟩, hvalue, hfound⟩ := Option.map_eq_some_iff.mp h
  obtain ⟨hkind, rfl⟩ := Prod.mk.inj hfound
  obtain ⟨rfl, -⟩ := Prod.mk.inj hkind
  have hstart := after?_eq_some_iff.mp hnamed
  obtain rfl := after?_eq_some_iff.mp hrest
  refine ⟨?_, ?_⟩
  · have hsuffix : word.toList ++ rest <:+ s := by
      refine List.IsSuffix.trans ?_ (List.dropWhile_suffix isBlank)
      rw [hstart]
      exact List.suffix_append _ _
    exact ((valueBehind?_suffix hvalue).trans (List.suffix_append _ _)).trans hsuffix
  · rw [hstart]
    simp only [directiveWords, List.mem_cons, Prod.mk.injEq, List.not_mem_nil, or_false] at hword
    rcases hword with ⟨rfl, rfl⟩ | ⟨rfl, rfl⟩ | ⟨rfl, rfl⟩
    · exact Or.inr (Or.inl ⟨rest, rfl⟩)
    · exact Or.inr (Or.inr ⟨rest, rfl⟩)
    · exact Or.inl rfl

theorem directive_eq_some {c : Char} {cs : List Char}
    {m : Match (DirectiveKind × List Char) (c :: cs)} (h : directive (c :: cs) = some m) :
    c = '\n' ∧ directiveBehind? cs = some (m.value, m.rest) := by
  unfold directive Recogniser.ofReading at h
  obtain ⟨⟨found, rest⟩, hread, hmatch⟩ := Option.bind_eq_some_iff.mp h
  obtain ⟨s, hafter, hread⟩ := Option.bind_eq_some_iff.mp hread
  obtain ⟨rfl, rfl⟩ := List.cons.inj (after?_eq_some_iff.mp hafter)
  refine ⟨rfl, ?_⟩
  obtain ⟨hshort, hvalue⟩ : ∃ hshort : rest.length < ('\n' :: cs).length,
      m = ⟨found, rest, hshort⟩ := by
    simp only [Match.of?] at hmatch
    by_cases hshort : rest.length < ('\n' :: cs).length
    · rw [dif_pos hshort] at hmatch
      exact ⟨hshort, (Option.some.inj hmatch).symm⟩
    · rw [dif_neg hshort] at hmatch
      cases hmatch
  rw [hvalue, hread]

/-- Without such lines the directives name neither the base nor the namespace. -/
theorem kind_of_mem_findAll {cs : List Char} (h : hasClassDirective cs = false) :
    ∀ d ∈ directive.findAll cs, d.1 = .typeParameter := by
  induction cs using Recogniser.pieces.induct (r := directive) with
  | case1 => simp [Recogniser.findAll, Recogniser.pieces]
  | case2 c cs m hm before found hpieces ih =>
      rw [findAll_of_some hm]
      obtain ⟨rfl, hread⟩ := directive_eq_some hm
      obtain ⟨hsuffix, hkind⟩ := directiveBehind?_cases hread
      have hrest := ih (hasClassDirective_of_suffix (hsuffix.trans (List.suffix_cons _ _)) h)
      refine List.forall_mem_cons.mpr ⟨?_, hrest⟩
      have hline : ∀ word ∈ ["@inherits", "@namespace"],
          ¬ word.toList <+: cs.dropWhile isBlank := by
        rw [hasClassDirective, Bool.or_eq_false_iff, Bool.and_eq_false_imp] at h
        intro word hword hbegins
        have hany := List.any_eq_false.mp (h.1 rfl) word hword
        exact hany (List.isPrefixOf_iff_prefix.mpr hbegins)
      rcases hkind with hkind | hbegins | hbegins
      · exact hkind
      · exact absurd hbegins (hline _ (by simp))
      · exact absurd hbegins (hline _ (by simp))
  | case3 c cs hm before found hpieces ih =>
      rw [findAll_of_none hm]
      rw [hasClassDirective, Bool.or_eq_false_iff] at h
      exact ih h.2

theorem prefix_append_brace {word cs : List Char} (h : '}' ∉ word) :
    word <+: cs ++ ['}'] ↔ word <+: cs := by
  constructor
  · intro hbegins
    rcases List.prefix_concat_iff.mp hbegins with rfl | hbegins
    · exact absurd (List.mem_append_right _ List.mem_cons_self) h
    · exact hbegins
  · exact fun hbegins => hbegins.trans (List.prefix_append _ _)

theorem dropWhile_append_brace (cs : List Char) :
    (cs ++ ['}']).dropWhile isBlank = cs.dropWhile isBlank ++ ['}'] := by
  rw [List.dropWhile_append]
  split
  · rename_i hempty
    rw [List.isEmpty_iff.mp hempty]
    rfl
  · rfl

theorem hasClassDirective_brace (cs : List Char) :
    hasClassDirective (cs ++ ['}']) = hasClassDirective cs := by
  induction cs with
  | nil => rfl
  | cons c cs ih =>
      have hword (word : List Char) (h : '}' ∉ word) :
          word.isPrefixOf (cs.dropWhile isBlank ++ ['}']) =
            word.isPrefixOf (cs.dropWhile isBlank) := by
        rw [Bool.eq_iff_iff, List.isPrefixOf_iff_prefix, List.isPrefixOf_iff_prefix,
          prefix_append_brace h]
      rw [List.cons_append, hasClassDirective, hasClassDirective, ih, dropWhile_append_brace]
      simp only [List.any_cons, List.any_nil, hword "@inherits".toList (by decide),
        hword "@namespace".toList (by decide)]

/-- The directives of a component: its namespace, its base, and none that names them again. -/
theorem directives_componentSource {ns base body : List Char} (hns : IsDirectiveValue ns)
    (hbase : IsDirectiveValue base) (hbody : hasClassDirective body = false) :
    ∃ others, directives (componentSource ns base body) =
        (.inNamespace, ns) :: (.inheritsFrom, base) :: others ∧
      ∀ d ∈ others, d.1 = .typeParameter := by
  have hsign : isBlank '@' = false := by decide
  have hblock : hasClassDirective ('\n' :: ("@code \x7b".toList ++ (body ++ ['}']))) = false := by
    have hnone := hasClassDirective_brace body
    rw [hbody] at hnone
    simp [hasClassDirective, hnone, isBlank, List.isPrefixOf]
  have hfirst : ("namespace", DirectiveKind.inNamespace) ∈ directiveWords :=
    List.mem_cons_of_mem _ List.mem_cons_self
  have hsecond : ("inherits", DirectiveKind.inheritsFrom) ∈ directiveWords := List.mem_cons_self
  have hnamespace := @findAll_word _ _ ns ("inherits".toList ++ ' ' :: (base ++ '\n' ::
    ("@code \x7b".toList ++ (body ++ ['}'])))) '@' hfirst hns hsign
  have hinherits := @findAll_word _ _ base ("code \x7b".toList ++ (body ++ ['}'])) '@' hsecond
    hbase hsign
  exact ⟨_, hnamespace.trans (congrArg _ hinherits), kind_of_mem_findAll hblock⟩

/-! ## The code block -/

/-- No block opens where a line ends before the next brace. -/
theorem opener_eq_none {v s : List Char} (hbrace : '\x7b' ∉ v) (hfeed : '\n' ∈ v) :
    opener (v ++ '@' :: s) = none := by
  have hnone : afterOpener? (v ++ '@' :: s) = none := by
    refine Option.bind_eq_none_iff.mpr fun rest hrest => ?_
    rcases List.append_eq_append_iff.mp (after?_eq_some_iff.mp hrest) with
      ⟨more, hword, -⟩ | ⟨more, rfl, rfl⟩
    · -- the line end would stand in the opener's word
      have hmem : '\n' ∈ "@code".toList := by
        rw [hword]
        exact List.mem_append_left _ hfeed
      exact absurd hmem (by decide)
    · have hbrace' : '\x7b' ∉ more := fun hmem => hbrace (List.mem_append_right _ hmem)
      have hhead : ∀ body, (more ++ '@' :: s).dropWhile isBlank ≠ '\x7b' :: body := by
        intro body hdrop
        have hstop : ∃ d ∈ more ++ ['@'], isBlank d = false := ⟨'@', by simp, by decide⟩
        obtain ⟨blanks, e, w, hsplit, hblanks, he⟩ := CSharp.exists_stop hstop
        have hcut : more ++ '@' :: s = blanks ++ e :: (w ++ s) := by
          rw [← List.singleton_append, ← List.append_assoc, hsplit, List.append_assoc,
            List.cons_append]
        rw [hcut, List.dropWhile_append_of_pos hblanks,
          List.dropWhile_cons_of_neg (by simp [he])] at hdrop
        obtain ⟨rfl, -⟩ := List.cons.inj hdrop
        have hmem : '\x7b' ∈ more ++ ['@'] := by
          rw [hsplit]
          exact List.mem_append_right _ List.mem_cons_self
        exact hbrace' (by simpa using hmem)
      split
      · exact absurd ‹_› (hhead _)
      · rfl
  rw [opener, Recogniser.ofReading, hnone]
  rfl

theorem findFirst?_opener (rest : List Char) :
    opener.findFirst? ("@code \x7b".toList ++ rest) = some ((), rest) := by
  have hopener : "@code \x7b".toList = "@code".toList ++ [' ', '\x7b'] := by decide
  have hword : after? "@code".toList ("@code".toList ++ ' ' :: '\x7b' :: rest) =
      some (' ' :: '\x7b' :: rest) := after?_eq_some_iff.mpr rfl
  have hopens : afterOpener? ("@code".toList ++ ' ' :: '\x7b' :: rest) = some rest := by
    rw [afterOpener?, hword, Option.bind_some, List.dropWhile_cons_of_pos (by decide),
      List.dropWhile_cons_of_neg (by decide)]
    rfl
  have hread : ((afterOpener? ("@code".toList ++ ' ' :: '\x7b' :: rest)).map fun body =>
      ((), body)) = some ((), rest) := congrArg (Option.map fun body => ((), body)) hopens
  have hshort : rest.length < ("@code".toList ++ ' ' :: '\x7b' :: rest).length := by
    simp only [List.length_append, List.length_cons]
    omega
  rw [hopener, List.append_assoc]
  exact findFirst?_of_some (ofReading_eq_some hread hshort)

theorem findFirst?_componentSource {ns base : List Char} (hns : IsDirectiveValue ns)
    (hbase : IsDirectiveValue base) (body : List Char) :
    opener.findFirst? (componentSource ns base body) = some ((), body ++ ['}']) := by
  have hcut (word word' block : List Char) :
      word ++ ' ' :: (ns ++ '\n' :: (word' ++ ' ' :: (base ++ '\n' :: block))) =
        (word ++ ' ' :: (ns ++ '\n' :: (word' ++ ' ' :: base)) ++ ['\n']) ++ block := by simp
  have hsign : "@code \x7b".toList ++ (body ++ ['}']) =
      '@' :: ("code \x7b".toList ++ (body ++ ['}'])) := by simp
  refine (congrArg opener.findFirst? (hcut _ _ _)).trans
    ((findFirst?_append fun v hv hsuffix => ?_).trans (findFirst?_opener _))
  rw [hsign]
  refine opener_eq_none (fun hmem => ?_) ?_
  · have hmem := hsuffix.subset hmem
    simp only [List.mem_append, List.mem_cons, List.not_mem_nil, or_false] at hmem
    have hword : '\x7b' ∉ "@namespace".toList := by decide
    have hword' : '\x7b' ∉ "@inherits".toList := by decide
    rcases hmem with (hmem | hmem | hmem | hmem | hmem | hmem | hmem) | hmem
    · exact hword hmem
    · cases hmem
    · exact (hns.line _ hmem).2.2 rfl
    · cases hmem
    · exact hword' hmem
    · cases hmem
    · exact (hbase.line _ hmem).2.2 rfl
    · cases hmem
  · obtain ⟨front, rfl, -⟩ := (List.suffix_concat_iff.mp hsuffix).resolve_left hv
    exact List.mem_append_right _ List.mem_cons_self

/-- The code of a component is the dedented body of its block. -/
theorem split_componentSource {ns base body : List Char} (hns : IsDirectiveValue ns)
    (hbase : IsDirectiveValue base)
    (hbalanced : body.foldlM BlockPlace.next? (.code 0) = some (.code 0)) :
    (split (componentSource ns base body)).code = some (dedent body) := by
  unfold split
  rw [findFirst?_componentSource hns hbase body]
  simp only [blockFrom_append hbalanced]
  simp [blockFrom, BlockPlace.next?]

end Razor

/-- The class of a component, with its body dedented. -/
theorem standInClass_componentSource {name ns base body : List Char} (hns : IsDirectiveValue ns)
    (hbase : IsDirectiveValue base) (hbody : hasClassDirective body = false)
    (hbalanced : body.foldlM BlockPlace.next? (.code 0) = some (.code 0)) :
    standInClass name (componentSource ns base body) =
      "namespace ".toList ++ ns ++ ";\n".toList ++ "public partial class ".toList ++ name ++
        (" : ".toList ++ base) ++ "\n\x7b\n".toList ++ (dedent body ++ ['\n']) ++
        "\x7d\n".toList := by
  obtain ⟨others, hdirectives, hothers⟩ := directives_componentSource hns hbase hbody
  have hfilter (kind : DirectiveKind) (hkind : kind ≠ .typeParameter) :
      others.filter (fun d => d.1 == kind) = [] := by
    refine List.filter_eq_nil_iff.mpr fun d hd => ?_
    simp [hothers d hd, Ne.symm hkind]
  have hnamespace : lastDirective? .inNamespace (directives (componentSource ns base body)) =
      some ns := by
    rw [hdirectives]
    simp [lastDirective?, hfilter]
  have hinherits : lastDirective? .inheritsFrom (directives (componentSource ns base body)) =
      some base := by
    rw [hdirectives]
    simp [lastDirective?, hfilter]
  simp only [standInClass, hnamespace, hinherits, split_componentSource hns hbase hbalanced]

end ComponentAtlas
