import ComponentAtlas.Declaration.TypeName
import ComponentAtlas.Proofs.CSharp.Signs
import ComponentAtlas.Proofs.Declaration.Markers
import ComponentAtlas.Proofs.Text.Solid

/-!
# Types of events

A type is an event callback when its text is spelled as one: the name, perhaps qualified, perhaps
with an argument between angle brackets, and perhaps with a question mark behind it.  The library
looks at the first and the last angle bracket only (`callbackArgument?_eq_some_iff`), so it also
takes `EventCallback<A>.Handler<B>` for one, in which they are no pair.
-/

namespace ComponentAtlas

open Text CSharp

/-- Whether a character can stand in a dotted name. -/
def isNameChar (c : Char) : Bool :=
  Unicode.isWord c || c == '.'

/-- What can qualify a name in the text of a type: words and dots, with a dot at the end and
something in front of it. -/
def IsQualifier (q : List Char) : Prop :=
  q = [] ∨ (2 ≤ q.length ∧ q.getLast? = some '.' ∧ ∀ c ∈ q, isNameChar c = true)

/-- A text that is spelled as an event callback is, and what it has between the first and the last
angle bracket.  A question mark may stand behind it. -/
inductive SpellsCallback : List Char → Option (List Char) → Prop
  | bare {q m : List Char} (hq : IsQualifier q) (hm : m = [] ∨ m = ['?']) :
      SpellsCallback (q ++ ("EventCallback".toList ++ m)) none
  | argument {q t m : List Char} (hq : IsQualifier q) (ht : t ≠ []) (hm : m = [] ∨ m = ['?']) :
      SpellsCallback (q ++ ("EventCallback".toList ++ '<' :: (t ++ '>' :: m))) (some (trim t))

/-- Whether a text can be one list of type arguments: its angle brackets, those in comments aside,
are level. -/
def IsArgument (t : List Char) : Prop :=
  Bracketing.IsLevel ⟨['<'], ['>'], []⟩ (marks (lexemes t))

instance (t : List Char) : Decidable (IsArgument t) :=
  inferInstanceAs (Decidable (Bracketing.IsLevel _ _))

/-- Whether a text is the type of an event with some argument. -/
def IsCallback (text : List Char) (argument : Option (List Char)) : Prop :=
  SpellsCallback text argument ∧ ∀ t ∈ argument, IsArgument t

namespace TypeName

section

variable {word : String} {text behind q : List Char}

/-- A dotted name at the start of a text ends where no character of one follows. -/
theorem takeWhile_name (hq : ∀ c ∈ q, isNameChar c = true)
    (hbehind : ∀ c ∈ behind.head?, isNameChar c = false) :
    (q ++ behind).takeWhile isNameChar = q := by
  rw [List.takeWhile_append_of_pos hq]
  cases behind with
  | nil => exact List.append_nil q
  | cons c behind =>
      rw [List.takeWhile_cons_of_neg (by simp [hbehind c rfl]), List.append_nil]

theorem behindName?_eq (word : String) (text : List Char) :
    behindName? word text = (beforeEnd? word.toList (text.takeWhile isNameChar)).bind fun q =>
      if q = [] ∨ (2 ≤ q.length ∧ q.getLast? = some '.') then some (text.dropWhile isNameChar)
      else none := by
  have hdrop : text.drop (text.takeWhile isNameChar).length = text.dropWhile isNameChar := by
    have hsplit : text = text.takeWhile isNameChar ++ text.dropWhile isNameChar :=
      List.takeWhile_append_dropWhile.symm
    generalize text.takeWhile isNameChar = name, text.dropWhile isNameChar = rest at hsplit
    rw [hsplit, List.drop_left]
  have hchar : (fun c => Unicode.isWord c || c == '.') = isNameChar := rfl
  unfold behindName?
  simp only [hchar, hdrop]
  cases beforeEnd? word.toList (text.takeWhile isNameChar) with
  | none => rfl
  | some q => cases q <;> simp

/-- A name is found behind a qualification, at the end of the dotted name that a text begins with.
-/
theorem behindName?_eq_some_iff (hword : ∀ c ∈ word.toList, isNameChar c = true) :
    behindName? word text = some behind ↔
      (∃ q, IsQualifier q ∧ text = q ++ (word.toList ++ behind)) ∧
        ∀ c ∈ behind.head?, isNameChar c = false := by
  rw [behindName?_eq, Option.bind_eq_some_iff]
  constructor
  · rintro ⟨q, hend, hq⟩
    obtain ⟨hqualifier, hbehind⟩ := Option.ite_none_right_eq_some.mp hq
    obtain rfl := Option.some.inj hbehind
    rw [beforeEnd?_eq_some_iff] at hend
    have hall : ∀ c ∈ q ++ word.toList, isNameChar c = true := by
      rw [← hend]
      exact fun c hc => List.all_eq_true.mp List.all_takeWhile c hc
    refine ⟨⟨q, hqualifier.imp_right fun h => ⟨h.1, h.2, fun c hc => ?_⟩, ?_⟩, fun c hc => ?_⟩
    · exact hall c (List.mem_append_left _ hc)
    · rw [← List.append_assoc, ← hend, List.takeWhile_append_dropWhile]
    · have hnot := List.head?_dropWhile_not isNameChar text
      rw [Option.mem_def.mp hc] at hnot
      exact hnot
  · rintro ⟨⟨q, hq, rfl⟩, hbehind⟩
    have hall : ∀ c ∈ q ++ word.toList, isNameChar c = true := by
      refine List.forall_mem_append.mpr ⟨?_, hword⟩
      rcases hq with rfl | ⟨-, -, hq⟩
      · exact fun c hc => absurd hc List.not_mem_nil
      · exact hq
    rw [← List.append_assoc, takeWhile_name hall hbehind]
    refine ⟨q, beforeEnd?_eq_some_iff.mpr rfl, ?_⟩
    rw [if_pos (hq.imp_right fun h => ⟨h.1, h.2.1⟩), List.dropWhile_append_of_pos hall]
    cases behind with
    | nil => rfl
    | cons c behind => rw [List.dropWhile_cons_of_neg (by simp [hbehind c rfl])]

theorem angleArgument?_eq_some_iff {cs t : List Char} (hline : '\n' ∉ cs) :
    angleArgument? cs = some t ↔ cs = '<' :: (t ++ ['>']) ∧ t ≠ [] := by
  unfold angleArgument?
  constructor
  · intro h
    obtain ⟨rest, hrest, h⟩ := Option.bind_eq_some_iff.mp h
    obtain ⟨argument, hargument, h⟩ := Option.bind_eq_some_iff.mp h
    split at h
    · cases h
    · rename_i hne
      obtain rfl := Option.some.inj h
      refine ⟨?_, fun hempty => hne (by simp [hempty])⟩
      rw [after?_eq_some_iff.mp hrest, beforeEnd?_eq_some_iff.mp hargument]
      rfl
  · rintro ⟨rfl, hne⟩
    have hrest : after? ['<'] ('<' :: (t ++ ['>'])) = some (t ++ ['>']) :=
      after?_eq_some_iff.mpr rfl
    have hargument : beforeEnd? ['>'] (t ++ ['>']) = some t := beforeEnd?_eq_some_iff.mpr rfl
    rw [hrest, Option.bind_some, hargument, Option.bind_some]
    simp only [List.mem_cons, List.mem_append, not_or] at hline
    simp [hne, hline.2.1]

/-- Between angle brackets, with a question mark behind them or without. -/
theorem angleArgument?_or_eq_some_iff {behind t : List Char} (hline : '\n' ∉ behind) :
    (angleArgument? behind).or ((beforeEnd? ['?'] behind).bind angleArgument?) = some t ↔
      ∃ m, (m = [] ∨ m = ['?']) ∧ behind = '<' :: (t ++ '>' :: m) ∧ t ≠ [] := by
  have hbefore {cs : List Char} (hcs : beforeEnd? ['?'] behind = some cs) : '\n' ∉ cs := fun hmem =>
    hline (beforeEnd?_eq_some_iff.mp hcs ▸ List.mem_append_left _ hmem)
  constructor
  · intro h
    rcases Option.or_eq_some_iff.mp h with h | ⟨-, h⟩
    · obtain ⟨rfl, hne⟩ := (angleArgument?_eq_some_iff hline).mp h
      exact ⟨[], Or.inl rfl, rfl, hne⟩
    · obtain ⟨cs, hcs, h⟩ := Option.bind_eq_some_iff.mp h
      obtain ⟨rfl, hne⟩ := (angleArgument?_eq_some_iff (hbefore hcs)).mp h
      refine ⟨['?'], Or.inr rfl, ?_, hne⟩
      rw [beforeEnd?_eq_some_iff.mp hcs]
      simp
  · rintro ⟨m, rfl | rfl, hbehind, hne⟩
    · rw [(angleArgument?_eq_some_iff hline).mpr ⟨hbehind, hne⟩]
      rfl
    · have hnone : angleArgument? behind = none := by
        refine Option.eq_none_iff_forall_ne_some.mpr fun u hu => ?_
        have hu := ((angleArgument?_eq_some_iff hline).mp hu).1
        have hlast := congrArg List.getLast? (hu.symm.trans hbehind)
        simp [List.getLast?_cons, List.getLast?_append] at hlast
      have hcs : beforeEnd? ['?'] behind = some ('<' :: (t ++ ['>'])) :=
        beforeEnd?_eq_some_iff.mpr (by rw [hbehind]; simp)
      rw [hnone, Option.none_or, hcs, Option.bind_some]
      exact (angleArgument?_eq_some_iff (hbefore hcs)).mpr ⟨rfl, hne⟩

/-- A text is taken for the type of an event exactly when it is spelled as one, and the argument is
what stands between its first and its last angle bracket. -/
theorem callbackArgument?_eq_some_iff (hline : '\n' ∉ text) {argument : Option (List Char)} :
    callbackArgument? text = some argument ↔ SpellsCallback text argument := by
  have hall : "EventCallback".toList.all isNameChar = true := by decide +kernel
  have hword : ∀ c ∈ "EventCallback".toList, isNameChar c = true := List.all_eq_true.mp hall
  have hquestion : isNameChar '?' = false := by decide +kernel
  have hmark {m : List Char} (hm : m = [] ∨ m = ['?']) : ∀ c ∈ m.head?, isNameChar c = false := by
    intro c hc
    rcases hm with rfl | rfl
    · cases hc
    · obtain rfl := Option.some.inj hc
      exact hquestion
  have hangle : isNameChar '<' = false := by decide +kernel
  unfold callbackArgument?
  rw [Option.bind_eq_some_iff]
  constructor
  · rintro ⟨behind, hname, h⟩
    obtain ⟨⟨q, hq, rfl⟩, -⟩ := (behindName?_eq_some_iff hword).mp hname
    have hbehind : '\n' ∉ behind := fun hmem =>
      hline (List.mem_append_right _ (List.mem_append_right _ hmem))
    split at h
    · rename_i hm
      obtain rfl := Option.some.inj h
      exact .bare hq ((Bool.or_eq_true_iff.mp hm).imp List.isEmpty_iff.mp beq_iff_eq.mp)
    · obtain ⟨t, ht, rfl⟩ := Option.map_eq_some_iff.mp h
      obtain ⟨m, hm, rfl, hne⟩ := (angleArgument?_or_eq_some_iff hbehind).mp ht
      exact .argument hq hne hm
  · intro h
    cases h with
    | @bare q m hq hm =>
        refine ⟨m, (behindName?_eq_some_iff hword).mpr ⟨⟨q, hq, rfl⟩, hmark hm⟩, if_pos ?_⟩
        rcases hm with rfl | rfl <;> rfl
    | @argument q t m hq hne hm =>
        have hbehind : '\n' ∉ '<' :: (t ++ '>' :: m) := fun hmem =>
          hline (List.mem_append_right _ (List.mem_append_right _ hmem))
        refine ⟨_, (behindName?_eq_some_iff hword).mpr
          ⟨⟨q, hq, rfl⟩, fun c hc => by rw [← Option.some.inj hc, hangle]⟩, ?_⟩
        rw [if_neg (by simp), (angleArgument?_or_eq_some_iff hbehind).mpr ⟨m, hm, rfl, hne⟩]
        rfl

end

end TypeName

/-- No other blank than spaces is left of a text that is collapsed. -/
theorem eq_space_of_mem_collapse {cs : List Char} {c : Char} (hc : c ∈ collapse cs)
    (hblank : isBlank c = true) : c = ' ' := by
  have hsolid : ∀ w ∈ words cs, ∀ d ∈ w, isBlank d = false := fun w hw => isBlank_of_mem_words hw
  rw [collapse] at hc
  generalize words cs = ws at hc hsolid
  induction ws with
  | nil => cases hc
  | cons w ws ih =>
      obtain ⟨hw, hws⟩ := List.forall_mem_cons.mp hsolid
      have hword : c ∉ w := fun hmem => by
        rw [hw c hmem] at hblank
        cases hblank
      cases ws with
      | nil =>
          rw [List.intercalate_singleton] at hc
          exact absurd hc hword
      | cons v ws =>
          rw [List.intercalate_cons_cons, List.append_assoc, List.mem_append, List.mem_append] at hc
          rcases hc with hc | hc | hc
          · exact absurd hc hword
          · exact List.mem_singleton.mp hc
          · exact ih hc hws

/-- What the text of a type says of an event callback. -/
theorem callbackArgument?_collapse_iff {cs : List Char} {argument : Option (List Char)} :
    TypeName.callbackArgument? (collapse cs) = some argument ↔
      SpellsCallback (collapse cs) argument :=
  TypeName.callbackArgument?_eq_some_iff fun hmem =>
    absurd (eq_space_of_mem_collapse hmem (by decide)) (by decide)

end ComponentAtlas
