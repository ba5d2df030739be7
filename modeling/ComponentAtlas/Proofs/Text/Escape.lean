import ComponentAtlas.Proofs.Text.Occurrence
import ComponentAtlas.Text.Tag

/-!
# Escaped texts

An escaped text has its ampersands and angle brackets written as entities.  So each of its
ampersands begins one of three entities, which differ right behind it, and replacing one of them
finds what was written for one character and nothing else (`replaceAll_escapeOnly`).  The text that
is left is escaped but for that character, as long as the ampersand comes last; so replacing all
three in this order gives the text back (`unescape_escape`).
-/

namespace ComponentAtlas.Text

/-! ## Entities -/

/-- The characters that are not written as they are. -/
def escaped : List Char := ['<', '>', '&']

/-- A character as it is written in markup. -/
def entity (c : Char) : List Char :=
  if c = '<' then "&lt;".toList
  else if c = '>' then "&gt;".toList
  else if c = '&' then "&amp;".toList
  else [c]

/-- A text of which only some characters are written as entities. -/
def escapeOnly (marked cs : List Char) : List Char :=
  cs.flatMap fun c => if c ∈ marked then entity c else [c]

/-- A text with its ampersands and angle brackets written as entities. -/
def escape (cs : List Char) : List Char :=
  cs.flatMap entity

theorem forall_mem_escaped {P : Char → Prop} : (∀ c ∈ escaped, P c) ↔ P '<' ∧ P '>' ∧ P '&' := by
  simp [escaped]

theorem entity_of_notMem {c : Char} (h : c ∉ escaped) : entity c = [c] := by
  simp only [escaped, List.mem_cons, List.not_mem_nil, or_false, not_or] at h
  rw [entity, if_neg h.1, if_neg h.2.1, if_neg h.2.2]

theorem escape_eq (cs : List Char) : escape cs = escapeOnly escaped cs := by
  refine congrArg (cs.flatMap ·) (funext fun c => ?_)
  by_cases h : c ∈ escaped
  · rw [if_pos h]
  · rw [if_neg h, entity_of_notMem h]

theorem escapeOnly_nil (cs : List Char) : escapeOnly [] cs = cs := by
  simp [escapeOnly]

/-! ## Replacing one entity -/

section

variable {p r x cs : List Char}

theorem replaceAll_of_prefix (hp : p ≠ []) : replaceAll p r (p ++ cs) = r ++ replaceAll p r cs := by
  obtain ⟨a, p', rfl⟩ := List.exists_cons_of_ne_nil hp
  have hafter : after? (a :: p') (a :: (p' ++ cs)) = some cs := after?_eq_some_iff.mpr rfl
  rw [List.cons_append, replaceAll]
  split
  · rename_i rest hfound
    rw [if_neg (by simp), Option.some.inj (hfound.symm.trans hafter)]
  · rename_i hnone
    rw [hafter] at hnone
    cases hnone

theorem replaceAll_cons {c : Char} (h : ¬ p <+: c :: cs) :
    replaceAll p r (c :: cs) = c :: replaceAll p r cs := by
  rw [replaceAll]
  split
  · rename_i rest hfound
    rw [after?_eq_none_iff.mpr h] at hfound
    cases hfound
  · rfl

/-- A piece is passed over when nothing begins at its first character, and what is replaced begins
with an ampersand, of which there is none behind that character. -/
theorem replaceAll_append (hp : p.head? = some '&') (htail : '&' ∉ x.tail) (h : ¬ p <+: x ++ cs) :
    replaceAll p r (x ++ cs) = x ++ replaceAll p r cs := by
  have hpass (y : List Char) (hy : '&' ∉ y) :
      replaceAll p r (y ++ cs) = y ++ replaceAll p r cs := by
    obtain ⟨p', rfl⟩ := List.head?_eq_some_iff.mp hp
    induction y with
    | nil => rfl
    | cons d y ih =>
        obtain ⟨hd, hy⟩ := not_or.mp (mt List.mem_cons.mpr hy)
        have hother : ¬ '&' :: p' <+: d :: (y ++ cs) := fun hprefix =>
          hd (List.cons_prefix_cons.mp hprefix).1
        rw [List.cons_append, replaceAll_cons hother, ih hy, List.cons_append]
  cases x with
  | nil => rfl
  | cons c y =>
      rw [List.cons_append] at h ⊢
      rw [replaceAll_cons h, hpass y htail, List.cons_append]

theorem replaceAll_plain {c : Char} (hp : p.head? = some '&') (hc : c ≠ '&') (cs : List Char) :
    replaceAll p r ([c] ++ cs) = [c] ++ replaceAll p r cs := by
  obtain ⟨p', rfl⟩ := List.head?_eq_some_iff.mp hp
  exact replaceAll_append hp List.not_mem_nil fun hprefix =>
    hc (List.cons_prefix_cons.mp hprefix).1.symm

theorem replaceAll_flatMap {f g : Char → List Char}
    (h : ∀ c cs, replaceAll p r (f c ++ cs) = g c ++ replaceAll p r cs) (cs : List Char) :
    replaceAll p r (cs.flatMap f) = cs.flatMap g := by
  induction cs with
  | nil => rw [List.flatMap_nil, replaceAll, List.flatMap_nil]
  | cons c cs ih => rw [List.flatMap_cons, h, ih, List.flatMap_cons]

end

/-! ## The entities of an escaped text -/

theorem head?_entity : ∀ m ∈ escaped, (entity m).head? = some '&' :=
  forall_mem_escaped.mpr (by decide)

theorem notMem_tail_entity : ∀ m ∈ escaped, '&' ∉ (entity m).tail :=
  forall_mem_escaped.mpr (by decide)

theorem entity_prefix_unique :
    ∀ m ∈ escaped, ∀ c ∈ escaped, entity m <+: entity c ∨ entity c <+: entity m → m = c := by
  simp only [forall_mem_escaped]
  decide

/-- Replacing one of the entities leaves the others and the characters that have none. -/
theorem replaceAll_escapeOnly {m : Char} {marked : List Char} (hm : m ∈ escaped)
    (hmarked : marked ⊆ escaped) (hfresh : m ∉ marked) (hamp : '&' ∈ m :: marked)
    (cs : List Char) :
    replaceAll (entity m) [m] (escapeOnly (m :: marked) cs) = escapeOnly marked cs := by
  have hhead := head?_entity m hm
  refine replaceAll_flatMap (fun c rest => ?_) cs
  by_cases hself : c = m
  · subst hself
    rw [if_pos List.mem_cons_self, if_neg hfresh]
    exact replaceAll_of_prefix fun hnil => by simp [hnil] at hhead
  · by_cases hc : c ∈ marked
    · rw [if_pos (List.mem_cons_of_mem _ hc), if_pos hc]
      refine replaceAll_append hhead (notMem_tail_entity c (hmarked hc)) fun hprefix => ?_
      exact hself (entity_prefix_unique m hm c (hmarked hc)
        (List.prefix_or_prefix_of_prefix hprefix (List.prefix_append _ _))).symm
    · have hnone : c ∉ m :: marked := fun hmem => (List.mem_cons.mp hmem).elim hself hc
      rw [if_neg hnone, if_neg hc]
      exact replaceAll_plain hhead (by rintro rfl; exact hnone hamp) rest

/-- An entity that is written for no character does not occur. -/
theorem replaceAll_escape {p r : List Char} (hp : p.head? = some '&')
    (hforeign : ∀ c ∈ escaped, ¬ (p <+: entity c ∨ entity c <+: p)) (cs : List Char) :
    replaceAll p r (escape cs) = escape cs := by
  refine replaceAll_flatMap (fun c rest => ?_) cs
  by_cases hc : c ∈ escaped
  · refine replaceAll_append hp (notMem_tail_entity c hc) fun hprefix => ?_
    exact hforeign c hc (List.prefix_or_prefix_of_prefix hprefix (List.prefix_append _ _))
  · rw [entity_of_notMem hc]
    exact replaceAll_plain hp (fun hamp => hc (by simp [hamp, escaped])) rest

theorem unescape_escape (cs : List Char) : unescape (escape cs) = cs := by
  calc unescape (escape cs)
      = replaceAll (entity '&') ['&'] (replaceAll (entity '>') ['>']
          (replaceAll (entity '<') ['<'] (escapeOnly ['<', '>', '&'] cs))) := by
        rw [escape_eq]; rfl
    _ = replaceAll (entity '&') ['&'] (replaceAll (entity '>') ['>']
          (escapeOnly ['>', '&'] cs)) := by
        rw [replaceAll_escapeOnly (by decide) (by decide) (by decide) (by decide)]
    _ = replaceAll (entity '&') ['&'] (escapeOnly ['&'] cs) := by
        rw [replaceAll_escapeOnly (by decide) (by decide) (by decide) (by decide)]
    _ = escapeOnly [] cs :=
        replaceAll_escapeOnly (by decide) (by decide) (by decide) (by decide) cs
    _ = cs := escapeOnly_nil cs

/-! ## The characters of an escaped text -/

/-- An escaped text holds none of the characters that are written as entities, and no character that
the text does not hold, the letters of entities apart. -/
theorem notMem_escape {d : Char} {cs : List Char} (hentity : ∀ c ∈ escaped, d ∉ entity c)
    (hplain : d ∉ escaped → d ∉ cs) : d ∉ escape cs := by
  intro hd
  obtain ⟨c, hmem, hc⟩ := List.mem_flatMap.mp hd
  by_cases hescaped : c ∈ escaped
  · exact hentity c hescaped hc
  · rw [entity_of_notMem hescaped, List.mem_singleton] at hc
    subst hc
    exact hplain hescaped hmem

end ComponentAtlas.Text
