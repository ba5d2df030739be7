import ComponentAtlas.Engine.Basic

/-!
# Keys of kept results

The key of a search writes the generation, the fields and the limit as numbers and then the text
that is looked for, with colons between them.  The text may itself hold colons, and numbers and
more colons behind them; since it comes last and no number holds a colon, the key still tells all
four apart.
-/

namespace ComponentAtlas

namespace SearchFields

theorem toBits_injective {fs gs : SearchFields} (h : fs.toBits = gs.toBits) : fs = gs := by
  obtain ⟨a, b, c, d⟩ := fs
  obtain ⟨a', b', c', d'⟩ := gs
  revert h
  revert a b c d a' b' c' d'
  decide

end SearchFields

namespace Engine

theorem colon_notMem_toDigits (n : Nat) : ':' ∉ Nat.toDigits 10 n := by
  intro h
  have := Nat.isDigit_of_mem_toDigits (by decide) (by decide) h
  exact absurd this (by decide)

theorem toDigits_injective {m n : Nat} (h : Nat.toDigits 10 m = Nat.toDigits 10 n) : m = n := by
  have := congrArg (fun digits => Nat.ofDigitChars 10 digits 0) h
  simpa using this

/-- What stands before the first colon, and what stands behind it, are told by the whole. -/
theorem append_colon_inj {as bs cs ds : List Char} (ha : ':' ∉ as) (hb : ':' ∉ bs)
    (h : as ++ ':' :: cs = bs ++ ':' :: ds) : as = bs ∧ cs = ds := by
  induction as generalizing bs with
  | nil =>
      cases bs with
      | nil => exact ⟨rfl, (List.cons.inj h).2⟩
      | cons b bs =>
          obtain ⟨rfl, -⟩ := List.cons.inj h
          exact absurd List.mem_cons_self hb
  | cons a as ih =>
      cases bs with
      | nil =>
          obtain ⟨rfl, -⟩ := List.cons.inj h
          exact absurd List.mem_cons_self ha
      | cons b bs =>
          obtain ⟨rfl, hrest⟩ := List.cons.inj h
          obtain ⟨rfl, hcs⟩ := ih (fun hm => ha (List.mem_cons_of_mem _ hm))
            (fun hm => hb (List.mem_cons_of_mem _ hm)) hrest
          exact ⟨rfl, hcs⟩

/-- A number and a colon in front of a text, and another number in front of another text. -/
theorem digits_colon_inj {m n : Nat} {cs ds : List Char}
    (h : Nat.toDigits 10 m ++ ':' :: cs = Nat.toDigits 10 n ++ ':' :: ds) : m = n ∧ cs = ds := by
  obtain ⟨hd, hrest⟩ :=
    append_colon_inj (colon_notMem_toDigits m) (colon_notMem_toDigits n) h
  exact ⟨toDigits_injective hd, hrest⟩

theorem toList_searchKey (generation : Nat) (fields : SearchFields) (limit : Nat)
    (needle : List Char) :
    (searchKey generation fields limit needle).toList =
      "search:".toList ++ (Nat.toDigits 10 generation ++ ':' ::
        (Nat.toDigits 10 fields.toBits ++ ':' ::
          (Nat.toDigits 10 limit ++ ':' :: needle))) := by
  simp [searchKey, searchKeyStart]

/-- Two searches have the same key only when they are the same search of the same publication. -/
theorem searchKey_inj {g g' : Nat} {fs fs' : SearchFields} {l l' : Nat} {n n' : List Char}
    (h : searchKey g fs l n = searchKey g' fs' l' n') : g = g' ∧ fs = fs' ∧ l = l' ∧ n = n' := by
  have hlist := congrArg String.toList h
  rw [toList_searchKey, toList_searchKey] at hlist
  obtain ⟨hg, h1⟩ := digits_colon_inj (List.append_cancel_left hlist)
  obtain ⟨hbits, h2⟩ := digits_colon_inj h1
  obtain ⟨hl, hn⟩ := digits_colon_inj h2
  exact ⟨hg, SearchFields.toBits_injective hbits, hl, hn⟩

theorem searchKey_not_blank (generation : Nat) (fields : SearchFields) (limit : Nat)
    (needle : List Char) :
    Text.allBlank (searchKey generation fields limit needle).toList = false := by
  rw [toList_searchKey]
  rfl

end Engine
end ComponentAtlas
