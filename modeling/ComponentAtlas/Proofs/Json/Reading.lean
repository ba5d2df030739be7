import ComponentAtlas.Json.Decoding

/-!
# Reading back what was written

The entries of an object have no order, so a value may come back with them in another one, at any
depth (`Json.Reordered`).  A record does not see that: it looks its fields up by their names, and
what it finds for a name is what was written for it, reordered itself (`Fields.of?_of_reordered`).
So a record is read back field by field, once it is known what was written for each name: a value,
or nothing where the reading has a value to take instead.
-/

namespace ComponentAtlas

/-! ## Values with their entries in another order -/

namespace Json

mutual

/-- The same value with the entries of its objects in another order. -/
inductive Reordered : Json → Json → Prop
  | null : Reordered .null .null
  | bool (b : Bool) : Reordered (.bool b) (.bool b)
  | int (n : Int) : Reordered (.int n) (.int n)
  | fraction (digits : String) : Reordered (.fraction digits) (.fraction digits)
  | string (s : String) : Reordered (.string s) (.string s)
  | array {vs ws : List Json} (items : ReorderedItems vs ws) : Reordered (.array vs) (.array ws)
  | object {es fs gs : List (String × Json)} (entries : ReorderedEntries es fs)
      (order : fs.Perm gs) : Reordered (.object es) (.object gs)

inductive ReorderedItems : List Json → List Json → Prop
  | nil : ReorderedItems [] []
  | cons {v w : Json} {vs ws : List Json} (first : Reordered v w) (rest : ReorderedItems vs ws) :
      ReorderedItems (v :: vs) (w :: ws)

inductive ReorderedEntries : List (String × Json) → List (String × Json) → Prop
  | nil : ReorderedEntries [] []
  | cons {key : String} {v w : Json} {es fs : List (String × Json)} (first : Reordered v w)
      (rest : ReorderedEntries es fs) : ReorderedEntries ((key, v) :: es) ((key, w) :: fs)

end

mutual

theorem Reordered.refl : (v : Json) → Reordered v v
  | .null => .null
  | .bool b => .bool b
  | .int n => .int n
  | .fraction digits => .fraction digits
  | .string s => .string s
  | .array items => .array (ReorderedItems.refl items)
  | .object entries => .object (ReorderedEntries.refl entries) (List.Perm.refl entries)

theorem ReorderedItems.refl : (vs : List Json) → ReorderedItems vs vs
  | [] => .nil
  | v :: vs => .cons (Reordered.refl v) (ReorderedItems.refl vs)

theorem ReorderedEntries.refl : (es : List (String × Json)) → ReorderedEntries es es
  | [] => .nil
  | (_, v) :: es => .cons (Reordered.refl v) (ReorderedEntries.refl es)

end

/-- What the entries of an object give for a name. -/
def given (entries : List (String × Json)) (name : String) : List Json :=
  (entries.filter fun e => e.1 == name).map Prod.snd

section

variable {es fs : List (String × Json)} {name : String}

@[simp] theorem given_nil : given [] name = [] := rfl

@[simp] theorem given_cons {key : String} {v : Json} : given ((key, v) :: es) name =
    if key = name then v :: given es name else given es name := by
  by_cases h : key = name <;> simp [given, h]

@[simp] theorem given_append : given (es ++ fs) name = given es name ++ given fs name := by
  simp [given]

@[simp] theorem given_optionalEntry {key : String} {s : Option String} :
    given (optionalEntry key s) name = if key = name then (s.map .string).toList else [] := by
  cases s <;> simp [optionalEntry]

@[simp] theorem given_listEntry {key : String} {items : List Json} :
    given (listEntry key items) name =
      if key = name then (if items = [] then [] else [.array items]) else [] := by
  cases items <;> simp [listEntry]

/-- What is found for a name is what was written for it, in the order it was written. -/
theorem ReorderedEntries.given (h : ReorderedEntries es fs) :
    ReorderedItems (Json.given es name) (Json.given fs name) := by
  induction es generalizing fs with
  | nil =>
      cases h
      exact .nil
  | cons e es ih =>
      cases h with
      | cons first rest =>
          rw [given_cons, given_cons]
          split
          · exact .cons first (ih rest)
          · exact ih rest

end

end Json

/-! ## The fields of a written object -/

namespace Fields

/-- Fields that hold what was written as some entries: for each name the values that were written
for it, in some order and each with its own entries in some order. -/
def Hold (f : Fields) (entries : List (String × Json)) : Prop :=
  ∃ gs, f = .named gs ∧
    ∀ name, ∃ vs, Json.ReorderedItems (Json.given entries name) vs ∧ vs.Perm (Json.given gs name)

theorem of?_of_reordered {entries : List (String × Json)} {v : Json}
    (h : (Json.object entries).Reordered v) (count : Nat) :
    ∃ f, of? count v = some f ∧ f.Hold entries := by
  cases h with
  | @object _ fs gs written order =>
      refine ⟨.named gs, rfl, gs, rfl, fun name => ⟨Json.given fs name, written.given, ?_⟩⟩
      exact (order.filter _).map _

section

variable {f : Fields} {entries : List (String × Json)} {name : String} {v : Json}

theorem Hold.values_of_given (hf : f.Hold entries) (position : Nat)
    (h : Json.given entries name = [v]) :
    ∃ w, f.values position name = [w] ∧ v.Reordered w := by
  obtain ⟨gs, rfl, hgs⟩ := hf
  obtain ⟨vs, hvs, hperm⟩ := hgs name
  rw [h] at hvs
  cases hvs with
  | @cons _ w _ _ first rest =>
      cases rest with
      | nil => exact ⟨w, List.perm_singleton.mp hperm.symm, first⟩

theorem Hold.values_of_not_given (hf : f.Hold entries) (position : Nat)
    (h : Json.given entries name = []) : f.values position name = [] := by
  obtain ⟨gs, rfl, hgs⟩ := hf
  obtain ⟨vs, hvs, hperm⟩ := hgs name
  rw [h] at hvs
  cases hvs with
  | nil => exact hperm.symm.eq_nil

end

end Fields

/-! ## What a reading takes back -/

namespace Decoder

/-- A reading that takes back everything that is written in some way, whatever the order of the
entries it comes in. -/
def Reads {α : Type} (d : Decoder α) (write : α → Json) : Prop :=
  ∀ a v, (write a).Reordered v → d v = some a

/-- A reading goes on with what it has read.  (Said of `>>=`: with `Option.bind` the rest of the
reading would be rewritten under its binder before the value is known, at every field anew.) -/
theorem some_bind {α β : Type} (a : α) (next : α → Option β) : (some a >>= next) = next a := rfl

theorem string_reads : Reads string .string := by
  intro s v h
  cases h with
  | string => rfl

theorem bool_reads : Reads bool .bool := by
  intro b v h
  cases h with
  | bool => rfl

/-- A kind is written as its word, and found again among all kinds when no two share a word. -/
theorem word_reads {α : Type} {all : List α} {write : α → String}
    (hall : ∀ a, all.find? (fun b => write b == write a) = some a) :
    Reads (fun v => (word v).bind fun s => all.find? fun b => write b == s)
      fun a => .string (write a) := by
  intro a v h
  cases h with
  | string => exact hall a

section

variable {α : Type} {d : Decoder α} {write : α → Json}

theorem Reads.mapM (hd : d.Reads write) {as : List α} {vs : List Json}
    (h : Json.ReorderedItems (as.map write) vs) : vs.mapM d = some as := by
  induction as generalizing vs with
  | nil =>
      cases h
      rfl
  | cons a as ih =>
      cases h with
      | cons first rest => simp [hd a _ first, ih rest]

theorem Reads.list (hd : d.Reads write) : Reads d.list fun as => .array (as.map write) := by
  intro as v h
  cases h with
  | array items => exact hd.mapM items

/-- A text or `null`, as an absent text is written. -/
theorem option_string_reads : Reads (option string) Json.ofStringOption := by
  intro s v h
  cases s with
  | none =>
      cases h
      rfl
  | some s =>
      cases h
      rfl

end

end Decoder

/-! ## Fields that are taken back -/

namespace Fields

section

variable {α : Type} {d : Decoder α} {write : α → Json} {f : Fields}
  {entries : List (String × Json)}

theorem Hold.required (hf : f.Hold entries) (position : Nat) (name : String) (hd : d.Reads write)
    (a : α) (h : Json.given entries name = [write a]) : f.required position name d = some a := by
  obtain ⟨w, hw, hread⟩ := hf.values_of_given position h
  simp [Fields.required, hw, hd a w hread]

/-- A field with a default is taken back when it was written as well. -/
theorem Hold.defaulted (hf : f.Hold entries) (position : Nat) (name : String) {default : α}
    (hd : d.Reads write) (a : α) (h : Json.given entries name = [write a]) :
    f.defaulted position name default d = some a := by
  obtain ⟨w, hw, hread⟩ := hf.values_of_given position h
  simp [Fields.defaulted, hw, hd a w hread]

/-- A list that is left out when it is empty. -/
theorem Hold.list (hf : f.Hold entries) (position : Nat) (name : String) (hd : d.Reads write)
    (as : List α)
    (h : Json.given entries name = if as = [] then [] else [.array (as.map write)]) :
    f.defaulted position name [] d.list = some as := by
  by_cases has : as = []
  · rw [if_pos has] at h
    simp [Fields.defaulted, hf.values_of_not_given position h, has]
  · rw [if_neg has] at h
    exact hf.defaulted position name hd.list as h

/-- An absent text is taken back whether it was written as `null` or left out. -/
theorem Hold.optional (hf : f.Hold entries) (position : Nat) (name : String)
    (s : Option String)
    (h : Json.given entries name = [Json.ofStringOption s] ∨
      Json.given entries name = (s.map Json.string).toList) :
    f.optional position name .string = some s := by
  by_cases hgiven : Json.given entries name = [Json.ofStringOption s]
  · obtain ⟨w, hw, hread⟩ := hf.values_of_given position hgiven
    simp [Fields.optional, hw, Decoder.option_string_reads s w hread]
  · have hleft := h.resolve_left hgiven
    cases s with
    | none =>
        have hvalues := hf.values_of_not_given position hleft
        obtain ⟨gs, rfl, -⟩ := hf
        simp [Fields.optional, hvalues]
    | some s => exact absurd hleft hgiven

end

end Fields
end ComponentAtlas
