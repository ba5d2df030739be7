import ComponentAtlas.Proofs.CSharp.WrittenSources

/-!
# Declarations spelled out

Whether a source consists of some items can be computed: bracket trees can be compared.  The tokens
of a declaration are spelled by their text and the blanks in front of them.
-/

namespace ComponentAtlas.CSharp

/-! ## Comparing trees -/

namespace Tree

mutual

/-- Whether two trees are the same. -/
def same : Tree → Tree → Bool
  | .leaf t, .leaf u => t == u
  | .group o inside c, .group o' inside' c' => o == o' && allSame inside inside' && c == c'
  | .leaf _, .group _ _ _ => false
  | .group _ _ _, .leaf _ => false

def allSame : List Tree → List Tree → Bool
  | [], [] => true
  | t :: ts, u :: us => t.same u && allSame ts us
  | [], _ :: _ => false
  | _ :: _, [] => false

end

mutual

theorem same_iff (t u : Tree) : t.same u = true ↔ t = u := by
  cases t <;> cases u <;> simp [same, allSame_iff, and_assoc]

theorem allSame_iff (ts us : List Tree) : allSame ts us = true ↔ ts = us := by
  cases ts <;> cases us <;> simp [allSame, same_iff, allSame_iff]

end

instance : DecidableEq Tree := fun t u => decidable_of_iff (t.same u = true) (same_iff t u)

end Tree

instance (source : String) (items : List WrittenItem) : Decidable (ConsistsOf source items) :=
  inferInstanceAs (Decidable (trees (tokens source.toList) = WrittenItem.allTrees items))

/-! ## Names -/

/-- Whether a text can be the name of something. -/
def isNameText : List Char → Bool
  | [] => false
  | c :: cs =>
    if c = '@' then cs.head?.any startsWord && cs.tail.all Unicode.isWord
    else startsWord c && cs.all Unicode.isWord

theorem isName_of_isNameText {cs : List Char} (h : isNameText cs = true) : IsName cs := by
  cases cs with
  | nil => cases h
  | cons c cs =>
      rw [isNameText] at h
      split at h
      · rename_i hat
        obtain ⟨hstart, hrest⟩ := Bool.and_eq_true_iff.mp h
        cases cs with
        | nil => cases hstart
        | cons d ds => exact ⟨d, ds, Or.inr (by rw [hat]), hstart, List.all_eq_true.mp hrest⟩
      · obtain ⟨hstart, hrest⟩ := Bool.and_eq_true_iff.mp h
        exact ⟨c, cs, Or.inl rfl, hstart, List.all_eq_true.mp hrest⟩

/-! ## Tokens -/

/-- The blanks in front of a token. -/
def blanks (s : String) : List Lexeme :=
  if s.isEmpty then [] else [⟨.space, s.toList⟩]

def wordToken (front text : String) : Token :=
  ⟨blanks front, ⟨.word, text.toList⟩⟩

def markToken (front text : String) : Token :=
  ⟨blanks front, ⟨.mark, text.toList⟩⟩

def keyword (front text : String) : Keyword text :=
  ⟨wordToken front text, rfl, rfl⟩

def mark (front text : String) : Mark text :=
  ⟨markToken front text, rfl, rfl⟩

def numberToken (front text : String) : Token :=
  ⟨blanks front, ⟨.number, text.toList⟩⟩

def literalToken (front text : String) : Token :=
  ⟨blanks front, ⟨.literal, text.toList⟩⟩

/-- A pair of brackets with blanks in front of each. -/
def brackets (bracket : Char) (front behind : String) : Brackets bracket :=
  ⟨⟨blanks front, ⟨.mark, [bracket]⟩⟩, ⟨blanks behind, ⟨.mark, closingOf [bracket]⟩⟩, rfl⟩

/-! ## Names and types -/

/-- A name that begins with a capital, as no word of the language does. -/
def isCapitalised (text : String) : Bool :=
  isNameText text.toList && text.toList.head?.any Char.isUpper

section

variable {front text : String}

theorem isName_of_isCapitalised (h : isCapitalised text = true) : IsName text.toList :=
  isName_of_isNameText (Bool.and_eq_true_iff.mp h).1

theorem isIdentifier_of_isCapitalised (h : isCapitalised text = true) :
    (Tree.leaf (wordToken front text)).isIdentifier = true := by
  have hwords :
      ((reservedWords ++ typeWords).any fun w => w.toList.head?.any Char.isUpper) = false := by
    decide +kernel
  have hnone (words : List String) (hsub : words ⊆ reservedWords ++ typeWords) :
      (Tree.leaf (wordToken front text)).isOneOf words = false := by
    have hcapital := (Bool.and_eq_true_iff.mp h).2
    rw [Tree.isOneOf, Token.isOneOf, Bool.and_eq_false_iff, List.any_eq_false]
    refine Or.inr fun w hw htext => ?_
    have hsame : text.toList = w.toList := beq_iff_eq.mp htext
    exact List.any_eq_false.mp hwords w (hsub hw) (hsame ▸ hcapital)
  rw [Tree.isIdentifier, Tree.namesType, hnone reservedWords (List.subset_append_left _ _),
    hnone typeWords (List.subset_append_right _ _)]
  rfl

end

/-- A part of a name that is one word. -/
abbrev PlainPart :=
  { p : NamePart // p.arguments = none }

def plainPart (front text : String) (h : isCapitalised text = true) : PlainPart :=
  ⟨⟨wordToken front text, none, isName_of_isCapitalised h,
    (Bool.and_eq_true_iff.mp (isIdentifier_of_isCapitalised h)).1⟩, rfl⟩

/-- A part that is a word of the language that names a type. -/
def typeWord (front text : String) (hname : isNameText text.toList = true)
    (htype : (Tree.leaf (wordToken front text)).namesType = true) : PlainPart :=
  ⟨⟨wordToken front text, none, isName_of_isNameText hname, htype⟩, rfl⟩

/-- Words with dots between them. -/
def dottedName (front : List (PlainPart × Mark ".")) (last : PlainPart) : NamespaceName where
  name :=
    { front := front.map fun x => (x.1.1, x.2.1)
      last := last.1
      separated := fun x hx => by
        obtain ⟨y, -, rfl⟩ := List.mem_map.mp hx
        exact ⟨y.2.2.1, Or.inl y.2.2.2⟩ }
  isDotted := fun x hx => by
    obtain ⟨y, -, rfl⟩ := List.mem_map.mp hx
    exact ⟨y.1.2, y.2.2.2⟩
  isPlain := last.2

/-- A type declared with some modifiers, and nothing between its name and its body. -/
def plainHead (modifiers : List Token) (kind : TypeKind) (front text : String)
    (h : isCapitalised text = true) : WrittenTypeHead where
  header := ⟨[], modifiers⟩
  kind := kind
  keyword := keyword front kind.name
  second := none
  name := wordToken " " text
  between := []
  isSecond := fun t ht => by cases ht
  isName := isName_of_isCapitalised h
  isIdentifier := isIdentifier_of_isCapitalised h
  goesOn := fun t ht => by cases ht

/-! ## Attributes and members of enumerations -/

/-- An attribute whose name has no type arguments. -/
def writtenAttribute (name : NamespaceName) (arguments : Option (Brackets '(' × List Tree)) :
    WrittenAttribute :=
  ⟨name.name, arguments⟩

/-- A list of one attribute. -/
def attributeList (front : String) (a : WrittenAttribute) : AttributeList where
  brackets := brackets '[' front ""
  target := none
  attributes := ⟨[], some a⟩
  isTarget := fun x hx => by cases hx

theorem isValue_of_all {ts : List Tree}
    (h : ts.all (fun t => !t.is "," && !t.is "<" && !t.isConditional) = true) : IsValue ts := by
  induction ts with
  | nil => exact .nil
  | cons t ts ih =>
      obtain ⟨ht, hts⟩ := Bool.and_eq_true_iff.mp h
      simp only [Bool.and_eq_true, Bool.not_eq_true'] at ht
      exact .cons ht.1.1 ht.1.2 ht.2 (ih hts)

/-- A member without a value. -/
def bareMember (lists : List AttributeList) (front text : String) (h : isCapitalised text = true) :
    WrittenEnumMember where
  lists := lists
  name := wordToken front text
  value := none
  isWord := rfl
  isName := isName_of_isCapitalised h
  isValue := fun x hx => by cases hx
  notBlank := fun x hx => by cases hx

/-- A member with a value. -/
def valuedMember (lists : List AttributeList) (front text : String) (h : isCapitalised text = true)
    (equals : Mark "=") (value : List Tree)
    (hvalue : value.all (fun t => !t.is "," && !t.is "<" && !t.isConditional) = true)
    (hblank : Text.allBlank (Tree.span value) = false) : WrittenEnumMember where
  lists := lists
  name := wordToken front text
  value := some (equals, value)
  isWord := rfl
  isName := isName_of_isCapitalised h
  isValue := fun x hx => by
    obtain rfl := Option.some.inj hx
    exact isValue_of_all hvalue
  notBlank := fun x hx => by
    obtain rfl := Option.some.inj hx
    exact hblank

/-! ## Members -/

/-- A type that is a name. -/
def namedType (name : WrittenName)
    (h : (name.trees.head?.all fun t => !t.isOneOf passedBy) = true) : WrittenType where
  refs := []
  base := .named name
  marks := []
  areRefs := fun t ht => by cases ht
  begins := fun t ht => by
    have hname : name.trees.head? = some t := ht
    rw [hname, Option.all_some, Bool.not_eq_true'] at h
    exact h
  areMarks := fun t ht => by cases ht

/-- A name with type arguments among which there are no angle brackets. -/
def genericName (part : PlainPart) (inside : List Tree)
    (h : inside.all (fun t => !t.is "<" && !t.is ">" && (t.word?.isSome || t.is ",")) = true) :
    WrittenName where
  front := []
  last :=
    { part.1 with
      arguments := some
        { opening := mark "" "<"
          inside := inside
          closing := mark "" ">"
          isArguments := by
            induction inside with
            | nil => exact .nil
            | cons t ts ih =>
                obtain ⟨ht, hts⟩ := Bool.and_eq_true_iff.mp h
                simp only [Bool.and_eq_true, Bool.not_eq_true'] at ht
                refine .cons ht.1.1 ht.1.2 ?_ (ih hts)
                rcases Bool.or_eq_true_iff.mp ht.2 with hword | hcomma
                · rw [hword]; rfl
                · rw [hcomma]; simp } }
  separated := fun x hx => by cases hx

/-- Accessors without a body. -/
def accessors : List Tree :=
  [.leaf (wordToken " " "get"), .leaf (markToken "" ";"), .leaf (wordToken " " "set"),
    .leaf (markToken "" ";")]

end ComponentAtlas.CSharp
