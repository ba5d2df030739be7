import ComponentAtlas.Proofs.CSharp.Spelling
import ComponentAtlas.Proofs.Declaration.Body
import ComponentAtlas.Proofs.Declaration.FormalParameter
import ComponentAtlas.Proofs.Index.Overloads

/-!
# Methods of a body

A body contributes the methods that can be used from outside and are no plumbing, in source order,
and of overloads with the same parameter types the first.  Every method is also a member of the
type, with the same name, type and summary.

Overloads are told apart by the parameter types that are read, and these are read from the text of
the parameter list.  So the methods are those with different declared types as long as reading tells
the same methods apart as declaring does (`methods_listed`), for example when every list is read as
it is declared; a misread default can make two overloads the same.
-/

namespace ComponentAtlas

open Text CSharp

/-- What tells a method from others: its name, its return type and the types of its parameters. -/
structure ListedMethod where
  name : String
  returnType : String
  types : List String
  deriving DecidableEq

namespace ListedMethod

/-- Whether two methods cannot be overloads of each other. -/
def same (a b : ListedMethod) : Bool :=
  a.name == b.name && a.types == b.types

end ListedMethod

def Method.listed (m : Method) : ListedMethod :=
  ⟨m.name, m.returnType, m.parameters.map (·.type)⟩

namespace CSharp.WrittenMethod

variable (m : WrittenMethod)

def nameText : String :=
  String.ofList m.name.last.word.text

/-- The types of the parameters as they are declared, with single spaces. -/
def types : List String :=
  m.parameters.elements.map fun p => String.ofList (collapse (Tree.span p.type.trees))

/-- The types of the parameters as they are read from the text of the list. -/
def readTypes : List String :=
  (MethodParameter.listOfText .empty (insideParentheses m.head.parameters)).map (·.type)

/-- A method as it is declared. -/
def declared : ListedMethod :=
  ⟨m.nameText, String.ofList (collapse (Tree.span m.type.trees)), m.types⟩

/-- A method as it is read. -/
def read : ListedMethod :=
  ⟨m.nameText, String.ofList (collapse (Tree.span m.type.trees)), m.readTypes⟩

/-- Whether a method in a type of some kind can be used from outside, and says something about its
type. -/
def isShown (kind : TypeKind) : Bool :=
  (m.header.hasWord "public" || (kind == .interfaceType && !m.header.hasWord "private")) &&
    !plumbingMethods.contains m.nameText

/-- Some formal parameters with which a method's list is written: with a comma and a space between
them, and brackets that are level. -/
structure IsSpelledAs (fs : List FormalParameter) : Prop where
  text : insideParentheses m.head.parameters = FormalParameter.writtenList fs
  types : fs.map (fun f => String.ofList (collapse f.type)) = m.types
  wellFormed : ∀ f ∈ fs, f.IsWellFormed
  level : ∀ f ∈ fs, f.IsLevel
  plain : ∀ f ∈ fs, f.IsPlain

end CSharp.WrittenMethod

/-- The methods of a body that are shown, in source order. -/
def shownMethods (kind : TypeKind) (body : List WrittenItem) : List WrittenMethod :=
  (methods body).filter fun m => m.isShown kind

/-! ## What is read off a method -/

/-- Documentation says nothing about types. -/
theorem types_listOfText (docs docs' : Documentation) (text : List Char) :
    (MethodParameter.listOfText docs text).map (·.type)
      = (MethodParameter.listOfText docs' text).map (·.type) := by
  have hpart (part : List Char) : (MethodParameter.ofText? docs part).map (·.type)
      = (MethodParameter.ofText? docs' part).map (·.type) := by
    obtain ⟨declared, default, htext, hnone⟩ := MethodParameter.exists_assigned (dropLists part)
    rw [MethodParameter.ofText?_of_assigned htext hnone,
      MethodParameter.ofText?_of_assigned htext hnone]
    unfold MethodParameter.ofWords?
    split <;> rfl
  rw [MethodParameter.listOfText, MethodParameter.listOfText, List.map_filterMap, List.map_filterMap]
  exact List.filterMap_congr fun part _ => hpart part

theorem CSharp.WrittenMethod.readTypes_of_isSpelledAs {m : WrittenMethod} {fs : List FormalParameter}
    (h : m.IsSpelledAs fs) : m.readTypes = m.types := by
  rw [WrittenMethod.readTypes, h.text, FormalParameter.listOfText_of_comeApart .empty h.wellFormed
    (FormalParameter.comeApart_of_level h.wellFormed h.level) h.plain, List.map_map, ← h.types]
  rfl

namespace CSharp.MethodHead

def isShown (kind : TypeKind) (head : MethodHead) : Bool :=
  isVisibleMember kind head.header && !plumbingMethods.contains (String.ofList head.name)

def listed (head : MethodHead) : ListedMethod where
  name := String.ofList head.name
  returnType := String.ofList (collapse head.returns)
  types := (MethodParameter.listOfText .empty (insideParentheses head.parameters)).map (·.type)

/-- The library reads a method off a declaration when it is shown. -/
theorem listed_ofMethod? (kind : TypeKind) (docs : Documentation) (head : MethodHead) :
    ((Contribution.ofMethod? kind docs head).bind fun c => c.method?.map Method.listed)
      = if head.isShown kind then some head.listed else none := by
  unfold Contribution.ofMethod? isShown
  dsimp only
  cases isVisibleMember kind head.header with
  | false => rfl
  | true =>
      cases plumbingMethods.contains (String.ofList head.name) with
      | true => rfl
      | false =>
          simp [Contribution.method?, Method.listed, listed, types_listOfText docs .empty]

end CSharp.MethodHead

namespace CSharp.WrittenMethod

theorem isShown_head (kind : TypeKind) (m : WrittenMethod) :
    m.head.isShown kind = m.isShown kind := by
  rw [MethodHead.isShown, isVisibleMember, show m.head.header = m.header.header m.bare from rfl,
    WrittenHeader.hasModifier_header, WrittenHeader.hasModifier_header]
  rfl

end CSharp.WrittenMethod

/-! ## Methods and members -/

/-- What is read off the methods of a body, before overloads are told apart. -/
theorem filterMap_methods_bodyMembers (kind : TypeKind) (body : List WrittenItem) :
    ((bodyMembers (WrittenItem.items body)).filterMap (Contribution.ofBodyMember? kind)).filterMap
        (fun c => c.method?.map Method.listed) = (shownMethods kind body).map WrittenMethod.read := by
  rw [List.filterMap_filterMap, filterMap_bodyMembers
    (fun docs head => (rfl : _ = (fun _ => none) head))
    (fun docs head => MethodHead.listed_ofMethod? kind docs head), filterMap_methods, shownMethods]
  induction methods body with
  | nil => rfl
  | cons m ms ih =>
      rw [List.filterMap_cons, List.filter_cons, ih, WrittenMethod.isShown_head]
      cases m.isShown kind <;> rfl

/-- The methods of a body, of equal ones the first, as they are read. -/
theorem methodsOf_readBody (kind : TypeKind) (body : List WrittenItem) :
    (methodsOf (readBody kind body)).map Method.listed
      = (firsts (fun m n => m.read.same n.read) (shownMethods kind body)).map WrittenMethod.read := by
  have hmethods : methodsOf (readBody kind body) = firsts Method.sameSignature
      (((bodyMembers (WrittenItem.items body)).filterMap
        (Contribution.ofBodyMember? kind)).filterMap Contribution.method?) := by
    rw [readBody_eq, methodsOf, contributions]
    refine filterMap_firsts (fun x y a b hx hy => ?_) (fun x y hnone => ?_) _
    · rw [Contribution.sameSignature, hx, hy]
    · rw [Contribution.sameSignature]
      rcases hnone with hnone | hnone <;> rw [hnone]
      cases x.method? <;> rfl
  have hlisted (ms : List Method) : firsts ListedMethod.same (ms.map Method.listed)
      = (firsts Method.sameSignature ms).map Method.listed := firsts_map Method.listed ms
  rw [hmethods, ← hlisted, List.map_filterMap, filterMap_methods_bodyMembers, firsts_map]

namespace Contribution

/-- Whether a contribution is a member of its own kind, and a method one of the same name, type and
summary. -/
def IsInStep : Contribution → Prop
  | .property shown _ _ _ => shown.kind = .property
  | .method shown m => shown = ⟨m.name, .method, m.returnType, m.description⟩

theorem isInStep_of_mem_readBody {kind : TypeKind} {body : List WrittenItem} {c : Contribution}
    (h : c ∈ readBody kind body) : c.IsInStep := by
  rw [readBody_eq] at h
  obtain ⟨m, -, hm⟩ := List.mem_filterMap.mp (mem_of_mem_firsts h)
  cases m with
  | property docs head =>
      obtain rfl := Option.some.inj hm
      exact Eq.refl MemberKind.property
  | method docs head =>
      unfold ofBodyMember? ofMethod? at hm
      dsimp only at hm
      split at hm
      · cases hm
      · obtain rfl := Option.some.inj hm
        exact Eq.refl (TypeMember.mk _ _ _ _)

/-- The members that are methods are the methods. -/
theorem methods_of_isInStep {cs : List Contribution} (h : ∀ c ∈ cs, c.IsInStep) :
    (methodsOf cs).map (fun m => (m.name, m.returnType, m.description))
      = ((membersOf cs).filter fun m => m.kind == .method).map
          fun m => (m.name, m.type, m.summary) := by
  induction cs with
  | nil => rfl
  | cons c cs ih =>
      obtain ⟨hc, hcs⟩ := List.forall_mem_cons.mp h
      have hrest := ih hcs
      cases c with
      | property shown visible parameter event =>
          have hkind : (shown.kind == MemberKind.method) = false := by rw [hc]; rfl
          have hskip : (membersOf (.property shown visible parameter event :: cs)).filter
              (fun m => m.kind == .method) = (membersOf cs).filter fun m => m.kind == .method := by
            rw [membersOf, List.filterMap_cons, member?]
            cases visible with
            | false => rfl
            | true => exact List.filter_cons_of_neg (by simp [hkind])
          rw [hskip, ← hrest]
          rfl
      | method shown m =>
          obtain rfl : shown = ⟨m.name, .method, m.returnType, m.description⟩ := hc
          exact congrArg ((m.name, m.returnType, m.description) :: ·) hrest

end Contribution

namespace Declaration

/-- The methods of a body are its methods that can be used from outside and are no plumbing, in
source order, of those with the same name and the same read parameter types the first.  They are the
first of those with the same name and the same declared types when reading tells the same methods
apart as declaring does, and they have the declared types when all lists are spelled with level
brackets.  No two have the same name and types, and they are the members that are methods.  The
methods and the members of a source's component are those of the first type that is shown. -/
theorem methods_listed (kind : TypeKind) (body : List WrittenItem) :
    (methodsOf (readBody kind body)).map Method.listed
        = (firsts (fun m n => m.read.same n.read) (shownMethods kind body)).map WrittenMethod.read ∧
      ((∀ m ∈ shownMethods kind body, ∀ n ∈ shownMethods kind body,
          m.read.same n.read = m.declared.same n.declared) →
        (methodsOf (readBody kind body)).map Method.listed
          = (firsts (fun m n => m.declared.same n.declared) (shownMethods kind body)).map
              WrittenMethod.read) ∧
      ((∀ m ∈ shownMethods kind body, m.readTypes = m.types ∨ ∃ fs, m.IsSpelledAs fs) →
        (methodsOf (readBody kind body)).map Method.listed
          = (firsts (fun m n => m.declared.same n.declared) (shownMethods kind body)).map
              WrittenMethod.declared) ∧
      ((methodsOf (readBody kind body)).map Method.signature).Nodup ∧
      (methodsOf (readBody kind body)).map (fun m => (m.name, m.returnType, m.description))
        = ((membersOf (readBody kind body)).filter fun m => m.kind == .method).map
            (fun m => (m.name, m.type, m.summary)) ∧
      ∀ source ws includeInternal path d p, ConsistsOf source ws →
        ofClassFile? includeInternal path source = some d →
        (shownTypes includeInternal ws).head? = some p → p.item.body = body → p.head.kind = kind →
        d.component.methods = methodsOf (readBody kind body) ∧
          d.types.head?.map (·.members) = some (membersOf (readBody kind body)) := by
  have hread := methodsOf_readBody kind body
  refine ⟨hread, fun hsame => ?_, fun htypes => ?_, ?_,
    Contribution.methods_of_isInStep fun c => Contribution.isInStep_of_mem_readBody, ?_⟩
  · rw [hread, firsts_congr hsame]
  · have hdeclared : ∀ m ∈ shownMethods kind body, m.read = m.declared := fun m hm => by
      have hm := (htypes m hm).elim id fun ⟨fs, hfs⟩ => WrittenMethod.readTypes_of_isSpelledAs hfs
      rw [WrittenMethod.read, WrittenMethod.declared, hm]
    rw [hread, firsts_congr fun m hm n hn => by rw [hdeclared m hm, hdeclared n hn]]
    exact List.map_congr_left fun m hm => hdeclared m (mem_of_mem_firsts hm)
  · rw [readBody_eq]
    exact methodsOf_firsts_nodup _
  · intro source ws includeInternal path d p hsource hd hp hbody hkind
    obtain ⟨q, reference, hq, hreference, -, -, hmethods, hmembers⟩ :=
      exists_body_of_ofClassFile? hsource hd
    obtain rfl := Option.some.inj (hp.symm.trans hq)
    rw [hmethods, hreference, Option.map_some, hmembers, hbody, hkind]
    exact ⟨rfl, rfl⟩

/-- A parameter whose type is a word of the language. -/
def simpleParameter (type : PlainPart) (text : String) (default : Option Token)
    (h : ((dottedName [] type).name.trees.head?.all fun t => !t.isOneOf passedBy) = true) :
    WrittenParameter where
  lists := []
  passing := []
  type := namedType (dottedName [] type).name h
  name := wordToken " " text
  default := default.map fun t => (mark " " "=", [.leaf t])

/-- A public method without a result and without a body, called `Pad`. -/
def pad (parameters : CommaList WrittenParameter) : WrittenMethod where
  header := ⟨[], [wordToken " " "public"]⟩
  type := namedType (dottedName [] (typeWord " " "void" (by decide +kernel) (by decide +kernel))).name
    (by decide +kernel)
  name := (dottedName [] (plainPart " " "Pad" (by decide))).name
  brackets := brackets '(' "" ""
  parameters := parameters
  constraints := []
  ending := .braces (brackets '{' " " " ") []
  fits := by rfl
  isMember := by rfl
  goesOn := by decide +kernel
  isIdentifier := isIdentifier_of_isCapitalised (by decide)

/-- An overload with a character literal as the default of its first parameter. -/
def widePad (character : String) : WrittenMethod :=
  pad ⟨[(simpleParameter (typeWord "" "char" (by decide +kernel) (by decide +kernel)) "c"
      (some (literalToken " " character)) (by decide +kernel), mark "" ",")],
    some (simpleParameter (typeWord " " "int" (by decide +kernel) (by decide +kernel)) "n"
      (some (numberToken " " "8")) (by decide +kernel))⟩

/-- The overload that takes the first parameter only. -/
def narrowPad : WrittenMethod :=
  pad ⟨[], some (simpleParameter
    (typeWord "" "char" (by decide +kernel) (by decide +kernel)) "c" none (by decide +kernel))⟩

/-- The formal parameters of the first overload. -/
def widePadParameters : List FormalParameter :=
  [⟨"char".toList, "c".toList, some "'x'".toList⟩, ⟨"int".toList, "n".toList, some "8".toList⟩]

theorem isSpelledAs_widePad : (widePad "'x'").IsSpelledAs widePadParameters := by
  have hwell : ∀ f ∈ widePadParameters, IsTrimmed f.type ∧ f.type.head? ≠ some '[' ∧
      isNameText f.name = true ∧ ∀ value ∈ f.default, IsTrimmed value := by decide +kernel
  have hlevel : ∀ f ∈ widePadParameters, (Text.brackets.IsLevel f.type ∧ '"' ∉ f.type) ∧
      (∀ value ∈ f.default, Text.brackets.IsLevel (marks (lexemes value))) ∧
      ∀ value ∈ f.default, ∀ l ∈ lexemes value, l.hidesSigns = true →
        Text.brackets.IsLevel l.text ∧ '"' ∉ l.text := by decide +kernel
  have hplain : ∀ f ∈ widePadParameters,
      '=' ∉ f.type ∧ ∀ w ∈ words f.type ++ [f.name], isPassing w = false := by decide +kernel
  refine ⟨by decide +kernel, by decide +kernel, fun f hf => ?_, fun f hf => ?_,
    fun f hf => ⟨(hplain f hf).1, (hplain f hf).2⟩⟩
  · obtain ⟨htype, hlist, hname, hdefault⟩ := hwell f hf
    exact ⟨htype, hlist, isName_of_isNameText hname, hdefault⟩
  · obtain ⟨htype, hmarks, hhidden⟩ := hlevel f hf
    exact ⟨htype.1.isLevelUnquoted htype.2, hmarks, fun value hvalue l hl hhides =>
      have hsigns := hhidden value hvalue l hl hhides
      hsigns.1.isLevelUnquoted hsigns.2⟩

theorem methods_listed_pads :
    (methodsOf (readBody .classType [.method (widePad "'x'"), .method narrowPad])).map Method.listed
      = [⟨"Pad", "void", ["char", "int"]⟩, ⟨"Pad", "void", ["char"]⟩] := by
  have hread : ∀ m ∈ shownMethods .classType [.method (widePad "'x'"), .method narrowPad],
      m.readTypes = m.types ∨ ∃ fs, m.IsSpelledAs fs := by
    intro m hm
    have hmember : m ∈ [widePad "'x'", narrowPad] := List.mem_of_mem_filter hm
    rcases List.mem_pair.mp hmember with rfl | rfl
    · exact Or.inr ⟨_, isSpelledAs_widePad⟩
    · exact Or.inl (by decide +kernel)
  refine ((methods_listed .classType [.method (widePad "'x'"), .method narrowPad]).2.2.1
    hread).trans ?_
  decide +kernel

/-- A class of the two overloads, the default of the first being a parenthesis. -/
def padClass : List WrittenItem :=
  [.type (plainHead [wordToken "" "public"] .classType " " "MudPad" (by decide))
    (by decide +kernel) (by decide) (brackets '{' " " " ")
    [.method (widePad "'('"), .method narrowPad] none]

def padSource : String :=
  "public class MudPad \x7b public void Pad(char c = '(', int n = 8) \x7b \x7d " ++
    "public void Pad(char c) \x7b \x7d \x7d"

/-- A parenthesis in a character literal hides the second parameter of the first overload, and so
the second overload. -/
theorem overload_lost_behind_parenthesis :
    ConsistsOf padSource padClass ∧
      (firsts (fun m n => m.declared.same n.declared)
          (shownMethods .classType [.method (widePad "'('"), .method narrowPad])).map
        WrittenMethod.declared
          = [⟨"Pad", "void", ["char", "int"]⟩, ⟨"Pad", "void", ["char"]⟩] ∧
      (ofClassFile? false "MudPad.cs" padSource).map
        (fun d => d.component.methods.map Method.listed) = some [⟨"Pad", "void", ["char"]⟩] :=
  ⟨by decide +kernel, by decide +kernel, by decide +kernel⟩

end Declaration
end ComponentAtlas
