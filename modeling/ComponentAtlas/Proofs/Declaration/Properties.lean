import ComponentAtlas.Proofs.CSharp.Spelling
import ComponentAtlas.Proofs.Declaration.Body
import ComponentAtlas.Proofs.Declaration.EventType

/-!
# Properties become parameters and events

A body is gone through property by property: a property that is marked as a parameter is listed as
an event when its type is an event callback, and as a parameter when it is not, unless its name is
in the list already; no other property is listed (`Interface.Step`).  The library's two lists are
those at the end (`properties_listed_iff`), provided that the names of attributes are spelled so
that they can be cut out of the attributes, and the angle brackets of an event callback are one
pair: between the first and the last one everything is taken for the argument.
-/

namespace ComponentAtlas

open Text CSharp

/-! ## What is listed of a property -/

/-- A parameter as it is declared, its documentation and its default apart. -/
structure ListedParameter where
  name : String
  type : String
  isRequired : Bool
  isCascading : Bool
  deriving DecidableEq

/-- An event as it is declared, its documentation apart. -/
structure ListedEvent where
  name : String
  argsType : Option String
  deriving DecidableEq

/-- The parameters and events of a component. -/
structure Interface where
  parameters : List ListedParameter
  events : List ListedEvent
  deriving DecidableEq

def Parameter.listed (p : Parameter) : ListedParameter :=
  ⟨p.name, p.type, p.isRequired, p.isCascading⟩

def Event.listed (e : Event) : ListedEvent :=
  ⟨e.name, e.argsType⟩

namespace CSharp.WrittenProperty

variable (p : WrittenProperty)

def nameText : String :=
  String.ofList p.name.last.word.text

/-- The text of a property's type, with single spaces. -/
def typeText : List Char :=
  collapse (Tree.span p.type.trees)

/-- Whether a property is marked as a parameter, cascading or not. -/
def isMarked : Bool :=
  p.header.hasAttribute "Parameter" || p.header.hasAttribute "CascadingParameter"

/-- What a property is listed as when it is a parameter. -/
def asParameter : ListedParameter where
  name := p.nameText
  type := String.ofList p.typeText
  isRequired := p.header.hasAttribute "EditorRequired"
  isCascading := p.header.hasAttribute "CascadingParameter"

/-- What a property is listed as when it is an event. -/
def asEvent (argument : Option (List Char)) : ListedEvent where
  name := p.nameText
  argsType := argument.map String.ofList

/-- Whether the names of a property's attributes can be cut out of these, and whether its type, when
it is spelled as an event callback, is one. -/
structure IsPlain : Prop where
  attributes : ∀ a ∈ p.header.attributes, a.isPlain = true
  type : ∀ argument, SpellsCallback p.typeText argument → ∀ t ∈ argument, IsArgument t

end CSharp.WrittenProperty

namespace Interface

def empty : Interface :=
  ⟨[], []⟩

/-- The lists with one more parameter, unless one of its name is there already. -/
def addParameter (s : Interface) (p : ListedParameter) : Interface :=
  if p.name ∈ s.parameters.map (·.name) then s else { s with parameters := s.parameters ++ [p] }

/-- The lists with one more event, unless one of its name is there already. -/
def addEvent (s : Interface) (e : ListedEvent) : Interface :=
  if e.name ∈ s.events.map (·.name) then s else { s with events := s.events ++ [e] }

/-- What one property does to the lists. -/
inductive Step (p : WrittenProperty) (s : Interface) : Interface → Prop
  | unmarked (h : p.isMarked = false) : Step p s s
  | event {argument : Option (List Char)} (h : p.isMarked = true)
      (hcallback : IsCallback p.typeText argument) : Step p s (s.addEvent (p.asEvent argument))
  | parameter (h : p.isMarked = true) (hother : ∀ argument, ¬IsCallback p.typeText argument) :
      Step p s (s.addParameter p.asParameter)

/-- What some properties do to the lists, one after the other. -/
inductive Run : List WrittenProperty → Interface → Interface → Prop
  | nil {s : Interface} : Run [] s s
  | cons {p : WrittenProperty} {ps : List WrittenProperty} {s t u : Interface} (step : Step p s t)
      (rest : Run ps t u) : Run (p :: ps) s u

theorem callback_unique {cs : List Char} {argument argument' : Option (List Char)}
    (h : IsCallback (collapse cs) argument) (h' : IsCallback (collapse cs) argument') :
    argument = argument' := by
  have hread := callbackArgument?_collapse_iff.mpr h.1
  rw [callbackArgument?_collapse_iff.mpr h'.1] at hread
  exact (Option.some.inj hread).symm

variable {p : WrittenProperty} {ps : List WrittenProperty} {s t u : Interface}

/-- Which step a property makes is seen from its type. -/
theorem Step.of_event {argument : Option (List Char)} (h : p.isMarked = true)
    (hread : TypeName.callbackArgument? p.typeText = some argument)
    (hargument : ∀ t ∈ argument, IsArgument t) : Step p s (s.addEvent (p.asEvent argument)) :=
  .event h ⟨callbackArgument?_collapse_iff.mp hread, hargument⟩

theorem Step.of_parameter (h : p.isMarked = true)
    (hread : TypeName.callbackArgument? p.typeText = none) :
    Step p s (s.addParameter p.asParameter) :=
  .parameter h fun argument hcallback => by
    have hspelled := callbackArgument?_collapse_iff.mpr hcallback.1
    rw [show collapse _ = p.typeText from rfl, hread] at hspelled
    cases hspelled

theorem Step.unique (h : Step p s t) (h' : Step p s u) : t = u := by
  cases h with
  | unmarked h =>
      cases h' with
      | unmarked _ => rfl
      | event h' _ => rw [h] at h'; cases h'
      | parameter h' _ => rw [h] at h'; cases h'
  | event h hcallback =>
      cases h' with
      | unmarked h' => rw [h] at h'; cases h'
      | event _ hcallback' => rw [callback_unique hcallback hcallback']
      | parameter _ hother => exact absurd hcallback (hother _)
  | parameter h hother =>
      cases h' with
      | unmarked h' => rw [h] at h'; cases h'
      | event _ hcallback => exact absurd hcallback (hother _)
      | parameter _ _ => rfl

theorem Run.unique (h : Run ps s t) (h' : Run ps s u) : t = u := by
  induction h with
  | nil =>
      cases h'
      rfl
  | cons step _ ih =>
      cases h' with
      | cons step' rest' => exact ih (step.unique step' ▸ rest')

end Interface

/-! ## What is read off a property -/

namespace CSharp.PropertyHead

/-- The parameter that the library reads off a property. -/
def parameter? (head : PropertyHead) : Option ListedParameter :=
  ((Contribution.ofProperty .classType .empty head).parameter?).map Parameter.listed

/-- The event that the library reads off a property. -/
def event? (head : PropertyHead) : Option ListedEvent :=
  ((Contribution.ofProperty .classType .empty head).event?).map Event.listed

/-- Neither the kind of the type nor the documentation makes a property a parameter or an event. -/
theorem read_eq (kind : TypeKind) (docs : Documentation) (head : PropertyHead) :
    ((Contribution.ofProperty kind docs head).parameter?).map Parameter.listed = head.parameter? ∧
      ((Contribution.ofProperty kind docs head).event?).map Event.listed = head.event? := by
  unfold parameter? event? Contribution.ofProperty
  dsimp only
  cases PropertyRole.of? (Attribute.markers head.header.attributeList)
    (String.ofList (collapse head.type)) with
  | none => exact ⟨rfl, rfl⟩
  | some role => cases role <;> exact ⟨rfl, rfl⟩

end CSharp.PropertyHead

namespace CSharp.WrittenProperty

variable {p : WrittenProperty}

/-- The role that the library gives to a property. -/
def role? (p : WrittenProperty) : Option PropertyRole :=
  PropertyRole.of? (Attribute.markers p.head.header.attributeList)
    (String.ofList (collapse p.head.type))

/-- The markers of a plain property are those that it is declared with. -/
theorem contains_marker (h : p.IsPlain) {entry : String × Marker} (hentry : entry ∈ markerTable) :
    (Attribute.markers p.head.header.attributeList).contains entry.2
      = p.header.hasAttribute entry.1 :=
  p.header.contains_markers p.bare h.attributes hentry

theorem contains_parameter (h : p.IsPlain) :
    (Attribute.markers p.head.header.attributeList).contains .parameter
      = p.header.hasAttribute "Parameter" :=
  contains_marker h (show ("Parameter", Marker.parameter) ∈ markerTable by decide)

theorem contains_cascading (h : p.IsPlain) :
    (Attribute.markers p.head.header.attributeList).contains .cascading
      = p.header.hasAttribute "CascadingParameter" :=
  contains_marker h (show ("CascadingParameter", Marker.cascading) ∈ markerTable by decide)

theorem role?_eq_none (h : p.IsPlain) (hmarked : p.isMarked = false) : p.role? = none := by
  obtain ⟨hparameter, hcascading⟩ := Bool.or_eq_false_iff.mp hmarked
  rw [role?, PropertyRole.of?, contains_parameter h, contains_cascading h, hparameter, hcascading]
  rfl

/-- A marked property has the role of an event when its type is spelled as one, and else that of a
parameter. -/
theorem role?_eq (h : p.IsPlain) (hmarked : p.isMarked = true) :
    p.role? = ((TypeName.callbackArgument? p.typeText).map fun argument =>
        PropertyRole.event (argument.map String.ofList)).or
      (some (if p.header.hasAttribute "CascadingParameter" then .cascadingParameter
        else .parameter)) := by
  have htext : (String.ofList (collapse p.head.type)).toList = p.typeText := String.toList_ofList
  have hnot : ¬(!p.header.hasAttribute "Parameter" &&
      !p.header.hasAttribute "CascadingParameter") = true := by
    rw [← Bool.not_or, Bool.not_eq_true, Bool.not_eq_false']
    exact hmarked
  rw [role?, PropertyRole.of?, contains_parameter h, contains_cascading h, htext, if_neg hnot]
  cases TypeName.callbackArgument? p.typeText <;> rfl

theorem read_of_role?_none (hrole : p.role? = none) :
    p.head.parameter? = none ∧ p.head.event? = none := by
  rw [role?] at hrole
  rw [PropertyHead.parameter?, PropertyHead.event?, Contribution.ofProperty]
  simp only [hrole]
  exact ⟨rfl, rfl⟩

theorem read_of_role?_event {argsType : Option String} (hrole : p.role? = some (.event argsType)) :
    p.head.parameter? = none ∧ p.head.event? = some ⟨p.nameText, argsType⟩ := by
  rw [role?] at hrole
  rw [PropertyHead.parameter?, PropertyHead.event?, Contribution.ofProperty]
  simp only [hrole]
  exact ⟨rfl, rfl⟩

theorem read_of_role?_parameter (h : p.IsPlain) {c : Bool}
    (hrole : p.role? = some (if c then .cascadingParameter else .parameter)) :
    p.head.parameter? = some p.asParameter ∧ p.head.event? = none := by
  have hrequired : (Attribute.markers p.head.header.attributeList).contains .required
      = p.header.hasAttribute "EditorRequired" :=
    contains_marker h (show ("EditorRequired", Marker.required) ∈ markerTable by decide)
  rw [role?] at hrole
  rw [PropertyHead.parameter?, PropertyHead.event?, Contribution.ofProperty]
  cases c <;> simp only [hrole, hrequired, contains_cascading h] <;> exact ⟨rfl, rfl⟩

end CSharp.WrittenProperty

namespace Interface

/-- The lists with what is new in some others. -/
def append (s : Interface) (parameters : List ListedParameter) (events : List ListedEvent) :
    Interface where
  parameters := appendNew (fun a b => a.name == b.name) s.parameters parameters
  events := appendNew (fun a b => a.name == b.name) s.events events

variable {p : WrittenProperty} {s : Interface}

theorem append_nil (s : Interface) : s.append [] [] = s := by
  rw [append, appendNew, appendNew, firstsAfter, firstsAfter, List.append_nil, List.append_nil]

theorem append_parameter (s : Interface) (p : ListedParameter) :
    s.append [p] [] = s.addParameter p := by
  have hkey (a b : ListedParameter) : (a.name == b.name) = true ↔ a.name = b.name := beq_iff_eq
  rw [append, addParameter]
  split
  · rename_i hknown
    have hmet : ∀ k ∈ [p].map (·.name), k ∈ s.parameters.map (·.name) :=
      List.forall_mem_singleton.mpr hknown
    rw [appendNew_eq_self hkey hmet, appendNew, firstsAfter, List.append_nil]
  · rename_i hnew
    rw [appendNew, firstsAfter_cons_of_notMem hkey hnew, firstsAfter, appendNew, firstsAfter,
      List.append_nil]

theorem append_event (s : Interface) (e : ListedEvent) : s.append [] [e] = s.addEvent e := by
  have hkey (a b : ListedEvent) : (a.name == b.name) = true ↔ a.name = b.name := beq_iff_eq
  rw [append, addEvent]
  split
  · rename_i hknown
    have hmet : ∀ k ∈ [e].map (·.name), k ∈ s.events.map (·.name) :=
      List.forall_mem_singleton.mpr hknown
    rw [appendNew_eq_self hkey hmet, appendNew, firstsAfter, List.append_nil]
  · rename_i hnew
    rw [appendNew, firstsAfter, List.append_nil, appendNew, firstsAfter_cons_of_notMem hkey hnew,
      firstsAfter]

theorem append_append (s : Interface) (ps qs : List ListedParameter) (es fs : List ListedEvent) :
    (s.append ps es).append qs fs = s.append (ps ++ qs) (es ++ fs) := by
  simp only [append, appendNew_appendNew]

/-- A plain property does to the lists what it is declared to do. -/
theorem step_of_isPlain (h : p.IsPlain) (s : Interface) :
    Step p s (s.append p.head.parameter?.toList p.head.event?.toList) := by
  cases hmarked : p.isMarked with
  | false =>
      obtain ⟨hp, he⟩ := WrittenProperty.read_of_role?_none (WrittenProperty.role?_eq_none h hmarked)
      rw [hp, he, Option.toList_none, Option.toList_none, append_nil]
      exact .unmarked hmarked
  | true =>
      have hrole := WrittenProperty.role?_eq h hmarked
      cases hread : TypeName.callbackArgument? p.typeText with
      | some argument =>
          rw [hread] at hrole
          obtain ⟨hp, he⟩ := WrittenProperty.read_of_role?_event hrole
          rw [hp, he, Option.toList_none, Option.toList_some, append_event]
          exact .of_event hmarked hread (h.type argument (callbackArgument?_collapse_iff.mp hread))
      | none =>
          rw [hread] at hrole
          obtain ⟨hp, he⟩ := WrittenProperty.read_of_role?_parameter h hrole
          rw [hp, he, Option.toList_none, Option.toList_some, append_parameter]
          exact .of_parameter hmarked hread

/-- Plain properties, one after the other, do to the lists what is read off all of them. -/
theorem run_of_isPlain (h : ∀ p ∈ ps, p.IsPlain) (s : Interface) :
    Run ps s (s.append (ps.filterMap fun p => p.head.parameter?)
      (ps.filterMap fun p => p.head.event?)) := by
  induction ps generalizing s with
  | nil =>
      rw [List.filterMap_nil, List.filterMap_nil, append_nil]
      exact .nil
  | cons p ps ih =>
      obtain ⟨hp, hps⟩ := List.forall_mem_cons.mp h
      have hrest := ih hps (s.append p.head.parameter?.toList p.head.event?.toList)
      have hcons {α : Type} (read : WrittenProperty → Option α) :
          (p :: ps).filterMap read = (read p).toList ++ ps.filterMap read := by
        rw [List.filterMap_cons]
        cases read p <;> rfl
      rw [append_append] at hrest
      rw [hcons, hcons]
      exact .cons (step_of_isPlain hp s) hrest

/-- The lists that some contributions make. -/
def ofContributions (cs : List Contribution) : Interface where
  parameters := (parametersOf cs).map Parameter.listed
  events := (eventsOf cs).map Event.listed

/-- Only methods are dropped because of their signature. -/
theorem filterMap_contributions {α : Type} {read : Contribution → Option α}
    (hmethod : ∀ member method, read (.method member method) = none) (kind : TypeKind)
    (items : List Item) :
    (contributions kind items).filterMap read =
      (bodyMembers items).filterMap fun m => (Contribution.ofBodyMember? kind m).bind read := by
  rw [contributions, filterMap_firsts_of_none, List.filterMap_filterMap]
  intro x y hsame
  cases y with
  | property => cases x <;> cases hsame
  | method member method => exact hmethod member method

/-- What is read off the properties of a body, whatever else is in it. -/
theorem filterMap_readBody {α : Type} {read : Contribution → Option α} {kind : TypeKind}
    {property : PropertyHead → Option α}
    (hmethod : ∀ member method, read (.method member method) = none)
    (hproperty : ∀ docs head, read (.ofProperty kind docs head) = property head)
    (body : List WrittenItem) :
    (readBody kind body).filterMap read = (properties body).filterMap fun p => property p.head := by
  have hnone (docs : Documentation) (head : MethodHead) :
      (Contribution.ofBodyMember? kind (.method docs head)).bind read = none := by
    rw [Contribution.ofBodyMember?, Contribution.ofMethod?]
    split
    · rfl
    · exact hmethod _ _
  rw [readBody_eq, filterMap_contributions hmethod, filterMap_bodyMembers hproperty hnone,
    filterMap_properties]

/-- The lists of a body are what is read off its properties, appended to empty lists. -/
theorem ofContributions_readBody (kind : TypeKind) (body : List WrittenItem) :
    ofContributions (readBody kind body) =
      empty.append ((properties body).filterMap fun p => p.head.parameter?)
        ((properties body).filterMap fun p => p.head.event?) := by
  have hparameters : (readBody kind body).filterMap (fun c => c.parameter?.map Parameter.listed)
      = (properties body).filterMap fun p => p.head.parameter? :=
    filterMap_readBody (fun _ _ => rfl)
      (fun docs head => (PropertyHead.read_eq kind docs head).1) body
  have hevents : (readBody kind body).filterMap (fun c => c.event?.map Event.listed)
      = (properties body).filterMap fun p => p.head.event? :=
    filterMap_readBody (fun _ _ => rfl)
      (fun docs head => (PropertyHead.read_eq kind docs head).2) body
  have hfirstParameters : firsts (fun a b : ListedParameter => a.name == b.name)
      (((readBody kind body).filterMap Contribution.parameter?).map Parameter.listed)
        = (parametersOf (readBody kind body)).map Parameter.listed := firsts_map _ _
  have hfirstEvents : firsts (fun a b : ListedEvent => a.name == b.name)
      (((readBody kind body).filterMap Contribution.event?).map Event.listed)
        = (eventsOf (readBody kind body)).map Event.listed := firsts_map _ _
  rw [ofContributions, ← hfirstParameters, ← hfirstEvents, List.map_filterMap, List.map_filterMap,
    hparameters, hevents]
  rfl

end Interface

namespace Declaration

/-- The parameters and events of a body are those that come out when its properties are gone through
in order: one that is marked as a parameter is listed, as an event when its type is an event
callback and as a parameter when it is not, unless its name is listed there already, and nothing
else is.  The parameters and events of a source's component are those of the first type that is
shown. -/
theorem properties_listed_iff (kind : TypeKind) (body : List WrittenItem)
    (h : ∀ p ∈ properties body, p.IsPlain) :
    (∀ lists, Interface.Run (properties body) .empty lists ↔
        lists = .ofContributions (readBody kind body)) ∧
      ∀ source ws includeInternal path d p, ConsistsOf source ws →
        ofClassFile? includeInternal path source = some d →
        (shownTypes includeInternal ws).head? = some p → p.item.body = body →
        Interface.Run (properties body) .empty
          ⟨d.component.parameters.map Parameter.listed, d.component.events.map Event.listed⟩ := by
  have hrun (kind : TypeKind) :
      Interface.Run (properties body) .empty (.ofContributions (readBody kind body)) := by
    rw [Interface.ofContributions_readBody]
    exact Interface.run_of_isPlain h .empty
  refine ⟨fun lists => ⟨fun hlists => hlists.unique (hrun kind), fun hlists => hlists ▸ hrun kind⟩, ?_⟩
  intro source ws includeInternal path d p hsource hd hp hbody
  obtain ⟨q, reference, hq, -, hparameters, hevents, -⟩ := exists_body_of_ofClassFile? hsource hd
  obtain rfl := Option.some.inj (hp.symm.trans hq)
  rw [hparameters, hevents, hbody]
  exact hrun _

/-- A public property with a list of one attribute and accessors without a body. -/
def attributed (a : WrittenAttribute) (type : WrittenType) (text : String)
    (hname : isCapitalised text = true)
    (hfits : (WrittenHeader.mk [] [wordToken " " "public"]).fits
      (type.trees ++ (dottedName [] (plainPart " " text hname)).name.trees ++
        (Ending.braces (brackets '{' " " " ") accessors).trees) = true)
    (hmember : typeKeyword? (type.trees ++ (dottedName [] (plainPart " " text hname)).name.trees ++
      (Ending.braces (brackets '{' " " " ") accessors).trees) = none)
    (hgoesOn : ∀ t ∈ type.trees ++ (dottedName [] (plainPart " " text hname)).name.trees,
      t.goesOn = true) : WrittenProperty where
  header := ⟨[attributeList " " a], [wordToken " " "public"]⟩
  type := type
  name := (dottedName [] (plainPart " " text hname)).name
  ending := .braces (brackets '{' " " " ") accessors
  fits := hfits
  isMember := hmember
  goesOn := hgoesOn
  isIdentifier := isIdentifier_of_isCapitalised hname
  hasBody := rfl

/-- A parameter whose attribute is qualified, with `gap` in front of the last word of its name. -/
def label (gap : String) : WrittenProperty :=
  attributed
    (writtenAttribute (dottedName [(plainPart "" "Components" (by decide), mark "" ".")]
      (plainPart gap "Parameter" (by decide))) none)
    (namedType (dottedName [] (plainPart " " "Title" (by decide))).name (by decide +kernel))
    "Label" (by decide) (by decide +kernel) (by decide +kernel) (by decide +kernel)

/-- An event with an argument. -/
def changed : WrittenProperty :=
  attributed
    (writtenAttribute (dottedName [] (plainPart "" "ParameterAttribute" (by decide))) none)
    (namedType (genericName (plainPart " " "EventCallback" (by decide))
      [.leaf (wordToken "" "Title")] (by decide +kernel)) (by decide +kernel))
    "Changed" (by decide) (by decide +kernel) (by decide +kernel) (by decide +kernel)

theorem properties_listed_label :
    (∀ p ∈ properties [.property (label ""), .property changed], p.IsPlain) ∧
      Interface.ofContributions (readBody .classType [.property (label ""), .property changed]) =
        ⟨[⟨"Label", "Title", false, false⟩], [⟨"Changed", some "Title"⟩]⟩ := by
  have hplain : ∀ p ∈ properties [.property (label ""), .property changed], p.IsPlain := by
    have hattributes : ∀ p ∈ [label "", changed], ∀ a ∈ p.header.attributes, a.isPlain = true := by
      decide +kernel
    have htypes : ∀ p ∈ [label "", changed],
        ∀ argument ∈ TypeName.callbackArgument? p.typeText, ∀ t ∈ argument, IsArgument t := by
      decide +kernel
    exact fun p hp => ⟨hattributes p hp, fun argument hspelled =>
      htypes p hp argument (callbackArgument?_collapse_iff.mpr hspelled)⟩
  have hlists : (⟨[⟨"Label", "Title", false, false⟩], [⟨"Changed", some "Title"⟩]⟩ : Interface) =
      (Interface.empty.addParameter (label "").asParameter).addEvent
        (changed.asEvent (some "Title".toList)) := by decide +kernel
  have hrun : Interface.Run (properties [.property (label ""), .property changed]) .empty
      ⟨[⟨"Label", "Title", false, false⟩], [⟨"Changed", some "Title"⟩]⟩ := by
    rw [hlists]
    exact .cons (.of_parameter (by decide +kernel) (by decide +kernel))
      (.cons (.of_event (by decide +kernel) (by decide +kernel) (by decide +kernel)) .nil)
  exact ⟨hplain, (((properties_listed_iff .classType _ hplain).1 _).mp hrun).symm⟩

/-- A class of which the only member is marked by an attribute with a blank in its name. -/
def labelClass : List WrittenItem :=
  [.type (plainHead [wordToken "" "public"] .classType " " "MudLabel" (by decide))
    (by decide +kernel) (by decide) (brackets '{' " " " ") [.property (label " ")] none]

def labelSource : String :=
  "public class MudLabel \x7b [Components. Parameter] public Title Label \x7b get; set; \x7d \x7d"

/-- A blank in front of the last word of an attribute's name hides the attribute. -/
theorem parameter_lost_behind_blank :
    ConsistsOf labelSource labelClass ∧
      Interface.Run (properties [.property (label " ")]) .empty
        ⟨[⟨"Label", "Title", false, false⟩], []⟩ ∧
      (ofClassFile? false "MudLabel.cs" labelSource).map
        (fun d => (d.component.parameters, d.component.events)) = some ([], []) := by
  have hlists : (⟨[⟨"Label", "Title", false, false⟩], []⟩ : Interface) =
      Interface.empty.addParameter (label " ").asParameter := by decide +kernel
  refine ⟨by decide +kernel, ?_, by decide +kernel⟩
  rw [hlists]
  exact .cons (.of_parameter (by decide +kernel) (by decide +kernel)) .nil

end Declaration
end ComponentAtlas
