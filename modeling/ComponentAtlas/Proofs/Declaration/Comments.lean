import ComponentAtlas.Proofs.CSharp.Gap

/-!
# What a comment can change of a declaration

Names, kinds, modifiers and documentation of a declaration do not depend on its plain comments.
The rest is read from texts of the source, and a comment inside such a text is read as a part of
it.  So the texts that a declaration is read from are listed here; a comment that leaves them as
they are leaves the declaration as it is.
-/

namespace ComponentAtlas

open CSharp

/-! ## The texts that are read -/

/-- The texts that the contribution of a member is read from. -/
def BodyMember.texts (kind : TypeKind) : BodyMember → List (List Char)
  | .property _ head => head.header.attributes ++ [head.type, head.afterAccessors.getD []]
  | .method _ head =>
    if !isVisibleMember kind head.header || plumbingMethods.contains (String.ofList head.name) then
      []
    else [head.returns, head.parameters]

/-- The text that the value of an enumeration's member is read from. -/
def CSharp.EnumMember.valueText (m : EnumMember) : List Char :=
  m.value.getD m.text

/-- The texts that a type is read from. -/
def DeclaredType.texts (t : DeclaredType) : List (List Char) :=
  t.head.base.getD [] :: (t.head.header.attributes ++
    ((bodyMembers t.members).flatMap (BodyMember.texts t.head.kind) ++
      t.values.map EnumMember.valueText))

mutual

def namespaceNamesIn : Item → List (List Char)
  | .namespaceBlock _ name body => name :: namespaceNames body
  | .fileNamespace _ name _ => [name]
  | .conditional _ body => namespaceNames body
  | _ => []

/-- The names of the namespaces around the types, as they are written. -/
def namespaceNames : List Item → List (List Char)
  | [] => []
  | item :: rest => namespaceNamesIn item ++ namespaceNames rest

end

/-- The texts that what a source contributes is read from. -/
def Declaration.texts (includeInternal : Bool) (items : List Item) : List (List Char) :=
  namespaceNames items ++
    ((declaredTypes [] [] items).filter fun t =>
      isVisibleType includeInternal t.head.header).flatMap DeclaredType.texts

variable {comment : List Char}

/-! ## Namespaces -/

mutual

theorem namespaceNamesIn_alike {i j : Item} (h : Item.Alike comment i j) :
    List.Forall₂ (Reread comment) (namespaceNamesIn i) (namespaceNamesIn j) := by
  match i, j, h with
  | .namespaceBlock _ _ _, .namespaceBlock _ _ _, .namespaceBlock _ hname hbody =>
      exact .cons hname (namespaceNames_alike hbody)
  | .fileNamespace _ _ _, .fileNamespace _ _ _, .fileNamespace _ hname => exact .cons hname .nil
  | .conditional _ _, .conditional _ _, .conditional _ hbody => exact namespaceNames_alike hbody
  | .type _ _ _, .type _ _ _, .type _ _ _ => exact .nil
  | .property _, .property _, .property _ => exact .nil
  | .method _, .method _, .method _ => exact .nil
  | .other _, .other _, .other _ => exact .nil
  | .skipped _, .skipped _, .skipped _ => exact .nil
termination_by structural i

theorem namespaceNames_alike {is js : List Item} (hs : AlikeItems comment is js) :
    List.Forall₂ (Reread comment) (namespaceNames is) (namespaceNames js) := by
  match is, js, hs with
  | [], [], .nil => exact .nil
  | _ :: _, _ :: _, .cons h hs =>
      exact List.rel_append (namespaceNamesIn_alike h) (namespaceNames_alike hs)
termination_by structural is

end

mutual

theorem fileNamespacesIn_congr {i j : Item} (h : Item.Alike comment i j)
    (hnames : namespaceNamesIn j = namespaceNamesIn i) :
    fileNamespacesIn j = fileNamespacesIn i := by
  match i, j, h with
  | .namespaceBlock _ _ _, .namespaceBlock _ _ _, .namespaceBlock _ hname hbody =>
      exact fileNamespaces_congr hbody (List.cons.inj hnames).2
  | .fileNamespace _ _ _, .fileNamespace _ _ _, .fileNamespace _ hname =>
      rw [fileNamespacesIn, (List.cons.inj hnames).1, fileNamespacesIn]
  | .conditional _ _, .conditional _ _, .conditional _ hbody =>
      exact fileNamespaces_congr hbody hnames
  | .type _ _ _, .type _ _ _, .type _ _ _ => rfl
  | .property _, .property _, .property _ => rfl
  | .method _, .method _, .method _ => rfl
  | .other _, .other _, .other _ => rfl
  | .skipped _, .skipped _, .skipped _ => rfl
termination_by structural i

theorem fileNamespaces_congr {is js : List Item} (hs : AlikeItems comment is js)
    (hnames : namespaceNames js = namespaceNames is) :
    fileNamespaces js = fileNamespaces is := by
  match is, js, hs with
  | [], [], .nil => rfl
  | _ :: _, _ :: _, .cons h hs =>
      obtain ⟨hfirst, hrest⟩ := List.append_inj hnames (namespaceNamesIn_alike h).length_eq.symm
      rw [fileNamespaces, fileNamespaces, fileNamespacesIn_congr h hfirst,
        fileNamespaces_congr hs hrest]
termination_by structural is

end

/-! ## Documentation and modifiers -/

theorem ofLeading_congr {leading leading' : List Lexeme}
    (h : leading'.filterMap Documentation.line? = leading.filterMap Documentation.line?) :
    Documentation.ofLeading leading' = Documentation.ofLeading leading := by
  unfold Documentation.ofLeading
  rw [h]

theorem CSharp.Header.Alike.hasModifier_eq {h k : Header} (hk : Header.Alike comment h k)
    (word : String) : k.hasModifier word = h.hasModifier word := by
  rw [Header.hasModifier, hk.modifiers, Header.hasModifier]

theorem CSharp.Header.Alike.isVisibleMember_eq {h k : Header} (hk : Header.Alike comment h k)
    (kind : TypeKind) : isVisibleMember kind k = isVisibleMember kind h := by
  rw [isVisibleMember, hk.hasModifier_eq, hk.hasModifier_eq, isVisibleMember]

theorem CSharp.Header.Alike.isVisibleType_eq {h k : Header} (hk : Header.Alike comment h k)
    (includeInternal : Bool) :
    isVisibleType includeInternal k = isVisibleType includeInternal h := by
  rw [isVisibleType, hk.hasModifier_eq, hk.hasModifier_eq, isVisibleType]

/-! ## Members -/

theorem withComments_alike {passed passed' : List Lexeme} {is js : List Item}
    (hpassed : passed'.filterMap Documentation.line? = passed.filterMap Documentation.line?)
    (hs : AlikeItems comment is js) :
    List.Forall₂ (fun x y => y.1.filterMap Documentation.line? = x.1.filterMap Documentation.line? ∧
        Item.Alike comment x.2 y.2)
      (Item.withComments passed is) (Item.withComments passed' js) := by
  induction hs generalizing passed passed' with
  | nil => exact .nil
  | @cons i j _ _ h _ ih =>
      have hhere : (passed' ++ j.leading).filterMap Documentation.line? =
          (passed ++ i.leading).filterMap Documentation.line? := by
        rw [List.filterMap_append, List.filterMap_append, hpassed, h.leading.documentation]
      cases h with
      | conditional hl hbody => exact .cons ⟨hhere, .conditional hl hbody⟩ (ih hhere)
      | namespaceBlock hl hname hbody =>
          exact .cons ⟨hhere, .namespaceBlock hl hname hbody⟩ (ih rfl)
      | fileNamespace hl hname => exact .cons ⟨hhere, .fileNamespace hl hname⟩ (ih rfl)
      | type hh hbody hv => exact .cons ⟨hhere, .type hh hbody hv⟩ (ih rfl)
      | property hh => exact .cons ⟨hhere, .property hh⟩ (ih rfl)
      | method hh => exact .cons ⟨hhere, .method hh⟩ (ih rfl)
      | other hl => exact .cons ⟨hhere, .other hl⟩ (ih rfl)
      | skipped hl => exact .cons ⟨hhere, .skipped hl⟩ (ih rfl)

/-- A member that is looked at before and after. -/
inductive BodyMember.Alike (comment : List Char) : BodyMember → BodyMember → Prop
  | property {docs : Documentation} {h k : PropertyHead} (heads : PropertyHead.Alike comment h k) :
      Alike comment (.property docs h) (.property docs k)
  | method {docs : Documentation} {h k : MethodHead} (heads : MethodHead.Alike comment h k) :
      Alike comment (.method docs h) (.method docs k)

theorem bodyMembers_alike {is js : List Item} (hs : AlikeItems comment is js) :
    List.Forall₂ (BodyMember.Alike comment) (bodyMembers is) (bodyMembers js) := by
  unfold bodyMembers
  refine List.rel_filterMap (fun x y h => ?_) (withComments_alike rfl hs)
  obtain ⟨hdocs, h⟩ := h
  obtain ⟨leading, item⟩ := x
  obtain ⟨leading', item'⟩ := y
  have hdocs := ofLeading_congr hdocs
  cases h with
  | property hh => simp only [hdocs]; exact .some (.property hh)
  | method hh => simp only [hdocs]; exact .some (.method hh)
  | namespaceBlock _ _ _ => exact .none
  | fileNamespace _ _ => exact .none
  | type _ _ _ => exact .none
  | conditional _ _ => exact .none
  | other _ => exact .none
  | skipped _ => exact .none

namespace BodyMember.Alike

variable {kind : TypeKind} {m n : BodyMember}

theorem texts (kind : TypeKind) (h : BodyMember.Alike comment m n) :
    List.Forall₂ (Reread comment) (m.texts kind) (n.texts kind) := by
  cases h with
  | property hh =>
      refine List.rel_append hh.header.attributes (.cons hh.type (.cons ?_ .nil))
      have hbehind := hh.afterAccessors
      revert hbehind
      generalize PropertyHead.afterAccessors _ = x, PropertyHead.afterAccessors _ = y
      rintro (hbehind | _)
      · exact hbehind
      · exact .refl _
  | method hh =>
      rw [BodyMember.texts, BodyMember.texts, hh.header.isVisibleMember_eq, hh.name]
      split
      · exact .nil
      · exact .cons hh.returns (.cons hh.parameters .nil)

/-- A member contributes what it contributed when the texts that are read are the same. -/
theorem contribution_eq (h : BodyMember.Alike comment m n) (htexts : n.texts kind = m.texts kind) :
    Contribution.ofBodyMember? kind n = Contribution.ofBodyMember? kind m := by
  cases h with
  | @property docs h k hh =>
      obtain ⟨hattributes, hrest⟩ := List.append_inj htexts hh.header.attributes.length_eq.symm
      obtain ⟨htype, hrest⟩ := List.cons.inj hrest
      have hbehind : k.afterAccessors.bind initialiser? = h.afterAccessors.bind initialiser? := by
        have hgetD := (List.cons.inj hrest).1
        have hrel := hh.afterAccessors
        generalize h.afterAccessors = x, k.afterAccessors = y at hgetD hrel ⊢
        cases hrel with
        | some _ => exact congrArg initialiser? hgetD
        | none => rfl
      simp only [Contribution.ofBodyMember?, Contribution.ofProperty, Header.attributeList,
        hattributes, htype, hbehind, hh.name, hh.header.isVisibleMember_eq]
  | method hh =>
      rw [BodyMember.texts, BodyMember.texts, hh.header.isVisibleMember_eq, hh.name] at htexts
      simp only [Contribution.ofBodyMember?, Contribution.ofMethod?, hh.header.isVisibleMember_eq,
        hh.name]
      split
      · rfl
      · rename_i hshown
        rw [if_neg hshown, if_neg hshown] at htexts
        obtain ⟨hreturns, hrest⟩ := List.cons.inj htexts
        rw [hreturns, (List.cons.inj hrest).1]

end BodyMember.Alike

/-! ## Types -/

/-- A type before and after.  It stands in the same namespaces when `named`. -/
structure DeclaredType.Alike (named : Prop) (comment : List Char) (t u : DeclaredType) : Prop where
  namespaces : named → u.namespaces = t.namespaces
  documentation : u.documentation = t.documentation
  head : TypeHead.Alike comment t.head u.head
  members : AlikeItems comment t.members u.members
  values : List.Forall₂ (EnumMember.Alike comment) t.values u.values

variable {named : Prop}

mutual

theorem declaredIn_alike {ns ns' : List String} {leading leading' : List Lexeme} {i j : Item}
    (h : Item.Alike comment i j) (hns : named → ns' = ns)
    (hnames : named → namespaceNamesIn j = namespaceNamesIn i)
    (hleading : leading'.filterMap Documentation.line? = leading.filterMap Documentation.line?) :
    List.Forall₂ (DeclaredType.Alike named comment) (declaredIn ns leading i)
      (declaredIn ns' leading' j) := by
  match i, j, h with
  | .namespaceBlock _ _ _, .namespaceBlock _ _ _, .namespaceBlock _ _ hbody =>
      rw [declaredIn, declaredIn]
      refine declaredTypes_alike hbody (fun hn => ?_) (fun hn => (List.cons.inj (hnames hn)).2) rfl
      rw [hns hn, (List.cons.inj (hnames hn)).1]
  | .conditional _ _, .conditional _ _, .conditional _ hbody =>
      exact declaredTypes_alike hbody hns hnames rfl
  | .type _ _ _, .type _ _ _, .type hhead hbody hvalues =>
      exact .cons ⟨hns, ofLeading_congr hleading, hhead, hbody, hvalues⟩ .nil
  | .fileNamespace _ _ _, .fileNamespace _ _ _, .fileNamespace _ _ => exact .nil
  | .property _, .property _, .property _ => exact .nil
  | .method _, .method _, .method _ => exact .nil
  | .other _, .other _, .other _ => exact .nil
  | .skipped _, .skipped _, .skipped _ => exact .nil
termination_by structural i

theorem declaredTypes_alike {ns ns' : List String} {passed passed' : List Lexeme}
    {is js : List Item} (hs : AlikeItems comment is js) (hns : named → ns' = ns)
    (hnames : named → namespaceNames js = namespaceNames is)
    (hpassed : passed'.filterMap Documentation.line? = passed.filterMap Documentation.line?) :
    List.Forall₂ (DeclaredType.Alike named comment) (declaredTypes ns passed is)
      (declaredTypes ns' passed' js) := by
  match is, js, hs with
  | [], [], .nil => exact .nil
  | i :: is, j :: js, .cons h hs =>
      have hhere : (passed' ++ j.leading).filterMap Documentation.line? =
          (passed ++ i.leading).filterMap Documentation.line? := by
        rw [List.filterMap_append, List.filterMap_append, hpassed, h.leading.documentation]
      have hsplit (hn : named) :=
        List.append_inj (hnames hn) (namespaceNamesIn_alike h).length_eq.symm
      unfold declaredTypes
      refine List.rel_append (declaredIn_alike h hns (fun hn => (hsplit hn).1) hhere)
        (declaredTypes_alike hs hns (fun hn => (hsplit hn).2) ?_)
      cases h with
      | conditional _ _ => exact hhere
      | namespaceBlock _ _ _ => rfl
      | fileNamespace _ _ => rfl
      | type _ _ _ => rfl
      | property _ => rfl
      | method _ => rfl
      | other _ => rfl
      | skipped _ => rfl
termination_by structural is

end

/-- Lists alike entry by entry, when what is listed for all of them together is the same. -/
theorem forall₂_of_flatMap_eq {α β : Type} {R : α → α → Prop} {f : α → List β} {xs ys : List α}
    (h : List.Forall₂ R xs ys) (hlength : ∀ x y, R x y → (f y).length = (f x).length)
    (heq : ys.flatMap f = xs.flatMap f) : List.Forall₂ (fun x y => R x y ∧ f y = f x) xs ys := by
  induction h with
  | nil => exact .nil
  | cons h _ ih =>
      obtain ⟨hfirst, hrest⟩ := List.append_inj heq (hlength _ _ h)
      exact .cons ⟨h, hfirst⟩ (ih hrest)

namespace CSharp.EnumMember.Alike

variable {m n : EnumMember}

theorem valueText (h : EnumMember.Alike comment m n) :
    Reread comment m.valueText n.valueText := by
  have hvalue := h.value
  unfold EnumMember.valueText
  revert hvalue
  generalize m.value = x, n.value = y
  rintro (hvalue | _)
  · exact hvalue
  · exact h.text

theorem ofMember_eq (h : EnumMember.Alike comment m n) (htext : n.valueText = m.valueText) :
    EnumValue.ofMember n = EnumValue.ofMember m := by
  have hvalue := h.value
  unfold EnumMember.valueText at htext
  rw [EnumValue.ofMember, h.name, ofLeading_congr h.leading.documentation, EnumValue.ofMember]
  generalize m.value = x, n.value = y at htext hvalue ⊢
  cases hvalue with
  | some _ =>
      obtain rfl := htext
      rfl
  | none =>
      rw [Option.getD_none, Option.getD_none] at htext
      rw [htext]

end CSharp.EnumMember.Alike

/-- Members contribute what they contributed when the texts that are read are the same. -/
theorem contributions_congr {kind : TypeKind} {is js : List Item}
    (hs : AlikeItems comment is js)
    (htexts : (bodyMembers js).flatMap (BodyMember.texts kind) =
      (bodyMembers is).flatMap (BodyMember.texts kind)) :
    contributions kind js = contributions kind is := by
  have hsame := forall₂_of_flatMap_eq (bodyMembers_alike hs)
    (fun _ _ hm => (hm.texts kind).length_eq.symm) htexts
  have hread : (bodyMembers js).filterMap (Contribution.ofBodyMember? kind) =
      (bodyMembers is).filterMap (Contribution.ofBodyMember? kind) := by
    generalize bodyMembers is = old, bodyMembers js = new at hsame
    induction hsame with
    | nil => rfl
    | cons h _ ih => rw [List.filterMap_cons, List.filterMap_cons, h.1.contribution_eq h.2, ih]
  rw [contributions, hread, contributions]

theorem enumValues_congr {ms ns : List EnumMember}
    (hs : List.Forall₂ (EnumMember.Alike comment) ms ns)
    (htexts : ns.map EnumMember.valueText = ms.map EnumMember.valueText) :
    enumValues ns = enumValues ms := by
  have hread : ns.map EnumValue.ofMember = ms.map EnumValue.ofMember := by
    induction hs with
    | nil => rfl
    | cons h _ ih =>
        obtain ⟨hfirst, hrest⟩ := List.cons.inj htexts
        rw [List.map_cons, List.map_cons, h.ofMember_eq hfirst, ih hrest]
  rw [enumValues, hread, enumValues]

/-- No base and an empty one come to the same. -/
theorem baseType?_getD (kind : TypeKind) (base : Option (List Char)) :
    baseType? kind (some (base.getD [])) = baseType? kind base := by
  cases base with
  | some _ => rfl
  | none => cases kind <;> rfl

namespace DeclaredType.Alike

variable {t u : DeclaredType}

theorem texts (h : DeclaredType.Alike named comment t u) :
    List.Forall₂ (Reread comment) t.texts u.texts := by
  refine .cons h.head.base (List.rel_append h.head.header.attributes (List.rel_append ?_ ?_))
  · rw [h.head.kind]
    exact List.rel_flatMap (bodyMembers_alike h.members) fun _ _ hm => hm.texts t.head.kind
  · exact List.rel_map (fun _ _ hv => hv.valueText) h.values

/-- What a type is read from besides its name, its modifiers and its comments. -/
theorem parts_eq (h : DeclaredType.Alike named comment t u) (htexts : u.texts = t.texts) :
    (∀ kind, baseType? kind u.head.base = baseType? kind t.head.base) ∧
      u.head.header.attributes = t.head.header.attributes ∧
      contributions t.head.kind u.members = contributions t.head.kind t.members ∧
      enumValues u.values = enumValues t.values := by
  obtain ⟨hbase, hrest⟩ := List.cons.inj htexts
  obtain ⟨hattributes, hrest⟩ := List.append_inj hrest h.head.header.attributes.length_eq.symm
  rw [h.head.kind] at hrest
  have hmembers := List.rel_flatMap (bodyMembers_alike h.members)
    fun _ _ hm => hm.texts t.head.kind
  obtain ⟨hmembers, hvalues⟩ := List.append_inj hrest hmembers.length_eq.symm
  refine ⟨fun kind => ?_, hattributes, contributions_congr h.members hmembers,
    enumValues_congr h.values hvalues⟩
  rw [← baseType?_getD, hbase, baseType?_getD]

theorem reference_eq (h : DeclaredType.Alike True comment t u) (htexts : u.texts = t.texts)
    (path : String) (file : Option String) : u.reference path file = t.reference path file := by
  obtain ⟨hbase, -, hmembers, hvalues⟩ := h.parts_eq htexts
  simp only [DeclaredType.reference, h.head.name, h.head.kind, h.namespaces trivial,
    h.documentation, hbase, hmembers, hvalues]

theorem component_eq (h : DeclaredType.Alike True comment t u) (htexts : u.texts = t.texts)
    (path : String) (file : Option String) : u.component path file = t.component path file := by
  obtain ⟨hbase, hattributes, hmembers, -⟩ := h.parts_eq htexts
  simp only [DeclaredType.component, h.head.name, h.head.kind, h.namespaces trivial,
    h.documentation, hbase, hmembers, Header.attributeList, hattributes,
    h.head.header.hasModifier_eq]

end DeclaredType.Alike

theorem references_congr {old new : List DeclaredType}
    (hs : List.Forall₂ (fun t u => DeclaredType.Alike True comment t u ∧ u.texts = t.texts) old new)
    (path : String) (file : Option String) :
    new.map (DeclaredType.reference path file) = old.map (DeclaredType.reference path file) := by
  induction hs with
  | nil => rfl
  | cons h _ ih => rw [List.map_cons, List.map_cons, h.1.reference_eq h.2, ih]

/-! ## Declarations -/

section

variable {includeInternal : Bool} {is js : List Item}

theorem visibleTypes_alike (named : Prop) (includeInternal : Bool)
    (hs : AlikeItems comment is js) (hnames : named → namespaceNames js = namespaceNames is) :
    List.Forall₂ (DeclaredType.Alike named comment)
      ((declaredTypes [] [] is).filter fun t => isVisibleType includeInternal t.head.header)
      ((declaredTypes [] [] js).filter fun t => isVisibleType includeInternal t.head.header) :=
  List.rel_filter (fun t u h => by simp only [h.head.header.isVisibleType_eq])
    (declaredTypes_alike hs (fun _ => rfl) hnames rfl)

/-- The texts correspond to each other one by one. -/
theorem texts_alike (hs : AlikeItems comment is js) :
    List.Forall₂ (Reread comment) (Declaration.texts includeInternal is)
      (Declaration.texts includeInternal js) :=
  List.rel_append (namespaceNames_alike hs)
    (List.rel_flatMap (visibleTypes_alike False includeInternal hs False.elim) fun _ _ h => h.texts)

/-- When they are all the same, so is the declaration. -/
theorem ofItems?_congr (hs : AlikeItems comment is js)
    (htexts : Declaration.texts includeInternal js = Declaration.texts includeInternal is)
    (path : String) :
    Declaration.ofItems? includeInternal path js =
      Declaration.ofItems? includeInternal path is := by
  obtain ⟨hnames, hrest⟩ := List.append_inj htexts (namespaceNames_alike hs).length_eq.symm
  have hvisible := forall₂_of_flatMap_eq
    (visibleTypes_alike True includeInternal hs fun _ => hnames)
    (fun _ _ h => h.texts.length_eq.symm) hrest
  unfold Declaration.ofItems?
  rw [fileNamespaces_congr hs hnames]
  simp only
  generalize List.filter _ (declaredTypes [] [] is) = old,
    List.filter _ (declaredTypes [] [] js) = new at hvisible
  cases hvisible with
  | nil => rfl
  | cons h hrest =>
      simp only [List.head?_cons, Option.map_some, h.1.head.kind, h.1.head.header.hasModifier_eq,
        h.1.component_eq h.2, references_congr (.cons h hrest)]

end

/-- What of a declaration is read from its words and its documentation alone. -/
def Declaration.outline (d : Declaration) :
    TypeKind × Bool × List (String × TypeKind × Option String) :=
  (d.kind, d.isStatic, d.types.map fun t => (t.name, t.kind, t.summary))

theorem ofItems?_outline {is js : List Item} (hs : AlikeItems comment is js)
    (includeInternal : Bool) (path : String) :
    (Declaration.ofItems? includeInternal path js).map Declaration.outline =
      (Declaration.ofItems? includeInternal path is).map Declaration.outline := by
  have hvisible := visibleTypes_alike False includeInternal hs False.elim
  unfold Declaration.ofItems?
  simp only [Option.map_map]
  generalize List.filter _ (declaredTypes [] [] is) = old,
    List.filter _ (declaredTypes [] [] js) = new at hvisible
  have htypes (file file' : Option String) :
      (new.map (·.reference path file')).map (fun t => (t.name, t.kind, t.summary)) =
        (old.map (·.reference path file)).map fun t => (t.name, t.kind, t.summary) := by
    induction hvisible with
    | nil => rfl
    | cons h _ ih =>
        simp only [List.map_cons]
        rw [ih]
        simp only [DeclaredType.reference, h.head.name, h.head.kind, h.documentation]
  cases hvisible with
  | nil => rfl
  | cons h _ =>
      simp only [List.head?_cons, Option.map_some, Function.comp_apply, Declaration.outline,
        htypes (fileNamespaces is).getLast?, h.head.kind, h.head.header.hasModifier_eq]

/-- A plain comment between two lexemes is seen only where it stands in a text that is read.  Type
names, kinds and documentation stay as they are.  The texts before and after correspond to each
other, and one that has changed holds the comment; if none has, the source declares what it
declared. -/
theorem Declaration.comment_seen_in_texts (g : Gap) {comment ending : List Char}
    (h : IsPlainComment comment ending) (includeInternal : Bool) (path : String) :
    let old := String.ofList g.source
    let new := String.ofList (g.withComment comment ending)
    (ofClassFile? includeInternal path new).map outline =
        (ofClassFile? includeInternal path old).map outline ∧
      List.Forall₂ (Reread comment) (texts includeInternal (parse old))
        (texts includeInternal (parse new)) ∧
      (texts includeInternal (parse new) = texts includeInternal (parse old) →
        ofClassFile? includeInternal path new = ofClassFile? includeInternal path old) := by
  intro old new
  have hitems : AlikeItems comment (parse old) (parse new) := by
    rw [parse_ofList, parse_ofList]
    exact items_alike (trees_alike (g.tokens_alike h))
  exact ⟨ofItems?_outline hitems includeInternal path, texts_alike hitems,
    fun htexts => ofItems?_congr hitems htexts path⟩

/-! ## A comment that is seen, and one that is not -/

theorem isSpace_of_mem_blank : ∀ c ∈ [' '], isSpace c = true := by simp [isSpace]

/-- The place behind the colon of a base list. -/
def baseGap : Gap where
  before := lexemes "public class MudA :".toList
  left := []
  right := [' ']
  next := ⟨.word, "MudB".toList⟩
  after := lexemes " \x7b\x7d".toList
  blank := isSpace_of_mem_blank
  lexed := by decide +kernel
  tight := by decide
  clean := by decide +kernel
  closed := by decide +kernel
  free := by decide +kernel

/-- A place within an accessor list. -/
def accessorGap : Gap where
  before := lexemes "public class MudA \x7b public int Size \x7b get;".toList
  left := [' ']
  right := []
  next := ⟨.word, "set".toList⟩
  after := lexemes "; \x7d = 1; \x7d".toList
  blank := isSpace_of_mem_blank
  lexed := by decide +kernel
  tight := by decide
  clean := by decide +kernel
  closed := by decide +kernel
  free := by decide +kernel

theorem isPlainComment_block : IsPlainComment "/* c */".toList [] :=
  @IsPlainComment.block " c ".toList (by decide)

theorem isPlainComment_line : IsPlainComment "// c".toList ['\n'] :=
  @IsPlainComment.line " c".toList ['\n'] (by simp) (by decide) (Or.inl rfl)

theorem Declaration.comment_taken_for_base :
    IsPlainComment "/* c */".toList [] ∧
      (ofClassFile? false "MudA.cs" (String.ofList baseGap.source)).bind
        (·.component.baseType) = some "MudB" ∧
      (ofClassFile? false "MudA.cs" (String.ofList (baseGap.withComment "/* c */".toList []))).bind
        (·.component.baseType) = some "/* c */" := by
  simp only [ofClassFile?, parse_ofList]
  exact ⟨isPlainComment_block, by decide +kernel, by decide +kernel⟩

theorem Declaration.comment_seen_in_texts_accessor :
    let old := String.ofList accessorGap.source
    let new := String.ofList (accessorGap.withComment "// c".toList ['\n'])
    IsPlainComment "// c".toList ['\n'] ∧
      texts false (parse new) = texts false (parse old) ∧
      ofClassFile? false "MudA.cs" new = ofClassFile? false "MudA.cs" old := by
  intro old new
  have htexts : texts false (parse new) = texts false (parse old) := by
    rw [parse_ofList, parse_ofList]
    decide +kernel
  have hseen := comment_seen_in_texts accessorGap isPlainComment_line false "MudA.cs"
  exact ⟨isPlainComment_line, htexts, hseen.2.2 htexts⟩

end ComponentAtlas
