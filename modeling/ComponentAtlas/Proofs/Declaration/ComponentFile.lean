import ComponentAtlas.Proofs.Declaration.Comments
import ComponentAtlas.Proofs.Razor.ComponentSource
import ComponentAtlas.Proofs.Razor.Dedent

/-!
# A component file and its class

A component file is read as a class of its own making: the values of its directives in front, and
the dedented body of its code block between braces.  Written out by hand, the class has the same
lexemes with other blanks between them, as long as no lexeme goes on over a line end
(`ComponentFile.tokens_alike`).  So both are read alike, but for texts that hold a line feed.
-/

namespace ComponentAtlas

open Text CSharp Razor

/-! ## Class sources -/

/-- The line of a class source that names its namespace. -/
def namespaceLine (ns : List Char) : List Char :=
  ("namespace".toList ++ ' ' :: ns) ++ [';']

/-- The line of a class source that names the class and its base. -/
def classLine (name base : List Char) : List Char :=
  "public partial class".toList ++ ' ' :: (name ++ ' ' :: (":".toList ++ ' ' :: base))

/-- A class in a namespace and with a base. -/
def classSource (ns name base body : List Char) : List Char :=
  namespaceLine ns ++ ' ' :: (classLine name base ++ ' ' :: '\x7b' :: (body ++ ['}']))

theorem isPhrase_namespaceLine {ns : List Char} (h : IsPhrase ns) :
    IsPhrase (namespaceLine ns) := by
  have hword : IsPhrase "namespace".toList := by decide +kernel
  exact (hword.space h).semicolon

theorem isPhrase_classLine {name base : List Char} (hname : IsPhrase name) (hbase : IsPhrase base) :
    IsPhrase (classLine name base) := by
  have hwords : IsPhrase "public partial class".toList := by decide +kernel
  have hcolon : IsPhrase ":".toList := by decide +kernel
  exact hwords.space (hname.space (hcolon.space hbase))

theorem lexemes_openBrace (rest : List Char) :
    lexemes ('\x7b' :: rest) = ⟨.mark, ['\x7b']⟩ :: lexemes rest := by
  have hword : ¬ startsWord '\x7b' = true := by decide
  have hdigit : ¬ Unicode.isDecimalDigit '\x7b' = true := by decide
  have hmeasure : measure '\x7b' ([] ++ rest) = (.mark, 1) := by
    rw [measure_plain (by decide), if_neg (by decide), if_neg hword, if_neg hdigit,
      if_neg (by simp [doubleMarks])]
    rfl
  exact lexemes_cons hmeasure rfl

/-- Two phrases, a brace, and the same blank in front of what follows the first. -/
theorem lexemes_head {a b : List Char} {g : Char} (ha : IsPhrase a) (hb : IsPhrase b)
    (hg : isSpace g = true) (rest : List Char) :
    lexemes (a ++ g :: (b ++ g :: '\x7b' :: rest)) =
      codeLexemes a ++ (blankLexemes [g] ++ (codeLexemes b ++ (blankLexemes [g] ++
        ⟨.mark, ['\x7b']⟩ :: lexemes rest))) := by
  have hmark : g ≠ '/' ∧ g ≠ '*' := by constructor <;> rintro rfl <;> cases hg
  have hblank : ∀ c ∈ [g], isSpace c = true := by simpa using hg
  have hbrace : ∀ c ∈ ('\x7b' :: rest).head?, isSpace c = false := by
    intro c hc
    obtain rfl := Option.some.inj hc
    rfl
  rw [ha.lexemes_append (isCut_of_isSpace hg) hmark, ← List.singleton_append,
    lexemes_blanks hblank (hb.isSpace_head_append _),
    hb.lexemes_append (isCut_of_isSpace hg) hmark, ← @List.singleton_append _ g ('\x7b' :: rest),
    lexemes_blanks hblank hbrace, lexemes_openBrace]

/-! ## The same tokens -/

/-- The lexemes of a body and of the same body dedented, between line feeds. -/
theorem tokensFrom_body {body : List Char} (h : IsTidy body) {waiting waiting' : List Lexeme}
    (hwaiting : AlikeLeading ['\n'] waiting waiting') :
    List.Forall₂ (Token.Alike ['\n']) (tokensFrom waiting (lexemes (body ++ ['}'])))
      (tokensFrom waiting' (lexemes ('\n' :: (dedent body ++ ['\n', '}', '\n'])))) := by
  obtain ⟨ls, htext, hrelaid⟩ := exists_relaid_dedent h
  have hlexed : lexemes (ls.flatMap (·.text) ++ ['\n']) = ls ++ [⟨.space, ['\n']⟩] :=
    @lexemes_relaid _ _ [] hrelaid (by rw [List.nil_append, flatMap_text_lexemes]) (by simp) h.tidy
      h.closed h.ends
  have hsource : '\n' :: (dedent body ++ ['\n', '}', '\n']) = ls.flatMap (·.text) ++ ['\n'] := by
    rw [← htext]
    simp
  rw [hsource, hlexed]
  exact tokensFrom_relaid hrelaid hwaiting

/-- A class on one line, and the same class laid out with its body dedented. -/
theorem tokens_laid_out {a b body : List Char} (ha : IsPhrase a) (hb : IsPhrase b)
    (hbody : IsTidy body) :
    List.Forall₂ (Token.Alike ['\n'])
      (tokens (a ++ ' ' :: (b ++ ' ' :: '\x7b' :: (body ++ ['}']))))
      (tokens (a ++ '\n' :: (b ++ '\n' :: '\x7b' ::
        ('\n' :: (dedent body ++ ['\n', '}', '\n']))))) := by
  unfold tokens
  rw [lexemes_head ha hb rfl, lexemes_head ha hb rfl]
  refine tokensFrom_append_alike (fun _ _ => tokensFrom_gap (.feed [' ']) fun _ _ => ?_) (.refl [])
  refine tokensFrom_append_alike fun _ _ => tokensFrom_gap (.feed [' ']) fun _ _ => ?_
  exact @tokensFrom_append_alike _ [_] _ _ _ _ fun _ _ => tokensFrom_body hbody

/-! ## Component files -/

/-- A component file that names its namespace and its base and has a code block, and of which
nothing goes on over a line end.  No line of the block looks like a directive, and its braces
balance outside double quotes. -/
structure ComponentFile where
  path : String
  name : List Char
  ns : List Char
  base : List Char
  body : List Char
  ending : endsWith ".razor".toList path.toList = true
  named : componentClass? path = some name
  nameLexed : IsPhrase name
  nsLexed : IsPhrase ns
  nsValue : IsDirectiveValue ns
  baseLexed : IsPhrase base
  baseValue : IsDirectiveValue base
  bodyLexed : IsTidy body
  balanced : body.foldlM BlockPlace.next? (.code 0) = some (.code 0)
  noDirective : hasClassDirective body = false

namespace ComponentFile

variable (f : ComponentFile)

def source : List Char :=
  componentSource f.ns f.base f.body

/-- The class written out by hand. -/
def asClass : List Char :=
  classSource f.ns f.name f.base f.body

/-- The class that the file is read as. -/
def standIn : List Char :=
  standInClass f.name f.source

theorem standIn_eq : f.standIn = namespaceLine f.ns ++ '\n' :: (classLine f.name f.base ++ '\n' ::
    '\x7b' :: ('\n' :: (dedent f.body ++ ['\n', '}', '\n']))) := by
  refine (standInClass_componentSource f.nsValue f.baseValue f.noDirective f.balanced).trans ?_
  have hwords : "namespace ".toList = "namespace".toList ++ [' '] ∧
      "public partial class ".toList = "public partial class".toList ++ [' '] ∧
      " : ".toList = ' ' :: (":".toList ++ [' ']) := by decide
  have hmarks : ";\n".toList = [';', '\n'] ∧ "\n\x7b\n".toList = ['\n', '\x7b', '\n'] ∧
      "\x7d\n".toList = ['}', '\n'] := by decide
  rw [hwords.1, hwords.2.1, hwords.2.2, hmarks.1, hmarks.2.1, hmarks.2.2]
  unfold namespaceLine classLine
  generalize "namespace".toList = word, "public partial class".toList = words, ":".toList = colon
  simp only [List.append_assoc, List.cons_append, List.nil_append]

theorem tokens_alike :
    List.Forall₂ (Token.Alike ['\n']) (tokens f.asClass) (tokens f.standIn) := by
  rw [f.standIn_eq]
  exact tokens_laid_out (isPhrase_namespaceLine f.nsLexed)
    (isPhrase_classLine f.nameLexed f.baseLexed) f.bodyLexed

theorem ofFile?_eq (includeInternal : Bool) :
    Declaration.ofFile? includeInternal f.path (String.ofList f.source) =
      Declaration.ofClassFile? includeInternal f.path (String.ofList f.standIn) := by
  rw [Declaration.ofFile?, if_pos f.ending, Declaration.ofComponentFile?, f.named, Option.bind_some,
    String.toList_ofList, standIn]

end ComponentFile

/-- A component file is read as the class that it stands for, but for texts that go over a line end.
Type names, kinds and documentation are the same.  The texts correspond to each other, and one that
is another holds a line feed; if none does, the file declares what the class declares. -/
theorem Declaration.component_read_as_class (f : ComponentFile) (includeInternal : Bool) :
    (ofFile? includeInternal f.path (String.ofList f.source)).map outline =
        (ofClassFile? includeInternal f.path (String.ofList f.asClass)).map outline ∧
      List.Forall₂ (Reread ['\n']) (texts includeInternal (parse (String.ofList f.asClass)))
        (texts includeInternal (parse (String.ofList f.standIn))) ∧
      ((∀ text ∈ texts includeInternal (parse (String.ofList f.standIn)), '\n' ∉ text) →
        ofFile? includeInternal f.path (String.ofList f.source) =
          ofClassFile? includeInternal f.path (String.ofList f.asClass)) := by
  have hitems : AlikeItems ['\n'] (parse (String.ofList f.asClass))
      (parse (String.ofList f.standIn)) := by
    rw [parse_ofList, parse_ofList]
    exact items_alike (trees_alike f.tokens_alike)
  have htexts : List.Forall₂ (Reread ['\n'])
      (texts includeInternal (parse (String.ofList f.asClass)))
      (texts includeInternal (parse (String.ofList f.standIn))) := texts_alike hitems
  rw [f.ofFile?_eq]
  refine ⟨ofItems?_outline hitems includeInternal f.path, htexts, fun hlines => ?_⟩
  refine ofItems?_congr hitems (eq_of_reread htexts fun text htext hfeed => ?_) f.path
  exact hlines text htext (hfeed.subset List.mem_cons_self)

/-! ## A body that is read alike, and one that is not -/

/-- A component with one parameter on two lines. -/
def buttonFile : ComponentFile where
  path := "MudA.razor"
  name := "MudA".toList
  ns := "MudBlazor".toList
  base := "MudB".toList
  body := "\n    public int Size\n        \x7b get; \x7d = 1; // px\n".toList
  ending := by decide +kernel
  named := by decide +kernel
  nameLexed := by decide +kernel
  nsLexed := by decide +kernel
  nsValue := by decide +kernel
  baseLexed := by decide +kernel
  baseValue := by decide +kernel
  bodyLexed := by decide +kernel
  balanced := by decide +kernel
  noDirective := by decide +kernel

theorem Declaration.component_read_as_class_button :
    (∀ text ∈ texts false (parse (String.ofList buttonFile.standIn)), '\n' ∉ text) ∧
      ofFile? false buttonFile.path (String.ofList buttonFile.source) =
        ofClassFile? false buttonFile.path (String.ofList buttonFile.asClass) := by
  have hlines : ∀ text ∈ texts false (parse (String.ofList buttonFile.standIn)), '\n' ∉ text := by
    rw [buttonFile.standIn_eq, parse_ofList]
    decide +kernel
  exact ⟨hlines, (component_read_as_class buttonFile false).2.2 hlines⟩

/-- A literal on two lines, the second deeper than the code. -/
def literalBody : List Char :=
  "\n    [Parameter] public string Text \x7b get; \x7d = @\"a\n        b\";\n".toList

theorem Declaration.literal_dedented :
    literalBody.foldlM BlockPlace.next? (.code 0) = some (.code 0) ∧
      (ofFile? false "MudA.razor"
          (String.ofList (componentSource "MudBlazor".toList "MudB".toList literalBody))).map
        (fun d => d.component.parameters.map (·.defaultValue)) =
          some [some "@\"a\n    b\""] ∧
      (ofClassFile? false "MudA.razor"
          (String.ofList
            (classSource "MudBlazor".toList "MudA".toList "MudB".toList literalBody))).map
        (fun d => d.component.parameters.map (·.defaultValue)) =
          some [some "@\"a\n        b\""] := by
  simp only [ofFile?, ofComponentFile?, ofClassFile?, String.toList_ofList, parse_ofList]
  exact ⟨by decide +kernel, by decide +kernel, by decide +kernel⟩

end ComponentAtlas
