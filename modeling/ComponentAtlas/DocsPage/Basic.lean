import ComponentAtlas.DocsPage.Markup
import ComponentAtlas.Distinct
import ComponentAtlas.Model.Component

/-!
# Documentation pages

What a component's documentation page says: which component it is about, its title and subtitle,
its sections with the examples shown in each, and the components that it links to.
-/

namespace ComponentAtlas

open Text Markup

structure DocsPage where
  /-- The component named in the header. -/
  component : Option String
  title : Option String
  subtitle : Option String
  sections : List DocSection
  /-- The targets of component links as they are written, the first spelling of each. -/
  links : List String
  deriving DecidableEq, Repr

namespace DocsPage

/-! ## The header -/

/-- The last part of a dotted name that is all of `run`; a qualifier is not empty. -/
def lastNamePart? (run : List Char) : Option (List Char) :=
  let name := afterLast '.' run
  let qualifier := run.length - name.length
  if name.isEmpty || qualifier == 1 then none else some name

/-- The type named in a type expression, without qualification and type arguments. -/
def typeOf : Recogniser (List Char) :=
  .ofReading fun s =>
    (after? "typeof(".toList ((after? ['@'] s).getD s)).bind fun rest =>
      let inner := rest.dropWhile isBlank
      let run := inner.takeWhile fun c => Unicode.isWord c || c == '.'
      (lastNamePart? run).bind fun name =>
        let tail := inner.drop run.length
        let arguments := upTo ')' tail
        let fits := allBlank arguments ||
          ((after? ['<'] arguments).bind fun a => beforeEnd? ['>'] (trimEnd a)).isSome
        if fits then (after? [')'] (tail.drop arguments.length)).map fun behind => (name, behind)
        else none

def header : Recogniser OpenTag := openTag "DocsPageHeader"

/-- The text of a header that does not close itself, up to its closing tag or to the end. -/
def headerBody (s : List Char) : List Char :=
  match textUntil? (afterBareTag? "</DocsPageHeader".toList) s with
  | some (body, _) => body
  | none => s

/-- The text of the first description. -/
def description? (s : List Char) : Option String :=
  ((element "Description").findFirst? s).bind fun (text, _) => plainText? text

/-! ## Sections -/

def sectionHeader : Recogniser OpenTag := openTag "SectionHeader"

/-- The tag of an example component: its name. -/
def exampleTag : Recogniser (List Char) :=
  .ofReading fun s =>
    (after? ['<'] s).bind fun rest =>
      match rest.takeWhile Unicode.isWord with
      | c :: more =>
        if c.isUpper && endsWith "Example".toList more then
          some (c :: more, rest.drop (more.length + 1))
        else none
      | [] => none

/-- A name expression: the name. -/
def nameOf : Recogniser (List Char) :=
  .ofReading fun s =>
    (after? "nameof(".toList ((after? ['@'] s).getD s)).bind fun rest =>
      let inner := rest.dropWhile isBlank
      let name := inner.takeWhile Unicode.isWord
      if name.isEmpty then none
      else (after? [')'] ((inner.drop name.length).dropWhile isBlank)).map fun behind =>
        (name, behind)

/-- The section with a header tag and the text up to the next one. -/
def sectionOf (tag : OpenTag) (text : List Char) : DocSection where
  heading :=
    (((attribute? tag.attributes "Title").bind plainText?).or
      (((element "Title").findFirst? text).bind fun (title, _) => plainText? title)).getD ""
  body := (description? text).getD ""
  examples := firsts (· == ·) ((exampleTag.findAll text ++ nameOf.findAll text).map String.ofList)

/-- The sections of a page, one for each header tag. -/
def sectionsOf (source : List Char) : List DocSection :=
  (sectionHeader.pieces source).2.map fun (tag, text) => sectionOf tag text

/-! ## Links -/

/-- What follows a word spelled in any case.  The long s counts as an s. -/
def afterIgnoringCase? : List Char → List Char → Option (List Char)
  | [], cs => some cs
  | _ :: _, [] => none
  | p :: ps, c :: cs =>
    if p = c.toLower || (p == 's' && c == 'ſ') then afterIgnoringCase? ps cs else none

/-- What follows the directory of component pages, with or without a slash in front. -/
def afterDirectory? (s : List Char) : Option (List Char) :=
  afterIgnoringCase? "components/".toList ((after? ['/'] s).getD s)

/-- What follows the directory of component pages behind a host.  The host may run into the
directory's name without a slash. -/
def afterHost? (s : List Char) : Option (List Char) :=
  (afterIgnoringCase? "http".toList s).bind fun rest =>
    (after? "://".toList ((afterIgnoringCase? ['s'] rest).getD rest)).bind fun rest =>
      let host := rest.takeWhile fun c => c ≠ '"' && c ≠ '/'
      let short := host.length - "components".length
      if host.isEmpty then none
      else (afterDirectory? (rest.drop host.length)).or
        (if short = 0 then none
          else afterIgnoringCase? "components/".toList (rest.drop short))

/-- A link to a component's page: the page's name. -/
def componentLink : Recogniser (List Char) :=
  .ofReading fun s =>
    (afterIgnoringCase? "href".toList s).bind fun rest =>
      (after? ['='] (rest.dropWhile isBlank)).bind fun rest =>
        (after? ['"'] (rest.dropWhile isBlank)).bind fun target =>
          ((afterHost? target).or (afterDirectory? target)).bind fun page =>
            let name := page.takeWhile isNameCharacter
            let more := upTo '"' page
            if name.isEmpty then none
            else (after? ['"'] (page.drop more.length)).map fun behind => (name, behind)

/-! ## Pages -/

/-- What the text of a page says. -/
def ofSource (source : List Char) : DocsPage :=
  let sections := sectionsOf source
  let links := firsts sameIgnoringCase ((componentLink.findAll source).map String.ofList)
  match header.findFirst? source with
  | none => ⟨none, none, none, sections, links⟩
  | some (tag, rest) =>
    let valueOf (name : String) := attribute? tag.attributes name
    let subtitle := ((valueOf "SubTitle").bind plainText?).or
      (if tag.selfClosing then none else description? (headerBody rest))
    { component := (valueOf "Component").bind fun value =>
        (typeOf.findFirst? value).map fun (name, _) => String.ofList name
      title := (valueOf "Title").bind plainText?
      subtitle, sections, links }

/-- The text of the first section in some list that shows an example, unless it is empty. -/
def exampleDescription? (sections : List DocSection) (name : String) : Option String :=
  (sections.find? fun s => s.examples.contains name).bind fun s =>
    if s.body.isEmpty then none else some s.body

end DocsPage
end ComponentAtlas
