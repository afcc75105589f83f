import Commentary.Tag.Dictionary
import Commentary.Text.Lines
import Commentary.Text.Split

/-!
# Tags

A tag is built from the title and the text that were written: the title is led to its definition,
the text is trimmed, reshaped and taken apart as the definition says, and what breaks the
definition's rules is noted with the tag.
-/

namespace Commentary

open Commentary.Text

/-- What a tag says of a parameter, result, exception or property. -/
structure Detail where
  /-- The names of its types. -/
  types : Option (List String) := none
  name : Option String := none
  description : Option String := none
  optional : Option Bool := none
  nullable : Option Bool := none
  repeatable : Option Bool := none
  defaultValue : Option String := none
deriving DecidableEq, Repr, Inhabited

/-- The value of a tag: its text, or the parts of a text with a type or a name. -/
inductive TagValue where
  | text (s : String)
  | detail (d : Detail)
deriving DecidableEq, Repr

/-- A tag of a doclet. -/
structure Tag where
  /-- The title as written, without the blanks at its ends. -/
  writtenTitle : String
  /-- The title that the written one stands for. -/
  title : String
  text : String
  value : Option TagValue := none
  /-- What is wrong with the tag, in the order in which it was found. -/
  problems : List Problem := []
deriving DecidableEq, Repr

namespace Tag

/-- The text of a value: the whole text, or the description among its parts. -/
def valueText? (tag : Tag) : Option String :=
  match tag.value with
  | some (.text s) => some s
  | some (.detail d) => d.description
  | none => none

/-- The parts of a text with a type or a name. -/
def detail? (tag : Tag) : Option Detail :=
  match tag.value with
  | some (.detail d) => some d
  | _ => none

/-! ## Trimming and rewriting -/

/-- A line feed, carriage return or form feed. -/
def isLineBreak (c : Char) : Bool := c == '\n' || c == '\r' || c == '\x0c'

/-- The text without the line breaks at both ends. -/
def trimLineBreaks (cs : List Char) : List Char :=
  ((cs.dropWhile isLineBreak).reverse.dropWhile isLineBreak).reverse

/-- The spaces and tabs in front of the first line that is not blank. -/
def indentOf (ls : List (List Char)) : List Char :=
  match ls.find? (!·.all isBlank) with
  | some line => line.takeWhile fun c => c == ' ' || c == '\t'
  | none => []

/-- Takes the indent of the first line that is not blank off every line that has it. -/
def dropIndent (cs : List Char) : List Char :=
  let indent := indentOf (lineChars cs)
  if indent.isEmpty then cs
  else List.intercalate ['\n'] <| (lineChars cs).map fun line =>
    (indent.isPrefixOf? line).getD line

/-- The text of a tag without what its definition does not keep. A text that is the name of the code
behind the comment, blanks included, is quoted instead. -/
def trimText (definition : Option TagDefinition) (origin : Origin) (text : String) : String :=
  if origin.code.name = some text ∧ trim text ≠ text then "\"" ++ text ++ "\""
  else if definition.any (·.keepsBlanks) then
    let kept := trimLineBreaks text.toList
    String.ofList (if definition.any (·.dropsIndent) then dropIndent kept else kept)
  else trim text

end Tag

/-- Reshapes the text of a tag. -/
def TextShape.apply : TextShape → String → String
  | .bracesOptional, text => (Tag.Body.split text false true).typeExpression.getD text
  | .bracesRequired, text =>
    let cs := text.toList.filter fun c => c != '\n' && c != '\r'
    if cs.head? = some '\x7b' then String.ofList cs
    else "\x7b" ++ String.ofList cs ++ "\x7d"

namespace Tag

/-! ## Values -/

/-- A text, unless it is empty. -/
def nonEmpty (s : String) : Option String := if s.isEmpty then none else some s

/-- What the parts of a body say. -/
def detailOf (named : Bool) (body : Body) : Detail :=
  { types := if body.types.isEmpty then none else some body.types
    name := body.name.filter fun name => named && !name.isEmpty
    description := nonEmpty body.text
    optional := body.optional
    nullable := body.nullable
    repeatable := body.repeatable
    defaultValue := body.defaultValue }

/-- The value that a definition reads from a text, and the problem of a type that cannot be read. -/
def readValue (dictionary : Dictionary) (definition : TagDefinition) (title : String)
    (location : Location) (text : String) : TagValue × List Problem :=
  if definition.typed || definition.named then
    match Body.parse dictionary.grammar text definition.named definition.typed with
    | .ok body => (.detail (detailOf definition.named body), [])
    | .error error =>
      let body := Body.split text definition.named definition.typed
      (.detail (detailOf definition.named body),
       [.typeExpression title (body.typeExpression.getD "") error location])
  else (.text text, [])

/-- The issue that a tag has with its definition, or with not having one. -/
def issue? (dictionary : Dictionary) (definition : Option TagDefinition) (tag : Tag) :
    Option TagIssue :=
  match definition with
  | none => if dictionary.allowsUnknown tag.title then none else some .unknown
  | some definition =>
    if definition.requiresValue && tag.text.isEmpty then some .requiresValue
    else if definition.forbidsValue && !tag.text.isEmpty then some .forbidsValue
    else if definition.forbidsDescription &&
        (tag.detail?.bind Detail.description).any (!·.isEmpty) then some .forbidsDescription
    else none

/-- A tag with the issue that it has, if any, noted as its last problem. -/
def checked (dictionary : Dictionary) (definition : Option TagDefinition) (location : Location)
    (tag : Tag) : Tag :=
  match tag.issue? dictionary definition with
  | some issue => { tag with problems := tag.problems ++ [.tag tag.writtenTitle issue location] }
  | none => tag

/-- Builds a tag from a written title and text. -/
def build (dictionary : Dictionary) (origin : Origin) (title : String) (text : Option String) :
    Tag :=
  let writtenTitle := trim title
  let title := dictionary.normalize writtenTitle
  let definition := dictionary.lookUp title
  let text := trimText definition origin (text.getD "")
  let tag : Tag := { writtenTitle, title, text }
  let tag : Tag :=
    if text.isEmpty then tag
    else match definition with
      | none => { tag with value := some (.text text) }
      | some definition =>
        let text := (definition.reshape.map (·.apply text)).getD text
        let (value, problems) := readValue dictionary definition title origin.location text
        { tag with text, value := some value, problems }
  tag.checked dictionary definition origin.location

end Tag

end Commentary
