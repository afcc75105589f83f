import Commentary.Doclet.Resolve
import Commentary.Comment
import Commentary.Path

/-!
# What tags do to a doclet

The effect of each tag, and building a doclet from the tags of a comment. Some effects add further
tags, such as the name that a `@function` tag carries. Those tags add none in turn, so adding a tag
is adding it with effects that may add tags whose effects add nothing.
-/

namespace Commentary

open Commentary.Text

/-! ## Reading the text of a tag -/

/-- The first word of a text, empty if there is none. -/
def firstWord (text : String) : String :=
  String.ofList (splitAtBlank (trimStartChars text.toList)).1

/-- Whether a text has more than one word. -/
def hasSeveralWords (text : String) : Bool := (trimChars text.toList).any isBlank

/-- Whether two characters are the same letter in small or capitals; the long s is an s. -/
def sameLetter (letter c : Char) : Bool := c.toLower == letter || (letter == 's' && c == 'ſ')

/-- What follows a word that is written at the start of a text in small letters or capitals. -/
def afterWord? : List Char → List Char → Option (List Char)
  | [], cs => some cs
  | letter :: word, c :: cs => if sameLetter letter c then afterWord? word cs else none
  | _ :: _, [] => none

/-- Whether a text mentions a word as a whole word, in small letters or capitals. -/
def mentions (word : List Char) : List Char → Bool
  | [] => false
  | c :: cs =>
    (match afterWord? word (c :: cs) with
      | some rest => !rest.head?.any isWordChar
      | none => false) || mentions word cs

/-- Whether a comment says that a function constructs a class. -/
def mentionsConstructor (comment : String) : Bool :=
  mentions "@constructs".toList comment.toList || mentions "@constructor".toList comment.toList

/-- Whether a comment describes a class. -/
def mentionsClassdesc (comment : String) : Bool := mentions "@classdesc".toList comment.toList

/-- What follows the word `as` between blanks at the start of a text. -/
def afterAs? (cs : List Char) : Option (List Char) :=
  if cs.head?.any isBlank then
    match trimStartChars cs with
    | 'a' :: 's' :: blank :: c :: rest =>
      if isBlank blank then some (trimChars (c :: rest)) else none
    | _ => none
  else none

/-- Cuts a text at the first `as` between blanks; `read` is what has been read, in reverse. -/
def splitAs (read : List Char) : List Char → List Char × Option (List Char)
  | [] => (read.reverse, none)
  | c :: rest =>
    match if read.isEmpty then none else afterAs? (c :: rest) with
    | some target => (read.reverse, some target)
    | none => splitAs (c :: read) rest

/-- A variation without the parentheses around it. -/
def bareVariation (text : String) : String :=
  match text.toList with
  | '(' :: rest =>
    match rest.reverse with
    | ')' :: inner => String.ofList inner.reverse
    | _ => text
  | _ => text

namespace Doclet

/-! ## Fields -/

/-- Switches a property on. -/
def setFlag (d : Doclet) : Flag → Doclet
  | .virtual => { d with isVirtual := true }
  | .ignore => { d with ignore := true }
  | .inheritdoc => { d with inheritdoc := true }
  | .readonly => { d with readonly := true }
  | .override => { d with isOverride := true }

/-- Sets a text. -/
def setText (d : Doclet) (text : Option String) : TextField → Doclet
  | .aliasName => { d with aliasName := text }
  | .classdesc => { d with classdesc := text }
  | .copyright => { d with copyright := text }
  | .license => { d with license := text }
  | .since => { d with since := text }
  | .summary => { d with summary := text }
  | .version => { d with version := text }

/-- Adds texts to a list. -/
def collect (d : Doclet) (texts : List String) : ListField → Doclet
  | .author => { d with author := d.author ++ texts }
  | .examples => { d with examples := d.examples ++ texts }
  | .see => { d with see := d.see ++ texts }
  | .todo => { d with todo := d.todo ++ texts }
  | .tutorials => { d with tutorials := d.tutorials ++ texts }

/-- Adds a detail to a list. -/
def addDetail (d : Doclet) (detail : Detail) : DetailField → Doclet
  | .params => { d with params := d.params ++ [detail] }
  | .returns => { d with returns := d.returns ++ [detail] }
  | .exceptions => { d with exceptions := d.exceptions ++ [detail] }
  | .properties => { d with properties := d.properties ++ [detail] }

/-- Adds an event to a list. -/
def addEvent (d : Doclet) (event : String) : EventField → Doclet
  | .fires => { d with fires := d.fires ++ [event] }
  | .listens => { d with listens := d.listens ++ [event] }

/-- Takes over the type of a tag and its marks, where the doclet has none. -/
def setType (d : Doclet) (tag : Tag) : Doclet :=
  match tag.detail? with
  | some detail =>
    if detail.types.isSome then
      { d with
        types := d.types.or detail.types
        optional := d.optional.or detail.optional
        nullable := d.nullable.or detail.nullable
        repeatable := d.repeatable.or detail.repeatable
        defaultValue := d.defaultValue.or detail.defaultValue }
    else d
  | none => d

/-! ## Names from tags -/

/-- Adds a tag, given a title and a text. -/
abbrev AddTag := String → Option String → Doclet → Noted Doclet

/-- Names the doclet, if there is a name. -/
def nameBy (addTag : AddTag) (name : Option String) (d : Doclet) : Noted Doclet :=
  match name with
  | some name => addTag "name" (some name) d
  | none => pure d

/-- The text of a tag as a name, unless it is empty. -/
def textName? (tag : Tag) : Option String := tag.valueText?.filter (!·.isEmpty)

/-- The name among the parts of a tag. -/
def detailName? (tag : Tag) : Option String := tag.detail?.bind Detail.name

/-- The file of a doclet as a name. -/
def fileName? (d : Doclet) : Option String :=
  d.origin.filename.map fun filename =>
    match d.origin.path.filter (!·.isEmpty) with
    | some path => path ++ "/" ++ filename
    | none => filename

/-- The file of a doclet as the name of a module. -/
def moduleFileName? (d : Doclet) : Option String := d.origin.filename.bind Path.fileStem?

/-! ## Effects -/

/-- The effect of a `@class` tag: its text names the class, unless it reads as a description. -/
def applyClass (addTag : AddTag) (tag : Tag) (d : Doclet) : Noted Doclet :=
  let d := { d with kind := some .class }
  if asciiLower tag.writtenTitle = "class" ∧
      (tag.valueText?.any hasSeveralWords ∨ mentionsConstructor d.comment) ∧
      mentionsClassdesc d.comment = false then
    pure { d with classdesc := tag.valueText? }
  else nameBy addTag (textName? tag) d

/-- The effect of a `@module` tag: without a name the module is named by its file. -/
def applyModule (addTag : AddTag) (tag : Tag) (d : Doclet) : Noted Doclet := do
  let d ← nameBy addTag (textName? tag) { d with kind := some .module }
  let d ← if d.name.isEmpty then nameBy addTag d.moduleFileName? d else pure d
  return { d with name := Longname.stripNamespace d.name }.setType tag

/-- The effect of an `@external` tag: it can be named by its type. -/
def applyExternal (addTag : AddTag) (tag : Tag) (d : Doclet) : Noted Doclet :=
  let d := { d with kind := some .external }
  match (tag.detail?.bind Detail.types).bind List.head? with
  | some type => addTag "name" (some type) (d.setType tag)
  | none => nameBy addTag (textName? tag) d

/-- The effect of a `@typedef` tag; a callback is a function. -/
def applyTypedef (addTag : AddTag) (tag : Tag) (d : Doclet) : Noted Doclet :=
  let d := { d with kind := some .typedef }
  if tag.value.isNone then pure d
  else do
    let d ← nameBy addTag (detailName? tag) d
    if asciiLower tag.writtenTitle = "callback" then return { d with types := some ["function"] }
    else return d.setType tag

/-- The effect of a `@memberof` tag; an exclamation mark forces the owner. -/
def applyMemberof (addTag : AddTag) (tag : Tag) (d : Doclet) : Noted Doclet :=
  let d := if asciiLower tag.writtenTitle = "memberof!" then { d with forceMemberof := true } else d
  match tag.valueText? with
  | some owner =>
    if owner = Longname.globalOwner then do
      let d ← addTag "global" none d
      return { d with memberof := none }
    else pure (d.setMemberof owner)
  | none => pure d

/-- What a `@requires` tag names: a module, unless the text is a link. -/
def requirement (text : String) : String :=
  if startsWith "\x7b@" text then text
  else
    let word := firstWord text
    if startsWith Longname.moduleMark word then word else Longname.moduleMark ++ word

/-- Applies a tag to the doclet that carries it, adding further tags with `addTag`. -/
def applyEffect (addTag : AddTag) (tag : Tag) (d : Doclet) : TagEffect → Noted Doclet
  | .flag field => pure (d.setFlag field)
  | .text field => pure (d.setText tag.valueText? field)
  | .collect field => pure (d.collect tag.valueText?.toList field)
  | .detail field => pure (d.addDetail (tag.detail?.getD {}) field)
  | .event field =>
    pure <| match tag.valueText? with
      | some text => d.addEvent (Longname.applyNamespace text "event") field
      | none => d
  | .relate relation =>
    pure <| match tag.valueText? with
      | some text => d.relate relation (firstWord text)
      | none => d
  | .scope scope => pure { d with scope := some scope }
  | .makeGlobal => pure { d with scope := some .global, memberof := none }
  | .access => pure { d with access := tag.valueText?.bind Access.ofText? }
  | .grant level => pure { d with access := some level }
  | .grantTyped level => pure ({ d with access := some level }.setType tag)
  | .kindByText kind => nameBy addTag (textName? tag) { d with kind := some kind }
  | .typedKindByText kind => do
    let d ← nameBy addTag (textName? tag) { d with kind := some kind }
    return d.setType tag
  | .kindByName kind => nameBy addTag (detailName? tag) { d with kind := some kind }
  | .typedKindByName kind => do
    let d ← nameBy addTag (detailName? tag) { d with kind := some kind }
    return d.setType tag
  | .asClass => applyClass addTag tag d
  | .asEnum => pure ({ d with kind := some .member, isEnum := true }.setType tag)
  | .asExternal => applyExternal addTag tag d
  | .asFile => do
    let d ← nameBy addTag d.fileName? d
    return { d with
      kind := some .file
      description := tag.valueText?.or d.description
      preserveName := true }
  | .asModule => applyModule addTag tag d
  | .asTypedef => applyTypedef addTag tag d
  | .borrows =>
    pure <| match tag.valueText? with
      | some text =>
        if text.isEmpty then d
        else
          let (source, target) := splitAs [] text.toList
          d.borrow (String.ofList (trimChars source)) (target.map String.ofList)
      | none => d
  | .constructs => do
    let owner := ((tag.valueText?.map firstWord).filter (!·.isEmpty)).getD "\x7b@thisClass\x7d"
    let d ← addTag "alias" (some owner) d
    return { d with kind := some .class }
  | .defaultValue => pure { d with defaultValue := tag.valueText?.or d.origin.code.value }
  | .deprecated => pure { d with deprecated := some (tag.valueText?.getD "") }
  | .exports => do
    let d ← match tag.valueText? with
      | some text => addTag "alias" (some (Longname.stripNamespace (firstWord text))) d
      | none => pure d
    return { d with kind := some .module }
  | .lends =>
    addTag "undocumented" none
      { d with aliasName := some (tag.valueText?.getD Longname.globalOwner) }
  | .memberof => applyMemberof addTag tag d
  | .requires =>
    pure <| match tag.valueText? with
      | some text => { d with requires := d.requires ++ [requirement text] }
      | none => d
  | .thisType => pure { d with thisType := tag.valueText?.map firstWord }
  | .type =>
    let d := d.setType tag
    if d.kind = some .function then addTag "returns" (some tag.text) d else pure d
  | .undocumented => pure { d with undocumented := true, comment := "" }
  | .variation =>
    pure <| match tag.valueText? with
      | some text => { d with variation := some (bareVariation text) }
      | none => d

/-- Applies the few tags that every run has: name, description, kind and scope. -/
def applyInternal (tag : Tag) (d : Doclet) : Noted Doclet :=
  match tag.valueText? with
  | none => pure d
  | some text =>
    match tag.title with
    | "name" => pure { d with name := text }
    | "description" => pure { d with description := some text }
    | "kind" =>
      match Kind.ofText? text with
      | some kind => pure { d with kind := some kind }
      | none => do
        Noted.note [.unknownKind text d.location]
        return d
    | "scope" =>
      match Scope.ofText? text with
      | some scope => pure { d with scope := some scope }
      | none => do
        Noted.note [.unknownScope text d.location]
        return d
    | _ => pure d

/-- Adds a tag, where the effects of tags add further ones with `addTag`. A tag that the dictionary
does not define is kept. -/
def addTagWith (dictionary : Dictionary) (addTag : AddTag) : AddTag := fun title text d => do
  let tag := Tag.build dictionary d.origin title text
  Noted.note (tag.problems.map .tag)
  let d ← match dictionary.lookUp tag.title with
    | some definition =>
      match definition.effect with
      | some effect => d.applyEffect addTag tag effect
      | none => pure d
    | none =>
      pure { d with tags := d.tags ++ [⟨tag.writtenTitle, tag.title, tag.text, tag.value⟩] }
  d.applyInternal tag

/-- Adds a tag whose effect adds no further tags. -/
def addNestedTag (dictionary : Dictionary) : AddTag :=
  addTagWith dictionary fun _ _ d => pure d

/-- Adds a tag. -/
def addTag (dictionary : Dictionary) : AddTag :=
  addTagWith dictionary (addNestedTag dictionary)

/-! ## Building -/

/-- The doclet of a comment, given its tags. -/
def ofTags (dictionary : Dictionary) (comment : String) (tags : List WrittenTag)
    (origin : Origin) : Noted Doclet := do
  let d ← tags.foldlM (fun d tag => addTag dictionary tag.title tag.text d)
    { comment, origin }
  return d.finish dictionary

/-- A comment where it stands, perhaps with its tags already split. -/
structure Source where
  comment : String := ""
  tags : List WrittenTag := []
  origin : Origin := {}
deriving DecidableEq, Repr, Inhabited

/-- The doclet of a comment. -/
def ofSource (dictionary : Dictionary) (source : Source) : Noted Doclet :=
  let tags := if source.tags.isEmpty then Comment.tags source.comment else source.tags
  ofTags dictionary source.comment tags source.origin

end Doclet

end Commentary
