import Commentary.Doclet.Effect
import Commentary.Json.Fields

/-!
# Doclets as JSON

A doclet is written as an object. Comment, origin, name and longname are always there; of the other
fields only those that say something. Reading takes what is left out, or null, as saying nothing.
The two switches that only steer resolution are not written.
-/

namespace Commentary

open Json

/-! ## Origins -/

/-- The JSON of a code hint. -/
def CodeHint.toJson (code : CodeHint) : Json :=
  .object <|
    member? "name" .string code.name ++ member? "type" .string code.form ++
    member? "value" .string code.value ++ member? "funcscope" .string code.enclosing ++
    member? "receiver" .string code.receiver ++ memberList "paramnames" .string code.paramNames

/-- Reads a code hint. -/
def CodeHint.ofJson? (j : Json) : Option CodeHint := do
  guard j.isObject
  return {
    name := ← j.optional? asString? "name"
    form := ← j.optional? asString? "type"
    value := ← j.optional? asString? "value"
    enclosing := ← j.optional? asString? "funcscope"
    receiver := ← j.optional? asString? "receiver"
    paramNames := ← j.list? asString? "paramnames" }

/-- The JSON of an origin. -/
def Origin.toJson (origin : Origin) : Json :=
  .object <|
    member? "filename" .string origin.filename ++ member? "path" .string origin.path ++
    member? "lineno" Json.nat origin.line ++ [("code", origin.code.toJson)]

/-- Reads an origin. -/
def Origin.ofJson? (j : Json) : Option Origin := do
  guard j.isObject
  return {
    filename := ← j.optional? asString? "filename"
    path := ← j.optional? asString? "path"
    line := ← j.optional? asNat? "lineno"
    code := ← j.withDefault? {} CodeHint.ofJson? "code" }

/-! ## Details and tags -/

/-- The JSON of the names of types. -/
def typesToJson (names : List String) : Json := .object [("names", Json.strings names)]

/-- Reads the names of types. -/
def typesOfJson? (j : Json) : Option (List String) := do
  guard j.isObject
  j.list? asString? "names"

/-- The JSON of a detail. -/
def Detail.toJson (d : Detail) : Json :=
  .object <|
    member? "type" typesToJson d.types ++ member? "name" .string d.name ++
    member? "description" .string d.description ++ member? "optional" .bool d.optional ++
    member? "nullable" .bool d.nullable ++ member? "variable" .bool d.repeatable ++
    member? "defaultvalue" .string d.defaultValue

/-- Reads a detail. -/
def Detail.ofJson? (j : Json) : Option Detail := do
  guard j.isObject
  return {
    types := ← j.optional? typesOfJson? "type"
    name := ← j.optional? asString? "name"
    description := ← j.optional? asString? "description"
    optional := ← j.optional? asBool? "optional"
    nullable := ← j.optional? asBool? "nullable"
    repeatable := ← j.optional? asBool? "variable"
    defaultValue := ← j.optional? asString? "defaultvalue" }

/-- The JSON of a tag value: a string or an object. -/
def TagValue.toJson : TagValue → Json
  | .text s => .string s
  | .detail d => d.toJson

/-- Reads a tag value. -/
def TagValue.ofJson? : Json → Option TagValue
  | .string s => some (.text s)
  | j => (Detail.ofJson? j).map .detail

/-- The JSON of a kept tag. -/
def KeptTag.toJson (tag : KeptTag) : Json :=
  .object <|
    [("originalTitle", .string tag.writtenTitle), ("title", .string tag.title)] ++
    (if tag.text.isEmpty then [] else [("text", .string tag.text)]) ++
    member? "value" TagValue.toJson tag.value

/-- Reads a kept tag. -/
def KeptTag.ofJson? (j : Json) : Option KeptTag := do
  guard j.isObject
  return {
    writtenTitle := ← j.text? "originalTitle"
    title := ← j.text? "title"
    text := ← j.text? "text"
    value := ← j.optional? TagValue.ofJson? "value" }

/-- The JSON of a borrow. -/
def Borrow.toJson (borrow : Borrow) : Json :=
  .object ([("from", .string borrow.source)] ++ member? "as" .string borrow.target)

/-- Reads a borrow. -/
def Borrow.ofJson? (j : Json) : Option Borrow := do
  guard j.isObject
  return { source := ← j.text? "from", target := ← j.optional? asString? "as" }

/-! ## Doclets -/

namespace Doclet

/-- The members of a doclet. -/
def members (d : Doclet) : List (String × Json) :=
  [("comment", .string d.comment), ("meta", d.origin.toJson), ("name", .string d.name),
   ("longname", .string d.longname)] ++
  member? "memberof" .string d.memberof ++
  member? "scope" (.string ·.text) d.scope ++
  member? "kind" (.string ·.text) d.kind ++
  member? "variation" .string d.variation ++
  member? "alias" .string d.aliasName ++
  member? "description" .string d.description ++
  member? "summary" .string d.summary ++
  member? "classdesc" .string d.classdesc ++
  member? "type" typesToJson d.types ++
  member? "optional" .bool d.optional ++
  member? "nullable" .bool d.nullable ++
  member? "variable" .bool d.repeatable ++
  member? "defaultvalue" .string d.defaultValue ++
  memberList "params" Detail.toJson d.params ++
  memberList "returns" Detail.toJson d.returns ++
  memberList "exceptions" Detail.toJson d.exceptions ++
  memberList "properties" Detail.toJson d.properties ++
  memberList "examples" .string d.examples ++
  memberList "see" .string d.see ++
  memberList "todo" .string d.todo ++
  memberList "author" .string d.author ++
  memberList "requires" .string d.requires ++
  memberList "fires" .string d.fires ++
  memberList "listens" .string d.listens ++
  memberList "tutorials" .string d.tutorials ++
  memberList "augments" .string d.augments ++
  memberList "mixes" .string d.mixes ++
  memberList "implements" .string d.implements ++
  memberList "borrows" Borrow.toJson d.borrows ++
  member? "access" (.string ·.text) d.access ++
  memberFlag "virtual" d.isVirtual ++
  memberFlag "readonly" d.readonly ++
  memberFlag "ignore" d.ignore ++
  memberFlag "undocumented" d.undocumented ++
  memberFlag "inheritdoc" d.inheritdoc ++
  memberFlag "override" d.isOverride ++
  memberFlag "isEnum" d.isEnum ++
  member? "deprecated" .string d.deprecated ++
  member? "since" .string d.since ++
  member? "version" .string d.version ++
  member? "license" .string d.license ++
  member? "copyright" .string d.copyright ++
  member? "this" .string d.thisType ++
  memberFlag "inherited" d.inherited ++
  member? "inherits" .string d.inherits ++
  member? "overrides" .string d.overrides ++
  memberFlag "mixed" d.mixed ++
  memberFlag "borrowed" d.borrowed ++
  memberList "tags" KeptTag.toJson d.tags

/-- The JSON of a doclet. -/
def toJson (d : Doclet) : Json := .object d.members

/-- Reads a doclet. -/
def ofJson? (j : Json) : Option Doclet := do
  guard j.isObject
  return {
    comment := ← j.text? "comment"
    origin := ← j.withDefault? {} Origin.ofJson? "meta"
    name := ← j.text? "name"
    longname := ← j.text? "longname"
    memberof := ← j.optional? asString? "memberof"
    scope := ← j.optional? (asString? · >>= Scope.ofText?) "scope"
    kind := ← j.optional? (asString? · >>= Kind.ofText?) "kind"
    variation := ← j.optional? asString? "variation"
    aliasName := ← j.optional? asString? "alias"
    description := ← j.optional? asString? "description"
    summary := ← j.optional? asString? "summary"
    classdesc := ← j.optional? asString? "classdesc"
    types := ← j.optional? typesOfJson? "type"
    optional := ← j.optional? asBool? "optional"
    nullable := ← j.optional? asBool? "nullable"
    repeatable := ← j.optional? asBool? "variable"
    defaultValue := ← j.optional? asString? "defaultvalue"
    params := ← j.list? Detail.ofJson? "params"
    returns := ← j.list? Detail.ofJson? "returns"
    exceptions := ← j.list? Detail.ofJson? "exceptions"
    properties := ← j.list? Detail.ofJson? "properties"
    examples := ← j.list? asString? "examples"
    see := ← j.list? asString? "see"
    todo := ← j.list? asString? "todo"
    author := ← j.list? asString? "author"
    requires := ← j.list? asString? "requires"
    fires := ← j.list? asString? "fires"
    listens := ← j.list? asString? "listens"
    tutorials := ← j.list? asString? "tutorials"
    augments := ← j.list? asString? "augments"
    mixes := ← j.list? asString? "mixes"
    implements := ← j.list? asString? "implements"
    borrows := ← j.list? Borrow.ofJson? "borrows"
    access := ← j.optional? (asString? · >>= Access.ofLower?) "access"
    isVirtual := ← j.flag? "virtual"
    readonly := ← j.flag? "readonly"
    ignore := ← j.flag? "ignore"
    undocumented := ← j.flag? "undocumented"
    inheritdoc := ← j.flag? "inheritdoc"
    isOverride := ← j.flag? "override"
    isEnum := ← j.flag? "isEnum"
    deprecated := ← j.optional? asString? "deprecated"
    since := ← j.optional? asString? "since"
    version := ← j.optional? asString? "version"
    license := ← j.optional? asString? "license"
    copyright := ← j.optional? asString? "copyright"
    thisType := ← j.optional? asString? "this"
    inherited := ← j.flag? "inherited"
    inherits := ← j.optional? asString? "inherits"
    overrides := ← j.optional? asString? "overrides"
    mixed := ← j.flag? "mixed"
    borrowed := ← j.flag? "borrowed"
    tags := ← j.list? KeptTag.ofJson? "tags" }

end Doclet

end Commentary
