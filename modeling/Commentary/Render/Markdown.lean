import Commentary.Doclet.Basic
import Commentary.Render.Anchor

/-!
# Doclets as Markdown

The document has an index, and then a section for each symbol that stands on its own or owns
members, with a block for each of its members. A symbol stands on its own if it has no owner, or
none that is shown. Every doclet has one place: it heads a section, or it is a member in the first
section that its owner heads.
-/

namespace Commentary.Render

/-! ## Sections -/

/-- A section: the position of the doclet that heads it, and those of its members. -/
structure Section where
  owner : Nat
  members : List Nat
deriving DecidableEq, Repr

/-- Whether a doclet heads a section. -/
def headsSection (doclets : List Doclet) (d : Doclet) : Bool :=
  match d.memberof with
  | none => true
  | some owner =>
    !doclets.any (·.longname == owner) || doclets.any (·.memberof == some d.longname)

/-- The position of the first head that owns a doclet. -/
def sectionOf (heads : List (Doclet × Nat)) (d : Doclet) : Option Nat :=
  (heads.find? fun (head, _) => d.memberof == some head.longname).map Prod.snd

/-- The sections of some doclets, in order. -/
def sections (doclets : List Doclet) : List Section :=
  let heads := doclets.zipIdx.filter fun (d, _) => headsSection doclets d
  let others := doclets.zipIdx.filter fun (d, _) => !headsSection doclets d
  heads.map fun (_, i) =>
    { owner := i
      members := (others.filter fun (d, _) => sectionOf heads d == some i).map Prod.snd }

/-- A doclet in its place in the document: at level 0 it heads a section, at level 1 it is a
member. -/
structure Entry where
  doclet : Doclet
  level : Nat

/-- The doclets in the order of the document. -/
def entries (doclets : List Doclet) : List Entry :=
  (sections doclets).flatMap fun s =>
    (doclets[s.owner]?.map (⟨·, 0⟩)).toList ++
      s.members.filterMap fun i => doclets[i]?.map (⟨·, 1⟩)

/-! ## Parts of a block -/

/-- A text in a cell of a table: bars are escaped, and line feeds become spaces. -/
def tableCell (text : String) : String :=
  String.ofList <| text.toList.flatMap fun c =>
    if c = '|' then ['\\', '|'] else if c = '\n' then [' '] else [c]

/-- A text as code. -/
def code (text : String) : String := "`" ++ text ++ "`"

/-- A parameter as code: dots if it repeats, its default, and brackets if it is optional. -/
def paramCell (param : Detail) : String :=
  let name := (if param.repeatable = some true then "..." else "") ++ param.name.getD ""
  let name := name ++ ((param.defaultValue.map ("=" ++ ·)).getD "")
  tableCell (code (if param.optional = some true then "[" ++ name ++ "]" else name))

/-- The types of a detail as code, empty if there are none. -/
def typeCell (detail : Detail) : String :=
  match detail.types with
  | some (type :: types) => tableCell (code (String.intercalate " | " (type :: types)))
  | _ => ""

/-- A row of the table of parameters. -/
def paramRow (param : Detail) : String :=
  "| " ++ paramCell param ++ " | " ++ typeCell param ++ " | " ++
    tableCell (param.description.getD "") ++ " |"

/-- An item in a list of results or exceptions. -/
def detailItem (detail : Detail) : String :=
  "* " ++ typeCell detail ++ ((detail.description.filter (!·.isEmpty)).map (" " ++ ·)).getD ""

/-- What is said of a symbol beside its name. -/
def badges (d : Doclet) : List String :=
  (d.kind.map fun kind => code kind.text).toList ++
  (d.scope.map fun scope => code scope.text).toList ++
  (d.deprecated.map fun reason =>
    if reason.isEmpty then "**deprecated**" else "**deprecated**: " ++ reason).toList

/-- Where a symbol comes from and what it builds on. -/
def relationNotes (d : Doclet) : List String :=
  d.augments.map (fun parent => "Extends " ++ code parent) ++
  d.mixes.map (fun mixin => "Mixes in " ++ code mixin) ++
  d.implements.map (fun interface => "Implements " ++ code interface) ++
  (if d.inherited then d.inherits.toList.map (fun source => "Inherited from " ++ code source)
   else []) ++
  d.overrides.toList.map (fun overridden => "Overrides " ++ code overridden) ++
  (if d.borrowed then ["Borrowed"] else [])

/-! ## Blocks -/

/-- Lines with an empty one behind them, or none at all. -/
def paragraph (ls : List String) : List String := if ls.isEmpty then [] else ls ++ [""]

/-- The lines of the table of parameters. -/
def paramLines (params : List Detail) : List String :=
  if params.isEmpty then []
  else ["#### Parameters\n", "| Name | Type | Description |", "| --- | --- | --- |"] ++
    params.map paramRow ++ [""]

/-- The lines of a list of results or exceptions. -/
def detailLines (title : String) (details : List Detail) : List String :=
  if details.isEmpty then []
  else ["#### " ++ title ++ "\n"] ++ details.map detailItem ++ [""]

/-- The lines of an example. -/
def exampleLines (text : String) : List String :=
  ["#### Example\n", "```js", text, "```", ""]

/-- The lines of a block. -/
def blockLines (heading : String) (d : Doclet) : List String :=
  [heading ++ " " ++ escapeText d.longname ++ "\n"] ++
  (if (badges d).isEmpty then [] else [String.intercalate " " (badges d), ""]) ++
  paragraph d.classdesc.toList ++
  paragraph d.description.toList ++
  paragraph ((relationNotes d).map ("* " ++ ·)) ++
  paramLines d.params ++
  detailLines "Returns" d.returns ++
  detailLines "Throws" d.exceptions ++
  d.examples.flatMap exampleLines

/-- The block of a doclet. -/
def block (entry : Entry) : String :=
  let heading := if entry.level = 0 then "##" else "###"
  String.intercalate "\n" (blockLines heading entry.doclet) ++ "\n"

/-- The index of the document. -/
def index (entries : List Entry) : String :=
  let anchors := ({} : Anchors).nextAll (entries.map (·.doclet.longname))
  String.join ((entries.zip anchors).map fun (entry, anchor) =>
    indexItem entry.doclet.longname anchor entry.level ++ "\n")

/-- The Markdown document of some doclets. -/
def markdown (doclets : List Doclet) : String :=
  let entries := entries doclets
  if entries.isEmpty then ""
  else "## Index\n\n" ++ index entries ++ "\n" ++ String.join (entries.map block)

end Commentary.Render
