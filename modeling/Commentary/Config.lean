import Commentary.Json.Reader

/-!
# Configuration

Which tag sets a run knows, and what it thinks of tags that none of them defines. A configuration is
read from JSON: the record of settings and its record of tag settings may each be an object, in
which unknown keys are skipped and a known key stands once, or an array of their fields in order.
What is left out takes its default.
-/

namespace Commentary

/-- Which tags may be used without being defined: all or none of them, or those listed. -/
inductive UnknownTags where
  | all (allowed : Bool)
  | only (titles : List String)
deriving DecidableEq, Repr, Inhabited

/-- Whether a tag may be used without being defined. -/
def UnknownTags.allows (policy : UnknownTags) (title : String) : Bool :=
  match policy with
  | .all allowed => allowed
  | .only titles => titles.contains title

/-- The settings of a run. When two tag sets define a tag, the set listed first wins. -/
structure Config where
  unknownTags : UnknownTags := .all true
  tagSets : List String := ["jsdoc", "closure"]
deriving DecidableEq, Repr, Inhabited

namespace Config

open Json (Reader Token)

/-- Reads a string. -/
def text : Reader String
  | .string (some s) :: rest => some (s, rest)
  | _ => none

/-- Reads an array of strings. -/
def texts : Reader (List String)
  | .lbracket :: rest => Json.itemsUpTo .rbracket text rest
  | _ => none

/-- Reads what is thought of unknown tags. -/
def unknownTagsValue : Reader UnknownTags
  | .bool allowed :: rest => some (.all allowed, rest)
  | ts => (texts ts).map fun (titles, rest) => (.only titles, rest)

/-- One setting of a record, or a member that is skipped. -/
inductive Setting where
  | unknownTags (policy : UnknownTags)
  | tagSets (names : List String)
  | tags (settings : List Setting)
  | skipped

/-- Whether two settings are of one key. -/
def Setting.sameKey : Setting → Setting → Bool
  | .unknownTags _, .unknownTags _ => true
  | .tagSets _, .tagSets _ => true
  | .tags _, .tags _ => true
  | _, _ => false

/-- Whether no key stands twice. -/
def distinctKeys : List Setting → Bool
  | [] => true
  | setting :: rest => rest.all (!setting.sameKey ·) && distinctKeys rest

/-- Reads a member whose value is read as `known` says for its key, and skipped for other keys. -/
def memberOf (known : String → Option (Reader Setting)) : Reader Setting := fun ts =>
  match ts with
  | .string (some key) :: .colon :: rest =>
    match known key with
    | some read => read rest
    | none => (Json.skip rest.length rest).map fun (_, rest) => (.skipped, rest)
  | _ => none

/-- Reads the given settings in order, as many as there are, up to the end of an array. -/
def inOrder : Bool → List (Reader Setting) → Reader (List Setting)
  | _, _, .rbracket :: rest => some ([], rest)
  | _, [], _ => none
  | first, read :: reads, ts => do
    let ts ← if first then some ts else
      match ts with
      | .comma :: rest => some rest
      | _ => none
    let (setting, ts) ← read ts
    let (settings, ts) ← inOrder false reads ts
    return (setting :: settings, ts)

/-- Reads a record that is either an object of known keys or an array of its fields in order. -/
def recordOf (fields : List (String × Reader Setting)) : Reader (List Setting)
  | .lbrace :: rest => do
    let known := fun key => (fields.find? (·.1 == key)).map Prod.snd
    let (settings, rest) ← Json.itemsUpTo .rbrace (memberOf known) rest
    if distinctKeys settings then return (settings, rest) else none
  | .lbracket :: rest => inOrder true (fields.map Prod.snd) rest
  | _ => none

/-- The fields of the tag settings. -/
def tagFields : List (String × Reader Setting) :=
  [("allowUnknownTags", fun ts =>
      (unknownTagsValue ts).map fun (policy, rest) => (.unknownTags policy, rest)),
   ("dictionaries", fun ts => (texts ts).map fun (names, rest) => (.tagSets names, rest))]

/-- The fields of the settings. -/
def fields : List (String × Reader Setting) :=
  [("tags", fun ts =>
      (recordOf tagFields ts).map fun (settings, rest) => (.tags settings, rest))]

/-- The configuration with one tag setting changed. -/
def withSetting (config : Config) : Setting → Config
  | .unknownTags policy => { config with unknownTags := policy }
  | .tagSets names => { config with tagSets := names }
  | _ => config

/-- The configuration that settings make. -/
def ofSettings (settings : List Setting) : Config :=
  (settings.flatMap fun
    | .tags settings => settings
    | _ => []).foldl withSetting {}

/-- Reads a configuration from JSON text; `none` if the text does not fit. -/
def parse? (text : String) : Option Config := do
  let ts ← Json.tokens? text
  match ← recordOf fields ts with
  | (settings, []) => return ofSettings settings
  | _ => none

/-- The JSON of a configuration. -/
def toJson (config : Config) : Json :=
  let policy :=
    match config.unknownTags with
    | .all allowed => Json.bool allowed
    | .only titles => Json.strings titles
  .object [("tags", .object [("allowUnknownTags", policy),
    ("dictionaries", Json.strings config.tagSets)])]

end Config

end Commentary
