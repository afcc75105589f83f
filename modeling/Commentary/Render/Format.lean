import Commentary.Doclet.Json
import Commentary.Path
import Commentary.Render.Markdown

/-!
# Output formats

The formats in which the doclets of a run are written, by name and by the extension of a file.
-/

namespace Commentary.Render

/-- The JSON document of some doclets. -/
def json (doclets : List Doclet) : String :=
  (Json.array (doclets.map Doclet.toJson)).pretty ++ "\n"

/-- A format in which doclets are written. -/
inductive Format where
  | json
  | markdown
deriving DecidableEq, Repr

namespace Format

/-- The format of a name. -/
def ofName? : String → Option Format
  | "json" => some .json
  | "markdown" | "md" => some .markdown
  | _ => none

/-- The wording of an unknown format. -/
def unknownMessage (name : String) : String :=
  "unknown format: " ++ name ++ ". Use json or markdown"

/-- The name of a format. -/
def name : Format → String
  | .json => "json"
  | .markdown => "markdown"

/-- The extension of files in a format. -/
def extension : Format → String
  | .json => "json"
  | .markdown => "md"

/-- The format that the name of a file implies. -/
def ofPath? (path : String) : Option Format :=
  match Path.extension? path with
  | some "json" => some .json
  | some "md" | some "markdown" => some .markdown
  | _ => none

/-- The document of some doclets in a format. -/
def render : Format → List Doclet → String
  | .json => Render.json
  | .markdown => Render.markdown

end Format

end Commentary.Render
