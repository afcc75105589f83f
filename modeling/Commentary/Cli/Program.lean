import Commentary.Cli.Options
import Commentary.Files.Search
import Commentary.Run

/-!
# The program

What a run does on a host: it reads its configuration and its sources, documents them, and writes
the document. The first thing that fails ends the run; remarks made before that still count.
-/

namespace Commentary.Cli

open Commentary.Files
open Commentary.Render (Format)

/-- Why a run failed. -/
inductive Failure where
  | misuse (cause : Misuse)
  | configUnread (path : String)
  | configInvalid (path : String)
  | inputUnread
  | folderUnread (path : String)
  | patternInvalid (pattern : String)
  | noSources
  | sourceUnread (path : String)
  | unresolved (problem : Problem)
  | formatUnknown (name : String)
  | folderNotMade (path : String)
  | notWritten (path : String)
deriving DecidableEq, Repr

namespace Failure

/-- The wording of a failure. -/
def message : Failure → String
  | .misuse cause => cause.message
  | .configUnread path => "failed to read config: " ++ path
  | .configInvalid path => "invalid config: " ++ path
  | .inputUnread => "failed to read stdin"
  | .folderUnread path => "failed to read directory: " ++ path
  | .patternInvalid pattern => "invalid glob pattern: " ++ pattern
  | .noSources => "no input files found"
  | .sourceUnread path => "failed to read " ++ path
  | .unresolved _ => "failed to resolve doclets"
  | .formatUnknown name => Format.unknownMessage name
  | .folderNotMade path => "failed to create output directory: " ++ path
  | .notWritten path => "failed to write " ++ path

/-- The exit status of a run that failed. -/
def status : Failure → Nat
  | .misuse _ => 2
  | _ => 1

end Failure

/-- Something a run says besides its result. -/
inductive Remark where
  | notice (told : Notice)
  /-- A pattern stands for no file. -/
  | unmatched (pattern : String)
deriving DecidableEq, Repr

namespace Remark

/-- How much a remark weighs. -/
def severity : Remark → Severity
  | .notice told => told.severity
  | .unmatched _ => .warning

/-- The wording of a remark. -/
def message : Remark → String
  | .notice told => told.message
  | .unmatched pattern => "no files matched: " ++ pattern

end Remark

/-- A part of a run. It collects remarks and may fail. -/
abbrev Task (m : Type → Type) : Type → Type := ExceptT Failure (StateT (List Remark) m)

namespace Task

variable {m : Type → Type} [Monad m] {α : Type}

/-- Makes a remark. -/
def remark (r : Remark) : Task m Unit := modify (· ++ [r])

/-- A result whose notices become remarks. -/
def ofNoted (noted : Noted α) : Task m α := do
  modify (· ++ noted.notices.map .notice)
  return noted.value

/-- A result that may be a failure. -/
def ofExcept (result : Except Failure α) : Task m α :=
  match result with
  | .ok a => pure a
  | .error failure => throw failure

/-- What a host answers, or else a failure. -/
def ask (answer : m (Option α)) (failure : Failure) : Task m α := do
  match ← (liftM answer : Task m (Option α)) with
  | some a => return a
  | none => throw failure

/-- Has a host do something, or else fails. -/
def require (done : m Bool) (failure : Failure) : Task m Unit := do
  unless ← (liftM done : Task m Bool) do throw failure

end Task

variable {m : Type → Type} [Monad m]

/-! ## Configuration -/

/-- The configuration with the changes that options make to it. -/
def Options.override (options : Options) (config : Config) : Config :=
  { unknownTags := if options.noUnknownTags then .all false else config.unknownTags
    tagSets := if options.tagSets.isEmpty then config.tagSets else options.tagSets }

/-- The configuration of a run. -/
def loadConfig (host : Host m) (options : Options) : Task m Config := do
  match options.config with
  | none => return options.override {}
  | some path =>
    let text ← Task.ask (host.read? path) (.configUnread path)
    match Config.parse? text with
    | some config => return options.override config
    | none => throw (.configInvalid path)

/-! ## Sources -/

/-- The extensions of source files. -/
def sourceExtensions : List String := ["js", "mjs", "cjs"]

/-- Whether a path has the extension of a source file. -/
def isSource (path : String) : Bool := (Path.extension? path).any sourceExtensions.contains

/-- The source files in a folder, not counting those in folders below it. -/
def sourcesIn (host : Host m) (folder : String) : Task m (List String) := do
  let names ← Task.ask (host.names? folder) (.folderUnread folder)
  let files ← liftM ((names.map (Path.join folder)).filterM host.isFile)
  return files.filter isSource

/-- The files that an argument names: a file itself, the sources in a folder, or the files that a
pattern stands for. -/
def filesOf (host : Host m) (argument : String) : Task m (List String) := do
  match ← (liftM (host.kind? argument) : Task m (Option Entry)) with
  | some .file => return [argument]
  | some .folder => sourcesIn host argument
  | none =>
    match Pattern.parse? argument with
    | none => throw (.patternInvalid argument)
    | some pattern => do
      let files ← liftM (pattern.files host)
      if files.isEmpty then Task.remark (.unmatched argument)
      return files

/-- The files that arguments name, in order and each once. -/
def findSources (host : Host m) (arguments : List String) : Task m (List String) := do
  let found ← arguments.mapM (filesOf host)
  let paths := Path.sorted found.flatten
  if paths.isEmpty then throw .noSources
  return paths

/-- The name of standard input as a source. -/
def inputName : String := "<stdin>"

/-! ## Documents -/

/-- Ends a session. -/
def resolve {σ : Type} (session : Session σ) : Task m Docset := do
  let (result, _) ← Task.ofNoted session.finish
  match result with
  | .ok docset => return docset
  | .error problem => throw (.unresolved problem)

/-- Documents standard input. -/
def documentInput (host : Host m) (dictionary : Dictionary) : Task m Docset := do
  let text ← Task.ask host.input .inputUnread
  let session : Session Unit := { dictionary, state := () }
  let session ← Task.ofNoted ((session.begin [inputName]).addFile ⟨inputName, text⟩)
  resolve session

/-- Documents the files that arguments name. -/
def documentFiles (host : Host m) (dictionary : Dictionary) (arguments : List String) :
    Task m Docset := do
  let paths ← findSources host arguments
  let session : Session Unit := { dictionary, state := () }
  let session ← paths.foldlM (fun session path => do
    let text ← Task.ask (host.read? path) (.sourceUnread path)
    Task.ofNoted (session.addFile ⟨path, text⟩)) (session.begin paths)
  resolve session

/-- The format of the document: the one asked for, or else the one that the name of the output
implies, or else JSON. -/
def Options.documentFormat (options : Options) : Except Failure Format :=
  match options.format with
  | none => .ok ((options.output.bind Format.ofPath?).getD .json)
  | some name =>
    match Format.ofName? name with
    | some format => .ok format
    | none => .error (.formatUnknown name)

/-- Writes a document to a file, with the folders around it. -/
def writeDocument (host : Host m) (path text : String) : Task m Unit := do
  match Path.parent? path with
  | some parent =>
    unless parent.isEmpty do Task.require (host.makeFolders parent) (.folderNotMade parent)
  | none => pure ()
  Task.require (host.write path text) (.notWritten path)

/-- Does what options ask for, and gives the text for standard output. -/
def perform (host : Host m) (options : Options) : Task m String := do
  let config ← loadConfig host options
  let dictionary ← Task.ofNoted (Dictionary.ofConfig config)
  let docset ← if options.sources.isEmpty then documentInput host dictionary
    else documentFiles host dictionary options.sources
  let format ← Task.ofExcept options.documentFormat
  let text := format.render docset.shown
  match options.output with
  | none => return text
  | some path => do
    writeDocument host path text
    return ""

/-! ## Runs -/

/-- What a run leaves behind, besides files. -/
structure Report where
  /-- The text for standard output. -/
  output : String := ""
  failure : Option Failure := none
  /-- The remarks that are shown. -/
  remarks : List Remark := []
deriving DecidableEq, Repr

/-- The exit status of a run. -/
def Report.status (report : Report) : Nat := (report.failure.map Failure.status).getD 0

/-- Whether a remark is shown. A quiet run shows errors only. -/
def Options.shows (options : Options) (remark : Remark) : Bool :=
  !options.quiet || remark.severity = .error

/-- The help text. -/
def help : String := String.intercalate "\n"
  ["Generate API documentation from JSDoc comments in JavaScript sources",
   "",
   "Options:",
   "  -o, --output <OUTPUT>           Output file (defaults to stdout)",
   "  -f, --format <FORMAT>           Output format: json, markdown",
   "      --config <CONFIG>           JSON configuration file",
   "      --dictionary <DICTIONARY>   Tag dictionary to load (jsdoc, closure)",
   "      --no-unknown-tags           Reject tags that no loaded dictionary defines",
   "  -v, --verbose                   Log debug output",
   "  -q, --quiet                     Only log errors",
   "  -h, --help                      Print help",
   ""]

/-- Runs the program with some arguments. -/
def run (host : Host m) (arguments : List String) : m Report := do
  match Request.parse arguments with
  | .error misuse => return { failure := some (.misuse misuse) }
  | .ok .help => return { output := help }
  | .ok (.run options) =>
    let (result, remarks) ← ((perform host options).run).run []
    let remarks := remarks.filter options.shows
    match result with
    | .ok output => return { output, remarks }
    | .error failure => return { failure := some failure, remarks }

end Commentary.Cli
