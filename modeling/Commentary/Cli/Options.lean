/-!
# Command-line options

Reads the arguments of a run. Arguments that start with a hyphen are options, up to `--`; all others
name sources. Options may be written long (`--format md`, `--format=md`) or short (`-f md`, `-fmd`,
`-f=md`), and short ones may share a hyphen (`-vf md`). Only `--dictionary` may be given twice.
-/

namespace Commentary.Cli

/-- What a run is asked to do. -/
structure Options where
  /-- Files, folders and patterns. Without any, the source is standard input. -/
  sources : List String := []
  output : Option String := none
  format : Option String := none
  config : Option String := none
  /-- Tag sets that take the place of those configured, if there are any. -/
  tagSets : List String := []
  noUnknownTags : Bool := false
  /-- Asks for more remarks. There are none that a run keeps back otherwise. -/
  verbose : Bool := false
  /-- Asks for errors only. -/
  quiet : Bool := false
deriving DecidableEq, Repr, Inhabited

/-- An option that has a value. -/
inductive Setting where
  | output
  | format
  | config
  | tagSet
deriving DecidableEq, Repr

/-- An option that has none. -/
inductive Flag where
  | noUnknownTags
  | verbose
  | quiet
  | help
deriving DecidableEq, Repr

/-- An option. -/
inductive Switch where
  | setting (setting : Setting)
  | flag (flag : Flag)
deriving DecidableEq, Repr

namespace Switch

/-- The option of a long name. -/
def ofLong? : String → Option Switch
  | "output" => some (.setting .output)
  | "format" => some (.setting .format)
  | "config" => some (.setting .config)
  | "dictionary" => some (.setting .tagSet)
  | "no-unknown-tags" => some (.flag .noUnknownTags)
  | "verbose" => some (.flag .verbose)
  | "quiet" => some (.flag .quiet)
  | "help" => some (.flag .help)
  | _ => none

/-- The option of a letter. -/
def ofLetter? : Char → Option Switch
  | 'o' => some (.setting .output)
  | 'f' => some (.setting .format)
  | 'v' => some (.flag .verbose)
  | 'q' => some (.flag .quiet)
  | 'h' => some (.flag .help)
  | _ => none

end Switch

/-- What is wrong with the arguments of a run. -/
inductive Misuse where
  | unknown (option : String)
  | repeated (setting : Setting)
  | repeatedFlag (flag : Flag)
  | missingValue (setting : Setting)
  | emptyValue (setting : Setting)
  | unwantedValue (flag : Flag)
  /-- A run cannot say more and less at once. -/
  | verboseAndQuiet
deriving DecidableEq, Repr

/-- The long name of an option with a value. -/
def Setting.text : Setting → String
  | .output => "--output"
  | .format => "--format"
  | .config => "--config"
  | .tagSet => "--dictionary"

/-- The long name of an option without a value. -/
def Flag.text : Flag → String
  | .noUnknownTags => "--no-unknown-tags"
  | .verbose => "--verbose"
  | .quiet => "--quiet"
  | .help => "--help"

/-- The wording of a misuse. -/
def Misuse.message : Misuse → String
  | .unknown option => "unexpected argument " ++ option
  | .repeated setting => setting.text ++ " cannot be used multiple times"
  | .repeatedFlag flag => flag.text ++ " cannot be used multiple times"
  | .missingValue setting => setting.text ++ " needs a value"
  | .emptyValue setting => setting.text ++ " needs a value that is not empty"
  | .unwantedValue flag => flag.text ++ " takes no value"
  | .verboseAndQuiet => "--verbose cannot be used with --quiet"

namespace Options

/-- Gives an option that may stand once its value. -/
def setOnce (setting : Setting) (current : Option String) (value : String) :
    Except Misuse (Option String) :=
  if current.isSome then .error (.repeated setting) else .ok (some value)

/-- Gives an option a value that names a file. -/
def setPath (setting : Setting) (current : Option String) (value : String) :
    Except Misuse (Option String) :=
  if value.isEmpty then .error (.emptyValue setting) else setOnce setting current value

/-- Gives an option its value. -/
def set (options : Options) (setting : Setting) (value : String) : Except Misuse Options :=
  match setting with
  | .output => (setPath .output options.output value).map fun output => { options with output }
  | .format => (setOnce .format options.format value).map fun format => { options with format }
  | .config => (setPath .config options.config value).map fun config => { options with config }
  | .tagSet => .ok { options with tagSets := options.tagSets ++ [value] }

/-- Whether an option without a value has been given. -/
def has (options : Options) : Flag → Bool
  | .noUnknownTags => options.noUnknownTags
  | .verbose => options.verbose
  | .quiet => options.quiet
  | .help => false

/-- Gives an option without a value. -/
def raise (options : Options) (flag : Flag) : Except Misuse Options :=
  if options.has flag then .error (.repeatedFlag flag)
  else .ok <| match flag with
    | .noUnknownTags => { options with noUnknownTags := true }
    | .verbose => { options with verbose := true }
    | .quiet => { options with quiet := true }
    | .help => options

end Options

/-! ## Reading arguments -/

/-- What is to be read behind an argument. -/
inductive Next where
  /-- More arguments. -/
  | more (options : Options)
  /-- The value of an option. -/
  | value (options : Options) (setting : Setting)
  /-- Names of sources only. -/
  | sources (options : Options)
  /-- Nothing, because help is asked for. -/
  | help

/-- Reads a long option, without its hyphens. -/
def readLong (options : Options) (cs : List Char) : Except Misuse Next :=
  let name := String.ofList (cs.takeWhile (· != '='))
  let value? := match cs.dropWhile (· != '=') with
    | [] => none
    | _ :: value => some (String.ofList value)
  match Switch.ofLong? name, value? with
  | none, _ => .error (.unknown ("--" ++ name))
  | some (.flag flag), some _ => .error (.unwantedValue flag)
  | some (.flag .help), none => .ok .help
  | some (.flag flag), none => (options.raise flag).map .more
  | some (.setting setting), some value => (options.set setting value).map .more
  | some (.setting setting), none => .ok (.value options setting)

/-- Reads options of one letter each that share a hyphen. What follows a letter that has a value is
its value, without an equals sign in front. -/
def readLetters (options : Options) : List Char → Except Misuse Next
  | [] => .ok (.more options)
  | c :: rest =>
    match Switch.ofLetter? c with
    | none => .error (.unknown ("-" ++ String.singleton c))
    | some (.flag .help) => .ok .help
    | some (.flag flag) => do
      let options ← options.raise flag
      readLetters options rest
    | some (.setting setting) =>
      match rest with
      | [] => .ok (.value options setting)
      | '=' :: value | value => (options.set setting (String.ofList value)).map .more

/-- Reads an argument. A hyphen alone is the name of a source. -/
def readArgument (options : Options) (argument : String) : Except Misuse Next :=
  match argument.toList with
  | ['-', '-'] => .ok (.sources options)
  | '-' :: '-' :: cs => readLong options cs
  | '-' :: c :: cs => readLetters options (c :: cs)
  | _ => .ok (.more { options with sources := options.sources ++ [argument] })

/-- Whether an argument can be the value of the option before it. -/
def canBeValue (argument : String) : Bool :=
  match argument.toList with
  | '-' :: _ :: _ => false
  | _ => true

/-- What arguments ask for. -/
inductive Request where
  | help
  | run (options : Options)
deriving DecidableEq, Repr

/-- The request of options that have all been read. -/
def Request.ofOptions (options : Options) : Except Misuse Request :=
  if options.verbose && options.quiet then .error .verboseAndQuiet else .ok (.run options)

/-- Reads arguments one after the other. -/
def readArguments (options : Options) : List String → Except Misuse Request
  | [] => Request.ofOptions options
  | argument :: arguments => do
    match ← readArgument options argument with
    | .more options => readArguments options arguments
    | .sources options =>
      Request.ofOptions { options with sources := options.sources ++ arguments }
    | .help => .ok .help
    | .value options setting =>
      match arguments with
      | [] => .error (.missingValue setting)
      | value :: arguments =>
        if canBeValue value then do
          let options ← options.set setting value
          readArguments options arguments
        else .error (.missingValue setting)

/-- Reads the arguments of a run. -/
def Request.parse (arguments : List String) : Except Misuse Request := readArguments {} arguments

end Commentary.Cli
