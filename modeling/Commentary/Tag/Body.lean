import Commentary.Text.Blank
import Commentary.TypeExpr.Parser

/-!
# The body of a tag

The text behind a tag title can hold a type in braces, a name and a description. This module takes
such a text apart. A name in brackets is optional and may carry a default value; a dash between name
and description belongs to neither.
-/

namespace Commentary.Tag

open Commentary.Text

/-! ## Name and description -/

/-- Where a scan of a bracketed name stands: how many brackets are open, the quotation mark that is
open, and whether a backslash protects the next character. -/
structure BracketScan where
  depth : Nat := 0
  quote : Option Char := none
  escaped : Bool := false
deriving DecidableEq, Repr

/-- What one character does to a scan that no backslash holds up. -/
def BracketScan.step (scan : BracketScan) (c : Char) : BracketScan :=
  if c = '\\' then { scan with escaped := true }
  else match scan.quote with
    | some mark => if c = mark then { scan with quote := none } else scan
    | none =>
      if isQuote c then { scan with quote := some c }
      else if c = '[' then { scan with depth := scan.depth + 1 }
      else if c = ']' then { scan with depth := scan.depth - 1 }
      else scan

/-- Cuts a text behind the bracket that closes its first one. -/
def splitBrackets (scan : BracketScan) : List Char → Option (List Char × List Char)
  | [] => none
  | c :: rest =>
    if scan.escaped then
      (splitBrackets { scan with escaped := false } rest).map fun (name, after) =>
        (c :: name, after)
    else if c = ']' ∧ scan.quote = none ∧ scan.depth ≤ 1 then some ([c], rest)
    else (splitBrackets (scan.step c) rest).map fun (name, after) => (c :: name, after)

/-- Cuts a text behind its last closing bracket. -/
def splitLastBracket (cs : List Char) : Option (List Char × List Char) :=
  match cs.reverse.span (· != ']') with
  | (_, []) => none
  | (after, before) => some (before.reverse, after.reverse)

/-- Cuts a text behind its leading name. A name in brackets runs to the bracket that closes it, or
else to the last closing bracket; any other name runs to the first blank. -/
def splitName (cs : List Char) : List Char × List Char :=
  if cs.head? = some '[' then
    ((splitBrackets {} cs).or (splitLastBracket cs)).getD (splitAtBlank cs)
  else splitAtBlank cs

/-- A description without the dash that sets it off from a name. -/
def dropDash (hasName : Bool) (cs : List Char) : List Char :=
  match trimStartChars cs with
  | '-' :: rest => if hasName then trimStartChars rest else '-' :: rest
  | rest => rest

/-- The leading name of a text and the description behind it, as characters. -/
def splitDescriptionChars (cs : List Char) : List Char × List Char :=
  let (name, rest) := splitName (trimStartChars cs)
  (name, trimEndChars (dropDash (!name.isEmpty) rest))

/-- The leading name of a text and the description behind it. -/
def splitDescription (s : String) : String × String :=
  let (name, description) := splitDescriptionChars s.toList
  (String.ofList name, String.ofList description)

/-! ## Type -/

/-- Reads a type behind `depth` opened braces up to the brace that closes the first; `read` is what
has been read, in reverse. A backslash in front of a brace is dropped. -/
def readType (depth : Nat) (read : List Char) : List Char → Option (List Char × List Char)
  | [] => none
  | '\\' :: [] => none
  | '\\' :: c :: rest =>
    if c = '\x7b' ∨ c = '\x7d' then readType depth (c :: read) rest
    else readType depth (c :: '\\' :: read) rest
  | c :: rest =>
    if c = '\x7b' then readType (depth + 1) (c :: read) rest
    else if c = '\x7d' then
      if depth ≤ 1 then some (read.reverse, rest) else readType (depth - 1) (c :: read) rest
    else readType depth (c :: read) rest

/-- The type in braces at the start of a text, and what follows it. -/
def leadingType? : List Char → Option (List Char × List Char)
  | '\x7b' :: rest => (readType 1 [] rest).map fun (type, after) => (trimChars type, after)
  | _ => none

/-- What opens an inline type. -/
def inlineTypeMark : List Char := ['\x7b', '@', 't', 'y', 'p', 'e']

/-- The type of an inline `@type` that starts here, and what follows it. A blank and at least one
more character stand between the mark and the closing brace. -/
def inlineTypeHere? (cs : List Char) : Option (List Char × List Char) :=
  match inlineTypeMark.isPrefixOf? cs with
  | none => none
  | some rest =>
    match rest.span (· != '\x7d') with
    | (blank :: c :: type, _ :: after) =>
      if isBlank blank then some (trimChars (c :: type), after) else none
    | _ => none

/-- The first inline type of a text, and the text without it. -/
def inlineType? : List Char → Option (List Char × List Char)
  | [] => none
  | c :: rest =>
    match inlineTypeHere? (c :: rest) with
    | some found => some found
    | none => (inlineType? rest).map fun (type, text) => (type, c :: text)

/-! ## Optional names -/

/-- A name with what its brackets say about it. -/
structure NamePart where
  name : String
  optional : Option Bool := none
  defaultValue : Option String := none
deriving DecidableEq, Repr

/-- What stands between brackets that enclose a whole name, without the blanks at its ends. Of
blanks alone the last one is kept. -/
def bracketed? (raw : List Char) : Option (List Char) :=
  match raw with
  | '[' :: rest =>
    match rest.reverse with
    | ']' :: last :: content =>
      let inside := trimChars (last :: content).reverse
      some (if inside.isEmpty then [last] else inside)
    | _ => none
  | _ => none

/-- Reads a name. Brackets make it optional, and in them an equals sign sets off a default. -/
def readName (raw : List Char) : NamePart :=
  match bracketed? raw with
  | none => { name := String.ofList raw }
  | some inside =>
    match inside.span (· != '=') with
    | ([], _) => { name := String.ofList inside, optional := some true }
    | (name, []) => { name := String.ofList name, optional := some true }
    | (name, _ :: value) =>
      let value := trimChars value
      { name := String.ofList (trimEndChars name)
        optional := some true
        defaultValue := if value.isEmpty then none else some (String.ofList value) }

/-! ## Whole bodies -/

/-- The parts of a tag body. -/
structure Body where
  typeExpression : Option String := none
  types : List String := []
  name : Option String := none
  text : String := ""
  optional : Option Bool := none
  nullable : Option Bool := none
  repeatable : Option Bool := none
  defaultValue : Option String := none
deriving DecidableEq, Repr, Inhabited

/-- Takes the type off a text: an inline type wins over one in front. -/
def splitType (cs : List Char) : Option (List Char) × List Char :=
  let (leading, rest) :=
    match leadingType? cs with
    | some (type, rest) => (some type, trimChars rest)
    | none => (none, cs)
  match inlineType? rest with
  | some (type, rest) => (some type, trimChars rest)
  | none => (leading, rest)

/-- Takes a body apart without reading its type. -/
def Body.split (text : String) (named typed : Bool) : Body :=
  let cs := trimChars text.toList
  let (type, rest) := if typed then splitType cs else (none, cs)
  let body : Body := { typeExpression := type.map String.ofList }
  if named then
    let (name, description) := splitDescriptionChars rest
    let body := { body with text := String.ofList description }
    if name.isEmpty || name == ['-'] then body
    else
      let part := readName name
      { body with name := some part.name, optional := part.optional,
                  defaultValue := part.defaultValue }
  else { body with text := String.ofList rest }

/-- A grammar of type expressions. -/
abbrev Grammar := String → Except TypeExpr.Error TypeExpr.Summary

/-- Takes a body apart and reads its type. Marks of the type win over those that a name in brackets
implies. -/
def Body.parse (grammar : Grammar) (text : String) (named typed : Bool) :
    Except TypeExpr.Error Body := do
  let body := Body.split text named typed
  match body.typeExpression with
  | none => return body
  | some expression =>
    let summary ← grammar expression
    return { body with
      types := summary.names
      optional := summary.optional.or body.optional
      nullable := summary.nullable.or body.nullable
      repeatable := summary.repeatable.or body.repeatable }

end Commentary.Tag
