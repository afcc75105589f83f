import Commentary.Json.Basic
import Commentary.Json.Token

/-!
# Reading JSON

JSON text is read off its tokens. A value takes at least one token, so values nest no deeper than
there are tokens.
-/

namespace Commentary.Json

/-- Reads a value of a type off the front of the tokens and gives the rest. -/
abbrev Reader (α : Type) := List Token → Option (α × List Token)

/-- Takes up to `n` more items, each behind a comma. -/
def moreItems {α : Type} (item : Reader α) : Nat → Reader (List α)
  | 0, ts => some ([], ts)
  | n + 1, ts =>
    match ts with
    | .comma :: rest => do
      let (x, rest) ← item rest
      let (xs, rest) ← moreItems item n rest
      return (x :: xs, rest)
    | ts => some ([], ts)

/-- Takes items with commas between them up to the mark that closes them. -/
def itemsUpTo {α : Type} (close : Token) (item : Reader α) : Reader (List α) := fun ts =>
  match ts with
  | [] => none
  | token :: rest =>
    if token = close then some ([], rest)
    else do
      let (x, ts) ← item (token :: rest)
      let (xs, ts) ← moreItems item ts.length ts
      match ts with
      | [] => none
      | token :: rest => if token = close then some (x :: xs, rest) else none

/-- Takes a member: a key, a colon and a value. -/
def member {α : Type} (value : Reader α) : Reader (String × α) := fun ts =>
  match ts with
  | .string (some key) :: .colon :: rest => (value rest).map fun (v, rest) => ((key, v), rest)
  | _ => none

/-- Takes a value that nests at most the given number of levels. -/
def value : Nat → Reader Json
  | 0, _ => none
  | levels + 1, ts =>
    match ts with
    | .null :: rest => some (.null, rest)
    | .bool b :: rest => some (.bool b, rest)
    | .number s :: rest => some (.number s, rest)
    | .string (some s) :: rest => some (.string s, rest)
    | .lbracket :: rest =>
      (itemsUpTo .rbracket (value levels) rest).map fun (items, rest) => (.array items, rest)
    | .lbrace :: rest =>
      (itemsUpTo .rbrace (member (value levels)) rest).map fun (members, rest) =>
        (.object members, rest)
    | _ => none

/-- Reads the tokens of one value. -/
def ofTokens? (ts : List Token) : Option Json :=
  match value ts.length ts with
  | some (v, []) => some v
  | _ => none

/-- Reads a text as one JSON value. -/
def parse? (text : String) : Option Json := (tokens? text).bind ofTokens?

/-- Skips a member whatever its key says. -/
def skipMember (skipValue : Reader Unit) : Reader Unit := fun ts =>
  match ts with
  | .string _ :: .colon :: rest => skipValue rest
  | _ => none

/-- Skips a value that nests at most the given number of levels, whatever its strings say. -/
def skip : Nat → Reader Unit
  | 0, _ => none
  | levels + 1, ts =>
    match ts with
    | .null :: rest | .bool _ :: rest | .number _ :: rest | .string _ :: rest => some ((), rest)
    | .lbracket :: rest =>
      (itemsUpTo .rbracket (skip levels) rest).map fun (_, rest) => ((), rest)
    | .lbrace :: rest =>
      (itemsUpTo .rbrace (skipMember (skip levels)) rest).map fun (_, rest) => ((), rest)
    | _ => none

end Commentary.Json
