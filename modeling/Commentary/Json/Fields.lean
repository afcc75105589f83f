import Commentary.Json.Basic

/-!
# Members of JSON objects

Writing and reading the members of an object that may be left out. What is left out, or null, reads
as its default; a member that is there and does not fit makes the whole unreadable.
-/

namespace Commentary.Json

/-- A member that is left out if there is no value. -/
def member? {α : Type} (key : String) (encode : α → Json) : Option α → List (String × Json)
  | some value => [(key, encode value)]
  | none => []

/-- A member that is left out if its list is empty. -/
def memberList {α : Type} (key : String) (encode : α → Json) : List α → List (String × Json)
  | [] => []
  | values => [(key, .array (values.map encode))]

/-- A member that is left out if it is false. -/
def memberFlag (key : String) : Bool → List (String × Json)
  | true => [(key, .bool true)]
  | false => []

/-- Reads a string. -/
def asString? : Json → Option String
  | .string s => some s
  | _ => none

/-- Reads a truth value. -/
def asBool? : Json → Option Bool
  | .bool b => some b
  | _ => none

/-- The number that decimal digits write. -/
def natOfDigits? (digits : List Char) : Option Nat :=
  if digits.isEmpty || !digits.all Char.isDigit then none
  else some (digits.foldl (fun n c => n * 10 + (c.toNat - 48)) 0)

/-- Reads a natural number. -/
def asNat? : Json → Option Nat
  | .number spelling => natOfDigits? spelling.toList
  | _ => none

/-- Reads an array. -/
def asArray? {α : Type} (decode : Json → Option α) : Json → Option (List α)
  | .array items => items.mapM decode
  | _ => none

/-- Reads a member that may be left out or null. -/
def optional? {α : Type} (decode : Json → Option α) (key : String) (value : Json) :
    Option (Option α) :=
  match value.get? key with
  | none | some .null => some none
  | some found => (decode found).map some

/-- Reads a member that has a default. -/
def withDefault? {α : Type} (default : α) (decode : Json → Option α) (key : String)
    (value : Json) : Option α :=
  (value.optional? decode key).map (·.getD default)

/-- Reads a text that is empty if it is left out. -/
def text? (key : String) (value : Json) : Option String := value.withDefault? "" asString? key

/-- Reads a flag that is false if it is left out. -/
def flag? (key : String) (value : Json) : Option Bool := value.withDefault? false asBool? key

/-- Reads a list that is empty if it is left out. -/
def list? {α : Type} (decode : Json → Option α) (key : String) (value : Json) :
    Option (List α) :=
  value.withDefault? [] (asArray? decode) key

/-- Whether a value is an object. -/
def isObject : Json → Bool
  | .object _ => true
  | _ => false

end Commentary.Json
