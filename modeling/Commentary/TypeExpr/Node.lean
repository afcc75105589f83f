/-!
# Types as trees

The tree of a type expression and its canonical text. The text writes every generic type with a dot,
every union in parentheses, and every modifier next to the type it modifies.
-/

namespace Commentary.TypeExpr

/-- What a type may be marked with: nullable or not, optional, repeatable. -/
structure Modifiers where
  nullable : Option Bool := none
  optional : Bool := false
  repeatable : Bool := false
deriving DecidableEq, Repr

mutual

/-- A type. -/
inductive Node where
  | name (text : String)
  | any
  | unknown
  | union (members : List Node)
  | generic (base : String) (params : List Node)
  | function (receiver : Option Receiver) (params : List Node) (returns : Option Node)
  | record (fields : List Field)
  | modified (inner : Node) (modifiers : Modifiers)

/-- What a function is called on: the object it constructs, or the one it is bound to. -/
inductive Receiver where
  | constructed (type : Node)
  | bound (type : Node)

/-- A field of a record, with or without a type. -/
inductive Field where
  | bare (key : String)
  | typed (key : String) (type : Node)

end

/-- Marks a type; no marks leave it as it is. -/
def Node.withModifiers (node : Node) (modifiers : Modifiers) : Node :=
  if modifiers = {} then node else .modified node modifiers

/-- The marks in front of a type. -/
def Modifiers.leading (m : Modifiers) : String :=
  (if m.repeatable then "..." else "") ++
    match m.nullable with
    | some true => "?"
    | some false => "!"
    | none => ""

/-- The marks behind a type. -/
def Modifiers.trailing (m : Modifiers) : String := if m.optional then "=" else ""

mutual

/-- The canonical text of a type. -/
def Node.render : Node → String
  | .name text => text
  | .any => "*"
  | .unknown => "?"
  | .union members => "(" ++ String.intercalate "|" (renderAll members) ++ ")"
  | .generic base params => base ++ ".<" ++ String.intercalate ", " (renderAll params) ++ ">"
  | .function receiver params returns =>
    "function(" ++ String.intercalate ", " (renderReceiver receiver ++ renderAll params) ++ ")" ++
      renderReturns returns
  | .record fields => "\x7b" ++ String.intercalate ", " (renderFields fields) ++ "\x7d"
  | .modified inner modifiers => modifiers.leading ++ inner.render ++ modifiers.trailing

/-- The texts of several types. -/
def renderAll : List Node → List String
  | [] => []
  | node :: rest => node.render :: renderAll rest

/-- The text of a receiver, as the first parameter. -/
def renderReceiver : Option Receiver → List String
  | some (.constructed type) => ["new:" ++ type.render]
  | some (.bound type) => ["this:" ++ type.render]
  | none => []

/-- The text of a result type. -/
def renderReturns : Option Node → String
  | some type => ": " ++ type.render
  | none => ""

/-- The texts of several fields. -/
def renderFields : List Field → List String
  | [] => []
  | .bare key :: rest => key :: renderFields rest
  | .typed key type :: rest => (key ++ ": " ++ type.render) :: renderFields rest

end

@[simp]
theorem renderAll_eq_map (nodes : List Node) : renderAll nodes = nodes.map Node.render := by
  induction nodes with
  | nil => simp [renderAll]
  | cons node rest ih => simp [renderAll, ih]

/-- The names that a type reports: one for each member of a union, else one. -/
def Node.names : Node → List String
  | .union members => members.map Node.render
  | node => [node.render]

end Commentary.TypeExpr
