import Commentary.TypeExpr.Node
import Commentary.TypeExpr.Token

/-!
# Reading a type expression

The grammar, from the outside in. A *modified* type is a union between leading and trailing marks; a
*union* is members with bars between them; a *member* is an atom behind marks of nullability; an
*atom* is a name, a literal, a function, a record or a modified type in parentheses, followed by any
number of type parameter lists and `[]`. Only atoms are recursive. Each takes at least one token, so
as many levels as there are tokens are enough.
-/

namespace Commentary.TypeExpr

/-- Reads a value off the front of the lexemes and gives the rest. -/
abbrev Reader (α : Type) := List Lexeme → Except Error (α × List Lexeme)

/-- The offset at which the next token starts; `stop` is where the expression ends. -/
def nextOffset (stop : Nat) : List Lexeme → Nat
  | [] => stop
  | lexeme :: _ => lexeme.offset

/-- The next token. -/
def peek? (ts : List Lexeme) : Option Token := ts.head?.map Lexeme.token

/-- Whether the next token is the given one. -/
def nextIs (token : Token) (ts : List Lexeme) : Bool := peek? ts == some token

/-- Whether the next token can start a type that carries no marks. -/
def startsType (ts : List Lexeme) : Bool :=
  match peek? ts with
  | some (.name _) | some (.literal _) | some .lparen | some .lbrace | some .star => true
  | _ => false

/-- Takes the given token. -/
def expect (stop : Nat) (token : Token) : Reader Unit := fun ts =>
  if nextIs token ts then .ok ((), ts.tail)
  else .error ⟨.expected token (peek? ts), nextOffset stop ts⟩

/-! ## Marks -/

/-- Takes the marks in front of a type. A question mark counts only in front of a type. -/
def leadingMarks (m : Modifiers) : List Lexeme → Modifiers × List Lexeme
  | [] => (m, [])
  | lexeme :: rest =>
    match lexeme.token with
    | .ellipsis => leadingMarks { m with repeatable := true } rest
    | .question =>
      if startsType rest then leadingMarks { m with nullable := some true } rest
      else (m, lexeme :: rest)
    | .bang => leadingMarks { m with nullable := some false } rest
    | _ => (m, lexeme :: rest)

/-- Takes the marks of nullability in front of a member. -/
def memberMarks (m : Modifiers) : List Lexeme → Modifiers × List Lexeme
  | [] => (m, [])
  | lexeme :: rest =>
    match lexeme.token with
    | .question =>
      if startsType rest then memberMarks { m with nullable := some true } rest
      else (m, lexeme :: rest)
    | .bang => memberMarks { m with nullable := some false } rest
    | _ => (m, lexeme :: rest)

/-- Takes the marks behind a type. -/
def trailingMarks (m : Modifiers) : List Lexeme → Modifiers × List Lexeme
  | [] => (m, [])
  | lexeme :: rest =>
    match lexeme.token with
    | .equals => trailingMarks { m with optional := true } rest
    | .question => trailingMarks { m with nullable := some true } rest
    | .bang => trailingMarks { m with nullable := some false } rest
    | _ => (m, lexeme :: rest)

/-! ## Lists -/

/-- Takes up to `n` more items, each behind a separator. -/
def moreItems {α : Type} (separator : Token) (item : Reader α) : Nat → Reader (List α)
  | 0, ts => .ok ([], ts)
  | n + 1, ts =>
    if nextIs separator ts then do
      let (x, ts) ← item ts.tail
      let (xs, ts) ← moreItems separator item n ts
      return (x :: xs, ts)
    else .ok ([], ts)

/-- Takes one or more items with separators between them. -/
def items {α : Type} (separator : Token) (item : Reader α) : Reader (List α) := fun ts => do
  let (x, ts) ← item ts
  let (xs, ts) ← moreItems separator item ts.length ts
  return (x :: xs, ts)

/-! ## Types, given a reader of atoms -/

/-- Reads an atom behind marks of nullability. -/
def member (atom : Reader Node) : Reader Node := fun ts => do
  let (marks, ts) := memberMarks {} ts
  let (node, ts) ← atom ts
  return (node.withModifiers marks, ts)

/-- Reads members with bars between them; a single member is no union. -/
def union (atom : Reader Node) : Reader Node := fun ts => do
  let (members, ts) ← items .pipe (member atom) ts
  match members with
  | [node] => return (node, ts)
  | members => return (.union members, ts)

/-- Reads a type and keeps its marks apart. Dots without a type stand for any type. -/
def modified (atom : Reader Node) : Reader (Node × Modifiers) := fun ts => do
  let (marks, ts) := leadingMarks {} ts
  let (node, ts) ←
    if marks.repeatable && !startsType ts && !nextIs .question ts then .ok (Node.any, ts)
    else union atom ts
  let (marks, ts) := trailingMarks marks ts
  return ((node, marks), ts)

/-- Reads a type with its marks. -/
def inner (atom : Reader Node) : Reader Node := fun ts => do
  let ((node, marks), ts) ← modified atom ts
  return (node.withModifiers marks, ts)

/-- A parameter of a function type: its receiver or an ordinary parameter. -/
inductive Param where
  | receiver (receiver : Receiver)
  | ordinary (type : Node)

/-- Reads a parameter of a function type. -/
def param (type : Reader Node) : Reader Param := fun ts =>
  match ts with
  | ⟨.name "new", _⟩ :: ⟨.colon, _⟩ :: rest => do
    let (node, rest) ← type rest
    return (.receiver (.constructed node), rest)
  | ⟨.name "this", _⟩ :: ⟨.colon, _⟩ :: rest => do
    let (node, rest) ← type rest
    return (.receiver (.bound node), rest)
  | ts => do
    let (node, rest) ← type ts
    return (.ordinary node, rest)

/-- The receiver among the parameters of a function; the last one counts. -/
def receiverOf (params : List Param) : Option Receiver :=
  params.reverse.findSome? fun
    | .receiver receiver => some receiver
    | .ordinary _ => none

/-- The ordinary parameters of a function. -/
def ordinaryOf (params : List Param) : List Node :=
  params.filterMap fun
    | .receiver _ => none
    | .ordinary type => some type

/-- Reads the parameters in parentheses and the result of a function type. -/
def function (stop : Nat) (type : Reader Node) : Reader Node := fun ts => do
  let (_, ts) ← expect stop .lparen ts
  let (params, ts) ←
    if nextIs .rparen ts then .ok ([], ts.tail)
    else do
      let (params, ts) ← items .comma (param type) ts
      let (_, ts) ← expect stop .rparen ts
      .ok (params, ts)
  if nextIs .colon ts then do
    let (node, ts) ← type ts.tail
    return (.function (receiverOf params) (ordinaryOf params) (some node), ts)
  else return (.function (receiverOf params) (ordinaryOf params) none, ts)

/-- Reads a field of a record. -/
def field (stop : Nat) (type : Reader Node) : Reader Field := fun ts =>
  match ts with
  | [] => .error ⟨.unterminatedRecord, stop⟩
  | lexeme :: rest =>
    match lexeme.token with
    | .name key | .literal key =>
      if nextIs .colon rest then do
        let (node, rest) ← type rest.tail
        return (.typed key node, rest)
      else .ok (.bare key, rest)
    | token => .error ⟨.expectedFieldName token, lexeme.offset⟩

/-- Reads the fields of a record up to the brace that closes it. -/
def record (stop : Nat) (type : Reader Node) : Reader Node := fun ts =>
  if nextIs .rbrace ts then .ok (.record [], ts.tail)
  else do
    let (fields, ts) ← items .comma (field stop type) ts
    let (_, ts) ← expect stop .rbrace ts
    return (.record fields, ts)

/-- Reads the first part of an atom. -/
def atomHead (stop : Nat) (type : Reader Node) : Reader Node := fun ts =>
  match ts with
  | [] => .error ⟨.unexpectedEnd, stop⟩
  | lexeme :: rest =>
    match lexeme.token with
    | .lparen => do
      let (node, rest) ← type rest
      let (_, rest) ← expect stop .rparen rest
      return (node, rest)
    | .star => .ok (.any, rest)
    | .question => .ok (.unknown, rest)
    | .lbrace => record stop type rest
    | .name text =>
      if text == "function" && nextIs .lparen rest then function stop type rest
      else .ok (.name text, rest)
    | .literal text => .ok (.name text, rest)
    | token => .error ⟨.unexpected token, lexeme.offset⟩

/-- The base of a generic type: a name without the dot that may end it. -/
def genericBase (name : String) : String :=
  if name.toList.getLast? = some '.' then String.ofList name.toList.dropLast else name

/-- Reads up to `n` type parameter lists and `[]` behind a type. -/
def atomTail (stop : Nat) (type : Reader Node) : Nat → Node → Reader Node
  | 0, node, ts => .ok (node, ts)
  | n + 1, node, ts =>
    match ts with
    | ⟨.langle, offset⟩ :: rest =>
      match node with
      | .name base => do
        let (params, rest) ← items .comma type rest
        let (_, rest) ← expect stop .rangle rest
        atomTail stop type n (.generic (genericBase base) params) rest
      | _ => .error ⟨.parametersOnNonName, offset⟩
    | ⟨.lbracket, _⟩ :: ⟨.rbracket, _⟩ :: rest =>
      atomTail stop type n (.generic "Array" [node]) rest
    | ts => .ok (node, ts)

/-! ## The grammar -/

/-- Reads an atom with at most the given number of levels; `stop` is where the expression ends. -/
def atom (stop : Nat) : Nat → Reader Node
  | 0, ts => .error ⟨.unexpectedEnd, nextOffset stop ts⟩
  | levels + 1, ts => do
    let type := inner (atom stop levels)
    let (node, ts) ← atomHead stop type ts
    atomTail stop type ts.length node ts

/-- What a type expression says: the names of its types, and its marks where it has them. -/
structure Summary where
  names : List String := []
  optional : Option Bool := none
  nullable : Option Bool := none
  repeatable : Option Bool := none
deriving DecidableEq, Repr, Inhabited

/-- A mark that is set, or nothing. -/
def onlySet (mark : Bool) : Option Bool := if mark then some true else none

/-- Reads a whole list of lexemes as a type and its marks. -/
def readAll (stop : Nat) (ts : List Lexeme) : Except Error (Node × Modifiers) := do
  let (result, rest) ← modified (atom stop ts.length) ts
  match rest with
  | [] => return result
  | lexeme :: _ => .error ⟨.unexpected lexeme.token, lexeme.offset⟩

/-- Reads a type expression. A blank expression says nothing. -/
def parse (expression : String) : Except Error Summary := do
  let ts ← lex expression
  if ts.isEmpty then return {}
  let (node, marks) ← readAll expression.utf8ByteSize ts
  return {
    names := node.names
    optional := onlySet marks.optional
    nullable := marks.nullable
    repeatable := onlySet marks.repeatable }

end Commentary.TypeExpr
