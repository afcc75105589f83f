import Commentary.Text.Blank
import Commentary.Text.Letter
import Commentary.Text.Split

/-!
# Reading a line of JavaScript

Small readers, each of which takes one thing off the front of a line of code and gives the rest.
They know just enough of the language to see what a line declares.
-/

namespace Commentary.Script

open Commentary.Text

/-- Takes a word off the front. -/
def word? (word : String) (cs : List Char) : Option (List Char) := word.toList.isPrefixOf? cs

/-- Takes a word off the front, if no word character follows it. -/
def wholeWord? (word : String) (cs : List Char) : Option (List Char) :=
  (word? word cs).filter fun rest => !rest.head?.any isWordChar

/-- Takes a word and the blanks behind it, at least one, off the front. -/
def spacedWord? (word : String) (cs : List Char) : Option (List Char) :=
  match word? word cs with
  | some rest => if rest.head?.any isBlank then some (trimStartChars rest) else none
  | none => none

/-- Takes a character off the front. -/
def mark? (mark : Char) : List Char → Option (List Char)
  | c :: rest => if c = mark then some rest else none
  | [] => none

/-- Whether a character can start an identifier. -/
def startsIdentifier (c : Char) : Bool := c.isAlpha || c == '_' || c == '$'

/-- Whether a character can stand in an identifier, or in a path with dots. -/
def inIdentifier (dotted : Bool) (c : Char) : Bool :=
  isWordChar c || c == '$' || (dotted && c == '.')

/-- Takes an identifier, or a path with dots, off the front. -/
def identifier? (dotted : Bool) : List Char → Option (List Char × List Char)
  | c :: rest =>
    if startsIdentifier c then
      let (more, rest) := rest.span (inIdentifier dotted)
      some (c :: more, rest)
    else none
  | [] => none

/-- Takes what stands in parentheses off the front, up to the first one that closes. -/
def parenthesized? (cs : List Char) : Option (List Char × List Char) := do
  let rest ← mark? '(' cs
  let (inside, rest) := rest.span (· != ')')
  return (inside, ← mark? ')' rest)

/-- Takes an equals sign and the blanks around it off the front. -/
def equals? (cs : List Char) : Option (List Char) := do
  return trimStartChars (← mark? '=' (trimStartChars cs))

/-- The names of parameters. What does not start like a name, behind dots or not, has none. -/
def paramNames (params : List Char) : List String :=
  (splitOn ',' params).filterMap fun param =>
    let param := trimChars param
    let param := (word? "..." param).getD param
    (identifier? false param).map fun (name, _) => String.ofList name

/-- A value up to the end of a line, without a semicolon there; `none` if there is nothing left. -/
def valueText (cs : List Char) : Option String :=
  let cs := if cs.getLast? = some ';' then cs.dropLast else cs
  let cs := trimChars cs
  if cs.isEmpty then none else some (String.ofList cs)

/-! ## Functions as values -/

/-- The parameters of a function expression. -/
def functionExpression? (cs : List Char) : Option (List Char) := do
  let rest ← wholeWord? "function" cs
  let (params, _) ← parenthesized? (rest.dropWhile (· != '('))
  return params

/-- The parameters of an arrow function that has them in parentheses. -/
def arrowFunction? (cs : List Char) : Option (List Char) := do
  let (params, rest) ← parenthesized? cs
  let _ ← word? "=>" (trimStartChars rest)
  return params

/-- The parameter of an arrow function that has it bare. -/
def bareArrowFunction? (cs : List Char) : Option (List Char) := do
  let (param, rest) ← identifier? false cs
  let _ ← word? "=>" (trimStartChars rest)
  return param

/-- Reads behind the word `async` if that works, and else from the front. -/
def perhapsAsync {α : Type} (read : List Char → Option α) (cs : List Char) : Option α :=
  ((spacedWord? "async" cs).bind read).or (read cs)

/-- The parameters of a function that is assigned to a path. -/
def assignedFunction? : List Char → Option (List Char) :=
  perhapsAsync fun cs => (functionExpression? cs).or (arrowFunction? cs)

/-- The parameters of a function that a variable is set to. -/
def variableFunction? : List Char → Option (List Char) :=
  perhapsAsync fun cs =>
    ((functionExpression? cs).or (arrowFunction? cs)).or (bareArrowFunction? cs)

/-! ## Declarations -/

/-- Takes `export`, and `default` behind it, off the front of a line that has them. -/
def dropExport (cs : List Char) : List Char :=
  match spacedWord? "export" cs with
  | some rest => (spacedWord? "default" rest).getD rest
  | none => cs

/-- Takes the word that declares a variable, and its name, off the front. -/
def declaredVariable? (cs : List Char) : Option (List Char × List Char) := do
  let rest ← ((spacedWord? "var" cs).or (spacedWord? "let" cs)).or (spacedWord? "const" cs)
  identifier? false rest

/-- The name of a class that a line declares, or sets a variable to. -/
def class? (cs : List Char) : Option (List Char) :=
  match (spacedWord? "class" cs).bind (identifier? false) with
  | some (name, _) => some name
  | none => do
    let (name, rest) ← declaredVariable? cs
    let _ ← wholeWord? "class" (← equals? rest)
    return name

/-- The name and parameters of a function that a line declares. -/
def function? : List Char → Option (List Char × List Char) :=
  perhapsAsync fun cs => do
    let rest := trimStartChars (← word? "function" cs)
    let rest := trimStartChars ((mark? '*' rest).getD rest)
    let (name, rest) ← identifier? false rest
    let (params, _) ← parenthesized? (trimStartChars rest)
    return (name, params)

/-- A method of a class: whether it is static, its name and its parameters. -/
structure Method where
  isStatic : Bool
  name : List Char
  params : List Char
deriving DecidableEq, Repr

/-- Reads behind a word if that works, and else from the front; the reader is told which. -/
def perhapsWord {α : Type} (word : String) (read : Bool → List Char → Option α)
    (cs : List Char) : Option α :=
  ((spacedWord? word cs).bind (read true)).or (read false cs)

/-- The method that a line opens. Words such as `static` and `get` are names where a name is
missing otherwise. -/
def method? : List Char → Option Method :=
  perhapsWord "static" fun isStatic => perhapsAsync fun cs =>
    let read := fun cs => do
      let (name, rest) ← identifier? false ((mark? '*' cs).getD cs)
      let (params, rest) ← parenthesized? (trimStartChars rest)
      let _ ← mark? '\x7b' (trimStartChars rest)
      return ⟨isStatic, name, params⟩
    (((spacedWord? "get" cs).bind read).or ((spacedWord? "set" cs).bind read)).or (read cs)

/-- The name and value of a variable that a line declares. A value or a semicolon may follow. -/
def plainVariable? (cs : List Char) : Option (List Char × Option String) := do
  let (name, rest) ← declaredVariable? cs
  match equals? rest with
  | some value => return (name, valueText value)
  | none =>
    let rest := trimStartChars rest
    if rest.isEmpty || rest == [';'] then return (name, none) else none

/-- The path that a line assigns to, and what follows the equals sign. -/
def assignment? (cs : List Char) : Option (List Char × List Char) := do
  let (path, rest) ← identifier? true cs
  return (path, ← equals? rest)

end Commentary.Script
