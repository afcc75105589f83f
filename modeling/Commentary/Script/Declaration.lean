import Commentary.Script.Reader
import Commentary.Symbol

/-!
# What a line of code declares

A line of code behind a comment can declare a class, a method, a function, a variable or an
assignment. What it declares depends on the block around it: methods belong to the class around
them, and local names to the function around them. A declaration may open a block of its own.
-/

namespace Commentary.Script

open Commentary.Text

/-- What kind of body a block is. -/
inductive BlockKind where
  | classBody
  | functionBody
deriving DecidableEq, Repr

/-- A class or function body. -/
structure Block where
  kind : BlockKind
  /-- The path of the symbol that owns the body. -/
  name : String
  /-- What `this` stands for in the body. -/
  receiver : String
  /-- How many braces are open around the body. -/
  depth : Nat := 0
deriving DecidableEq, Repr

/-- What a line of code declares, and the body that it may open. -/
structure Declaration where
  code : CodeHint := {}
  opens : Option Block := none
deriving DecidableEq, Repr

/-- The function right around a line, given the innermost block. -/
def enclosingFunction? (around : Option Block) : Option String :=
  (around.filter (·.kind == .functionBody)).map Block.name

/-- The class right around a line, given the innermost block. -/
def enclosingClass? (around : Option Block) : Option Block := around.filter (·.kind == .classBody)

/-- What a function assigned to a path is called on: the owner of the path. -/
def ownerOf (path : String) : String :=
  match path.toList.reverse.span (· != '.') with
  | (_, _ :: owner) =>
    let owner := String.ofList owner.reverse
    (dropEnd? ".prototype" owner).getD owner
  | (_, []) => (dropEnd? ".prototype" path).getD path

/-- A method of a class. The constructor is documented by the class itself. -/
def methodDeclaration (owner : Block) (method : Method) : Declaration :=
  let name := String.ofList method.name
  let path := owner.name ++ (if method.isStatic then "." else ".prototype.") ++ name
  let body := owner.name ++ (if method.isStatic then "." else "#") ++ name
  { code :=
      if name = "constructor" then {}
      else { name := some path, form := some "function", receiver := some owner.receiver,
             paramNames := paramNames method.params }
    opens := some { kind := .functionBody, name := body, receiver := owner.receiver } }

/-- A class. -/
def classDeclaration (around : Option Block) (name : String) : Declaration :=
  { code := { name := some name, form := some "class", enclosing := enclosingFunction? around }
    opens := some { kind := .classBody, name, receiver := name } }

/-- A function that is declared where it stands, inside the function around it. -/
def functionDeclaration (around : Option Block) (name : String) (params : List Char) :
    Declaration :=
  let enclosing := enclosingFunction? around
  let path := (enclosing.map (· ++ "~" ++ name)).getD name
  { code := { name := some name, form := some "function", enclosing,
              paramNames := paramNames params }
    opens := some { kind := .functionBody, name := path, receiver := path } }

/-- A function that is assigned to a path. -/
def functionAssignment (around : Option Block) (path : String) (params : List Char) :
    Declaration :=
  { code := { name := some path, form := some "function", receiver := around.map Block.receiver,
              paramNames := paramNames params }
    opens := some { kind := .functionBody, name := path, receiver := ownerOf path } }

/-- A variable. -/
def variableDeclaration (around : Option Block) (name : String) (value : Option String) :
    Declaration :=
  { code := { name := some name, form := some "member", value,
              enclosing := enclosingFunction? around } }

/-- An assignment to a path. -/
def memberAssignment (around : Option Block) (path : String) (value : Option String) :
    Declaration :=
  { code := { name := some path, form := some "member", value,
              receiver := around.map Block.receiver } }

/-- Words that open a block with parentheses and are no methods. -/
def isControlWord (name : List Char) : Bool :=
  ["if", "for", "while", "switch", "catch"].contains (String.ofList name)

/-- The variable or assignment that a line declares. -/
def valueDeclaration? (around : Option Block) (line : List Char) : Option Declaration :=
  match plainVariable? line with
  | some (name, value) => some (variableDeclaration around (String.ofList name) value)
  | none =>
    match assignment? line with
    | some (path, rest) =>
      match assignedFunction? rest with
      | some params => some (functionAssignment around (String.ofList path) params)
      | none => some (memberAssignment around (String.ofList path) (valueText rest))
    | none => none

/-- The function that a line declares or sets a variable to, as its name and parameters. -/
def namedFunction? (line : List Char) : Option (List Char × List Char) :=
  (function? line).or do
    let (name, rest) ← declaredVariable? line
    return (name, ← variableFunction? (← equals? rest))

/-- What a line declares outside the special place of a class body. -/
def plainDeclaration? (around : Option Block) (line : List Char) : Option Declaration :=
  match class? line with
  | some name => some (classDeclaration around (String.ofList name))
  | none =>
    match namedFunction? line with
    | some (name, params) => some (functionDeclaration around (String.ofList name) params)
    | none => valueDeclaration? around line

/-- What a line declares, given the innermost block around it. -/
def declaration? (around : Option Block) (line : List Char) : Option Declaration :=
  let line := dropExport line
  match enclosingClass? around with
  | none => plainDeclaration? around line
  | some owner =>
    match method? line with
    | some method =>
      if isControlWord method.name then none else some (methodDeclaration owner method)
    | none => plainDeclaration? around line

end Commentary.Script
