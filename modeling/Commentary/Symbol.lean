import Commentary.Notice
import Commentary.Text.Case

/-!
# Symbols and where they stand

The kinds of symbols, who may use them, and what is known of the code that a comment stands in front
of.
-/

namespace Commentary

/-- What a symbol is. -/
inductive Kind where
  | «class»
  | constant
  | event
  | external
  | file
  | function
  | interface
  | member
  | mixin
  | «module»
  | «namespace»
  | package
  | param
  | typedef
deriving DecidableEq, Repr

namespace Kind

/-- The word for a kind. -/
def text : Kind → String
  | .class => "class"
  | .constant => "constant"
  | .event => "event"
  | .external => "external"
  | .file => "file"
  | .function => "function"
  | .interface => "interface"
  | .member => "member"
  | .mixin => "mixin"
  | .module => "module"
  | .namespace => "namespace"
  | .package => "package"
  | .param => "param"
  | .typedef => "typedef"

/-- The kind that a word names. -/
def ofText? : String → Option Kind
  | "class" => some .class
  | "constant" => some .constant
  | "event" => some .event
  | "external" => some .external
  | "file" => some .file
  | "function" => some .function
  | "interface" => some .interface
  | "member" => some .member
  | "mixin" => some .mixin
  | "module" => some .module
  | "namespace" => some .namespace
  | "package" => some .package
  | "param" => some .param
  | "typedef" => some .typedef
  | _ => none

@[simp]
theorem ofText?_text (k : Kind) : ofText? k.text = some k := by cases k <;> rfl

/-- The kind of a symbol whose comment does not give one, by the form of its code. -/
def ofCode : Option String → Kind
  | some "function" => .function
  | some "class" => .class
  | _ => .member

end Kind

/-- Who may use a symbol. -/
inductive Access where
  | package
  | «private»
  | «protected»
  | «public»
deriving DecidableEq, Repr

namespace Access

/-- The word for an access level. -/
def text : Access → String
  | .package => "package"
  | .private => "private"
  | .protected => "protected"
  | .public => "public"

/-- The access level that a word in small letters names. -/
def ofLower? : String → Option Access
  | "package" => some .package
  | "private" => some .private
  | "protected" => some .protected
  | "public" => some .public
  | _ => none

/-- The access level that a word names, in small or capital letters. -/
def ofText? (word : String) : Option Access := ofLower? (Text.asciiLower word)

/-- The wording of an unknown access level. -/
def unknownMessage (word : String) : String :=
  "unknown access level `" ++ Text.asciiLower word ++ "`"

@[simp]
theorem ofLower?_text (a : Access) : ofLower? a.text = some a := by cases a <;> rfl

end Access

/-- What is known of the code behind a comment. -/
structure CodeHint where
  /-- The name that the code declares. -/
  name : Option String := none
  /-- What the code declares: `function`, `class`, `member`. -/
  form : Option String := none
  /-- The text of the value that the code assigns. -/
  value : Option String := none
  /-- The longname of the function around the code. -/
  enclosing : Option String := none
  /-- The longname of what `this` stands for in the code. -/
  receiver : Option String := none
  /-- The names of the parameters that the code declares. -/
  paramNames : List String := []
deriving DecidableEq, Repr, Inhabited

/-- Where a comment stands. -/
structure Origin where
  filename : Option String := none
  path : Option String := none
  /-- The number of the line on which the comment opens. It has no bound: a count in 32 bits holds
  those below `2 ^ 32` only. -/
  line : Option Nat := none
  code : CodeHint := {}
deriving DecidableEq, Repr, Inhabited

/-- The place of a comment. -/
def Origin.location (origin : Origin) : Location := ⟨origin.filename, origin.line⟩

end Commentary
