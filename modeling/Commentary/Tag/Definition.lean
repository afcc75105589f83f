import Commentary.Longname.Scope
import Commentary.Symbol

/-!
# What a tag means

A tag definition says how the text of a tag is read, what the tag must and must not have, and what
it does to the doclet that carries it. What a tag does is a value of a closed type, so a definition
can be compared and every effect can be gone through.
-/

namespace Commentary

/-- A property that a tag switches on. -/
inductive Flag where
  | «virtual»
  | ignore
  | inheritdoc
  | readonly
  | «override»
deriving DecidableEq, Repr

/-- A text that a tag sets. -/
inductive TextField where
  | aliasName
  | classdesc
  | copyright
  | license
  | since
  | summary
  | version
deriving DecidableEq, Repr

/-- A list of texts to which a tag adds its own. -/
inductive ListField where
  | author
  | examples
  | see
  | todo
  | tutorials
deriving DecidableEq, Repr

/-- A list of details to which a tag adds its own. -/
inductive DetailField where
  | params
  | returns
  | exceptions
  | properties
deriving DecidableEq, Repr

/-- A list of events to which a tag adds one. -/
inductive EventField where
  | fires
  | listens
deriving DecidableEq, Repr

/-- How a symbol builds on others. -/
inductive Relation where
  | augments
  | mixes
  | implements
deriving DecidableEq, Repr

/-- What a tag does to the doclet that carries it. -/
inductive TagEffect where
  /-- Switches a property on. -/
  | flag (field : Flag)
  /-- Sets a text to that of the tag. -/
  | text (field : TextField)
  /-- Adds the text of the tag to a list. -/
  | collect (field : ListField)
  /-- Adds the detail of the tag to a list. -/
  | detail (field : DetailField)
  /-- Adds an event to a list. -/
  | event (field : EventField)
  /-- Adds a symbol that this one builds on. -/
  | relate (relation : Relation)
  /-- Sets the scope. -/
  | scope (scope : Scope)
  /-- Makes the symbol global. -/
  | makeGlobal
  /-- Sets the access level to the one that the text names. -/
  | access
  /-- Sets the access level. -/
  | grant (level : Access)
  /-- Sets the access level and the type. -/
  | grantTyped (level : Access)
  /-- Sets the kind, and the name to the text. -/
  | kindByText (kind : Kind)
  /-- Sets the kind, the type, and the name to the text. -/
  | typedKindByText (kind : Kind)
  /-- Sets the kind, and the name to the one in the text. -/
  | kindByName (kind : Kind)
  /-- Sets the kind, the type, and the name to the one in the text. -/
  | typedKindByName (kind : Kind)
  | asClass
  | asEnum
  | asExternal
  | asFile
  | asModule
  | asTypedef
  | borrows
  | constructs
  | defaultValue
  | deprecated
  | exports
  | lends
  | memberof
  | requires
  | thisType
  | type
  | undocumented
  | variation
deriving DecidableEq, Repr

/-- The shape that the text of a tag is given before it is read. -/
inductive TextShape where
  /-- The type in braces stands for the whole text. -/
  | bracesOptional
  /-- The text is put in braces, on one line, if it does not start with one. -/
  | bracesRequired
deriving DecidableEq, Repr

/-- How one tag is read, checked and applied. -/
structure TagDefinition where
  title : String
  typed : Bool := false
  named : Bool := false
  requiresValue : Bool := false
  forbidsValue : Bool := false
  forbidsDescription : Bool := false
  /-- Doclets of the kind named by the title carry it as a namespace. -/
  isNamespace : Bool := false
  keepsBlanks : Bool := false
  dropsIndent : Bool := false
  synonyms : List String := []
  reshape : Option TextShape := none
  effect : Option TagEffect := none
deriving DecidableEq, Repr

/-- A copy under another title and without synonyms. -/
def TagDefinition.renamed (definition : TagDefinition) (title : String) : TagDefinition :=
  { definition with title, synonyms := [] }

end Commentary
