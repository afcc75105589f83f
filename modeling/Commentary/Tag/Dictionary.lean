import Commentary.Config
import Commentary.Table
import Commentary.Tag.Body
import Commentary.Tag.Sets

/-!
# Dictionaries

A dictionary holds the tags that a run knows, under their titles in small letters, together with the
synonyms that lead to them. Defining a tag again replaces it. The titles of namespace tags are kept
apart, since they mark the longnames of whole kinds of symbols.
-/

namespace Commentary

/-- The tags that a run knows, what it thinks of others, and how it reads types. -/
structure Dictionary where
  definitions : Table String TagDefinition := .empty
  synonyms : Table String String := .empty
  namespaces : List String := []
  unknownTags : UnknownTags := .all true
  grammar : Tag.Grammar := TypeExpr.parse

namespace Dictionary

/-- The dictionary without tags. -/
def empty : Dictionary := {}

/-- Lets a synonym lead to a title. -/
def defineSynonym (dictionary : Dictionary) (title synonym : String) : Dictionary :=
  { dictionary with
    synonyms := dictionary.synonyms.insert (Text.lower synonym) (Text.lower title) }

/-- Defines a tag under its title and its synonyms. -/
def define (dictionary : Dictionary) (definition : TagDefinition) : Dictionary :=
  let title := Text.lower definition.title
  let others := dictionary.namespaces.filter (· != title)
  let dictionary := definition.synonyms.foldl (·.defineSynonym definition.title ·) dictionary
  { dictionary with
    namespaces := if definition.isNamespace then title :: others else others
    definitions := dictionary.definitions.insert title definition }

/-- Defines several tags in order. -/
def defineAll (dictionary : Dictionary) (definitions : List TagDefinition) : Dictionary :=
  definitions.foldl define dictionary

/-- The title that a written title stands for. -/
def normalize (dictionary : Dictionary) (title : String) : String :=
  (dictionary.synonyms.find? (Text.lower title)).getD (Text.lower title)

/-- The definition that a title or synonym leads to. -/
def lookUp (dictionary : Dictionary) (title : String) : Option TagDefinition :=
  dictionary.definitions.find? (dictionary.normalize title)

/-- Whether longnames of a kind carry it as a namespace. -/
def isNamespace (dictionary : Dictionary) (kind : String) : Bool :=
  dictionary.namespaces.contains kind

/-- Whether a tag may be used without being defined. -/
def allowsUnknown (dictionary : Dictionary) (title : String) : Bool :=
  dictionary.unknownTags.allows title

/-- Loads the set of a name, if there is one. -/
def loadSet (dictionary : Dictionary) (name : String) : Noted Dictionary :=
  match TagSet.ofName? name with
  | some definitions => pure (dictionary.defineAll definitions)
  | none => do
    Noted.note [.unknownTagSet name]
    pure dictionary

/-- The dictionary of a configuration. The sets are loaded from the last to the first, so that the
first wins, and the tags that every run has come after them. -/
def ofConfig (config : Config) : Noted Dictionary := do
  let dictionary ← config.tagSets.reverse.foldlM loadSet { unknownTags := config.unknownTags }
  return dictionary.defineAll TagSet.internal

end Dictionary

end Commentary
