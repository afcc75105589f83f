import Commentary.Longname.Basic
import Commentary.Tag.Basic

/-!
# Doclets

A doclet holds all that is known of one documented symbol: where its comment stands, how the symbol
is named and owned, what the tags of the comment say, and how it came to its owner if it was not
written there.
-/

namespace Commentary

/-- A request to take over the symbol `source`, under the name `target` if one is given. -/
structure Borrow where
  source : String
  target : Option String := none
deriving DecidableEq, Repr, Inhabited

/-- A tag that the dictionary does not define, kept as it was written. -/
structure KeptTag where
  writtenTitle : String
  title : String
  text : String := ""
  value : Option TagValue := none
deriving DecidableEq, Repr

/-- All that is known of one documented symbol. -/
structure Doclet where
  comment : String := ""
  origin : Origin := {}
  name : String := ""
  longname : String := ""
  memberof : Option String := none
  scope : Option Scope := none
  kind : Option Kind := none
  variation : Option String := none
  aliasName : Option String := none
  description : Option String := none
  summary : Option String := none
  classdesc : Option String := none
  /-- The names of its types. -/
  types : Option (List String) := none
  optional : Option Bool := none
  nullable : Option Bool := none
  repeatable : Option Bool := none
  defaultValue : Option String := none
  params : List Detail := []
  returns : List Detail := []
  exceptions : List Detail := []
  properties : List Detail := []
  examples : List String := []
  see : List String := []
  todo : List String := []
  author : List String := []
  requires : List String := []
  fires : List String := []
  listens : List String := []
  tutorials : List String := []
  augments : List String := []
  mixes : List String := []
  implements : List String := []
  borrows : List Borrow := []
  access : Option Access := none
  isVirtual : Bool := false
  readonly : Bool := false
  ignore : Bool := false
  undocumented : Bool := false
  inheritdoc : Bool := false
  isOverride : Bool := false
  isEnum : Bool := false
  /-- Empty if the symbol is deprecated without a reason. -/
  deprecated : Option String := none
  since : Option String := none
  version : Option String := none
  license : Option String := none
  copyright : Option String := none
  thisType : Option String := none
  inherited : Bool := false
  inherits : Option String := none
  overrides : Option String := none
  mixed : Bool := false
  borrowed : Bool := false
  /-- The tags that the dictionary does not define. -/
  tags : List KeptTag := []
  /-- The owner is the one given, whatever the name says. -/
  forceMemberof : Bool := false
  /-- The name is not to be resolved. -/
  preserveName : Bool := false
deriving DecidableEq, Repr, Inhabited

namespace Doclet

/-- The place of the comment. -/
def location (d : Doclet) : Location := d.origin.location

/-- Whether the symbol is to be shown. -/
def isShown (d : Doclet) : Bool := !d.undocumented && !d.ignore

/-- What the symbol builds on by a relation. -/
def related (d : Doclet) : Relation → List String
  | .augments => d.augments
  | .mixes => d.mixes
  | .implements => d.implements

/-- Adds something that the symbol builds on by a relation. -/
def relate (d : Doclet) (relation : Relation) (target : String) : Doclet :=
  match relation with
  | .augments => { d with augments := d.augments ++ [target] }
  | .mixes => { d with mixes := d.mixes ++ [target] }
  | .implements => { d with implements := d.implements ++ [target] }

/-- Adds a request to borrow. -/
def borrow (d : Doclet) (source : String) (target : Option String) : Doclet :=
  { d with borrows := d.borrows ++ [⟨source, target⟩] }

/-- An owner in the spelling in which doclets keep it. -/
def ownerSpelling (owner : String) : String :=
  let owner := Longname.stripGlobalOwner owner
  match Text.dropEnd? ".prototype" owner with
  | some start => start ++ "#"
  | none => Text.replaceAll ".prototype." "#" owner

/-- Sets the owner; an empty one is none. -/
def setMemberof (d : Doclet) (owner : String) : Doclet :=
  { d with memberof := Tag.nonEmpty (ownerSpelling owner) }

/-- A longname with the namespace of the doclet's kind, if that is one. -/
def namespaced (dictionary : Dictionary) (kind : Option Kind) (longname : String) : String :=
  match kind with
  | some kind =>
    if dictionary.isNamespace kind.text then Longname.applyNamespace longname kind.text
    else longname
  | none => longname

/-- Sets the longname, with the namespace of the doclet's kind. -/
def setLongname (dictionary : Dictionary) (longname : String) (d : Doclet) : Doclet :=
  { d with longname := namespaced dictionary d.kind (Longname.stripGlobalOwner longname) }

/-- Sets the scope to the one that a word names. -/
def setScope (d : Doclet) (word : String) : Except Problem Doclet :=
  match Scope.ofText? word with
  | some scope => .ok { d with scope := some scope }
  | none => .error (.invalidScope word)

end Doclet

end Commentary
