import Commentary.Doclet.Basic

/-!
# Resolving names

The tags of a comment give a name, perhaps an owner and perhaps a scope, each spelled in one of many
ways. Resolving turns them into one longname with its owner, scope and name. First the written name
is *placed*: joined to its owner and split again. Then the doclet takes over the parts, and settles
its scope and longname where the parts leave them open.
-/

namespace Commentary.Doclet

/-! ## Placing the name -/

/-- The name as written, with `prototype` segments respelled once the kind is known. -/
def plainName (d : Doclet) : String :=
  if d.name ≠ "" ∧ d.kind.isSome then Longname.instancePath d.name else d.name

/-- The name inside the function around the code, for a name that is given no owner. -/
def enclosedName? (d : Doclet) : Option String :=
  if d.name ≠ "" ∧ d.memberof.getD "" = "" then
    d.origin.code.enclosing.map fun enclosing => enclosing ++ Scope.inner.punctuation ++ d.name
  else none

/-- Splits a longname, below the owner if that is forced. -/
def splitFor (d : Doclet) (owner longname : String) : Longname :=
  if d.forceMemberof then Longname.splitUnder owner longname else Longname.split longname

/-- The parts of a name below an owner, and the scope that placing it leaves. A name equal to that
of its owner is static unless a scope is given, and a name without a scope is not placed. -/
def placeUnder (d : Doclet) (owner name : String) : Option Longname × Option Scope :=
  if name = "" then (none, d.scope)
  else if (Longname.isBelow owner name ∧ name ≠ owner) ∨
      (name = owner ∧ Text.startsWith Longname.moduleMark name) then
    (some (d.splitFor owner name), d.scope)
  else if name = owner then
    let scope := d.scope.getD .static
    (some (d.splitFor owner (owner ++ scope.punctuation ++ name)), some scope)
  else if Longname.hasTrailingScope owner then
    (some (d.splitFor owner (owner ++ name)), d.scope)
  else (d.scope.map fun scope => d.splitFor owner (owner ++ scope.punctuation ++ name), d.scope)

/-- The parts of a name, and the scope that placing it leaves. -/
def place (d : Doclet) (name : String) : Option Longname × Option Scope :=
  let owner := d.memberof.getD ""
  if owner ≠ "" ∨ d.forceMemberof then d.placeUnder (Longname.instancePath owner) name
  else (some (Longname.split name), d.scope)

/-! ## Taking over the parts -/

/-- Takes over the name of a placed longname, unless that is empty. -/
def takeName (about : Longname) (d : Doclet) : Doclet :=
  if about.name = "" then d else { d with name := about.name }

/-- Takes over the owner of a placed longname, unless that is empty. -/
def takeOwner (about : Longname) (d : Doclet) : Doclet :=
  if about.memberof = "" then d else d.setMemberof about.memberof

/-- Takes over a placed longname, unless the doclet has one that is more than its name. -/
def takeLongname (dictionary : Dictionary) (about : Longname) (d : Doclet) : Doclet :=
  if about.full ≠ "" ∧ (d.longname = "" ∨ d.longname = d.name) then
    d.setLongname dictionary about.full
  else d

/-- Takes over the variation of a placed longname, if it has one. -/
def takeVariation (about : Longname) (d : Doclet) : Doclet :=
  if about.variation.isSome then { d with variation := about.variation } else d

/-! ## Settling what is open -/

/-- Gives a name the scope of the delimiter that it starts with, or else makes it static. -/
def leadingScope (d : Doclet) : Doclet :=
  match d.name.toList with
  | c :: rest =>
    match Scope.ofPunctuation? c with
    | some scope => { d with scope := some scope, name := String.ofList rest }
    | none => { d with scope := some .static }
  | [] => { d with scope := some .static }

/-- Joins an owner and a name that have not been placed. -/
def joinOwner (dictionary : Dictionary) (owner : String) (d : Doclet) : Doclet :=
  let d := d.leadingScope
  d.setLongname dictionary (owner ++ (d.scope.getD .global).punctuation ++ d.name)

/-- Settles scope and longname. A global symbol has no owner and is named by its name alone. -/
def settle (dictionary : Dictionary) (about : Longname) (d : Doclet) : Doclet :=
  if d.scope = some .global then { d.setLongname dictionary d.name with memberof := none }
  else if about.scope ≠ .global then
    { d with scope := some (if about.memberof = Longname.globalOwner then .global
                            else about.scope) }
  else if d.name ≠ "" ∧ d.longname = "" then
    match d.memberof with
    | some owner => d.joinOwner dictionary owner
    | none => d
  else d

/-- Resolves the name of a doclet. One whose longname is more than its name is left alone. -/
def resolve (dictionary : Dictionary) (d : Doclet) : Doclet :=
  if d.longname ≠ "" ∧ d.longname ≠ d.name then d
  else
    let d := { d with name := d.plainName }
    let enclosed := d.enclosedName?
    let d := { d with longname := enclosed.getD d.longname }
    let (parts, scope) := d.place (enclosed.getD d.name)
    let about := parts.getD default
    takeVariation about <| settle dictionary about <| takeLongname dictionary about <|
      takeOwner about <| takeName about { d with scope }

/-! ## Finishing -/

/-- Gives a name without a longname one. -/
def ensureLongname (dictionary : Dictionary) (d : Doclet) : Doclet :=
  if d.name ≠ "" ∧ d.longname = "" then d.setLongname dictionary d.name else d

/-- Writes the variation behind the longname, unless it stands there. -/
def appendVariation (d : Doclet) : Doclet :=
  match d.variation with
  | some variation =>
    let suffix := "(" ++ variation ++ ")"
    if variation ≠ "" ∧ d.longname ≠ "" ∧ Text.endsWith suffix d.longname = false then
      { d with longname := d.longname ++ suffix }
    else d
  | none => d

/-- Gives parameters without a name the names of the code's parameters. -/
def nameParams : List Detail → List String → List Detail
  | param :: params, name :: names =>
    { param with name := param.name.or (some name) } :: nameParams params names
  | params, _ => params

/-- Resolves the name of a doclet and fills in what the tags left open. -/
def finish (dictionary : Dictionary) (d : Doclet) : Doclet :=
  let d := if d.preserveName then d else d.resolve dictionary
  let d := d.ensureLongname dictionary
  let d := { d with
    memberof := d.memberof.filter (· != "")
    kind := some (d.kind.getD (Kind.ofCode d.origin.code.form)) }
  let d := d.appendVariation
  { d with params := nameParams d.params d.origin.code.paramNames }

end Commentary.Doclet
