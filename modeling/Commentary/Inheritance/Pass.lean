import Commentary.Inheritance.Graph

/-!
# Members from other symbols

Three passes copy members from the symbols that a symbol builds on: members of mixins become members
of what mixes them in, members of interfaces are linked to what implements them, and members of
ancestors are inherited. Each pass goes through its dependency graph in order, so that what a symbol
hands on includes what it was handed. Copies are added to the catalog. The doclets that were there
stay, apart from being ignored when a copy replaces them and from notes on what they override and
implement.
-/

namespace Commentary.Inheritance

/-- Copies for a symbol, by longname. A later copy of a longname replaces an earlier one. -/
abbrev Additions := Table String Doclet

/-- Adds a copy under its longname. -/
def addCopy (additions : Additions) (d : Doclet) : Additions := additions.insert d.longname d

/-- The copies in order. -/
def copies (additions : Additions) : List Doclet := additions.entries.map Prod.snd

/-- Where a pass stands: the catalog, and the copies for the symbol at hand. -/
structure State where
  catalog : Catalog
  additions : Additions := .empty

/-- The positions of the doclets of a longname that are to be shown. -/
def shownIds (catalog : Catalog) (longname : String) : List Nat :=
  (catalog.lookup longname).filter fun id => (catalog.get? id).any Doclet.isShown

/-- Whether one of some doclets asks for the documentation of what it overrides. -/
def asksToInherit (catalog : Catalog) (ids : List Nat) : Bool :=
  ids.any fun id => (catalog.get? id).any fun d => d.inheritdoc || d.isOverride

/-- A longname below another owner. -/
def changeOwner (longname owner : String) : String :=
  { Longname.split longname with memberof := owner }.join

/-- Changes the doclets at some positions. -/
def modifyAll (catalog : Catalog) (ids : List Nat) (change : Doclet → Doclet) : Catalog :=
  ids.foldl (fun catalog id => catalog.modify id change) catalog

/-- Ignores some doclets and adds a copy in their place. -/
def replace (state : State) (ids : List Nat) (copy : Doclet) : State :=
  { catalog := modifyAll state.catalog ids ({ · with ignore := true })
    additions := addCopy state.additions
      { copy with isVirtual := false, inheritdoc := false, isOverride := false } }

/-- Adds a copy. Where there are doclets to be shown it replaces them if one asks to inherit, and
else these are changed instead. -/
def offer (state : State) (copy : Doclet) (change : Doclet → Doclet) : State :=
  let existing := shownIds state.catalog copy.longname
  if existing.isEmpty then { state with additions := addCopy state.additions copy }
  else if asksToInherit state.catalog existing then replace state existing copy
  else { state with catalog := modifyAll state.catalog existing change }

/-- The members of an owner that can be handed on. -/
def sources (catalog : Catalog) (owner : String) (scopes : Option (List Scope)) : List Doclet :=
  ((catalog.membersOf owner scopes).filterMap catalog.get?).filter (!·.undocumented)

/-! ## Inheritance -/

/-- The copy of an ancestor's member for a descendant. -/
def inheritedCopy (owner : String) (ancestor : Doclet) : Doclet :=
  { ancestor with
    inherits := if ancestor.inherited then ancestor.inherits else some ancestor.longname
    inherited := true
    memberof := some owner
    longname := changeOwner ancestor.longname owner }

/-- Hands a member on to a descendant. -/
def inheritMember (owner : String) (state : State) (ancestor : Doclet) : State :=
  let copy := inheritedCopy owner ancestor
  let overrides :=
    if (shownIds state.catalog copy.longname).isEmpty then none else some ancestor.longname
  offer state { copy with overrides } ({ · with overrides := some ancestor.longname })

/-- Hands the instance members of a parent on to a descendant. -/
def inheritFrom (owner : String) (state : State) (parent : String) : State :=
  (sources state.catalog parent (some [.instance])).foldl (inheritMember owner) state

/-- What the doclet at a position inherits. Only classes and interfaces do. -/
def inherited (state : State) (descendant : Doclet) : State :=
  if descendant.kind = some .class ∨ descendant.kind = some .interface then
    descendant.augments.foldl (inheritFrom descendant.longname) state
  else state

/-! ## Mixins -/

/-- The copy of a mixin's member for what mixes it in. -/
def mixedCopy (owner : String) (member : Doclet) : Doclet :=
  let parts := Longname.split member.longname
  { member with
    mixes := member.mixes.filter (fun mixin => (Longname.split mixin).name ≠ parts.name) ++
      [member.longname]
    mixed := true
    longname := { parts with memberof := owner, scope := .instance }.join
    memberof := some owner
    scope := some .instance }

/-- Hands the members of a mixin on to what mixes it in. -/
def mixFrom (owner : String) (state : State) (mixin : String) : State :=
  { state with
    additions := (sources state.catalog mixin none).foldl
      (fun additions member => addCopy additions (mixedCopy owner member)) state.additions }

/-- What the doclet at a position mixes in. -/
def mixed (state : State) (consumer : Doclet) : State :=
  consumer.mixes.foldl (mixFrom consumer.longname) state

/-! ## Interfaces -/

/-- The copy of an interface's member for an implementation. -/
def implementedCopy (owner : String) (declared : Doclet) : Doclet :=
  { declared with
    memberof := some owner
    longname := changeOwner declared.longname owner
    implements :=
      if declared.implements.contains declared.longname then declared.implements
      else declared.implements ++ [declared.longname] }

/-- Links a member of an interface to its implementation, if there is one. -/
def implementMember (owner : String) (state : State) (declared : Doclet) : State :=
  let copy := implementedCopy owner declared
  if state.catalog.contains copy.longname then
    offer state copy ({ · with implements := copy.implements })
  else state

/-- Links the instance members of an interface to their implementations. -/
def implementFrom (owner : String) (state : State) (interface : String) : State :=
  (sources state.catalog interface (some [.instance])).foldl (implementMember owner) state

/-- What the doclet at a position implements. -/
def implemented (state : State) (implementer : Doclet) : State :=
  implementer.implements.foldl (implementFrom implementer.longname) state

/-! ## Passes -/

/-- Finds the copies for a doclet. -/
abbrev Finder := State → Doclet → State

/-- Finds the copies for the doclet at a position and sets them beside those of other doclets of the
same longname. -/
def findFor (finder : Finder) (state : State) (id : Nat) : State :=
  match state.catalog.get? id with
  | none => state
  | some d =>
    let found := finder { catalog := state.catalog } d
    { found with additions := (copies found.additions).foldl addCopy state.additions }

/-- Adds the copies for all doclets of a longname. -/
def augmentSymbol (finder : Finder) (catalog : Catalog) (longname : String) : Catalog :=
  let state := (catalog.lookup longname).foldl (findFor finder) { catalog }
  state.catalog.insertAll (copies state.additions)

/-- Runs a pass over all symbols of a relation. -/
def augment (relation : Relation) (finder : Finder) (catalog : Catalog) :
    Except Problem Catalog := do
  let graph ← Graph.build relation catalog
  return graph.sort.foldl (augmentSymbol finder) catalog

/-- Hands the instance members of ancestors on to their descendants. -/
def addInherited : Catalog → Except Problem Catalog := augment .augments inherited

/-- Hands the members of mixins on to what mixes them in. -/
def addMixed : Catalog → Except Problem Catalog := augment .mixes mixed

/-- Links implementations to the members of interfaces. -/
def addImplemented : Catalog → Except Problem Catalog := augment .implements implemented

/-- A pass that changes nothing, and fails if something that a symbol builds on is not there. -/
def check (relation : Relation) (catalog : Catalog) : Except Problem Catalog :=
  (Graph.build relation catalog).map fun _ => catalog

/-- What a row of passes comes to: the catalog as the last pass that succeeded left it, and the
problem of the pass behind that, if it failed. -/
structure Outcome where
  catalog : Catalog
  problem : Option Problem := none

/-- Runs passes one after the other, up to the first that fails. -/
def runPasses : List (Catalog → Except Problem Catalog) → Catalog → Outcome
  | [], catalog => { catalog }
  | pass :: passes, catalog =>
    match pass catalog with
    | .ok catalog => runPasses passes catalog
    | .error problem => { catalog, problem := some problem }

/-- Runs all passes, the one for interfaces again after inheritance. What every symbol builds on is
checked before anything is added. -/
def augmentAll : Catalog → Outcome :=
  runPasses [check .mixes, check .implements, check .augments,
    addMixed, addImplemented, addInherited, addImplemented]

end Commentary.Inheritance
