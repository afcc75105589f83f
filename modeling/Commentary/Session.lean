import Commentary.Borrowing
import Commentary.Doclet.Effect
import Commentary.Inheritance.Pass
import Commentary.Overload

/-!
# Sessions

A session turns comments into doclets. It names the comments that do not name their symbol, by an
alias or by the code behind them, lets plugins look at each doclet, and files what is kept.
Finishing a session resolves borrows and then hands members on.
-/

namespace Commentary

/-- A doclet on its way into a session, and whether it has been dropped. -/
structure Arrival where
  doclet : Doclet
  dropped : Bool := false

/-- Something that looks on while a session runs. All plugins of a session share one state. It can
change or drop each new doclet. -/
structure Plugin (σ : Type) where
  /-- The session begins, with the names of its files. -/
  onBegin : List String → σ → σ := fun _ state => state
  /-- A doclet has been resolved and is not yet filed. -/
  onDoclet : Arrival → σ → Arrival × σ := fun arrival state => (arrival, state)
  /-- The session is finished, with its doclets. -/
  onComplete : List Doclet → σ → σ := fun _ state => state

/-- All that lives as long as a run. -/
structure Session (σ : Type) where
  dictionary : Dictionary
  catalog : Catalog := .empty
  overloads : Overloads := {}
  plugins : List (Plugin σ) := []
  state : σ
  /-- The longname of the last module of the current file. -/
  currentModule : Option String := none

namespace Session

variable {σ : Type}

/-- Begins a session with the names of its files. -/
def begin (session : Session σ) (files : List String) : Session σ :=
  { session with
    state := session.plugins.foldl (fun state plugin => plugin.onBegin files state) session.state }

/-- Begins a file. -/
def beginFile (session : Session σ) : Session σ := { session with currentModule := none }

/-- Ends a file. -/
def endFile (session : Session σ) : Session σ := { session with currentModule := none }

/-! ## Names from code -/

/-- What follows a word, if the word ends there or a dot follows, without the dot. -/
def afterRoot? (word name : String) : Option String :=
  match word.toList.isPrefixOf? name.toList with
  | some [] => some ""
  | some ('.' :: rest) => some (String.ofList rest)
  | _ => none

/-- The exported object or `this` at the start of a name, and what follows it. What follows
`module.exports` keeps it. -/
def exportRoot? (name : String) : Option (String × String) :=
  if (afterRoot? "module.exports" name).isSome then some ("module.exports", name)
  else match afterRoot? "exports" name with
    | some rest => some ("exports", rest)
    | none => (afterRoot? "this" name).map fun rest => ("this", rest)

/-- How a name that starts at an exported object or `this` is placed. -/
inductive Placement where
  /-- Below an owner. -/
  | below (owner : String) (scope : Scope)
  /-- As the module itself. -/
  | asModule (name : String)
  /-- Not at all. -/
  | unplaced
deriving DecidableEq, Repr

/-- Where the rest of a name behind an exported object or `this` belongs. -/
def placement (currentModule receiver : Option String) (root rest : String) : Placement :=
  match currentModule with
  | some name =>
    if root = "exports" then .below name .static
    else if rest = "module.exports" then .asModule name
    else if root = "this" then
      match receiver with
      | some receiver => .below receiver .instance
      | none => .below name .static
    else (receiver.map (.below · .static)).getD .unplaced
  | none =>
    if root = "this" then (receiver.map (.below · .instance)).getD .unplaced
    else (receiver.map (.below · .static)).getD .unplaced

/-- Puts a name that no owner claims into the current module, unless it has an owner of its own. -/
def placeInModule (session : Session σ) (d : Doclet) : Noted Doclet :=
  match session.currentModule with
  | none => pure d
  | some name =>
    if (Longname.split d.name).memberof ≠ "" then pure d
    else do
      let d ← if d.scope.isNone then d.addTag session.dictionary "inner" none else pure d
      if d.memberof.isNone ∧ d.scope ≠ some .global then
        d.addTag session.dictionary "memberof" (some name)
      else return d

/-- The name of a symbol below its owner; an empty one is the owner itself. -/
def nameBelow (owner : String) (scope : Scope) (name : String) : String :=
  if name.isEmpty then owner else owner ++ scope.punctuation ++ name

/-- Names a doclet by its code. -/
def nameByCode (session : Session σ) (codeName : String) (d : Doclet) : Noted Doclet := do
  let d ← d.addTag session.dictionary "name" (some codeName)
  if d.memberof.isSome then return d
  match exportRoot? d.name with
  | none => session.placeInModule d
  | some (root, rest) =>
    let d := { d with name := rest }
    match placement session.currentModule d.origin.code.receiver root rest with
    | .below owner scope =>
      let d := { d with name := nameBelow owner scope rest }
      d.addTag session.dictionary "memberof" (some owner)
    | .asModule name =>
      let d ← d.addTag session.dictionary "name" (some name)
      session.placeInModule d
    | .unplaced => session.placeInModule d

/-! ## Names from aliases -/

/-- The alias of a constructor whose class is not named. -/
def thisClassAlias : String := "\x7b@thisClass\x7d"

/-- An owner without the `.prototype` or `#` that may end it. -/
def classOf (receiver : String) : String :=
  match (Text.dropEnd? ".prototype" receiver).or (Text.dropEnd? "#" receiver) with
  | some owner => if owner.isEmpty || owner.toList.contains '\n' then receiver else owner
  | none => receiver

/-- The class that a constructor constructs: what `this` stands for, or else the symbol itself. -/
def thisClass? (d : Doclet) : Option String :=
  (d.origin.code.receiver.or d.origin.code.name).map classOf

/-- What a doclet's alias stands for. -/
def aliasTarget? (d : Doclet) (name : String) : Option String :=
  if name = thisClassAlias then thisClass? d else some name

/-! ## Adding comments -/

/-- Names a doclet by its alias, or else by its code, if there is one. -/
def findName (session : Session σ) (d : Doclet) : Noted (Option Doclet) :=
  match d.aliasName with
  | some aliasName =>
    match aliasTarget? d aliasName with
    | some target => do
      let d := { d with aliasName := some target }
      let d ← d.addTag session.dictionary "name" (some target)
      return some d
    | none => pure none
  | none =>
    match d.origin.code.name with
    | some codeName => do
      let d ← session.nameByCode codeName d
      return some d
    | none => pure none

/-- Names a doclet that has no name. One for which no name can be found is given up. -/
def discover (session : Session σ) (d : Doclet) : Noted (Option Doclet) := do
  if !d.name.isEmpty then return some d
  let named ← session.findName d
  return named.map fun d =>
    let d := d.finish session.dictionary
    if d.memberof.isNone then { d with scope := some .global } else d

/-- The name that stands for code without one. -/
def placeholderName : String := "____"

/-- Whether a doclet documents nothing that can be documented. -/
def isFiltered (d : Doclet) : Bool :=
  Text.endsWith "#" d.longname || d.origin.code.name == some placeholderName

/-- Shows a doclet to the plugins, one after the other. -/
def announce (session : Session σ) (d : Doclet) : Arrival × σ :=
  session.plugins.foldl (fun (arrival, state) plugin => plugin.onDoclet arrival state)
    ({ doclet := d }, session.state)

/-- Adds a doclet that has been resolved, and gives its position if it is kept. -/
def addDoclet (session : Session σ) (d : Doclet) : Session σ × Option Nat :=
  let (arrival, state) := session.announce d
  let d := arrival.doclet
  let session := { session with
    state
    currentModule := if d.kind = some .module then some d.longname else session.currentModule }
  if arrival.dropped || isFiltered d then (session, none)
  else
    let id := session.catalog.size
    let (overloads, catalog) := session.overloads.track (session.catalog.insert d) id
    ({ session with overloads, catalog }, some id)

/-- Adds a part of a comment, and gives the position of its doclet if that is kept. -/
def addPart (session : Session σ) (source : Doclet.Source) :
    Noted (Session σ × Option Nat) := do
  let d ← Doclet.ofSource session.dictionary source
  match ← session.discover d with
  | some d => return session.addDoclet d
  | none => return (session, none)

/-- The parts of a comment, each a comment of its own. Tags that are already split belong to a
comment of one part. -/
def parts (source : Doclet.Source) : List Doclet.Source :=
  match Comment.splitAlso source.comment with
  | [comment] => [{ source with comment }]
  | comments => comments.map fun comment => { source with comment, tags := [] }

/-- Adds a comment, and gives the positions of the doclets that are kept. -/
def addComment (session : Session σ) (source : Doclet.Source) :
    Noted (Session σ × List Nat) :=
  (parts source).foldlM (fun (session, ids) part => do
    let (session, id) ← session.addPart part
    return (session, ids ++ id.toList)) (session, [])

/-! ## Finishing -/

end Session

/-- The doclets of a finished run, and the borrows that could not be met. -/
structure Docset where
  catalog : Catalog
  missingBorrows : List Problem := []

namespace Docset

/-- The doclets that are to be shown. -/
def shown (docset : Docset) : List Doclet := docset.catalog.toList.filter Doclet.isShown

end Docset

/-- Resolves borrows, then hands members on, and gives the doclets and the plugins' last state. -/
def Session.finish {σ : Type} (session : Session σ) : Noted (Except Problem Docset × σ) := do
  let borrowed ← Borrowing.resolve session.catalog
  let augmented := Inheritance.augmentAll borrowed.catalog
  match augmented.problem with
  | some problem => do
    Noted.note [.failed problem]
    return (.error problem, session.state)
  | none =>
    let catalog := augmented.catalog
    let state := session.plugins.foldl
      (fun state plugin => plugin.onComplete catalog.toList state) session.state
    return (.ok { catalog, missingBorrows := borrowed.missing }, state)

end Commentary
