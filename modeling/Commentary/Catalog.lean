import Commentary.Doclet.Basic

/-!
# The catalog of doclets

The doclets of a run in the order in which they came, each known by its position, together with the
positions of the doclets of each longname, oldest first. The longname of a doclet in the catalog
changes through `rekey` alone, which keeps the positions in step.
-/

namespace Commentary

/-- Doclets by position and by longname. -/
structure Catalog where
  doclets : Array Doclet := #[]
  byLongname : Table String (List Nat) := .empty
deriving Repr, Inhabited

namespace Catalog

/-- The catalog without doclets. -/
def empty : Catalog := {}

/-- How many doclets there are; also the position of the next one. -/
def size (catalog : Catalog) : Nat := catalog.doclets.size

/-- The doclet at a position. -/
def get? (catalog : Catalog) (id : Nat) : Option Doclet := catalog.doclets[id]?

/-- The positions of the doclets of a longname, oldest first. -/
def lookup (catalog : Catalog) (longname : String) : List Nat :=
  (catalog.byLongname.find? longname).getD []

/-- The doclets of a longname, oldest first. -/
def named (catalog : Catalog) (longname : String) : List Doclet :=
  (catalog.lookup longname).filterMap catalog.get?

/-- Whether there is a doclet of a longname. -/
def contains (catalog : Catalog) (longname : String) : Bool := !(catalog.lookup longname).isEmpty

/-- Adds a position to those of a longname. -/
def file (catalog : Catalog) (longname : String) (id : Nat) : Catalog :=
  { catalog with
    byLongname := catalog.byLongname.insert longname (catalog.lookup longname ++ [id]) }

/-- Takes a position from those of a longname. -/
def unfile (catalog : Catalog) (longname : String) (id : Nat) : Catalog :=
  match catalog.byLongname.find? longname with
  | none => catalog
  | some ids =>
    let ids := ids.filter (· != id)
    { catalog with
      byLongname :=
        if ids.isEmpty then catalog.byLongname.erase longname
        else catalog.byLongname.insert longname ids }

/-- Adds a doclet at the next position. -/
def insert (catalog : Catalog) (d : Doclet) : Catalog :=
  { catalog.file d.longname catalog.size with doclets := catalog.doclets.push d }

/-- Adds several doclets in order. -/
def insertAll (catalog : Catalog) (ds : List Doclet) : Catalog := ds.foldl insert catalog

/-- Changes the doclet at a position, except for its longname. -/
def modify (catalog : Catalog) (id : Nat) (change : Doclet → Doclet) : Catalog :=
  { catalog with doclets := catalog.doclets.modify id change }

/-- Gives the doclet at a position another longname. -/
def rekey (catalog : Catalog) (id : Nat) (longname : String) : Catalog :=
  match catalog.get? id with
  | none => catalog
  | some d =>
    ((catalog.unfile d.longname id).file longname id).modify id ({ · with longname })

/-- Whether a doclet has one of the given scopes; any scope or none will do if none are given. -/
def inScopes (scopes : Option (List Scope)) (d : Doclet) : Bool :=
  match scopes with
  | some scopes => d.scope.any scopes.contains
  | none => true

/-- The positions of the members of an owner, in order. -/
def membersOf (catalog : Catalog) (owner : String) (scopes : Option (List Scope)) : List Nat :=
  (List.range catalog.size).filter fun id =>
    (catalog.get? id).any fun d => d.memberof == some owner && inScopes scopes d

/-- The doclets in order. -/
def toList (catalog : Catalog) : List Doclet := catalog.doclets.toList

end Catalog

end Commentary
