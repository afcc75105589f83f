import Commentary.Catalog

/-!
# Borrowing

A doclet that borrows a symbol gets copies of all doclets of that symbol as its own members.
Borrowers are served in the order of the catalog, and each loses its requests, whether they could be
met or not.
-/

namespace Commentary.Borrowing

/-- Cuts a text behind its last number sign. -/
def afterLastHash? (cs : List Char) : Option (List Char) :=
  match cs.reverse.span (· != '#') with
  | (_, []) => none
  | (after, _) => some after.reverse

/-- The scope and the name of a borrowed member. A number sign makes it a member of instances; any
other is static. -/
def memberName (target : String) : Scope × String :=
  let target := ((Text.dropStart? "prototype." target).map ("#" ++ ·)).getD target
  match afterLastHash? target.toList with
  | some name => (.instance, String.ofList name)
  | none => (.static, (Longname.split target).name)

/-- The copy of a doclet as a member of a borrower. -/
def copyFor (owner : String) (scope : Scope) (name : String) (source : Doclet) : Doclet :=
  { source with
    name
    longname := owner ++ scope.punctuation ++ name
    memberof := some owner
    scope := some scope
    borrowed := true
    borrows := [] }

/-- What borrowing has come to: the catalog, and the requests that could not be met. -/
structure Outcome where
  catalog : Catalog
  missing : List Problem := []

/-- Meets a request of a borrower, if there is a doclet to borrow. -/
def serve (owner : String) (location : Location) (outcome : Outcome) (borrow : Borrow) :
    Noted Outcome :=
  let target := borrow.target.getD borrow.source
  match outcome.catalog.named borrow.source with
  | [] => do
    let problem := Problem.missingBorrowSource borrow.source target location
    Noted.note [.missingBorrow owner problem]
    return { outcome with missing := outcome.missing ++ [problem] }
  | sources =>
    let (scope, name) := memberName target
    let copies := sources.map (copyFor owner scope name)
    pure { outcome with catalog := outcome.catalog.insertAll copies }

/-- Meets the requests of the borrower at a position. -/
def serveAll (outcome : Outcome) (id : Nat) : Noted Outcome :=
  match outcome.catalog.get? id with
  | none => pure outcome
  | some borrower =>
    borrower.borrows.foldlM (serve borrower.longname borrower.location)
      { outcome with catalog := outcome.catalog.modify id ({ · with borrows := [] }) }

/-- The positions of the doclets that borrow. -/
def borrowers (catalog : Catalog) : List Nat :=
  (List.range catalog.size).filter fun id => (catalog.get? id).any (!·.borrows.isEmpty)

/-- Meets all requests to borrow. -/
def resolve (catalog : Catalog) : Noted Outcome :=
  (borrowers catalog).foldlM serveAll { catalog }

end Commentary.Borrowing
