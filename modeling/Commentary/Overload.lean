import Commentary.Catalog

/-!
# Overloads

Functions of one longname are told apart by variations. When a function arrives under a longname
that another one carries, both get one: their own if these differ, else the names of their
parameters, else numbers. A longname whose overloads have once been numbered stays with numbers.
-/

namespace Commentary

/-- How the overloads of a longname are told apart. -/
inductive Variations where
  | named
  | numbered
deriving DecidableEq, Repr

/-- What a run remembers of its overloads. -/
structure Overloads where
  /-- The position of the last function of each longname. -/
  latest : Table String Nat := .empty
  /-- The longnames whose overloads are told apart, and how. -/
  overloaded : Table String Variations := .empty
deriving Repr, Inhabited

/-- The name of a parameter in a variation; dots mark one that repeats. -/
def paramLabel (param : Detail) : String :=
  (if param.repeatable = some true then "..." else "") ++ param.name.getD ""

/-- The variation that the names of parameters make. -/
def paramVariation (params : List Detail) : String :=
  String.intercalate ", " ((params.map paramLabel).filter (!·.isEmpty))

namespace Overloads

/-- A longname with a variation. -/
def withVariation (base variation : String) : String := base ++ "(" ++ variation ++ ")"

/-- The first number above `above` with which a longname is free. There are more candidates than
longnames in the catalog, so one of them is free. -/
def freeNumber (catalog : Catalog) (base : String) (above : Nat) : Nat :=
  ((List.range' (above + 1) (catalog.byLongname.entries.length + 1)).find? fun n =>
    !catalog.contains (withVariation base (toString n))).getD (above + 1)

/-- The variation of a doclet, or else the names of its parameters. -/
def ownVariation (d : Doclet) : String :=
  (d.variation.filter (!·.isEmpty)).getD (paramVariation d.params)

/-- Gives the doclet at a position a variation of a longname. -/
def assign (catalog : Catalog) (id : Nat) (base variation : String) : Catalog :=
  (catalog.rekey id (withVariation base variation)).modify id
    ({ · with variation := some variation })

/-- Records how the overloads of a longname are told apart. Numbers stay. -/
def record (overloads : Overloads) (base : String) (how : Variations) : Overloads :=
  let how :=
    match how with
    | .numbered => .numbered
    | .named => (overloads.overloaded.find? base).getD .named
  { overloads with overloaded := overloads.overloaded.insert base how }

/-- Records the last function of a longname. -/
def remember (overloads : Overloads) (longname : String) (id : Nat) : Overloads :=
  { overloads with latest := overloads.latest.insert longname id }

/-- Different variations for two functions of one longname, if they have some. -/
def pairVariations? (old new : Doclet) : Option (String × String) :=
  let byParams := (paramVariation old.params, paramVariation new.params)
  let own := if old.variation.isSome then byParams else (ownVariation old, ownVariation new)
  let pair := if own.1 = own.2 then byParams else own
  if pair.1 = pair.2 then none else some pair

/-- The longname of which a function and a later one of the same longname become variations. -/
def sharedBase (old : Doclet) : String :=
  if old.variation.isSome then Longname.stripVariation old.longname else old.longname

/-- The first two numbers with which a longname is free. -/
def numberPair (catalog : Catalog) (base : String) : String × String :=
  let first := freeNumber catalog base 0
  (toString first, toString (freeNumber catalog base first))

/-- The variations of two functions of one longname, and how these are told apart. -/
def choosePair (overloads : Overloads) (catalog : Catalog) (base : String) (old new : Doclet) :
    (String × String) × Variations :=
  let numbered := overloads.overloaded.find? base = some .numbered ∨
    catalog.contains (withVariation base "1")
  match if numbered then none else pairVariations? old new with
  | some pair => (pair, .named)
  | none => (numberPair catalog base, .numbered)

/-- Tells apart a function and an older one of the same longname. -/
def separate (overloads : Overloads) (catalog : Catalog) (oldId newId : Nat) (old new : Doclet) :
    Overloads × Catalog :=
  let base := sharedBase old
  let (variations, how) := overloads.choosePair catalog base old new
  let overloads := { overloads with latest := overloads.latest.erase old.longname }
  let catalog := assign catalog oldId base variations.1
  let catalog := assign catalog newId base variations.2
  let overloads := overloads.remember (withVariation base variations.1) oldId
  let overloads := overloads.remember (withVariation base variations.2) newId
  (overloads.record base how, catalog)

/-- The variation of a function whose longname has overloads with variations already, and how these
are told apart from then on. -/
def chooseLate (catalog : Catalog) (d : Doclet) (how : Variations) : String × Variations :=
  let own := ownVariation d
  if how = .named ∧ catalog.contains (withVariation d.longname own) = false then (own, .named)
  else (toString (freeNumber catalog d.longname 0), .numbered)

/-- Tells a function from the overloads of its longname that have variations already. -/
def join (overloads : Overloads) (catalog : Catalog) (id : Nat) (d : Doclet) (how : Variations) :
    Overloads × Catalog :=
  let (variation, how) := chooseLate catalog d how
  let catalog := assign catalog id d.longname variation
  let overloads := overloads.remember (withVariation d.longname variation) id
  (overloads.record d.longname how, catalog)

/-- Takes notice of the doclet at a position. Only functions with an owner are told apart. -/
def track (overloads : Overloads) (catalog : Catalog) (id : Nat) : Overloads × Catalog :=
  match catalog.get? id with
  | none => (overloads, catalog)
  | some d =>
    if d.kind ≠ some .function ∨ d.memberof = none then (overloads, catalog)
    else
      match overloads.latest.find? d.longname with
      | some oldId =>
        match catalog.get? oldId with
        | some old => overloads.separate catalog oldId id old d
        | none => (overloads, catalog)
      | none =>
        match overloads.overloaded.find? d.longname with
        | some how => overloads.join catalog id d how
        | none => (overloads.remember d.longname id, catalog)

end Overloads

end Commentary
