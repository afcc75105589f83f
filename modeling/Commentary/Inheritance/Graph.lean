import Commentary.Catalog

/-!
# Dependency graphs

Which class-like symbols build on which by one relation, and an order in which a symbol comes after
those it builds on. The order is that in which a depth-first walk leaves the symbols; where symbols
build on each other in a circle, the walk goes around it once.
-/

namespace Commentary.Inheritance

/-- Whether doclets of a kind can build on others and be built on. -/
def isClassLike : Kind → Bool
  | .class | .external | .interface | .mixin => true
  | _ => false

/-- The class-like symbols, each with the symbols it builds on. -/
structure Graph where
  edges : Table String (List String) := .empty
deriving Repr

namespace Graph

/-- The symbols that a symbol builds on. -/
def targets (graph : Graph) (node : String) : List String := (graph.edges.find? node).getD []

/-- Adds those of some targets that a list does not hold, in order. -/
def addNew (targets : List String) (new : List String) : List String :=
  new.foldl (fun targets target =>
    if targets.contains target then targets else targets ++ [target]) targets

/-- The graph with the node of a doclet, if it is class-like, and what the doclet builds on. -/
def addDoclet (relation : Relation) (graph : Graph) (d : Doclet) : Graph :=
  if d.kind.any isClassLike then
    ⟨graph.edges.insert d.longname (addNew (graph.targets d.longname) (d.related relation))⟩
  else graph

/-- The graph of the doclets of a catalog, whether or not what they build on is there. -/
def ofCatalog (relation : Relation) (catalog : Catalog) : Graph :=
  catalog.toList.foldl (addDoclet relation) {}

/-- The first node that builds on something that is no node, and what that is. -/
def missing? (graph : Graph) : Option (String × String) :=
  graph.edges.entries.findSome? fun (node, targets) =>
    (targets.find? (!graph.edges.contains ·)).map fun target => (node, target)

/-- The place of the first class-like doclet of a longname that builds on a target. -/
def declaredAt (relation : Relation) (catalog : Catalog) (node target : String) : Location :=
  ((catalog.toList.find? fun d =>
    d.kind.any isClassLike && d.longname == node && (d.related relation).contains target).map
      Doclet.location).getD {}

/-- The graph of a catalog. It is a problem if something that a symbol builds on is no node. -/
def build (relation : Relation) (catalog : Catalog) : Except Problem Graph :=
  let graph := ofCatalog relation catalog
  match graph.missing? with
  | some (node, target) =>
    .error (.missingDependency node target (declaredAt relation catalog node target))
  | none => .ok graph

/-! ## The order -/

/-- Where a walk stands: the nodes it has entered, and those it has left, the last one first. -/
structure Walk where
  entered : List String := []
  left : List String := []
deriving Repr

/-- Walks from a node that was just entered, at most the given number of levels deep, and leaves
it. -/
def visit (graph : Graph) : Nat → Walk → String → Walk
  | 0, walk, node => { walk with left := node :: walk.left }
  | levels + 1, walk, node =>
    let walk := (graph.targets node).foldl (fun walk target =>
      if walk.entered.contains target then walk
      else visit graph levels { walk with entered := target :: walk.entered } target) walk
    { walk with left := node :: walk.left }

/-- Walks from a node, unless it was entered before. No walk goes deeper than there are nodes. -/
def enter (graph : Graph) (walk : Walk) (node : String) : Walk :=
  if walk.entered.contains node then walk
  else graph.visit graph.edges.entries.length { walk with entered := node :: walk.entered } node

/-- The nodes in an order in which each comes after those it builds on. -/
def sort (graph : Graph) : List String :=
  (graph.edges.keys.foldl graph.enter {}).left.reverse

end Graph

end Commentary.Inheritance
