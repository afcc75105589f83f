import Commentary.Files.Host
import Commentary.Path
import Commentary.Table

/-!
# Trees of files

A host in memory: folders, files with their texts, a working folder and standard input. A path leads
from the working folder, or from the root, through its segments; whatever has a segment behind it
must be a folder, so that a path with a slash at its end only leads to folders.
-/

namespace Commentary.Files

/-- Files and folders in memory, each by the names on the way to it from the root. -/
structure Tree where
  folders : List (List String) := []
  files : Table (List String) String := .empty
  /-- The working folder. -/
  here : List String := []
  /-- All of standard input. -/
  input : String := ""

namespace Tree

/-- What stands at a place. -/
def kindAt? (tree : Tree) (place : List String) : Option Entry :=
  if place.isEmpty || tree.folders.contains place then some .folder
  else if tree.files.contains place then some .file
  else none

/-- Where a segment leads from a folder. -/
def follow (folder : List String) (segment : String) : List String :=
  if segment.isEmpty || segment = "." then folder
  else if segment = ".." then folder.dropLast
  else folder ++ [segment]

/-- Where segments lead from a place. -/
def walk? (tree : Tree) : List String → List String → Option (List String)
  | place, [] => some place
  | place, segment :: segments =>
    if tree.kindAt? place = some .folder then walk? tree (follow place segment) segments else none

/-- Where a path starts. -/
def start (tree : Tree) (path : String) : List String :=
  if Path.isAbsolute path then [] else tree.here

/-- All segments of a path. -/
def allSegments (path : String) : List String :=
  (Path.segments path).map fun (segment, _) => String.ofList segment

/-- The place of a path. The empty path has none. -/
def locate? (tree : Tree) (path : String) : Option (List String) :=
  if path.isEmpty then none else tree.walk? (tree.start path) (allSegments path)

/-- What stands at a path. -/
def kind? (tree : Tree) (path : String) : Option Entry := (tree.locate? path).bind tree.kindAt?

/-- The name of a place in a folder. -/
def nameIn? (folder place : List String) : Option String :=
  match folder.isPrefixOf? place with
  | some [name] => some name
  | _ => none

/-- The names in a folder. -/
def names? (tree : Tree) (path : String) : Option (List String) := do
  let folder ← tree.locate? path
  guard (tree.kindAt? folder = some .folder)
  return (tree.folders ++ tree.files.keys).filterMap (nameIn? folder)

/-- The text of a file. -/
def read? (tree : Tree) (path : String) : Option String :=
  (tree.locate? path).bind tree.files.find?

/-- Makes the folders that segments lead through. -/
def makeFrom? (tree : Tree) : List String → List String → Option Tree
  | place, [] => if tree.kindAt? place = some .folder then some tree else none
  | place, segment :: segments =>
    if tree.kindAt? place = some .folder then
      let next := follow place segment
      let tree := match tree.kindAt? next with
        | none => { tree with folders := tree.folders ++ [next] }
        | some _ => tree
      makeFrom? tree next segments
    else none

/-- Makes a folder and those around it. -/
def makeFolders? (tree : Tree) (path : String) : Option Tree :=
  tree.makeFrom? (tree.start path) (allSegments path)

/-- Sets the text of a file. -/
def write? (tree : Tree) (path text : String) : Option Tree := do
  let place ← tree.locate? path
  guard (tree.kindAt? place ≠ some .folder)
  return { tree with files := tree.files.insert place text }

/-- Puts a file into the tree, with the folders around it. Nothing is changed if that is not
possible. -/
def put (tree : Tree) (path text : String) : Tree :=
  let made := match Path.parent? path with
    | some parent => if parent.isEmpty then some tree else tree.makeFolders? parent
    | none => some tree
  (made.bind (·.write? path text)).getD tree

/-- A working folder that holds some files, given by their paths and texts. -/
def ofFiles (input : String) (files : List (String × String)) : Tree :=
  files.foldl (fun tree (path, text) => tree.put path text)
    { folders := [["work"]], here := ["work"], input }

/-- Changes the tree if that is possible, and says whether it was. -/
def change (f : Tree → Option Tree) : StateM Tree Bool := do
  match f (← get) with
  | some tree => set tree; return true
  | none => return false

/-- The tree as a host. -/
def host : Host (StateM Tree) where
  input := do return some (← get).input
  kind? path := do return (← get).kind? path
  names? path := do return (← get).names? path
  read? path := do return (← get).read? path
  makeFolders path := change (·.makeFolders? path)
  write path text := change (·.write? path text)

end Tree

end Commentary.Files
