/-!
# Hosts

What a run asks of the place it runs in: standard input, and the files and folders at given paths.
Every request can fail, and a run only learns that it did. A run is written for any host, so that it
can be run on the disk and on a tree of files in memory.
-/

namespace Commentary.Files

/-- What stands at a path. -/
inductive Entry where
  | file
  | folder
deriving DecidableEq, Repr

/-- The place a run runs in. -/
structure Host (m : Type → Type) where
  /-- All of standard input. -/
  input : m (Option String)
  /-- What stands at a path, if anything does. -/
  kind? : String → m (Option Entry)
  /-- The names in a folder, in no order. -/
  names? : String → m (Option (List String))
  /-- The text of a file. -/
  read? : String → m (Option String)
  /-- Makes a folder and those around it, unless they are there, and says whether they are there
  now. -/
  makeFolders : String → m Bool
  /-- Sets the text of a file, and says whether that was possible. -/
  write : String → String → m Bool

namespace Host

variable {m : Type → Type} [Monad m]

/-- Whether a file stands at a path. -/
def isFile (host : Host m) (path : String) : m Bool := do
  return (← host.kind? path) == some .file

/-- Whether a folder stands at a path. -/
def isFolder (host : Host m) (path : String) : m Bool := do
  return (← host.kind? path) == some .folder

/-- Whether anything stands at a path. -/
def isThere (host : Host m) (path : String) : m Bool := do
  return (← host.kind? path).isSome

end Host

end Commentary.Files
