import Commentary.Text.Split

/-!
# Paths

A path is a text with slashes between its segments. Empty segments and dots do not count, except for
a dot in front of a relative path. This module names the last segment, its stem and extension, and
the path of the folder around it, and puts paths in order.
-/

namespace Commentary.Path

open Commentary.Text

/-- The segments of a path, each with whether it counts. -/
def segments (path : String) : List (List Char × Bool) :=
  match splitOn '/' path.toList with
  | [] => []
  | first :: rest =>
    (first, !first.isEmpty) ::
      rest.map fun segment => (segment, !segment.isEmpty && segment != ['.'])

/-- Whether a path starts at the root. -/
def isAbsolute (path : String) : Bool := path.toList.head? == some '/'

/-- The segments that count, in order. -/
def components (path : String) : List String :=
  ((segments path).filter Prod.snd).map fun (segment, _) => String.ofList segment

/-- The last segment that counts, unless it stands for another folder. -/
def fileName? (path : String) : Option String :=
  match (components path).getLast? with
  | some "." | some ".." => none
  | found => found

/-- Cuts a file name at its last dot. A dot in front does not cut. -/
def cutAtDot (name : String) : String × Option String :=
  match name.toList.reverse.span (· != '.') with
  | (ending, _ :: stem) =>
    if stem.isEmpty then (name, none)
    else (String.ofList stem.reverse, some (String.ofList ending.reverse))
  | _ => (name, none)

/-- The file name without its extension. -/
def fileStem? (path : String) : Option String := (fileName? path).map fun name => (cutAtDot name).1

/-- What follows the last dot of the file name. -/
def extension? (path : String) : Option String :=
  (fileName? path).bind fun name => (cutAtDot name).2

/-- The path of the folder around the last segment; `none` for a path without segments. -/
def parent? (path : String) : Option String :=
  let dropNoise := List.dropWhile fun segment : List Char × Bool => !segment.2
  match dropNoise (segments path).reverse with
  | [] => none
  | _ :: before =>
    match dropNoise before with
    | [] => some (if isAbsolute path then "/" else "")
    | before => some (String.ofList (List.intercalate ['/'] (before.reverse.map Prod.fst)))

/-- A path below a folder. -/
def join (folder name : String) : String :=
  if folder.isEmpty then name
  else if folder.toList.getLast? == some '/' then folder ++ name
  else folder ++ "/" ++ name

/-! ## Order -/

/-- A step on a path. Steps of different kinds are in this order, and names are in the order of
their characters. -/
inductive Step where
  | root
  | here
  | up
  | name (text : String)
deriving DecidableEq, Repr, Ord

/-- The steps on a path. Two paths with the same steps are one path. -/
def steps (path : String) : List Step :=
  let step := fun segment =>
    if segment = "." then .here else if segment = ".." then .up else .name segment
  (if isAbsolute path then [.root] else []) ++ (components path).map step

/-- Whether steps do not come behind others. -/
def stepsLe : List Step → List Step → Bool
  | [], _ => true
  | _ :: _, [] => false
  | s :: ss, t :: ts =>
    match compare s t with
    | .lt => true
    | .eq => stepsLe ss ts
    | .gt => false

/-- Whether a path does not come behind another. -/
def le (a b : String) : Bool := stepsLe (steps a) (steps b)

/-- Keeps the first spelling of each run of spellings of one path. -/
def dropRepeats : List String → List String
  | a :: b :: rest =>
    if steps a = steps b then dropRepeats (a :: rest) else a :: dropRepeats (b :: rest)
  | paths => paths
termination_by paths => paths.length

/-- The paths in order, each once, in the spelling that came first. -/
def sorted (paths : List String) : List String := dropRepeats (paths.mergeSort le)

end Commentary.Path
