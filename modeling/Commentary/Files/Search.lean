import Commentary.Files.Host
import Commentary.Files.Pattern
import Commentary.Path

/-!
# Searches

Looks for the paths that a pattern stands for. A name without wildcards is looked up; any other is
held against the names in the folder reached so far. Paths that are found are written from the
working folder on, without a dot in front.
-/

namespace Commentary.Files

variable {m : Type → Type} [Monad m]

/-- The path of the working folder. -/
def workingFolder : String := "."

/-- The path of a name in a folder. The working folder is not written. -/
def pathIn (folder name : String) : String :=
  if Path.components folder = [workingFolder] then name else Path.join folder name

/-- The names that stand for a folder itself and for the folder around it. -/
def dotNames : List String := [".", ".."]

/-- The paths that segments stand for from a folder on. Wildcards stand for the two names of dots
only if a dot is written in front. The search ends at a depth of `depth` names. -/
def searchFrom (host : Host m) : Nat → String → List Segment → m (List String)
  | _, path, [] => pure [path]
  | 0, _, _ :: _ => pure []
  | depth + 1, path, segment :: segments =>
    match segment.literal? with
    | some name => do
      let next := pathIn path name
      let found ← if dotNames.contains name then host.isFolder path else host.isThere next
      if found then searchFrom host depth next segments else pure []
    | none => do
      let names := (← host.names? path).getD []
      let paths ← names.mapM fun name => do
        let next := pathIn path name
        match segment with
        | .folders => do
          let segments := segments.dropWhile (· = .folders)
          let isFolder ← host.isFolder next
          let below ← if isFolder then searchFrom host depth next (.folders :: segments)
            else pure []
          let beside ← match segments with
            | [] => pure (if isFolder then [next] else [])
            | segment :: segments =>
              if segment.accepts name then searchFrom host depth next segments else pure []
          return below ++ beside
        | .name _ =>
          if segment.accepts name then searchFrom host depth next segments else pure []
      let dots := if segment.startsWithDot then dotNames.filter segment.accepts else []
      let around ← if ← host.isFolder path then
          dots.mapM fun name => searchFrom host depth (Path.join path name) segments
        else pure []
      return (paths ++ around).flatten

/-- The number of folders below one another that a search looks into. -/
def searchDepth : Nat := 4096

/-- The files that a pattern stands for. -/
def Pattern.files (pattern : Pattern) (host : Host m) : m (List String) := do
  if pattern.foldersOnly then return []
  let start := if pattern.absolute then "/" else workingFolder
  let paths ← searchFrom host (searchDepth + pattern.segments.length) start pattern.segments
  paths.filterM host.isFile

end Commentary.Files
