import Commentary.Cli.Program

/-!
# The command

Runs the program on the disk. Remarks and the failure of a run go to standard error.
-/

namespace Commentary

open Commentary.Cli
open Commentary.Files

/-- Reads a stream to its end. -/
partial def readToEnd (stream : IO.FS.Stream) (bytes : ByteArray) : IO ByteArray := do
  let more ← stream.read 65536
  if more.isEmpty then return bytes else readToEnd stream (bytes ++ more)

/-- What an action gives, if it does not fail. -/
def attempt? {α : Type} (action : IO α) : IO (Option α) := do
  try return some (← action) catch _ => return none

/-- The disk as a host. -/
def disk : Host IO where
  input := do
    let bytes ← attempt? (do readToEnd (← IO.getStdin) ByteArray.empty)
    return bytes.bind String.fromUTF8?
  kind? path := do
    let place := System.mkFilePath [path]
    if ← place.isDir then return some .folder
    if ← place.pathExists then return some .file
    return none
  names? path := attempt? do
    return (← (System.mkFilePath [path]).readDir).toList.map fun entry => entry.fileName
  read? path := attempt? (IO.FS.readFile path)
  makeFolders path := do return (← attempt? (IO.FS.createDirAll path)).isSome
  write path text := do return (← attempt? (IO.FS.writeFile path text)).isSome

/-- The line of a remark. -/
def remarkLine (remark : Remark) : String :=
  match remark.severity with
  | .warning => " WARN " ++ remark.message
  | .error => "ERROR " ++ remark.message

end Commentary

open Commentary in
/-- Runs the program with the arguments of the command. -/
def main (arguments : List String) : IO UInt32 := do
  let report ← Cli.run disk arguments
  for remark in report.remarks do IO.eprintln (remarkLine remark)
  IO.print report.output
  for failure in report.failure do IO.eprintln ("Error: " ++ failure.message)
  return report.status.toUInt32
