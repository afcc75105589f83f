import Commentary.Render.Format
import Commentary.Script.Scan
import Commentary.Session

/-!
# Runs

A run documents some sources: it scans each for comments, adds them to one session, and finishes it.
-/

namespace Commentary

/-- A source file: its path and its text. -/
structure SourceFile where
  path : String
  text : String
deriving DecidableEq, Repr, Inhabited

/-- Adds the comments of a source file to a session. -/
def Session.addFile {σ : Type} (session : Session σ) (file : SourceFile) : Noted (Session σ) := do
  let session ← (Script.scan file.path file.text).foldlM (fun session source => do
    let (session, _) ← session.addComment source
    return session) session.beginFile
  return session.endFile

/-- Documents source files. -/
def document (dictionary : Dictionary) (files : List SourceFile) :
    Noted (Except Problem Docset) := do
  let session : Session Unit := { dictionary, state := () }
  let session := session.begin (files.map SourceFile.path)
  let session ← files.foldlM Session.addFile session
  let (result, _) ← session.finish
  return result

end Commentary
