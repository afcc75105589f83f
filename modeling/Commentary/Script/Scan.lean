import Commentary.Doclet.Effect
import Commentary.Path
import Commentary.Script.Declaration

/-!
# Finding documentation comments

A source is scanned line by line. Each documentation comment is held until the next code, the next
comment or the end of the source, and given with what the code declares. Open braces are counted so
that the scan knows the class or function around a line.
-/

namespace Commentary.Script

open Commentary.Text

/-- A documentation comment and the line on which it opens. -/
structure DocComment where
  text : String
  /-- The number of the line, from one on. It has no bound: a count in 32 bits differs, but only in
  a source of `2 ^ 32` lines or more. -/
  line : Nat
deriving DecidableEq, Repr

/-- Where a scan stands. -/
structure Scan where
  /-- How many braces are open. -/
  depth : Nat := 0
  /-- The bodies around the current line, innermost first. -/
  blocks : List Block := []
  /-- The comment that the current line stands in. -/
  opened : Option DocComment := none
  /-- The comment that waits for code. -/
  pending : Option DocComment := none
  /-- The comments found, each with what its code declares. -/
  found : List (DocComment × CodeHint) := []
deriving Repr

/-! ## Braces -/

/-- How many braces are open behind a line of which `quote` is the open quotation mark. Quoted text
and what follows two slashes do not count. -/
def countBraces (quote : Option Char) (depth : Nat) : List Char → Nat
  | [] => depth
  | c :: rest =>
    match quote with
    | some mark =>
      if c = '\\' then
        match rest with
        | _ :: rest => countBraces quote depth rest
        | [] => depth
      else countBraces (if c = mark then none else quote) depth rest
    | none =>
      if c = '"' ∨ c = '\'' ∨ c = '\x60' then countBraces (some c) depth rest
      else if c = '/' ∧ rest.head? = some '/' then depth
      else if c = '\x7b' then countBraces none (depth + 1) rest
      else if c = '\x7d' then countBraces none (depth - 1) rest
      else countBraces none depth rest

/-! ## Comments and code -/

/-- Cuts a text behind the first mark that closes a comment. -/
def splitAfterClose : List Char → Option (List Char × List Char)
  | '*' :: '/' :: rest => some (['*', '/'], rest)
  | c :: rest => (splitAfterClose rest).map fun (text, rest) => (c :: text, rest)
  | [] => none

/-- Cuts a line in front of the first mark that opens a documentation comment. The mark is no such
mark if an asterisk or a slash follows. -/
def splitAtOpening : List Char → Option (List Char × List Char)
  | '/' :: '*' :: '*' :: rest =>
    if rest.head? = some '*' ∨ rest.head? = some '/' then
      (splitAtOpening rest).map fun (code, body) => ('/' :: '*' :: '*' :: code, body)
    else some ([], '/' :: '*' :: '*' :: rest)
  | c :: rest => (splitAtOpening rest).map fun (code, body) => (c :: code, body)
  | [] => none

/-- Cuts a text that opens a comment behind the mark that closes it. -/
def splitComment : List Char → Option (List Char × List Char)
  | a :: b :: c :: rest =>
    (splitAfterClose rest).map fun (text, rest) => (a :: b :: c :: text, rest)
  | _ => none

theorem append_of_splitAfterClose {cs text rest : List Char}
    (h : splitAfterClose cs = some (text, rest)) : text ++ rest = cs := by
  fun_induction splitAfterClose cs generalizing text rest with
  | case1 =>
    cases h
    rfl
  | case2 c tail _ ih =>
    obtain ⟨⟨t, r⟩, hs, heq⟩ := Option.map_eq_some_iff.1 h
    cases heq
    simp [ih hs]
  | case3 => simp at h

theorem append_of_splitAtOpening {cs code body : List Char}
    (h : splitAtOpening cs = some (code, body)) : code ++ body = cs := by
  fun_induction splitAtOpening cs generalizing code body with
  | case1 tail _ ih =>
    obtain ⟨⟨t, r⟩, hs, heq⟩ := Option.map_eq_some_iff.1 h
    cases heq
    simp [ih hs]
  | case2 =>
    cases h
    rfl
  | case3 c tail _ ih =>
    obtain ⟨⟨t, r⟩, hs, heq⟩ := Option.map_eq_some_iff.1 h
    cases heq
    simp [ih hs]
  | case4 => simp at h

theorem append_of_splitComment {cs text rest : List Char}
    (h : splitComment cs = some (text, rest)) : text ++ rest = cs ∧ text ≠ [] := by
  unfold splitComment at h
  split at h
  · obtain ⟨⟨t, r⟩, hs, heq⟩ := Option.map_eq_some_iff.1 h
    cases heq
    simp [append_of_splitAfterClose hs]
  · simp at h

namespace Scan

/-- Gives a comment with what its code declares. -/
def emit (scan : Scan) (comment : DocComment) (code : CodeHint) : Scan :=
  { scan with found := scan.found ++ [(comment, code)] }

/-- Gives the comment that waits for code, if there is one, with what the code declares. -/
def flush (scan : Scan) (code : CodeHint) : Scan :=
  match scan.pending with
  | some comment => { scan with pending := none }.emit comment code
  | none => scan

/-- Takes a comment that has been closed. The one before it, if it still waits, has no code. -/
def close (scan : Scan) (comment : DocComment) : Scan :=
  { scan.flush {} with pending := some comment }

/-- Opens the body of a declaration on a line with an opening brace. -/
def openBlock (scan : Scan) (line : List Char) (opens : Option Block) : Scan :=
  match opens with
  | some block =>
    if line.contains '\x7b' then
      { scan with blocks := { block with depth := scan.depth } :: scan.blocks }
    else scan
  | none => scan

/-- Counts the braces of a line, and leaves the bodies that they close. -/
def countLine (scan : Scan) (line : List Char) : Scan :=
  let depth := countBraces none scan.depth line
  { scan with depth, blocks := scan.blocks.dropWhile fun block => depth ≤ block.depth }

/-- Takes a piece of code. Blank code and code that is a comment as a whole do not count. -/
def code (scan : Scan) (piece : List Char) : Scan :=
  let line := trimChars piece
  if line.isEmpty || (word? "//" line).isSome then scan
  else
    let declared := declaration? scan.blocks.head? line
    let scan := scan.flush ((declared.map Declaration.code).getD {})
    (scan.openBlock line (declared.bind Declaration.opens)).countLine line

/-- Takes the rest of a line, with the comments in it. -/
def rest (number : Nat) (scan : Scan) (cs : List Char) : Scan :=
  match _hcode : splitAtOpening cs with
  | none => scan.code cs
  | some (piece, body) =>
    match _htext : splitComment body with
    | some (text, after) => rest number ((scan.code piece).close ⟨String.ofList text, number⟩) after
    | none => { scan.code piece with opened := some ⟨String.ofList body, number⟩ }
termination_by cs.length
decreasing_by
  have hcode := congrArg List.length (append_of_splitAtOpening _hcode)
  obtain ⟨happ, hne⟩ := append_of_splitComment _htext
  have htext := congrArg List.length happ
  have hpos := List.length_pos_iff.2 hne
  simp at hcode htext
  omega

/-- Takes a line. -/
def line (scan : Scan) (number : Nat) (cs : List Char) : Scan :=
  match scan.opened with
  | none => scan.rest number cs
  | some comment =>
    match splitAfterClose cs with
    | some (text, after) =>
      let comment := { comment with text := comment.text ++ "\n" ++ String.ofList text }
      ({ scan with opened := none }.close comment).rest number after
    | none =>
      { scan with
        opened := some { comment with text := comment.text ++ "\n" ++ String.ofList cs } }

/-- Ends a scan: a comment that still waits has no code. -/
def finish (scan : Scan) : List (DocComment × CodeHint) := (scan.flush {}).found

/-- Takes lines, of which the first has the given number. The numbers go on without a bound. -/
def lines (scan : Scan) (number : Nat) : List (List Char) → Scan
  | [] => scan
  | cs :: more => (scan.line number cs).lines (number + 1) more

end Scan

/-- The documentation comments of a source, each with what its code declares. -/
def comments (source : String) : List (DocComment × CodeHint) :=
  (Scan.lines {} 1 (lineChars source.toList)).finish

/-- The documentation comments of a source file, as comments for a session. -/
def scan (path source : String) : List Doclet.Source :=
  (comments source).map fun (comment, code) =>
    { comment := comment.text
      origin :=
        { filename := some ((Path.fileName? path).getD "")
          path := some ((Path.parent? path).getD "")
          line := some comment.line
          code } }

end Commentary.Script
