import Commentary.Text.Blank
import Commentary.Text.Letter
import Commentary.Text.Lines

/-!
# Documentation comments

A documentation comment is a text between `/**` and `*/` whose lines may have a margin of asterisks.
This module takes the wrapping off, cuts a comment at its `@also` marks, and splits a body into the
tags written in it. Text in front of the first tag counts as a description.
-/

namespace Commentary

open Commentary.Text

/-- A tag as written: its title, and its text from the first blank on if that is not all blank. -/
structure WrittenTag where
  title : String
  text : Option String
deriving DecidableEq, Repr, Inhabited

namespace Comment

/-! ## Wrapping -/

/-- Takes the opening off a comment: a slash and two or more asterisks. -/
def dropOpening : List Char → List Char
  | '/' :: '*' :: '*' :: rest => rest.dropWhile (· == '*')
  | cs => cs

/-- Takes the closing off a comment: any number of asterisks and a slash. -/
def dropClosing (cs : List Char) : List Char :=
  match cs.reverse with
  | '/' :: '*' :: rest => (rest.dropWhile (· == '*')).reverse
  | _ => cs

/-- Takes the margin off a line: spaces and tabs, an asterisk and one space behind it. -/
def dropMargin (line : List Char) : List Char :=
  match line.dropWhile fun c => c == ' ' || c == '\t' with
  | '*' :: ' ' :: rest => rest
  | '*' :: rest => rest
  | _ => line

/-- Puts line feeds between lines. -/
def joinLines (ls : List (List Char)) : List Char := List.intercalate ['\n'] ls

/-- The body of a comment, as characters. -/
def bodyChars (comment : List Char) : List Char :=
  trimChars (joinLines ((lineChars (dropClosing (dropOpening comment))).map dropMargin))

/-- The body of a comment: what it says without delimiters and margin. -/
def body (comment : String) : String := String.ofList (bodyChars comment.toList)

/-! ## Several comments in one -/

/-- What follows an `@also` mark at the start of a text. The mark ends where its word does. -/
def afterAlso? : List Char → Option (List Char)
  | '@' :: 'a' :: 'l' :: 's' :: 'o' :: rest => if rest.head?.any isWordChar then none else some rest
  | _ => none

theorem length_lt_of_afterAlso? {cs rest : List Char} (h : afterAlso? cs = some rest) :
    rest.length < cs.length := by
  unfold afterAlso? at h
  split at h
  · split at h
    · simp at h
    · cases h
      simp only [List.length_cons]
      omega
  · simp at h

/-- Cuts a text at its `@also` marks, where `part` is what has been read of the current part, in
reverse. -/
def splitAlsoFrom (part : List Char) (cs : List Char) : List (List Char) :=
  match _h : afterAlso? cs with
  | some rest => part.reverse :: splitAlsoFrom [] rest
  | none =>
    match cs with
    | [] => [part.reverse]
    | c :: rest => splitAlsoFrom (c :: part) rest
termination_by cs.length
decreasing_by
  · exact length_lt_of_afterAlso? _h
  · simp

/-- Cuts a comment at its `@also` marks. -/
def splitAlso (comment : String) : List String :=
  (splitAlsoFrom [] comment.toList).map String.ofList

/-! ## Tags -/

/-- The text of a line from its tag title on, if the line starts a tag: blanks, an at sign, and a
character that is not blank. -/
def tagStart? (line : List Char) : Option (List Char) :=
  match trimStartChars line with
  | '@' :: c :: rest => if isBlank c then none else some (c :: rest)
  | _ => none

/-- The text of a tag from its first line and the lines that continue it. -/
def joinTag (first : List Char) (more : List (List Char)) : List Char :=
  first ++ more.flatMap ('\n' :: ·)

/-- The lines in front of the first tag, and then the tags, each with the lines that continue it. -/
def gatherTags : List (List Char) → List (List Char) × List (List Char)
  | [] => ([], [])
  | line :: rest =>
    let (more, tags) := gatherTags rest
    match tagStart? line with
    | some first => ([], joinTag first more :: tags)
    | none => (line :: more, tags)

/-- Splits a tag into its title and its text. -/
def readTag (tag : List Char) : WrittenTag :=
  let (title, rest) := splitAtBlank tag
  { title := String.ofList title
    text := if rest.all isBlank then none else some (String.ofList rest) }

/-- A body with its description tagged as one, if it does not start with a tag. -/
def withDescriptionTag (cs : List Char) : List Char :=
  if (trimStartChars cs).head? = some '@' then cs else "@description ".toList ++ cs

/-- The tags of a body. -/
def tagsOfBody (cs : List Char) : List WrittenTag :=
  if cs.isEmpty then [] else ((gatherTags (lineChars (withDescriptionTag cs))).2).map readTag

/-- The tags written in a comment. -/
def tags (comment : String) : List WrittenTag := tagsOfBody (bodyChars comment.toList)

end Comment

end Commentary
