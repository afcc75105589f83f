import Commentary.Table
import Commentary.Text.Case
import Commentary.Text.Letter

/-!
# Headings and their anchors

The anchor of a heading is its text in small letters, without what is neither letter, number, blank,
hyphen nor underscore, and with hyphens for blanks. A heading whose anchor has been given out before
gets a number behind it.
-/

namespace Commentary.Render

/-- Whether a character stays in an anchor. -/
def staysInAnchor (c : Char) : Bool := Text.isNameChar c || c == ' ' || c == '-' || c == '_'

/-- The anchor of a heading, without a number. -/
def anchorBase (heading : String) : String :=
  String.ofList <| ((Text.lower heading).toList.filter staysInAnchor).map fun c =>
    if c = ' ' then '-' else c

/-- How often each anchor has been given out. -/
structure Anchors where
  given : Table String Nat := .empty
deriving Repr, Inhabited

/-- Gives out the anchor of a heading. -/
def Anchors.next (anchors : Anchors) (heading : String) : String × Anchors :=
  let base := anchorBase heading
  let count := (anchors.given.find? base).getD 0
  (if count = 0 then base else base ++ "-" ++ toString count,
   ⟨anchors.given.insert base (count + 1)⟩)

/-- Gives out the anchors of several headings in order. -/
def Anchors.nextAll (anchors : Anchors) : List String → List String
  | [] => []
  | heading :: rest =>
    let (anchor, anchors) := anchors.next heading
    anchor :: anchors.nextAll rest

/-- Whether a character has a meaning in Markdown or HTML. -/
def isMarkup (c : Char) : Bool := ['<', '>', '_', '*', '[', ']', '|'].contains c

/-- A text with a backslash in front of every character that has a meaning in Markdown. -/
def escapeText (text : String) : String :=
  String.ofList (text.toList.flatMap fun c => if isMarkup c then ['\\', c] else [c])

/-- A link to an anchor. -/
def anchorLink (text anchor : String) : String := "[" ++ escapeText text ++ "](#" ++ anchor ++ ")"

/-- An item of an index, indented by its level. -/
def indexItem (text anchor : String) (level : Nat) : String :=
  String.ofList (List.replicate (2 * level) ' ') ++ "* " ++ anchorLink text anchor

end Commentary.Render
