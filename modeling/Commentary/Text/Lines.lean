/-!
# Lines

A text is cut into lines at its line feeds. A carriage return just before a line feed belongs to the
line end, and an empty last line is no line.
-/

namespace Commentary.Text

/-- A line, given in reverse, without the carriage return of its line end. -/
def dropCarriageReturn : List Char → List Char
  | '\r' :: line => line
  | line => line

/-- The lines of a text, where `line` is what has been read of the current one, in reverse. -/
def linesFrom (line : List Char) : List Char → List (List Char)
  | [] => if line.isEmpty then [] else [line.reverse]
  | c :: rest =>
    if c = '\n' then (dropCarriageReturn line).reverse :: linesFrom [] rest
    else linesFrom (c :: line) rest

/-- The lines of a text, as characters. -/
def lineChars (cs : List Char) : List (List Char) := linesFrom [] cs

/-- The lines of a text. -/
def lines (s : String) : List String := (lineChars s.toList).map String.ofList

/-- Puts line feeds between the given lines. -/
def unlines (ls : List String) : String := String.intercalate "\n" ls

end Commentary.Text
