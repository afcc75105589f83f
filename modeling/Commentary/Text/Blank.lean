import Commentary.Text.CharRange

/-!
# Blanks

What counts as a blank, and how a text loses the blanks at its ends. Every part of the program that
speaks of blanks means this class: comment bodies, tag texts, type expressions and source lines.
-/

namespace Commentary.Text

/-- The ranges of blank characters, in increasing order. -/
def blankRanges : List (Nat × Nat) := [
  (0x9, 0xD), (0x20, 0x20), (0x85, 0x85), (0xA0, 0xA0), (0x1680, 0x1680), (0x2000, 0x200A),
  (0x2028, 0x2029), (0x202F, 0x202F), (0x205F, 0x205F), (0x3000, 0x3000)]

/-- A space, a tab, a line end or any other white space. -/
def isBlank (c : Char) : Bool := inRanges blankRanges c

/-- The characters without the blanks in front. -/
def trimStartChars (cs : List Char) : List Char := cs.dropWhile isBlank

/-- The characters without the blanks behind. -/
def trimEndChars (cs : List Char) : List Char := (cs.reverse.dropWhile isBlank).reverse

/-- The characters without the blanks at both ends. -/
def trimChars (cs : List Char) : List Char := trimEndChars (trimStartChars cs)

/-- The text without the blanks at both ends. -/
def trim (s : String) : String := String.ofList (trimChars s.toList)

/-- Whether a text holds blanks only. -/
def isAllBlank (s : String) : Bool := s.toList.all isBlank

/-- The characters up to the first blank, and the rest from it on. -/
def splitAtBlank (cs : List Char) : List Char × List Char := cs.span fun c => !isBlank c

@[simp]
theorem trimEndChars_nil : trimEndChars [] = [] := rfl

end Commentary.Text
