/-!
# Ranges of characters

A class of characters is a list of inclusive ranges of code points.
-/

namespace Commentary.Text

/-- Whether a character's code point lies in one of the ranges. -/
def inRanges (ranges : List (Nat × Nat)) (c : Char) : Bool :=
  ranges.any fun (lo, hi) => lo ≤ c.toNat && c.toNat ≤ hi

end Commentary.Text
