/-!
# Scopes

How a symbol relates to its owner, and the delimiter that writes the relation in a longname.
-/

namespace Commentary

/-- The relation between a symbol and its owner. -/
inductive Scope where
  | global
  | static
  | inner
  | «instance»
deriving DecidableEq, Repr, Inhabited

namespace Scope

/-- The word for a scope. -/
def text : Scope → String
  | .global => "global"
  | .static => "static"
  | .inner => "inner"
  | .instance => "instance"

/-- The scope that a word names. -/
def ofText? : String → Option Scope
  | "global" => some .global
  | "static" => some .static
  | "inner" => some .inner
  | "instance" => some .instance
  | _ => none

/-- The delimiter that stands between an owner and a symbol of this scope. -/
def punctuation : Scope → String
  | .global => ""
  | .static => "."
  | .inner => "~"
  | .instance => "#"

/-- The scope that a delimiter writes. -/
def ofPunctuation? : Char → Option Scope
  | '.' => some .static
  | '~' => some .inner
  | '#' => some .instance
  | _ => none

/-- Whether a character is a scope delimiter. -/
def isPunctuation (c : Char) : Bool := (ofPunctuation? c).isSome

@[simp]
theorem ofText?_text (s : Scope) : ofText? s.text = some s := by cases s <;> rfl

end Scope

end Commentary
