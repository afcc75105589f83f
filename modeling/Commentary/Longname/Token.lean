import Commentary.Longname.Scope
import Commentary.Text.Quote

/-!
# The tokens of a longname

A longname is read in two steps. First it is cut into *atoms*: a backslash with the character it
protects, a quoted span, or a single character. Then the atoms are gathered into *tokens*, where a
scope delimiter stands alone unless it is quoted, protected or inside a closed parenthesis. Reading
loses nothing: the tokens spell the longname they came from (`spell_tokenize`).
-/

namespace Commentary.Longname

open Commentary.Text

/-! ## Atoms -/

/-- The smallest unit of a longname. -/
inductive Atom where
  /-- A backslash and the character behind it, if there is one. -/
  | escaped (next : Option Char)
  /-- A quotation mark and the span up to and with the mark that closes it. -/
  | quoted (mark : Char) (span : List Char)
  /-- Any other character. -/
  | plain (c : Char)
deriving DecidableEq, Repr

/-- The characters of an atom. -/
def Atom.chars : Atom → List Char
  | .escaped next => '\\' :: next.toList
  | .quoted mark span => mark :: span
  | .plain c => [c]

/-- The span behind an opening mark up to the mark that closes it. An empty span does not close. -/
def quotedSpan? (mark : Char) (cs : List Char) : Option (List Char × List Char) :=
  if cs.head? = some mark then none else splitAfterMark mark cs

theorem append_of_quotedSpan? {mark : Char} {cs span after : List Char}
    (h : quotedSpan? mark cs = some (span, after)) : span ++ after = cs := by
  unfold quotedSpan? at h
  split at h
  · simp at h
  · exact append_of_splitAfterMark h

theorem length_le_of_quotedSpan? {mark : Char} {cs span after : List Char}
    (h : quotedSpan? mark cs = some (span, after)) : after.length ≤ cs.length := by
  rw [← append_of_quotedSpan? h]
  simp

/-- Cuts a longname into atoms. -/
def atoms : List Char → List Atom
  | [] => []
  | '\\' :: [] => [.escaped none]
  | '\\' :: c :: rest => .escaped (some c) :: atoms rest
  | c :: rest =>
    if isQuote c then
      match _h : quotedSpan? c rest with
      | some (span, after) => .quoted c span :: atoms after
      | none => .plain c :: atoms rest
    else .plain c :: atoms rest
termination_by cs => cs.length
decreasing_by
  · simp only [List.length_cons]
    omega
  · have := length_le_of_quotedSpan? _h
    simp only [List.length_cons]
    omega
  · simp
  · simp

/-- The atoms of a text spell it. -/
theorem flatMap_chars_atoms (cs : List Char) : (atoms cs).flatMap Atom.chars = cs := by
  fun_induction atoms cs with
  | case1 => rfl
  | case2 => rfl
  | case3 c rest ih => simp [Atom.chars, ih]
  | case4 c rest _ _ _ span after h ih => simp [Atom.chars, ih, append_of_quotedSpan? h]
  | case5 c rest _ _ _ _ ih => simp [Atom.chars, ih]
  | case6 c rest _ _ _ ih => simp [Atom.chars, ih]

/-! ## Tokens -/

/-- A piece of a longname between which it can be split. -/
inductive Token where
  | text (cs : List Char)
  | quoted (cs : List Char)
  | delimiter (c : Char)
deriving DecidableEq, Repr

/-- The characters of a token. -/
def Token.chars : Token → List Char
  | .text cs => cs
  | .quoted cs => cs
  | .delimiter c => [c]

/-- Whether a parenthesis is closed by the atoms behind it, of which `depth` inner ones are open. -/
def closes (depth : Nat) : List Atom → Bool
  | [] => false
  | .plain c :: rest =>
    if c = '(' then closes (depth + 1) rest
    else if c = ')' then
      match depth with
      | 0 => true
      | depth + 1 => closes depth rest
    else closes depth rest
  | _ :: rest => closes depth rest

/-- Puts text in front of tokens, joining it to a text token there. -/
def prependText (cs : List Char) : List Token → List Token
  | .text ds :: rest => .text (cs ++ ds) :: rest
  | rest => .text cs :: rest

/-- Gathers atoms into tokens, `depth` closed parentheses being open. -/
def gather (depth : Nat) : List Atom → List Token
  | [] => []
  | .quoted mark span :: rest => .quoted (mark :: span) :: gather depth rest
  | .escaped next :: rest => prependText ('\\' :: next.toList) (gather depth rest)
  | .plain c :: rest =>
    if c = '(' ∧ closes 0 rest then prependText [c] (gather (depth + 1) rest)
    else if c = ')' ∧ 0 < depth then prependText [c] (gather (depth - 1) rest)
    else if depth = 0 ∧ Scope.isPunctuation c then .delimiter c :: gather depth rest
    else prependText [c] (gather depth rest)

/-- The tokens of a longname. -/
def tokenize (cs : List Char) : List Token := gather 0 (atoms cs)

/-- The text that tokens spell. -/
def spell (tokens : List Token) : List Char := tokens.flatMap Token.chars

@[simp]
theorem spell_nil : spell [] = [] := rfl

@[simp]
theorem spell_cons (t : Token) (ts : List Token) : spell (t :: ts) = t.chars ++ spell ts := by
  simp [spell]

@[simp]
theorem spell_append (ts us : List Token) : spell (ts ++ us) = spell ts ++ spell us := by
  simp [spell]

@[simp]
theorem spell_prependText (cs : List Char) (ts : List Token) :
    spell (prependText cs ts) = cs ++ spell ts := by
  unfold prependText
  split <;> simp [Token.chars]

theorem spell_gather (depth : Nat) (as : List Atom) :
    spell (gather depth as) = as.flatMap Atom.chars := by
  fun_induction gather depth as <;> simp_all [Token.chars, Atom.chars]

/-- The tokens of a longname spell it. -/
@[simp]
theorem spell_tokenize (cs : List Char) : spell (tokenize cs) = cs := by
  rw [tokenize, spell_gather, flatMap_chars_atoms]

end Commentary.Longname
