/-!
# The tokens of JSON text

JSON text is cut into marks, words, numbers and strings. The escapes of a string can write half of a
character outside the basic plane; such a string is well formed and still has no text, so its token
holds none. A reader that skips the string accepts it, one that wants its text does not.
-/

namespace Commentary.Json

/-- A token of JSON text. -/
inductive Token where
  | lbrace | rbrace | lbracket | rbracket | colon | comma
  | null
  | bool (b : Bool)
  | number (spelling : String)
  | string (text : Option String)
deriving DecidableEq, Repr

/-- The value of a hexadecimal digit. -/
def hexValue? (c : Char) : Option Nat :=
  if c.isDigit then some (c.toNat - 48)
  else if 'a' ≤ c ∧ c ≤ 'f' then some (c.toNat - 87)
  else if 'A' ≤ c ∧ c ≤ 'F' then some (c.toNat - 55)
  else none

/-- The value of four hexadecimal digits, and what follows them. -/
def hexUnit? : List Char → Option (Nat × List Char)
  | a :: b :: c :: d :: rest => do
    let a ← hexValue? a
    let b ← hexValue? b
    let c ← hexValue? c
    let d ← hexValue? d
    return (((a * 16 + b) * 16 + c) * 16 + d, rest)
  | _ => none

/-- The character that two surrogate units write together. -/
def pairChar? (high low : Nat) : Option Char :=
  if 0xD800 ≤ high ∧ high < 0xDC00 ∧ 0xDC00 ≤ low ∧ low < 0xE000 then
    some (Char.ofNat (0x10000 + (high - 0xD800) * 0x400 + (low - 0xDC00)))
  else none

/-- The character that one unit writes, unless it is a surrogate. -/
def unitChar? (n : Nat) : Option Char :=
  if 0xD800 ≤ n ∧ n < 0xE000 then none else some (Char.ofNat n)

/-- The second unit of a pair at the start of a text, and what follows it. -/
def secondUnit? : List Char → Option (Nat × List Char)
  | '\\' :: 'u' :: rest => hexUnit? rest
  | _ => none

/-- The character that a unit escape writes together with what follows it, `none` for half of one,
and the rest of the text. -/
def unitEscape? (cs : List Char) : Option (Option Char × List Char) := do
  let (n, rest) ← hexUnit? cs
  match secondUnit? rest with
  | some (low, after) =>
    match pairChar? n low with
    | some c => return (some c, after)
    | none => return (unitChar? n, rest)
  | none => return (unitChar? n, rest)

/-- The character that an escape writes, `none` for half of one, and the rest of the text. -/
def escape? : List Char → Option (Option Char × List Char)
  | '"' :: rest => some (some '"', rest)
  | '\\' :: rest => some (some '\\', rest)
  | '/' :: rest => some (some '/', rest)
  | 'b' :: rest => some (some '\x08', rest)
  | 'f' :: rest => some (some '\x0c', rest)
  | 'n' :: rest => some (some '\n', rest)
  | 'r' :: rest => some (some '\r', rest)
  | 't' :: rest => some (some '\t', rest)
  | 'u' :: rest => unitEscape? rest
  | _ => none

theorem length_lt_of_hexUnit? {cs rest : List Char} {n : Nat} (h : hexUnit? cs = some (n, rest)) :
    rest.length < cs.length := by
  unfold hexUnit? at h
  split at h
  · simp [Option.bind_eq_some_iff] at h
    obtain ⟨_, _, _, _, _, _, _, _, _, rfl⟩ := h
    simp only [List.length_cons]
    omega
  · simp at h

theorem length_lt_of_secondUnit? {cs rest : List Char} {n : Nat}
    (h : secondUnit? cs = some (n, rest)) : rest.length < cs.length := by
  unfold secondUnit? at h
  split at h
  · have := length_lt_of_hexUnit? h
    simp only [List.length_cons]
    omega
  · simp at h

theorem length_lt_of_unitEscape? {cs rest : List Char} {c : Option Char}
    (h : unitEscape? cs = some (c, rest)) : rest.length < cs.length := by
  simp only [unitEscape?, Option.bind_eq_bind, Option.bind_eq_some_iff] at h
  obtain ⟨⟨n, mid⟩, hmid, h⟩ := h
  have hlt := length_lt_of_hexUnit? hmid
  split at h
  case h_1 low after hsecond =>
    have := length_lt_of_secondUnit? hsecond
    split at h <;> simp at h <;> grind
  case h_2 =>
    simp at h
    grind

theorem length_lt_of_escape? {cs rest : List Char} {c : Option Char}
    (h : escape? cs = some (c, rest)) : rest.length < cs.length := by
  unfold escape? at h
  split at h
  case h_9 =>
    have := length_lt_of_unitEscape? h
    simp only [List.length_cons]
    omega
  all_goals simp_all

/-- The characters of a string behind its opening mark, `none` for half characters, and the rest of
the text behind its closing mark. -/
def stringChars? (cs : List Char) : Option (List (Option Char) × List Char) :=
  match cs with
  | [] => none
  | '"' :: rest => some ([], rest)
  | '\\' :: rest =>
    match _h : escape? rest with
    | none => none
    | some (c, after) => (stringChars? after).map fun (s, rest) => (c :: s, rest)
  | c :: rest =>
    if c.toNat < 32 then none
    else (stringChars? rest).map fun (s, rest) => (some c :: s, rest)
termination_by cs.length
decreasing_by
  · have := length_lt_of_escape? _h
    simp only [List.length_cons]
    omega
  · simp

/-- The text of a string, if it holds no half characters. -/
def stringText (cs : List (Option Char)) : Option String := (cs.mapM id).map String.ofList

/-- The fraction of a number at the start of a text, and the rest. -/
def fraction? : List Char → Option (List Char × List Char)
  | '.' :: rest =>
    match rest.span Char.isDigit with
    | ([], _) => none
    | (digits, rest) => some ('.' :: digits, rest)
  | rest => some ([], rest)

/-- The exponent of a number at the start of a text, and the rest. -/
def exponent? : List Char → Option (List Char × List Char)
  | e :: rest =>
    if e = 'e' ∨ e = 'E' then
      let (sign, rest) :=
        match rest with
        | '+' :: rest => (['+'], rest)
        | '-' :: rest => (['-'], rest)
        | rest => ([], rest)
      match rest.span Char.isDigit with
      | ([], _) => none
      | (digits, rest) => some (e :: sign ++ digits, rest)
    else some ([], e :: rest)
  | [] => some ([], [])

/-- The digits of a whole number at the start of a text, and the rest. A leading zero stands
alone. -/
def wholeDigits? : List Char → Option (List Char × List Char)
  | '0' :: rest => if rest.head?.any Char.isDigit then none else some (['0'], rest)
  | cs =>
    match cs.span Char.isDigit with
    | ([], _) => none
    | found => some found

/-- The spelling of a number at the start of a text, and the rest. -/
def number? (cs : List Char) : Option (List Char × List Char) := do
  let (sign, rest) :=
    match cs with
    | '-' :: rest => (['-'], rest)
    | rest => ([], rest)
  let (whole, rest) ← wholeDigits? rest
  let (fraction, rest) ← fraction? rest
  let (exponent, rest) ← exponent? rest
  return (sign ++ whole ++ fraction ++ exponent, rest)

/-- Whether a character may stand between tokens. -/
def isSpace (c : Char) : Bool := c == ' ' || c == '\n' || c == '\t' || c == '\r'

/-- The token of a mark. -/
def ofMark? : Char → Option Token
  | '\x7b' => some .lbrace
  | '\x7d' => some .rbrace
  | '[' => some .lbracket
  | ']' => some .rbracket
  | ':' => some .colon
  | ',' => some .comma
  | _ => none

/-- The token at the start of a text, and the rest. -/
def token? : List Char → Option (Token × List Char)
  | 'n' :: 'u' :: 'l' :: 'l' :: rest => some (.null, rest)
  | 't' :: 'r' :: 'u' :: 'e' :: rest => some (.bool true, rest)
  | 'f' :: 'a' :: 'l' :: 's' :: 'e' :: rest => some (.bool false, rest)
  | '"' :: rest => (stringChars? rest).map fun (s, rest) => (.string (stringText s), rest)
  | c :: rest =>
    match ofMark? c with
    | some token => some (token, rest)
    | none => (number? (c :: rest)).map fun (s, rest) => (.number (String.ofList s), rest)
  | [] => none

/-- Cuts a text into at most `n` tokens. -/
def tokensUpTo : Nat → List Char → Option (List Token)
  | n, cs =>
    match cs.dropWhile isSpace with
    | [] => some []
    | c :: rest =>
      match n with
      | 0 => none
      | n + 1 =>
        match token? (c :: rest) with
        | none => none
        | some (token, rest) => (tokensUpTo n rest).map (token :: ·)

/-- The tokens of a text; `none` if it holds something that is no token. -/
def tokens? (text : String) : Option (List Token) := tokensUpTo text.toList.length text.toList

end Commentary.Json
