import Commentary.Text.Split

/-!
# Path patterns

A pattern is a path in which names may hold wildcards: `?` stands for one character, `*` for any
text, `[a-z_]` for one of some characters and `[!a-z_]` for one of all others. The name `**` stands
for any number of folders below one another; no other name may hold two stars in a row. Patterns
know nothing of what stands on a host.
-/

namespace Commentary.Files

/-! ## Names -/

/-- Characters that a pair of brackets lists. -/
inductive Listed where
  | one (c : Char)
  | range (first last : Char)
deriving DecidableEq, Repr

/-- Whether a character is listed. -/
def Listed.holds (c : Char) : Listed → Bool
  | .one c' => c == c'
  | .range first last => first ≤ c && c ≤ last

/-- What a pair of brackets lists. A hyphen between two characters makes a range of them. -/
def listed : List Char → List Listed
  | first :: '-' :: last :: rest => .range first last :: listed rest
  | c :: rest => .one c :: listed rest
  | [] => []

/-- A part of a name. -/
inductive Piece where
  | char (c : Char)
  | anyChar
  | anyText
  | within (items : List Listed)
  | outside (items : List Listed)
deriving DecidableEq, Repr

namespace Piece

/-- Whether a piece can stand for a character. -/
def accepts : Piece → Char → Bool
  | .char c, c' => c == c'
  | .anyChar, _ | .anyText, _ => true
  | .within items, c => items.any (Listed.holds c)
  | .outside items, c => !items.any (Listed.holds c)

/-- The character that a piece always stands for. -/
def char? : Piece → Option Char
  | .char c => some c
  | _ => none

end Piece

/-- What brackets hold, and what follows them. They hold at least one character, which may be a
closing bracket. -/
def bracketed? : List Char → Option (List Char × List Char)
  | [] => none
  | c :: rest =>
    match rest.dropWhile (· != ']') with
    | _ :: after => some (c :: rest.takeWhile (· != ']'), after)
    | [] => none

/-- What follows brackets is shorter than the text from their inside on. -/
theorem length_lt_of_bracketed? {cs inside after : List Char}
    (h : bracketed? cs = some (inside, after)) : after.length < cs.length := by
  match cs with
  | [] => simp [bracketed?] at h
  | c :: rest =>
    have hle : (rest.dropWhile (· != ']')).length ≤ rest.length :=
      (List.dropWhile_sublist _).length_le
    simp only [bracketed?] at h
    split at h
    · next hrest =>
      simp only [Option.some.injEq, Prod.mk.injEq] at h
      rw [hrest, List.length_cons, h.2] at hle
      simp only [List.length_cons]
      omega
    · simp at h

/-- The pieces of a name; `none` if brackets are not closed or two stars stand in a row. -/
def pieces? : List Char → Option (List Piece)
  | [] => some []
  | '?' :: rest => (pieces? rest).map (.anyChar :: ·)
  | '*' :: '*' :: _ => none
  | '*' :: rest => (pieces? rest).map (.anyText :: ·)
  | '[' :: '!' :: rest =>
    match _h : bracketed? rest with
    | some (inside, after) => (pieces? after).map (.outside (listed inside) :: ·)
    | none => none
  | '[' :: rest =>
    match _h : bracketed? rest with
    | some (inside, after) => (pieces? after).map (.within (listed inside) :: ·)
    | none => none
  | c :: rest => (pieces? rest).map (.char c :: ·)
termination_by cs => cs.length
decreasing_by
  · simp
  · simp
  · have := length_lt_of_bracketed? _h
    simp only [List.length_cons]
    omega
  · have := length_lt_of_bracketed? _h
    simp only [List.length_cons]
    omega
  · simp

/-- For each place of a list, whether `true` stands there or further on. -/
def trueFrom (bs : List Bool) : List Bool :=
  bs.foldr (fun b later => (b || later.headD false) :: later) []

/-- For each end of a text, from the whole text down to the empty one, whether pieces stand for it.
Every piece is held against all ends at once, so that the work grows with the number of pieces times
the length of the text, however many stars there are. -/
def matchEnds : List Piece → List Char → List Bool
  | [], cs => cs.map (fun _ => false) ++ [true]
  | .anyText :: pieces, cs => trueFrom (matchEnds pieces cs)
  | piece :: pieces, cs =>
    cs.zipWith (fun c after => piece.accepts c && after) (matchEnds pieces cs).tail ++ [false]

/-- Whether pieces stand for a name. -/
def matchPieces (pieces : List Piece) (cs : List Char) : Bool :=
  (matchEnds pieces cs).headD false

/-- The first end of a text is the text itself. -/
theorem matchEnds_eq_cons (pieces : List Piece) (cs : List Char) :
    matchEnds pieces cs = matchPieces pieces cs :: (matchEnds pieces cs).tail := by
  suffices h : matchEnds pieces cs ≠ [] by
    obtain ⟨b, bs, hb⟩ := List.exists_cons_of_ne_nil h
    simp only [matchPieces, hb]
    rfl
  induction pieces with
  | nil => simp [matchEnds]
  | cons piece pieces ih =>
    obtain ⟨b, bs, hb⟩ := List.exists_cons_of_ne_nil ih
    cases piece <;> simp [matchEnds, trueFrom, hb]

/-- The other ends of a text are the ends of what follows its first character. -/
theorem tail_matchEnds_cons (pieces : List Piece) (c : Char) (cs : List Char) :
    (matchEnds pieces (c :: cs)).tail = matchEnds pieces cs := by
  induction pieces with
  | nil => rfl
  | cons piece pieces ih =>
    cases piece with
    | anyText => simp only [matchEnds]; rw [matchEnds_eq_cons, ih]; rfl
    | _ => simp only [matchEnds, ih]; rw [matchEnds_eq_cons pieces cs]; rfl

/-- The empty text has no other end. -/
theorem tail_matchEnds_nil (pieces : List Piece) : (matchEnds pieces []).tail = [] := by
  induction pieces with
  | nil => rfl
  | cons piece pieces ih =>
    cases piece with
    | anyText => rw [matchEnds, matchEnds_eq_cons, ih]; rfl
    | _ => rfl

/-- No pieces stand for the empty name alone. -/
theorem matchPieces_nil (cs : List Char) : matchPieces [] cs = cs.isEmpty := by
  cases cs <;> rfl

/-- A star stands for nothing, or for the first character and what a star stands for after it. -/
theorem matchPieces_anyText_cons (pieces : List Piece) (c : Char) (cs : List Char) :
    matchPieces (.anyText :: pieces) (c :: cs) =
      (matchPieces pieces (c :: cs) || matchPieces (.anyText :: pieces) cs) := by
  rw [matchPieces, matchEnds, matchEnds_eq_cons, tail_matchEnds_cons]
  rfl

/-- Any other piece stands for a first character that it accepts. -/
theorem matchPieces_cons_cons {piece : Piece} (h : piece ≠ .anyText) (pieces : List Piece)
    (c : Char) (cs : List Char) :
    matchPieces (piece :: pieces) (c :: cs) = (piece.accepts c && matchPieces pieces cs) := by
  cases piece with
  | anyText => exact absurd rfl h
  | _ =>
    simp only [matchPieces, matchEnds, tail_matchEnds_cons]
    rw [matchEnds_eq_cons pieces cs]
    rfl

/-- Only stars stand for the empty name. -/
theorem matchPieces_cons_nil (piece : Piece) (pieces : List Piece) :
    matchPieces (piece :: pieces) [] = (piece == .anyText && matchPieces pieces []) := by
  cases piece with
  | anyText =>
    rw [matchPieces, matchEnds, matchEnds_eq_cons, tail_matchEnds_nil]
    exact Bool.or_false _
  | _ => rfl

/-- A segment of a pattern. -/
inductive Segment where
  /-- Any number of folders below one another. -/
  | folders
  /-- The names that pieces stand for. -/
  | name (pieces : List Piece)
deriving DecidableEq, Repr

namespace Segment

/-- Reads a segment. -/
def parse? (cs : List Char) : Option Segment :=
  if cs = ['*', '*'] then some .folders else (pieces? cs).map .name

/-- Whether a segment stands for a name. -/
def accepts : Segment → String → Bool
  | .folders, _ => true
  | .name pieces, text => matchPieces pieces text.toList

/-- The one name that a segment without wildcards stands for. -/
def literal? : Segment → Option String
  | .folders => none
  | .name pieces => (pieces.mapM Piece.char?).map String.ofList

/-- Whether a segment is written with a dot in front. -/
def startsWithDot : Segment → Bool
  | .name (.char '.' :: _) => true
  | _ => false

end Segment

/-! ## Paths -/

/-- A path with wildcards. -/
structure Pattern where
  /-- Whether the path starts at the root. -/
  absolute : Bool := false
  segments : List Segment
  /-- Whether only folders are meant, which a slash at the end says. -/
  foldersOnly : Bool := false
deriving DecidableEq, Repr

/-- Items without the last, if that is empty and not the only one. -/
def dropEmptyEnd (items : List (List Char)) : List (List Char) :=
  match items.reverse with
  | [] :: item :: before => (item :: before).reverse
  | _ => items

/-- Reads a pattern; `none` if one of its segments cannot be read. -/
def Pattern.parse? (text : String) : Option Pattern := do
  let cs := text.toList
  let absolute := cs.head? == some '/'
  let segments ← (dropEmptyEnd (Text.splitOn '/' (if absolute then cs.tail else cs))).mapM
    Segment.parse?
  return { absolute, segments, foldersOnly := cs.getLast? == some '/' }

end Commentary.Files
