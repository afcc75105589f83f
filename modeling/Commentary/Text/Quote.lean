/-!
# Quoted spans

Finding the end of a quoted span. A backslash protects the character behind it, so a protected quote
does not close the span.
-/

namespace Commentary.Text

/-- A quotation mark that can open a quoted span. -/
def isQuote (c : Char) : Bool := c == '"' || c == '\''

/-- Cuts a text just behind its first unprotected mark `q`; `none` if it has none. -/
def splitAfterMark (q : Char) : List Char → Option (List Char × List Char)
  | [] => none
  | '\\' :: [] => none
  | '\\' :: c :: rest => (splitAfterMark q rest).map fun (span, after) => ('\\' :: c :: span, after)
  | c :: rest =>
    if c = q then some ([c], rest)
    else (splitAfterMark q rest).map fun (span, after) => (c :: span, after)

/-- A cut loses nothing: the two parts make up the text. -/
theorem append_of_splitAfterMark {q : Char} {cs span after : List Char}
    (h : splitAfterMark q cs = some (span, after)) : span ++ after = cs := by
  fun_induction splitAfterMark q cs generalizing span after with
  | case1 => simp at h
  | case2 => simp at h
  | case3 c rest ih =>
    obtain ⟨⟨s, a⟩, hs, heq⟩ := Option.map_eq_some_iff.1 h
    cases heq
    simp [ih hs]
  | case4 rest =>
    cases h
    rfl
  | case5 c rest _ _ hc ih =>
    obtain ⟨⟨s, a⟩, hs, heq⟩ := Option.map_eq_some_iff.1 h
    cases heq
    simp [ih hs]

/-- What follows the mark is never longer than the text. -/
theorem length_le_of_splitAfterMark {q : Char} {cs span after : List Char}
    (h : splitAfterMark q cs = some (span, after)) : after.length ≤ cs.length := by
  rw [← append_of_splitAfterMark h]
  simp

end Commentary.Text
