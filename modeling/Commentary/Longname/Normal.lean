import Commentary.Longname.Token

/-!
# The normal spelling of a longname

Two spellings of a path give way to one. A quoted name in brackets becomes a static member, so
`foo["bar"]` is written `foo."bar"`, and a `prototype` segment becomes the delimiter of an instance
member, so `Foo.prototype.bar` is written `Foo#bar`. The normal spelling is never longer than the
one it came from, which is what lets a chain of owners be followed to its end.
-/

namespace Commentary.Longname

/-! ## Brackets -/

/-- The delimiter that a bracketed name needs behind the character `last`: none if `last` is one. -/
def bracketDelimiter (last : Option Char) : List Char :=
  if last.any Scope.isPunctuation then [] else ['.']

/-- Respells bracketed quoted names, where `last` is the character written before. A closing bracket
is dropped only right behind the quoted name. -/
def dotBrackets (last : Option Char) : List Atom → List Char
  | .plain '[' :: .quoted mark span :: .plain ']' :: rest =>
    bracketDelimiter last ++ mark :: span ++ dotBrackets (mark :: span).getLast? rest
  | .plain '[' :: .quoted mark span :: rest =>
    bracketDelimiter last ++ mark :: span ++ dotBrackets (mark :: span).getLast? rest
  | atom :: rest => atom.chars ++ dotBrackets atom.chars.getLast? rest
  | [] => []

theorem length_bracketDelimiter_le (last : Option Char) : (bracketDelimiter last).length ≤ 1 := by
  unfold bracketDelimiter
  split <;> simp

theorem length_dotBrackets_le (last : Option Char) (as : List Atom) :
    (dotBrackets last as).length ≤ (as.flatMap Atom.chars).length := by
  fun_induction dotBrackets last as with
  | case1 last mark span rest ih =>
    have := length_bracketDelimiter_le last
    simp [Atom.chars] at ih ⊢
    omega
  | case2 last mark span rest _ ih =>
    have := length_bracketDelimiter_le last
    simp [Atom.chars] at ih ⊢
    omega
  | case3 last atom rest _ _ ih =>
    simp at ih ⊢
    omega
  | case4 => simp

/-! ## Prototype segments -/

/-- The segment that stands for the instances of its owner. -/
def prototypeName : List Char := ['p', 'r', 'o', 't', 'o', 't', 'y', 'p', 'e']

@[simp]
theorem length_prototypeName : prototypeName.length = 9 := rfl

/-- Respells `prototype` segments. When a segment may start here, `pending` holds the delimiter read
in front of it and not yet written; a `prototype` replaces that delimiter by `#` and takes the dot
behind it along. -/
def instancePaths (pending : Option (List Char)) : List Token → List Char
  | [] => pending.getD []
  | token :: rest =>
    if token = .text prototypeName ∧ pending.isSome then
      match rest with
      | .delimiter '.' :: rest => instancePaths (some ['#']) rest
      | rest => '#' :: instancePaths none rest
    else if token = .delimiter '.' then pending.getD [] ++ instancePaths (some ['.']) rest
    else pending.getD [] ++ (token.chars ++ instancePaths none rest)

theorem length_instancePaths_le (pending : Option (List Char)) (ts : List Token) :
    (instancePaths pending ts).length ≤ (pending.getD []).length + (spell ts).length := by
  fun_induction instancePaths pending ts with
  | case1 pending => simp
  | case2 pending token h rest ih =>
    simp [h.1, Token.chars] at ih ⊢
    omega
  | case3 pending token h rest _ ih =>
    simp [h.1, Token.chars] at ih ⊢
    omega
  | case4 pending rest _ ih =>
    simp [Token.chars] at ih ⊢
    omega
  | case5 pending token rest _ _ ih =>
    simp at ih ⊢
    omega

/-- Replaces each `prototype` segment of a path by the delimiter of an instance member. -/
def instancePathChars (cs : List Char) : List Char := instancePaths (some []) (tokenize cs)

/-- The normal spelling of a longname, as characters. -/
def normalChars (cs : List Char) : List Char := instancePathChars (dotBrackets none (atoms cs))

/-- Replaces each `prototype` segment of a path by the delimiter of an instance member. -/
def instancePath (s : String) : String := String.ofList (instancePathChars s.toList)

/-- The normal spelling of a longname. -/
def normalize (s : String) : String := String.ofList (normalChars s.toList)

/-- The normal spelling is never longer than the one it came from. -/
theorem length_normalChars_le (cs : List Char) : (normalChars cs).length ≤ cs.length := by
  have h₁ := length_instancePaths_le (some []) (tokenize (dotBrackets none (atoms cs)))
  have h₂ := length_dotBrackets_le none (atoms cs)
  rw [spell_tokenize] at h₁
  rw [flatMap_chars_atoms] at h₂
  simp only [normalChars, instancePathChars]
  simp at h₁
  omega

end Commentary.Longname
