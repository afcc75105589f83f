import Commentary.Text.Blank
import Commentary.Text.Quote

/-!
# The tokens of a type expression

A type expression is cut into marks, names and quoted literals, each with the byte offset at which
it starts. Blanks only separate. A name runs up to the next blank or mark, except that the colon of
a `module:`, `external:` or `event:` in front of more text belongs to the name.
-/

namespace Commentary.TypeExpr

open Commentary.Text

/-- A token of a type expression. -/
inductive Token where
  | lparen | rparen | langle | rangle | lbrace | rbrace | lbracket | rbracket
  | pipe | comma | colon | equals | question | bang | star | ellipsis
  | name (text : String)
  | literal (text : String)
deriving DecidableEq, Repr

namespace Token

/-- The text of a token. -/
def text : Token → String
  | .lparen => "("
  | .rparen => ")"
  | .langle => "<"
  | .rangle => ">"
  | .lbrace => "\x7b"
  | .rbrace => "\x7d"
  | .lbracket => "["
  | .rbracket => "]"
  | .pipe => "|"
  | .comma => ","
  | .colon => ":"
  | .equals => "="
  | .question => "?"
  | .bang => "!"
  | .star => "*"
  | .ellipsis => "..."
  | .name text => text
  | .literal text => text

/-- The token that a single character makes. -/
def ofMark? : Char → Option Token
  | '(' => some .lparen
  | ')' => some .rparen
  | '<' => some .langle
  | '>' => some .rangle
  | '\x7b' => some .lbrace
  | '\x7d' => some .rbrace
  | '[' => some .lbracket
  | ']' => some .rbracket
  | '|' => some .pipe
  | ',' => some .comma
  | ':' => some .colon
  | '=' => some .equals
  | '?' => some .question
  | '!' => some .bang
  | '*' => some .star
  | _ => none

end Token

/-- A token with the byte offset of its first character. -/
structure Lexeme where
  token : Token
  offset : Nat
deriving DecidableEq, Repr

/-- What can be wrong with a type expression. -/
inductive Cause where
  /-- A quoted literal is not closed. -/
  | unterminatedLiteral
  /-- A token stands where none of its kind can. -/
  | unexpected (found : Token)
  /-- The expression ends where a type has to follow. -/
  | unexpectedEnd
  /-- A certain token had to follow. -/
  | expected (token : Token) (found : Option Token)
  /-- Type parameters follow something other than a name. -/
  | parametersOnNonName
  /-- A record holds something other than a field name. -/
  | expectedFieldName (found : Token)
  /-- A record is not closed. -/
  | unterminatedRecord
  /-- A grammar other than this one refuses the expression in its own words. -/
  | refused (message : String)
deriving DecidableEq, Repr

/-- A token between backquotes. -/
def quoteToken (token : Token) : String := "`" ++ token.text ++ "`"

/-- The wording of a cause. -/
def Cause.message : Cause → String
  | .unterminatedLiteral => "unterminated string literal"
  | .unexpected found => "unexpected " ++ quoteToken found
  | .unexpectedEnd => "unexpected end of expression"
  | .expected token found =>
    "expected " ++ quoteToken token ++ ", found " ++
      (found.map quoteToken).getD "end of expression"
  | .parametersOnNonName => "type parameters on a non-name type"
  | .expectedFieldName found => "expected a field name, found " ++ quoteToken found
  | .unterminatedRecord => "unterminated record type"
  | .refused message => message

/-- A cause and the byte offset at which it shows. -/
structure Error where
  cause : Cause
  offset : Nat
deriving DecidableEq, Repr

/-- The wording of an error together with its place. -/
def Error.message (e : Error) : String :=
  e.cause.message ++ " (at offset " ++ toString e.offset ++ ")"

/-- How many bytes characters take. -/
def byteSize : List Char → Nat
  | [] => 0
  | c :: cs => c.utf8Size + byteSize cs

/-- Whether a character ends a name. -/
def isStructural (c : Char) : Bool := (Token.ofMark? c).isSome || isQuote c

/-- Whether a name, given in reverse, may be followed by a colon. -/
def isNamespaceWord (reversed : List Char) : Bool :=
  let name := String.ofList reversed.reverse
  name == "module" || name == "external" || name == "event"

/-- Whether the colon of a namespace, with text right behind it, stands here. -/
def atNamespaceColon (reversed : List Char) (c : Char) (rest : List Char) : Bool :=
  c == ':' && isNamespaceWord reversed && rest.head?.any (!isBlank ·)

/-- The rest of a name, of which the characters in `reversed` have been read. -/
def takeName (reversed : List Char) : List Char → List Char × List Char
  | [] => (reversed.reverse, [])
  | c :: rest =>
    if isBlank c || (isStructural c && !atNamespaceColon reversed c rest) then
      (reversed.reverse, c :: rest)
    else takeName (c :: reversed) rest

/-- A name and what follows it make up the text. -/
theorem takeName_append (reversed cs : List Char) :
    (takeName reversed cs).1 ++ (takeName reversed cs).2 = reversed.reverse ++ cs := by
  fun_induction takeName reversed cs <;> simp_all

/-- What follows a name is not longer than the text. -/
theorem length_takeName_le (reversed cs : List Char) :
    (takeName reversed cs).2.length ≤ cs.length := by
  fun_induction takeName reversed cs with
  | case1 => simp
  | case2 => simp
  | case3 _ _ _ _ ih =>
    simp only [List.length_cons]
    omega

/-- Cuts an expression that starts at byte `offset` into lexemes. -/
def lexFrom (offset : Nat) : List Char → Except Error (List Lexeme)
  | [] => .ok []
  | '.' :: '.' :: '.' :: rest => do
    return ⟨.ellipsis, offset⟩ :: (← lexFrom (offset + 3) rest)
  | c :: rest =>
    if isBlank c then lexFrom (offset + c.utf8Size) rest
    else if isQuote c then
      match _h : splitAfterMark c rest with
      | some (span, after) => do
        return ⟨.literal (String.ofList (c :: span)), offset⟩ ::
          (← lexFrom (offset + byteSize (c :: span)) after)
      | none => .error ⟨.unterminatedLiteral, offset⟩
    else
      match Token.ofMark? c with
      | some token => do return ⟨token, offset⟩ :: (← lexFrom (offset + c.utf8Size) rest)
      | none => do
        let name := (takeName [c] rest).1
        return ⟨.name (String.ofList name), offset⟩ ::
          (← lexFrom (offset + byteSize name) (takeName [c] rest).2)
termination_by cs => cs.length
decreasing_by
  · simp only [List.length_cons]
    omega
  · simp
  · have := length_le_of_splitAfterMark _h
    simp only [List.length_cons]
    omega
  · simp
  · have := length_takeName_le [c] rest
    simp only [List.length_cons]
    omega

/-- The lexemes of an expression. -/
def lex (expression : String) : Except Error (List Lexeme) := lexFrom 0 expression.toList

end Commentary.TypeExpr
