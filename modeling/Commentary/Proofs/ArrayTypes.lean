import Commentary.Proofs.EnclosedTypes

/-!
# Spellings of arrays

An expression that stands for a type can be put in brackets: it is cut into the same tokens there
(`Reads.lexes`) and read as the same type (`Reads.enclosed`). So each of the three spellings of an
array is read, and all of them as the array of that type (`parse_arraySpellings`).
-/

namespace Commentary.TypeExpr

open Text

/-! ## Cutting in front of a bracket -/

theorem ne_of_getLast?_append (front : List Char) {back : List Char} {c : Char}
    (h : (front ++ back).getLast? ≠ some c) : back.getLast? ≠ some c := by
  intro hback
  rw [List.getLast?_append, hback] at h
  exact h rfl

/-- Whether a colon belongs to a name is decided by the character behind it, if there is one. -/
theorem atNamespaceColon_append {c : Char} {cs : List Char} (h : (c :: cs).getLast? ≠ some ':')
    (reversed rest : List Char) :
    atNamespaceColon reversed c (cs ++ rest) = atNamespaceColon reversed c cs := by
  rcases cs with _ | ⟨d, cs⟩
  · have hne : (c == ':') = false := beq_eq_false_iff_ne.2 fun hc => h (congrArg some hc)
    simp [atNamespaceColon, hne]
  · rfl

/-- A name that does not reach to the end of a text ends in the same place if more follows. -/
theorem takeName_append_of_endsName {cs rest : List Char} (h : cs.getLast? ≠ some ':')
    (hrest : EndsName rest) (reversed : List Char) : takeName reversed (cs ++ rest) =
      ((takeName reversed cs).1, (takeName reversed cs).2 ++ rest) := by
  fun_induction takeName reversed cs with
  | case1 reversed => exact takeName_of_endsName hrest reversed
  | case2 reversed c cs hends =>
    rw [List.cons_append, takeName, atNamespaceColon_append h, if_pos hends]
  | case3 reversed c cs hends ih =>
    rw [List.cons_append, takeName, atNamespaceColon_append h, if_neg hends]
    exact ih (ne_of_getLast?_append [c] h)

/-- An expression that does not end in a colon is cut into the same tokens if something follows
that does not go on a name. -/
theorem lexes_of_lexFrom {offset : Nat} {cs rest : List Char} {ts : List Lexeme}
    (h : lexFrom offset cs = .ok ts) (hcolon : cs.getLast? ≠ some ':') (hrest : EndsName rest) :
    Lexes cs (ts.map Lexeme.token) rest := by
  fun_induction lexFrom offset cs generalizing ts with
  | case1 =>
    cases h
    exact .nil rest
  | case2 offset cs ih =>
    obtain ⟨more, hmore, h⟩ := bind_eq_ok h
    cases h
    exact (lexes_ellipsis _).append (ih hmore (ne_of_getLast?_append ['.', '.', '.'] hcolon))
  | case3 offset c cs hdots hblank ih =>
    exact (lexes_blank hblank _).append (ih h (ne_of_getLast?_append [c] hcolon))
  | case4 offset c cs hdots hblank hquote span after hsplit ih =>
    obtain ⟨more, hmore, h⟩ := bind_eq_ok h
    cases h
    have hcs : c :: cs = (String.ofList (c :: span)).toList ++ after := by
      rw [String.toList_ofList, List.cons_append, append_of_splitAfterMark hsplit]
    rw [hcs] at hcolon ⊢
    exact (lexes_literal (isLiteral_of_splitAfterMark hquote hsplit) _).append
      (ih hmore (ne_of_getLast?_append _ hcolon))
  | case5 => cases h
  | case6 offset c cs hdots hblank hquote token htoken ih =>
    obtain ⟨more, hmore, h⟩ := bind_eq_ok h
    cases h
    exact (lexes_mark c htoken _).append (ih hmore (ne_of_getLast?_append [c] hcolon))
  | case7 offset c cs hdots hblank hquote hmark name =>
    rename_i ih
    obtain ⟨more, hmore, h⟩ := bind_eq_ok h
    cases h
    have hcs : c :: cs = (String.ofList (takeName [c] cs).1).toList ++ (takeName [c] cs).2 := by
      rw [String.toList_ofList, takeName_append]
      rfl
    have hdots' : ¬['.', '.', '.'] <+: c :: cs := by
      rintro ⟨rest', heq⟩
      obtain ⟨rfl, rfl⟩ := List.cons_eq_cons.1 heq
      exact hdots rest' rfl rfl
    have htake : takeName [] (c :: cs ++ rest) =
        ((takeName [c] cs).1, (takeName [c] cs).2 ++ rest) := by
      rw [List.cons_append, takeName, isStructural, hmark, Bool.eq_false_iff.2 hblank,
        Bool.eq_false_iff.2 hquote]
      exact takeName_append_of_endsName (ne_of_getLast?_append [c] hcolon) hrest [c]
    have hname : Lexes (String.ofList (takeName [c] cs).1).toList
        [.name (String.ofList (takeName [c] cs).1)] ((takeName [c] cs).2 ++ rest) := by
      refine lexes_of_takeName (isNameText_takeName hdots hblank hquote hmark) ?_ ?_
      · rw [← List.append_assoc, ← hcs]
        exact not_dots_append hdots' hrest
      · rw [← List.append_assoc, ← hcs, htake, String.toList_ofList]
    rw [hcs] at hcolon ⊢
    exact hname.append (ih hmore (ne_of_getLast?_append _ hcolon))

/-- An expression that is read as a type is cut into the same tokens in front of what does not go
on a name, since it does not end in a colon. -/
theorem Reads.lexes {text : String} {node : Node} (h : Reads text node) {rest : List Char}
    (hrest : EndsName rest) :
    ∃ ts, lex text = .ok ts ∧ Lexes text.toList (ts.map Lexeme.token) rest := by
  obtain ⟨ts, hlex, hread⟩ := h
  refine ⟨ts, hlex, lexes_of_lexFrom hlex (fun hcolon => ?_) hrest⟩
  have hlast := getLast?_of_lexFrom hlex hcolon
  obtain ⟨front, last, rfl, hne⟩ := (parses_inner hread).leaves
  rw [List.map_append, List.map_singleton, List.getLast?_concat] at hlast
  exact hne (Option.some.inj hlast)

/-! ## Spellings of arrays -/

/-- The spellings of an array whose elements have the type that an expression stands for. -/
def arraySpellings (expression : String) : List String :=
  ["(" ++ expression ++ ")[]", "Array<" ++ expression ++ ">", "Array.<" ++ expression ++ ">"]

/-- An expression that is not blank is read as a type, if it can be parsed. -/
theorem exists_reads_of_parse {expression : String} {summary : Summary}
    (hblank : isAllBlank expression = false) (h : parse expression = .ok summary) :
    ∃ node, Reads expression node := by
  obtain ⟨ts, hlex, h⟩ := bind_eq_ok h
  split at h
  next hempty =>
    rw [List.isEmpty_iff.1 hempty] at hlex
    rw [isAllBlank, (tiles_of_lex hlex).all_isBlank] at hblank
    cases hblank
  next =>
    obtain ⟨⟨node, marks⟩, hread, -⟩ := bind_eq_ok h
    exact ⟨_, ts, hlex, inner_of_readAll hread⟩

/-- A single atom is reported without marks. -/
theorem parse_of_atom {text : String} {ts : List Lexeme} {node : Node} (hlex : lex text = .ok ts)
    (hstart : startsType ts = true)
    (hatom : atom text.utf8ByteSize ts.length ts = .ok (node, [])) :
    parse text = .ok { names := node.names } := by
  have hunmarked : IsUnmarked ts := .inl hstart
  have hunion : union (atom text.utf8ByteSize ts.length) ts = .ok (node, []) :=
    union_of_member (member_of_isUnmarked hunmarked hatom) rfl
  have hread : readAll text.utf8ByteSize ts = .ok (node, {}) := by
    rw [readAll, modified_eq, leadingMarks_of_isUnmarked hunmarked, unmarked]
    simp only [Bool.false_and, Bool.false_eq_true, if_false, hunion]
    rfl
  have hne : ts.isEmpty = false := by
    rcases ts with _ | ⟨lexeme, ts⟩
    · cases hstart
    · rfl
  rw [parse, hlex]
  simp only [bind, Except.bind, hne, Bool.false_eq_true, if_false, hread]
  rfl

section Arrays

variable {expression : String} {node : Node} (h : Reads expression node)
include h

/-- The type of the elements in parentheses, with a pair of brackets behind it. -/
theorem parse_bracketed : parse ("(" ++ expression ++ ")[]") =
    .ok { names := (Node.generic "Array" [node]).names } := by
  obtain ⟨ts, hlex, hlexes⟩ :=
    h.lexes (endsName_cons (c := ')') (by decide) (by decide) ['[', ']'])
  have hmarks : Lexes ")[]".toList [.rparen, .lbracket, .rbracket] [] :=
    (lexes_mark ')' rfl _).append ((lexes_mark '[' rfl _).append (lexes_mark ']' rfl []))
  have htext : Lexes ("(" ++ expression ++ ")[]").toList
      (.lparen :: (ts.map Lexeme.token ++ [.rparen, .lbracket, .rbracket])) [] := by
    rw [String.toList_append, String.toList_append, List.append_assoc]
    exact (lexes_mark '(' rfl _).append (hlexes.append hmarks)
  obtain ⟨vs, hvs, hlex'⟩ := htext.lex_eq
  obtain ⟨o, vs, rfl, hinside⟩ := map_token_eq_cons hvs
  have hlength := congrArg List.length hinside
  simp only [List.length_map, List.length_append, List.length_cons, List.length_nil] at hlength
  have hclose : Closes [.rparen, .lbracket, .rbracket] := ⟨_, _, rfl, by decide⟩
  have hlevels : ts.length ≤ vs.length := by omega
  obtain ⟨rest, hrest, hread⟩ := h.enclosed hlex hclose hinside hlevels
    ("(" ++ expression ++ ")[]").utf8ByteSize
  obtain ⟨o₁, rest, rfl, hbehind⟩ := map_token_eq_cons hrest
  obtain ⟨o₂, rest, rfl, hlast⟩ := map_token_eq_cons hbehind
  obtain ⟨o₃, rfl⟩ := map_token_eq_singleton hlast
  refine parse_of_atom hlex' rfl ?_
  rw [List.length_cons, atom]
  simp only [atomHead, bind, Except.bind, hread, expect_cons]
  rfl

/-- The type of the elements as a type parameter. -/
theorem parse_parameter {base : String} (hbase : base = "Array" ∨ base = "Array.") :
    parse (base ++ "<" ++ expression ++ ">") =
      .ok { names := (Node.generic "Array" [node]).names } := by
  obtain ⟨ts, hlex, hlexes⟩ := h.lexes (endsName_cons (c := '>') (by decide) (by decide) [])
  have hname (rest : List Char) : Lexes base.toList [.name base] ('<' :: rest) := by
    have htext : IsNameText base := by
      rcases hbase with rfl | rfl <;> exact ⟨by decide, by decide, .inl (by decide)⟩
    exact lexes_name htext (endsName_cons (by decide) (by decide) rest) fun _ => nofun
  have htext : Lexes (base ++ "<" ++ expression ++ ">").toList
      (.name base :: .langle :: (ts.map Lexeme.token ++ [.rangle])) [] := by
    rw [String.toList_append, String.toList_append, String.toList_append, List.append_assoc,
      List.append_assoc]
    exact (hname _).append ((lexes_mark '<' rfl _).append (hlexes.append (lexes_mark '>' rfl [])))
  obtain ⟨vs, hvs, hlex'⟩ := htext.lex_eq
  obtain ⟨o, vs, rfl, htail⟩ := map_token_eq_cons hvs
  obtain ⟨o', vs, rfl, hinside⟩ := map_token_eq_cons htail
  have hlength := congrArg List.length hinside
  simp only [List.length_map, List.length_append, List.length_cons, List.length_nil] at hlength
  have hclose : Closes [.rangle] := ⟨_, _, rfl, by decide⟩
  have hlevels : ts.length ≤ vs.length + 1 := by omega
  obtain ⟨rest, hrest, hread⟩ := h.enclosed hlex hclose hinside hlevels
    (base ++ "<" ++ expression ++ ">").utf8ByteSize
  obtain ⟨o₁, rfl⟩ := map_token_eq_singleton hrest
  have hfunction : (base == "function") = false := by rcases hbase with rfl | rfl <;> decide
  have harray : genericBase base = "Array" := by rcases hbase with rfl | rfl <;> decide
  have hcomma : nextIs .comma [⟨.rangle, o₁⟩] = false := by simp [nextIs, peek?]
  refine parse_of_atom hlex' rfl ?_
  rw [List.length_cons, List.length_cons, atom]
  simp only [atomHead, hfunction, Bool.false_and, Bool.false_eq_true, if_false, bind, Except.bind]
  rw [List.length_cons]
  simp only [atomTail, items, hread, bind, Except.bind, List.length_singleton, moreItems, hcomma,
    Bool.false_eq_true, if_false, pure, Except.pure, expect_cons, harray]
  exact atomTail_of_endsAtom (fun token htoken => by cases htoken) vs.length

end Arrays

/-- All spellings of an array report the same single name and no marks, whatever the type of the
elements is. -/
theorem parse_arraySpellings {expression : String} {summary : Summary}
    (hblank : isAllBlank expression = false) (h : parse expression = .ok summary) :
    ∃ name, ∀ spelling ∈ arraySpellings expression, parse spelling = .ok { names := [name] } := by
  obtain ⟨node, hread⟩ := exists_reads_of_parse hblank h
  have hplain : "Array" ++ "<" = "Array<" := rfl
  have hdotted : "Array." ++ "<" = "Array.<" := rfl
  have hnames : (Node.generic "Array" [node]).names = [(Node.generic "Array" [node]).render] := rfl
  refine ⟨(Node.generic "Array" [node]).render, ?_⟩
  rw [arraySpellings, ← hplain, ← hdotted, ← hnames]
  simp only [List.forall_mem_cons]
  exact ⟨parse_bracketed hread, parse_parameter hread (.inl rfl), parse_parameter hread (.inr rfl),
    List.forall_mem_nil _⟩

theorem parse_arraySpellings_function :
    parse "?function(this:a.b, ...(c|d)=): module:x<e.<f>, 'g'[]>!" =
        .ok { names := ["function(this:a.b, ...(c|d)=): !module:x.<e.<f>, Array.<'g'>>"],
              nullable := some true } ∧
      ∃ name, ∀ spelling ∈
          arraySpellings "?function(this:a.b, ...(c|d)=): module:x<e.<f>, 'g'[]>!",
        parse spelling = .ok { names := [name] } := by
  have hparse : parse "?function(this:a.b, ...(c|d)=): module:x<e.<f>, 'g'[]>!" =
      .ok { names := ["function(this:a.b, ...(c|d)=): !module:x.<e.<f>, Array.<'g'>>"],
            nullable := some true } := by
    decide +kernel
  exact ⟨hparse, parse_arraySpellings (by decide +kernel) hparse⟩

end Commentary.TypeExpr
