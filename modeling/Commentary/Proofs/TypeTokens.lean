import Commentary.TypeExpr.Parser
import Commentary.Proofs.LongnameTokens
import Mathlib.Data.List.Basic

/-!
# The tokens of a type

The canonical text of a type is made of tokens, and cutting the text gives them back
(`Node.lexes_render`). The tokens of a type are a second way to print it (`Node.tokens`), which has
no blanks and no characters in it; what reading does to them is the matter of later modules.

What can go wrong here is small. A text that stands for a name has to be one token (`IsNameText`,
`IsLiteral`), and it may not grow together with what follows it. In the text of a type a name is
followed by a mark, and then the only danger is a colon (`EndsName`). The names `module:`,
`external:` and `event:` are special: their own colon belongs to them only if something follows
(`IsOpenName`), so a type must not end in one of them (`Node.EndsOpen`).
-/

namespace Commentary.TypeExpr

open Commentary.Text

/-! ## Parts of a type -/

/-- The type that a function is called on. -/
def Receiver.type : Receiver → Node
  | .constructed type => type
  | .bound type => type

/-- The key of a field. -/
def Field.key : Field → String
  | .bare key => key
  | .typed key _ => key

/-- The type of a field that has one. -/
def Field.type? : Field → Option Node
  | .bare _ => none
  | .typed _ type => some type

/-- The type of a parameter. -/
def Param.type : Param → Node
  | .receiver r => r.type
  | .ordinary type => type

/-- The parameters of a function as its text lists them, with the receiver in front. -/
def paramsOf (receiver : Option Receiver) (params : List Node) : List Param :=
  receiver.toList.map .receiver ++ params.map .ordinary

/-- The types right inside a type. -/
def Node.children : Node → List Node
  | .name _ | .any | .unknown => []
  | .union members => members
  | .generic _ params => params
  | .function receiver params returns =>
    (receiver.map Receiver.type).toList ++ params ++ returns.toList
  | .record fields => fields.filterMap Field.type?
  | .modified inner _ => [inner]

/-- A property holds of a type and of all types inside it. -/
inductive Node.All (p : Node → Prop) : Node → Prop
  | intro {node : Node} (here : p node) (inside : ∀ child ∈ node.children, Node.All p child) :
    Node.All p node

namespace Node.All

variable {p q : Node → Prop} {node : Node}

theorem here (h : node.All p) : p node := by
  cases h with
  | intro here _ => exact here

theorem inside (h : node.All p) : ∀ child ∈ node.children, child.All p := by
  cases h with
  | intro _ inside => exact inside

/-- A type with no types inside it. -/
theorem leaf (here : p node) (hnone : node.children = []) : node.All p :=
  .intro here fun child hchild => by
    rw [hnone] at hchild
    cases hchild

theorem and (hp : node.All p) (hq : node.All q) : node.All fun node => p node ∧ q node := by
  induction hp with
  | intro here _ ih =>
    exact .intro ⟨here, hq.here⟩ fun child hchild => ih child hchild (hq.inside child hchild)

theorem mono (hpq : ∀ node, p node → q node) (h : node.All p) : node.All q := by
  induction h with
  | intro here _ ih => exact .intro (hpq _ here) ih

end Node.All

/-! ## Tokens -/

/-- The token of a text that stands for a name. -/
def wordToken (text : String) : Token :=
  if text.toList.head?.any isQuote then .literal text else .name text

/-- The tokens of the base of a generic type, with the dot behind it. -/
def baseTokens (base : String) : List Token :=
  if base.toList.head?.any isQuote then [.literal base, .name "."] else [.name (base ++ ".")]

/-- The tokens of the marks in front of a type. -/
def Modifiers.leadingTokens (m : Modifiers) : List Token :=
  (if m.repeatable then [.ellipsis] else []) ++
    match m.nullable with
    | some true => [.question]
    | some false => [.bang]
    | none => []

/-- The tokens of the marks behind a type. -/
def Modifiers.trailingTokens (m : Modifiers) : List Token := if m.optional then [.equals] else []

mutual

/-- The tokens of the canonical text of a type. -/
def Node.tokens : Node → List Token
  | .name text => [wordToken text]
  | .any => [.star]
  | .unknown => [.question]
  | .union members => .lparen :: ([.pipe].intercalate (tokensAll members) ++ [.rparen])
  | .generic base params =>
    baseTokens base ++ .langle :: ([.comma].intercalate (tokensAll params) ++ [.rangle])
  | .function receiver params returns =>
    .name "function" :: .lparen ::
      ([.comma].intercalate (tokensReceiver receiver ++ tokensAll params) ++
        .rparen :: tokensReturns returns)
  | .record fields => .lbrace :: ([.comma].intercalate (tokensFields fields) ++ [.rbrace])
  | .modified inner modifiers =>
    modifiers.leadingTokens ++ (inner.tokens ++ modifiers.trailingTokens)

/-- The tokens of several types. -/
def tokensAll : List Node → List (List Token)
  | [] => []
  | node :: rest => node.tokens :: tokensAll rest

/-- The tokens of a receiver, as the first parameter. -/
def tokensReceiver : Option Receiver → List (List Token)
  | some (.constructed type) => [.name "new" :: .colon :: type.tokens]
  | some (.bound type) => [.name "this" :: .colon :: type.tokens]
  | none => []

/-- The tokens of a result type. -/
def tokensReturns : Option Node → List Token
  | some type => .colon :: type.tokens
  | none => []

/-- The tokens of several fields. -/
def tokensFields : List Field → List (List Token)
  | [] => []
  | .bare key :: rest => [wordToken key] :: tokensFields rest
  | .typed key type :: rest => (wordToken key :: .colon :: type.tokens) :: tokensFields rest

end

@[simp]
theorem tokensAll_eq_map (nodes : List Node) : tokensAll nodes = nodes.map Node.tokens := by
  induction nodes with
  | nil => rfl
  | cons node rest ih => rw [tokensAll, ih, List.map_cons]

/-- The tokens of a field. -/
def Field.tokens : Field → List Token
  | .bare key => [wordToken key]
  | .typed key type => wordToken key :: .colon :: type.tokens

@[simp]
theorem tokensFields_eq_map (fields : List Field) :
    tokensFields fields = fields.map Field.tokens := by
  induction fields with
  | nil => rfl
  | cons field rest ih =>
    cases field <;> rw [tokensFields, ih, List.map_cons, Field.tokens]

/-- The text of a field. -/
def Field.render : Field → String
  | .bare key => key
  | .typed key type => key ++ ": " ++ type.render

@[simp]
theorem renderFields_eq_map (fields : List Field) :
    renderFields fields = fields.map Field.render := by
  induction fields with
  | nil => rfl
  | cons field rest ih =>
    cases field <;> rw [renderFields, ih, List.map_cons, Field.render]

/-- The tokens of a receiver. -/
def Receiver.tokens : Receiver → List Token
  | .constructed type => .name "new" :: .colon :: type.tokens
  | .bound type => .name "this" :: .colon :: type.tokens

/-- The text of a receiver. -/
def Receiver.render : Receiver → String
  | .constructed type => "new:" ++ type.render
  | .bound type => "this:" ++ type.render

/-- The tokens of a parameter. -/
def Param.tokens : Param → List Token
  | .receiver r => r.tokens
  | .ordinary type => type.tokens

/-- The text of a parameter. -/
def Param.render : Param → String
  | .receiver r => r.render
  | .ordinary type => type.render

theorem tokens_function (receiver : Option Receiver) (params : List Node)
    (returns : Option Node) : (Node.function receiver params returns).tokens =
      .name "function" :: .lparen ::
        ([.comma].intercalate ((paramsOf receiver params).map Param.tokens) ++
          .rparen :: tokensReturns returns) := by
  have hreceiver : tokensReceiver receiver =
      (receiver.toList.map Param.receiver).map Param.tokens := by
    rcases receiver with _ | _ | _ <;> rfl
  have hparams : tokensAll params = (params.map Param.ordinary).map Param.tokens := by
    rw [tokensAll_eq_map, List.map_map]
    rfl
  rw [Node.tokens, hreceiver, hparams, paramsOf, List.map_append]

theorem render_function (receiver : Option Receiver) (params : List Node)
    (returns : Option Node) : (Node.function receiver params returns).render =
      "function(" ++ String.intercalate ", " ((paramsOf receiver params).map Param.render) ++ ")" ++
        renderReturns returns := by
  have hreceiver : renderReceiver receiver =
      (receiver.toList.map Param.receiver).map Param.render := by
    rcases receiver with _ | _ | _ <;> rfl
  have hparams : renderAll params = (params.map Param.ordinary).map Param.render := by
    rw [renderAll_eq_map, List.map_map]
    rfl
  rw [Node.render, hreceiver, hparams, paramsOf, List.map_append]

theorem mem_children_function {receiver : Option Receiver} {params : List Node}
    {returns : Option Node} {child : Node} :
    child ∈ (Node.function receiver params returns).children ↔
      (∃ param ∈ paramsOf receiver params, param.type = child) ∨ returns = some child := by
  rcases receiver with _ | receiver <;>
    simp [Node.children, paramsOf, Param.type, or_assoc, eq_comm]

/-! ## Cutting

What a text is cut into, given what follows it. -/

/-- In front of `rest`, a text is cut into some tokens. -/
def Lexes (cs : List Char) (tokens : List Token) (rest : List Char) : Prop :=
  ∀ offset, ∃ ts next, ts.map Lexeme.token = tokens ∧
    lexFrom offset (cs ++ rest) = (lexFrom next rest).map (ts ++ ·)

namespace Lexes

variable {cs ds rest : List Char} {tokens tokens' : List Token}

theorem nil (rest : List Char) : Lexes [] [] rest := fun offset =>
  ⟨[], offset, rfl, by cases h : lexFrom offset rest <;> simp [h, Except.map]⟩

theorem append (hcs : Lexes cs tokens (ds ++ rest)) (hds : Lexes ds tokens' rest) :
    Lexes (cs ++ ds) (tokens ++ tokens') rest := by
  intro offset
  obtain ⟨ts, next, hts, hlex⟩ := hcs offset
  obtain ⟨ts', next', hts', hlex'⟩ := hds next
  refine ⟨ts ++ ts', next', by rw [List.map_append, hts, hts'], ?_⟩
  rw [List.append_assoc, hlex, hlex']
  cases lexFrom next' rest <;> simp [Except.map]

/-- A text in front of nothing. -/
theorem lex_eq {text : String} (h : Lexes text.toList tokens []) :
    ∃ ts, ts.map Lexeme.token = tokens ∧ lex text = .ok ts := by
  obtain ⟨ts, next, hts, hlex⟩ := h 0
  refine ⟨ts, hts, ?_⟩
  rw [List.append_nil, lexFrom] at hlex
  rw [lex, hlex, Except.map, List.append_nil]

end Lexes

/-! ## Marks and blanks -/

/-- Marks are neither blanks nor quotation marks nor dots. -/
theorem ne_of_ofMark? {c : Char} {token : Token} (h : Token.ofMark? c = some token) :
    isBlank c = false ∧ isQuote c = false ∧ c ≠ '.' := by
  unfold Token.ofMark? at h
  split at h
  all_goals first | decide | cases h

/-- Off a mark, a single character is cut off as a token of its own. -/
theorem lexFrom_cons {c : Char} {rest : List Char}
    (h : ¬['.', '.', '.'] <+: c :: rest) (offset : Nat) :
    lexFrom offset (c :: rest) =
      if isBlank c then lexFrom (offset + c.utf8Size) rest
      else if isQuote c then
        match splitAfterMark c rest with
        | some (span, after) =>
          (lexFrom (offset + byteSize (c :: span)) after).map
            (⟨.literal (String.ofList (c :: span)), offset⟩ :: ·)
        | none => .error ⟨.unterminatedLiteral, offset⟩
      else
        match Token.ofMark? c with
        | some token => (lexFrom (offset + c.utf8Size) rest).map (⟨token, offset⟩ :: ·)
        | none =>
          (lexFrom (offset + byteSize (takeName [c] rest).1) (takeName [c] rest).2).map
            (⟨.name (String.ofList (takeName [c] rest).1), offset⟩ :: ·) := by
  have hne : ∀ rest', c = '.' → rest = '.' :: '.' :: rest' → False := by
    rintro rest' rfl rfl
    exact h ⟨rest', rfl⟩
  rw [lexFrom]
  · split
    · rfl
    · split
      · split <;> (rename_i hsplit; rw [hsplit])
        rfl
      · rcases Token.ofMark? c with _ | token <;> rfl
  · exact hne

theorem lexes_mark (c : Char) {token : Token} (h : Token.ofMark? c = some token)
    (rest : List Char) : Lexes [c] [token] rest := by
  obtain ⟨hblank, hquote, hdot⟩ := ne_of_ofMark? h
  intro offset
  refine ⟨[⟨token, offset⟩], offset + c.utf8Size, rfl, ?_⟩
  rw [List.singleton_append, lexFrom_cons (by simp [hdot.symm]), hblank, hquote, h]
  rfl

theorem lexes_blank {c : Char} (h : isBlank c = true) (rest : List Char) : Lexes [c] [] rest := by
  have hdot : c ≠ '.' := by
    rintro rfl
    revert h
    decide
  intro offset
  refine ⟨[], offset + c.utf8Size, rfl, ?_⟩
  rw [List.singleton_append, lexFrom_cons (by simp [hdot.symm]), if_pos h]
  cases lexFrom (offset + c.utf8Size) rest <;> simp [Except.map]

theorem lexes_space (rest : List Char) : Lexes [' '] [] rest := lexes_blank (by decide) rest

theorem lexes_ellipsis (rest : List Char) : Lexes ['.', '.', '.'] [.ellipsis] rest := by
  intro offset
  refine ⟨[⟨.ellipsis, offset⟩], offset + 3, rfl, ?_⟩
  simp only [List.cons_append, List.nil_append]
  rw [lexFrom]
  rfl

/-! ## Names and literals -/

/-- Characters that neither are blank nor end a name. -/
def IsPlain (cs : List Char) : Prop := ∀ c ∈ cs, isBlank c = false ∧ isStructural c = false

instance (cs : List Char) : Decidable (IsPlain cs) :=
  List.decidableBAll (fun c => isBlank c = false ∧ isStructural c = false) cs

/-- The names to which a colon may belong. -/
def namespaceWords : List (List Char) := ["module".toList, "external".toList, "event".toList]

/-- A text that is cut off as one name: plain characters, or plain characters behind the colon of a
namespace. -/
structure IsNameText (text : String) : Prop where
  ne_nil : text.toList ≠ []
  not_dots : ¬['.', '.', '.'] <+: text.toList
  shape : IsPlain text.toList ∨
    ∃ word ∈ namespaceWords, ∃ cs, text.toList = word ++ ':' :: cs ∧ IsPlain cs

/-- A namespace with its colon and nothing behind. -/
def IsOpenName (text : String) : Prop := ∃ word ∈ namespaceWords, text.toList = word ++ [':']

/-- A quotation mark, and text up to the next one that ends the literal. -/
def IsLiteral (text : String) : Prop :=
  ∃ q span, text.toList = q :: span ∧ isQuote q = true ∧ splitAfterMark q span = some (span, [])

/-- What follows does not go on a name: it is nothing, or begins with a mark, and that is no colon
of a namespace. -/
def EndsName (rest : List Char) : Prop :=
  ∀ c ∈ rest.head?, isStructural c = true ∧ (c = ':' → ∀ d ∈ rest.tail.head?, isBlank d = true)

/-- A name ends in front of what does not go on a name. -/
theorem takeName_of_endsName {rest : List Char} (h : EndsName rest) (reversed : List Char) :
    takeName reversed rest = (reversed.reverse, rest) := by
  rcases rest with _ | ⟨c, rest⟩
  · rfl
  · obtain ⟨hmark, hcolon⟩ := h c rfl
    have hnot : atNamespaceColon reversed c rest = false := by
      rw [atNamespaceColon]
      by_cases hc : c = ':'
      · have hblank : rest.head?.any (!isBlank ·) = false := by
          rcases rest with _ | ⟨d, rest⟩
          · rfl
          · simpa using hcolon hc d rfl
        rw [hblank, Bool.and_false]
      · simp [hc]
    simp [takeName, hmark, hnot]

/-- A name goes on through plain characters. -/
theorem takeName_of_isPlain {cs : List Char} (h : IsPlain cs) (reversed rest : List Char) :
    takeName reversed (cs ++ rest) = takeName (cs.reverse ++ reversed) rest := by
  induction cs generalizing reversed with
  | nil => rfl
  | cons c cs ih =>
    obtain ⟨hblank, hmark⟩ := h c List.mem_cons_self
    rw [List.cons_append, takeName, hblank, hmark]
    simp [ih fun d hd => h d (List.mem_cons_of_mem _ hd)]

theorem of_mem_namespaceWords {word : List Char} (h : word ∈ namespaceWords) :
    IsPlain word ∧ isNamespaceWord word.reverse = true ∧ word ≠ [] := by
  have hall : ∀ word ∈ namespaceWords,
      IsPlain word ∧ isNamespaceWord word.reverse = true ∧ word ≠ [] := by decide
  exact hall word h

/-- A name goes on through the colon of a namespace, in front of anything but a blank. -/
theorem takeName_of_namespace {word : List Char} (h : word ∈ namespaceWords) {d : Char}
    (hd : isBlank d = false) (rest : List Char) :
    takeName [] (word ++ ':' :: d :: rest) = takeName (':' :: word.reverse) (d :: rest) := by
  obtain ⟨hplain, hword, -⟩ := of_mem_namespaceWords h
  have hcolon : atNamespaceColon word.reverse ':' (d :: rest) = true := by
    simp [atNamespaceColon, hword, hd]
  rw [takeName_of_isPlain hplain, List.append_nil, takeName, hcolon]
  simp [show isBlank ':' = false by decide]

theorem isBlank_of_isStructural {c : Char} (h : isStructural c = true) : isBlank c = false := by
  rw [isStructural, Bool.or_eq_true, Option.isSome_iff_exists] at h
  rcases h with ⟨token, htoken⟩ | hquote
  · exact (ne_of_ofMark? htoken).1
  · rw [isQuote, Bool.or_eq_true, beq_iff_eq, beq_iff_eq] at hquote
    rcases hquote with rfl | rfl <;> decide

theorem takeName_name {text : String} (h : IsNameText text) {rest : List Char}
    (hrest : EndsName rest) (hopen : IsOpenName text → rest ≠ []) :
    takeName [] (text.toList ++ rest) = (text.toList, rest) := by
  rcases h.shape with hplain | ⟨word, hword, cs, htext, hplain⟩
  · rw [takeName_of_isPlain hplain, takeName_of_endsName hrest]
    simp
  · have hgo : takeName [] (word ++ ':' :: (cs ++ rest)) =
        takeName (':' :: word.reverse) (cs ++ rest) := by
      rcases cs with _ | ⟨c, cs⟩
      · rcases rest with _ | ⟨d, rest⟩
        · exact absurd rfl (hopen ⟨word, hword, htext⟩)
        · exact takeName_of_namespace hword (isBlank_of_isStructural (hrest d rfl).1) rest
      · exact takeName_of_namespace hword (hplain c List.mem_cons_self).1 (cs ++ rest)
    rw [htext, List.append_assoc, List.cons_append, hgo, takeName_of_isPlain hplain,
      takeName_of_endsName hrest]
    simp

/-- A name begins with a plain character. -/
theorem IsNameText.exists_cons {text : String} (h : IsNameText text) :
    ∃ c cs, text.toList = c :: cs ∧ isBlank c = false ∧ isStructural c = false := by
  have hfirst : ∀ {cs : List Char}, IsPlain cs → cs ≠ [] →
      ∃ c cs', cs = c :: cs' ∧ isBlank c = false ∧ isStructural c = false := by
    intro cs hplain hne
    obtain ⟨c, cs', rfl⟩ := List.exists_cons_of_ne_nil hne
    exact ⟨c, cs', rfl, hplain c List.mem_cons_self⟩
  rcases h.shape with hplain | ⟨word, hword, cs, htext, -⟩
  · exact hfirst hplain h.ne_nil
  · obtain ⟨hplain, -, hne⟩ := of_mem_namespaceWords hword
    obtain ⟨c, word', rfl, hc⟩ := hfirst hplain hne
    exact ⟨c, word' ++ ':' :: cs, htext, hc⟩

theorem of_isStructural_eq_false {c : Char} (h : isStructural c = false) :
    Token.ofMark? c = none ∧ isQuote c = false := by
  rwa [isStructural, Bool.or_eq_false_iff, Option.isSome_eq_false_iff, Option.isNone_iff_eq_none]
    at h

/-- What follows does not make dots of the first three characters. -/
theorem not_dots_append {cs rest : List Char} (h : ¬['.', '.', '.'] <+: cs)
    (hrest : EndsName rest) : ¬['.', '.', '.'] <+: cs ++ rest := by
  intro hdots
  rcases List.prefix_or_prefix_of_prefix hdots (List.prefix_append cs rest) with hle | hle
  · exact h hle
  · -- all the characters would be dots, and the next dot would be the mark that ends a name
    obtain ⟨tail, htail⟩ := hle
    rw [← htail, List.prefix_append_right_inj] at hdots
    rcases tail with _ | ⟨c, tail⟩
    · rw [List.append_nil] at htail
      exact h ⟨[], by rw [htail, List.append_nil]⟩
    · have hc : c = '.' := by
        have hmem : c ∈ ['.', '.', '.'] := by
          rw [← htail]
          simp
        simpa using hmem
      obtain ⟨rest', rfl⟩ := hdots
      have hmark := (hrest c rfl).1
      rw [hc] at hmark
      revert hmark
      decide

theorem lexes_of_takeName {text : String} (h : IsNameText text) {rest : List Char}
    (hdots : ¬['.', '.', '.'] <+: text.toList ++ rest)
    (htake : takeName [] (text.toList ++ rest) = (text.toList, rest)) :
    Lexes text.toList [.name text] rest := by
  obtain ⟨c, cs, htext, hblank, hmark⟩ := h.exists_cons
  obtain ⟨hnone, hquote⟩ := of_isStructural_eq_false hmark
  rw [htext, List.cons_append] at hdots
  rw [htext, List.cons_append, takeName, hblank, hmark, Bool.false_and, Bool.false_or,
    if_neg Bool.false_ne_true] at htake
  intro offset
  refine ⟨[⟨.name text, offset⟩], offset + byteSize (c :: cs), rfl, ?_⟩
  rw [htext, List.cons_append, lexFrom_cons hdots, hblank, hquote, hnone, htake, ← htext,
    String.ofList_toList]
  rfl

theorem lexes_name {text : String} (h : IsNameText text) {rest : List Char}
    (hrest : EndsName rest) (hopen : IsOpenName text → rest ≠ []) :
    Lexes text.toList [.name text] rest :=
  lexes_of_takeName h (not_dots_append h.not_dots hrest) (takeName_name h hrest hopen)

theorem lexes_literal {text : String} (h : IsLiteral text) (rest : List Char) :
    Lexes text.toList [.literal text] rest := by
  obtain ⟨q, span, htext, hquote, hspan⟩ := h
  have hsplit : splitAfterMark q (span ++ rest) = some (span, rest) :=
    (Longname.splitAfterMark_append hspan rest).1
  have hq : isBlank q = false ∧ q ≠ '.' := by
    rw [isQuote, Bool.or_eq_true, beq_iff_eq, beq_iff_eq] at hquote
    rcases hquote with rfl | rfl <;> decide
  intro offset
  refine ⟨[⟨.literal text, offset⟩], offset + byteSize (q :: span), rfl, ?_⟩
  have hofList : String.ofList (q :: span) = text := by rw [← htext, String.ofList_toList]
  rw [htext, List.cons_append, lexFrom_cons (by simp [hq.2.symm]), hq.1, hquote, hsplit, ← hofList]
  rfl

/-- A text that is cut off as one name or literal. -/
def IsWordText (text : String) : Prop := IsNameText text ∨ IsLiteral text

theorem wordToken_of_isNameText {text : String} (h : IsNameText text) :
    wordToken text = .name text := by
  obtain ⟨c, cs, htext, -, hmark⟩ := h.exists_cons
  rw [wordToken, htext, List.head?_cons, Option.any_some, (of_isStructural_eq_false hmark).2]
  rfl

theorem wordToken_of_isLiteral {text : String} (h : IsLiteral text) :
    wordToken text = .literal text := by
  obtain ⟨q, span, htext, hquote, -⟩ := h
  rw [wordToken, htext, List.head?_cons, Option.any_some, hquote]
  rfl

theorem lexes_word {text : String} (h : IsWordText text) {rest : List Char} (hrest : EndsName rest)
    (hopen : IsOpenName text → rest ≠ []) : Lexes text.toList [wordToken text] rest := by
  rcases h with hname | hliteral
  · rw [wordToken_of_isNameText hname]
    exact lexes_name hname hrest hopen
  · rw [wordToken_of_isLiteral hliteral]
    exact lexes_literal hliteral rest

/-- A base that makes a name with the dot behind it, or that is a literal. -/
def IsBaseText (base : String) : Prop := IsNameText (base ++ ".") ∨ IsLiteral base

theorem endsName_cons {c : Char} (h : isStructural c = true) (hcolon : c ≠ ':')
    (rest : List Char) : EndsName (c :: rest) := by
  intro d hd
  obtain rfl : c = d := by simpa using hd
  exact ⟨h, fun hc => absurd hc hcolon⟩

theorem baseTokens_of_isNameText {base : String} (h : IsNameText (base ++ ".")) :
    baseTokens base = [.name (base ++ ".")] := by
  obtain ⟨c, cs, htext, -, hmark⟩ := h.exists_cons
  rw [String.toList_append] at htext
  have hquote : base.toList.head?.any isQuote = false := by
    rcases hbase : base.toList with _ | ⟨d, ds⟩
    · rfl
    · rw [hbase, List.cons_append, List.cons.injEq] at htext
      rw [List.head?_cons, Option.any_some, htext.1, (of_isStructural_eq_false hmark).2]
  rw [baseTokens, hquote]
  rfl

theorem baseTokens_of_isLiteral {base : String} (h : IsLiteral base) :
    baseTokens base = [.literal base, .name "."] := by
  obtain ⟨q, span, htext, hquote, -⟩ := h
  rw [baseTokens, htext, List.head?_cons, Option.any_some, hquote]
  rfl

theorem lexes_base {base : String} (h : IsBaseText base) (rest : List Char) :
    Lexes (base ++ ".").toList (baseTokens base) ('<' :: rest) := by
  have hends : EndsName ('<' :: rest) := endsName_cons (by decide) (by decide) rest
  rcases h with hname | hliteral
  · rw [baseTokens_of_isNameText hname]
    exact lexes_name hname hends fun _ => List.cons_ne_nil _ _
  · have hdot : IsNameText "." := ⟨by decide, by decide, .inl (by decide)⟩
    rw [baseTokens_of_isLiteral hliteral, String.toList_append]
    exact (lexes_literal hliteral _).append
      (lexes_name hdot hends fun _ => List.cons_ne_nil _ _)

/-! ## Types -/

/-- The text of a type ends in a namespace without anything behind its colon. -/
def Node.EndsOpen : Node → Prop
  | .name text => IsOpenName text
  | .function _ _ (some returns) => returns.EndsOpen
  | .modified inner modifiers => modifiers.optional = false ∧ inner.EndsOpen
  | _ => False

/-- The texts in a type are names and literals, and nothing in it is missing. -/
def Node.IsFormedAt : Node → Prop
  | .name text => IsWordText text
  | .union members => 2 ≤ members.length
  | .generic base params => IsBaseText base ∧ params ≠ []
  | .record fields => ∀ field ∈ fields, IsWordText field.key
  | .modified _ modifiers => modifiers ≠ {}
  | .any | .unknown | .function _ _ _ => True

/-- In a list of texts with separators between them, each text is cut for itself. -/
theorem lexes_intercalate {α : Type} {separator : List Char} {separatorTokens : List Token}
    (hseparator : ∀ rest, Lexes separator separatorTokens rest)
    (hends : ∀ rest, EndsName (separator ++ rest)) (hne : separator ≠ [])
    {text : α → List Char} {tokens : α → List Token} {xs : List α}
    (hxs : ∀ x ∈ xs, ∀ rest, EndsName rest → rest ≠ [] → Lexes (text x) (tokens x) rest)
    {rest : List Char} (hrest : EndsName rest) (hrest' : rest ≠ []) :
    Lexes (separator.intercalate (xs.map text)) (separatorTokens.intercalate (xs.map tokens))
      rest := by
  induction xs with
  | nil => exact .nil rest
  | cons x xs ih =>
    rw [List.forall_mem_cons] at hxs
    rcases xs with _ | ⟨y, ys⟩
    · simpa using hxs.1 rest hrest hrest'
    · simp only [List.map_cons, List.intercalate_cons_cons, List.append_assoc]
      have hmore : Lexes (separator ++ separator.intercalate ((y :: ys).map text))
          (separatorTokens ++ separatorTokens.intercalate ((y :: ys).map tokens)) rest :=
        (hseparator _).append (ih hxs.2)
      refine (hxs.1 _ ?_ ?_).append hmore
      · rw [List.append_assoc]
        exact hends _
      · simp [hne]

theorem lexes_commas {α : Type} {text : α → String} {tokens : α → List Token} {xs : List α}
    (hxs : ∀ x ∈ xs, ∀ rest, EndsName rest → rest ≠ [] → Lexes (text x).toList (tokens x) rest)
    {rest : List Char} (hrest : EndsName rest) (hrest' : rest ≠ []) :
    Lexes (String.intercalate ", " (xs.map text)).toList
      ([.comma].intercalate (xs.map tokens)) rest := by
  rw [String.toList_intercalate, List.map_map]
  have hseparator : ∀ rest, Lexes ", ".toList [.comma] rest := fun rest =>
    (lexes_mark _ rfl (' ' :: rest)).append (lexes_space rest)
  exact lexes_intercalate hseparator (fun rest => endsName_cons (by decide) (by decide) _)
    (by decide) hxs hrest hrest'

theorem lexes_bars {xs : List Node}
    (hxs : ∀ x ∈ xs, ∀ rest, EndsName rest → rest ≠ [] → Lexes x.render.toList x.tokens rest)
    {rest : List Char} (hrest : EndsName rest) (hrest' : rest ≠ []) :
    Lexes (String.intercalate "|" (xs.map Node.render)).toList
      ([.pipe].intercalate (xs.map Node.tokens)) rest := by
  rw [String.toList_intercalate, List.map_map]
  exact lexes_intercalate (fun rest => lexes_mark _ rfl rest)
    (fun rest => endsName_cons (by decide) (by decide) _) (by decide) hxs hrest hrest'

theorem lexes_leading (m : Modifiers) (rest : List Char) :
    Lexes m.leading.toList m.leadingTokens rest := by
  rcases m with ⟨nullable, optional, repeatable⟩
  have hnullable : ∀ rest, Lexes
      (match nullable with | some true => "?" | some false => "!" | none => "").toList
      (match nullable with | some true => [.question] | some false => [.bang] | none => [])
      rest := by
    intro rest
    rcases nullable with _ | _ | _
    · exact .nil rest
    · exact lexes_mark _ rfl rest
    · exact lexes_mark _ rfl rest
  have hrepeatable : ∀ rest, Lexes (if repeatable then "..." else "").toList
      (if repeatable then [.ellipsis] else []) rest := by
    intro rest
    rcases repeatable
    · exact .nil rest
    · exact lexes_ellipsis rest
  rw [Modifiers.leading, String.toList_append]
  exact (hrepeatable _).append (hnullable rest)

theorem lexes_trailing (m : Modifiers) (rest : List Char) :
    Lexes m.trailing.toList m.trailingTokens rest := by
  rw [Modifiers.trailing, Modifiers.trailingTokens]
  split
  · exact lexes_mark _ rfl rest
  · exact .nil rest

theorem lexes_colon_space (rest : List Char) : Lexes ": ".toList [.colon] rest :=
  (lexes_mark ':' rfl (' ' :: rest)).append (lexes_space rest)

theorem lexes_keyword (rest : List Char) :
    Lexes "function".toList [.name "function"] ('(' :: rest) := by
  have hname : IsNameText "function" := ⟨by decide, by decide, .inl (by decide)⟩
  exact lexes_name hname (endsName_cons (by decide) (by decide) rest) fun _ => List.cons_ne_nil _ _

/-- The word in front of a receiver is no namespace, so that the colon ends it. -/
theorem lexes_receiver {word : String} (h : word ∈ ["new", "this"]) (rest : List Char) :
    Lexes (word ++ ":").toList [.name word, .colon] rest := by
  obtain ⟨hplain, hhead, hnamespace⟩ : IsPlain word.toList ∧
      (word.toList ++ [':']).head? ∉ [none, some '.', some ':'] ∧
      isNamespaceWord word.toList.reverse = false := by
    revert word
    decide
  have htake : takeName [] (word.toList ++ ':' :: rest) = (word.toList, ':' :: rest) := by
    rw [takeName_of_isPlain hplain, List.append_nil, takeName, atNamespaceColon, hnamespace]
    simp [show isStructural ':' = true by decide]
  obtain ⟨c, cs, hcons⟩ : ∃ c cs, word.toList = c :: cs := by
    rcases hword : word.toList with _ | ⟨c, cs⟩
    · simp [hword] at hhead
    · exact ⟨c, cs, rfl⟩
  have hdot : c ≠ '.' := fun hc => hhead (by simp [hcons, hc])
  have hname : IsNameText word :=
    ⟨by simp [hcons], by simp [hcons, hdot.symm], .inl hplain⟩
  rw [String.toList_append]
  exact (lexes_of_takeName hname (by simp [hcons, hdot.symm]) htake).append
    (lexes_mark ':' rfl rest)

theorem Param.lexes_render {param : Param}
    (h : ∀ rest, EndsName rest → rest ≠ [] →
      Lexes param.type.render.toList param.type.tokens rest) (rest : List Char)
    (hrest : EndsName rest) (hne : rest ≠ []) :
    Lexes param.render.toList param.tokens rest := by
  rcases param with (type | type) | type
  · rw [render, Receiver.render, String.toList_append]
    exact (lexes_receiver (by decide) _).append (h rest hrest hne)
  · rw [render, Receiver.render, String.toList_append]
    exact (lexes_receiver (by decide) _).append (h rest hrest hne)
  · exact h rest hrest hne

theorem Field.lexes_render {field : Field} (hkey : IsWordText field.key)
    (h : ∀ type ∈ field.type?, ∀ rest, EndsName rest → rest ≠ [] →
      Lexes type.render.toList type.tokens rest) (rest : List Char)
    (hrest : EndsName rest) (hne : rest ≠ []) :
    Lexes field.render.toList field.tokens rest := by
  rcases field with key | ⟨key, type⟩
  · exact lexes_word hkey hrest fun _ => hne
  · -- the blank behind the colon keeps the colon off a key that is the word of a namespace
    have hends : EndsName (": ".toList ++ type.render.toList ++ rest) := by
      intro c hc
      obtain rfl : ':' = c := by simpa using hc
      refine ⟨by decide, fun _ d hd => ?_⟩
      obtain rfl : ' ' = d := by simpa using hd
      decide
    have hcolon : Lexes ": ".toList [.colon] (type.render.toList ++ rest) := lexes_colon_space _
    have hword := lexes_word hkey hends fun _ => by simp
    rw [render, tokens, String.toList_append, String.toList_append, List.append_assoc]
    exact hword.append (hcolon.append (h type rfl rest hrest hne))

theorem lexes_generic {base : String} {params : List Node} (hbase : IsBaseText base)
    (hparams : ∀ p ∈ params, ∀ rest, EndsName rest → rest ≠ [] →
      Lexes p.render.toList p.tokens rest) (rest : List Char) :
    Lexes (Node.generic base params).render.toList (Node.generic base params).tokens rest := by
  have hcommas : Lexes (String.intercalate ", " (params.map Node.render)).toList
      ([.comma].intercalate (params.map Node.tokens)) ('>' :: rest) :=
    lexes_commas hparams (endsName_cons (by decide) (by decide) rest) (List.cons_ne_nil _ _)
  have hopening : Lexes (base ++ ".<").toList (baseTokens base ++ [.langle])
      ((String.intercalate ", " (params.map Node.render)).toList ++ '>' :: rest) := by
    have happend : (base ++ ".<").toList = (base ++ ".").toList ++ ['<'] := by
      simp [String.toList_append]
    rw [happend]
    exact (lexes_base hbase _).append (lexes_mark _ rfl _)
  have h := (hopening.append hcommas).append (lexes_mark '>' rfl rest)
  simp only [Node.render, renderAll_eq_map, Node.tokens, tokensAll_eq_map, String.toList_append]
  simpa [String.toList_append] using h

/-- What follows a function follows its result type, if there is one. -/
theorem lexes_function {receiver : Option Receiver} {params : List Node} {returns : Option Node}
    {rest : List Char} (hparams : ∀ p ∈ paramsOf receiver params, ∀ rest, EndsName rest →
      rest ≠ [] → Lexes p.render.toList p.tokens rest)
    (hreturns : ∀ type ∈ returns, Lexes type.render.toList type.tokens rest) :
    Lexes (Node.function receiver params returns).render.toList
      (Node.function receiver params returns).tokens rest := by
  have hcommas : Lexes
      (String.intercalate ", " ((paramsOf receiver params).map Param.render)).toList
      ([.comma].intercalate ((paramsOf receiver params).map Param.tokens))
      (')' :: ((renderReturns returns).toList ++ rest)) :=
    lexes_commas hparams (endsName_cons (by decide) (by decide) _) (List.cons_ne_nil _ _)
  have hresult : Lexes (renderReturns returns).toList (tokensReturns returns) rest := by
    rcases returns with _ | type
    · exact .nil rest
    · rw [renderReturns, tokensReturns, String.toList_append]
      exact (lexes_colon_space _).append (hreturns type rfl)
  have hopening : Lexes "function(".toList [.name "function", .lparen]
      ((String.intercalate ", " ((paramsOf receiver params).map Param.render)).toList ++
        ')' :: ((renderReturns returns).toList ++ rest)) :=
    (lexes_keyword _).append (lexes_mark '(' rfl _)
  have h := (hopening.append hcommas).append ((lexes_mark ')' rfl _).append hresult)
  rw [render_function, tokens_function]
  simpa [String.toList_append] using h

theorem lexes_modified {inner : Node} {m : Modifiers} {rest : List Char}
    (hinner : Lexes inner.render.toList inner.tokens (m.trailing.toList ++ rest)) :
    Lexes (Node.modified inner m).render.toList (Node.modified inner m).tokens rest := by
  have h := ((lexes_leading m _).append hinner).append (lexes_trailing m rest)
  rw [Node.render, Node.tokens, String.toList_append, String.toList_append, ← List.append_assoc]
  exact h

/-- The text of a type whose texts are names and literals is cut into its tokens, if what follows
does not go on its last name. -/
theorem Node.lexes_render {node : Node} (h : node.All IsFormedAt) {rest : List Char}
    (hrest : EndsName rest) (hopen : node.EndsOpen → rest ≠ []) :
    Lexes node.render.toList node.tokens rest := by
  induction h generalizing rest with
  | @intro node here inside ih =>
    have hchild : ∀ child ∈ node.children, ∀ rest, EndsName rest → rest ≠ [] →
        Lexes child.render.toList child.tokens rest := fun child hchild rest hrest hne =>
      ih child hchild hrest fun _ => hne
    have hclose : ∀ c : Char, isStructural c = true → c ≠ ':' → ∀ rest,
        EndsName (c :: rest) ∧ c :: rest ≠ [] := fun c hc hcolon rest =>
      ⟨endsName_cons hc hcolon rest, List.cons_ne_nil _ _⟩
    cases node with
    | name text => exact lexes_word here hrest hopen
    | any => exact lexes_mark _ rfl rest
    | unknown => exact lexes_mark _ rfl rest
    | union members =>
      obtain ⟨hends, hne⟩ := hclose ')' (by decide) (by decide) rest
      have hbars := lexes_bars hchild hends hne
      simp only [render, renderAll_eq_map, tokens, tokensAll_eq_map, String.toList_append]
      exact ((lexes_mark '(' rfl _).append hbars).append (lexes_mark _ rfl rest)
    | generic base params => exact lexes_generic here.1 hchild rest
    | function receiver params returns =>
      refine lexes_function (fun param hparam => ?_) fun type htype => ?_
      · exact Param.lexes_render
          (hchild _ (mem_children_function.mpr (.inl ⟨param, hparam, rfl⟩)))
      · obtain rfl : returns = some type := htype
        exact ih type (mem_children_function.mpr (.inr rfl)) hrest hopen
    | record fields =>
      have hfield : ∀ field ∈ fields, ∀ rest, EndsName rest → rest ≠ [] →
          Lexes field.render.toList field.tokens rest := fun field hfield =>
        Field.lexes_render (here field hfield) fun type htype =>
          hchild type (List.mem_filterMap.mpr ⟨field, hfield, htype⟩)
      obtain ⟨hends, hne⟩ := hclose '\x7d' (by decide) (by decide) rest
      have hcommas := lexes_commas hfield hends hne
      simp only [render, renderFields_eq_map, tokens, tokensFields_eq_map, String.toList_append]
      exact ((lexes_mark '\x7b' rfl _).append hcommas).append (lexes_mark _ rfl rest)
    | modified inner modifiers =>
      refine lexes_modified ?_
      rw [Modifiers.trailing]
      split
      next hoptional =>
        obtain ⟨hends, hne⟩ := hclose '=' (by decide) (by decide) rest
        exact ih inner (by simp [children]) hends fun _ => hne
      next hoptional =>
        exact ih inner (by simp [children]) hrest fun hinner =>
          hopen ⟨by simpa using hoptional, hinner⟩

end Commentary.TypeExpr
