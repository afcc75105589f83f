import Commentary.Proofs.TypeGrammar
import Commentary.Proofs.TypeReading

/-!
# Brackets and marks in readings

Two facts about all readings. Brackets are read in pairs, so that a reading that passes an opening
bracket goes on behind the one that closes it (`Parses.behind_eq`). And marks are never made up: the
text of what is read has no more marks than the text it is read from (`Parses.weight_le`).

With both, a type that carries marks is never read as an atom from its own text, which puts no group
around it (`not_parses_modified`): the group would have to be one inside the marks, and in that
there are too few of them.
-/

namespace Commentary.TypeExpr

/-! ## Brackets -/

/-- Whether a token opens or closes a bracket. -/
def Token.bracket? : Token → Option Bool
  | .lparen | .langle | .lbrace | .lbracket => some true
  | .rparen | .rangle | .rbrace | .rbracket => some false
  | _ => none

/-- What stands behind the bracket that closes the one around here; `depth` more are open. -/
def behind : Nat → List Lexeme → List Lexeme
  | _, [] => []
  | depth, lexeme :: rest =>
    match lexeme.token.bracket?, depth with
    | some true, depth => behind (depth + 1) rest
    | some false, 0 => rest
    | some false, depth + 1 => behind depth rest
    | none, depth => behind depth rest

theorem behind_opening {token : Token} (h : token.bracket? = some true) (d o : Nat)
    (rest : List Lexeme) : behind d (⟨token, o⟩ :: rest) = behind (d + 1) rest := by
  cases token <;> first | rfl | cases h

theorem behind_closing {token : Token} (h : token.bracket? = some false) (d o : Nat)
    (rest : List Lexeme) : behind (d + 1) (⟨token, o⟩ :: rest) = behind d rest := by
  cases token <;> first | rfl | cases h

theorem behind_cons {token : Token} (h : token.bracket? = none) (d o : Nat)
    (rest : List Lexeme) : behind d (⟨token, o⟩ :: rest) = behind d rest := by
  cases token <;> first | rfl | cases h

theorem Marking.behind_eq {m m' : Modifiers} {ts ts' : List Lexeme} (h : Marking m ts m' ts')
    (d : Nat) : behind d ts = behind d ts' := by
  induction h with
  | done => rfl
  | @mark _ _ _ lexeme _ _ h _ ih =>
    obtain ⟨token, o⟩ := lexeme
    have hbracket : token.bracket? = none := by
      cases token <;> first | rfl | cases h
    exact (behind_cons hbracket d o _).trans ih

/-- The number of brackets around a phrase that are closed by it. -/
def Phrase.closes : Phrase → Nat
  | .paramList _ => 1
  | _ => 0

/-- Brackets are read in pairs. -/
theorem Parses.behind_eq {phrase : Phrase} {ts rest : List Lexeme} (h : Parses phrase ts rest)
    (d : Nat) : behind (d + phrase.closes) ts = behind d rest := by
  induction h generalizing d with
  | name | literal | any | unknown | emptyRecord | noParams => rfl
  | group _ ih => exact ih (d + 1)
  | record _ ih => exact ih (d + 1)
  | function _ _ ih => exact ih d
  | returning _ _ ih ihnode => exact (ih d).trans (ihnode d)
  | generic _ _ ih ihparams => exact (ih d).trans (ihparams (d + 1))
  | array _ ih => exact ih d
  | member hmarks _ ih => exact ((marking_of_memberMarks hmarks).behind_eq d).trans (ih d)
  | lastMember _ _ ih | lastType _ ih | lastParam _ ih | lastField _ ih => exact ih d
  | ordinary _ _ ih => exact ih d
  | nextMember _ _ ih ihmore | nextType _ _ ih ihmore | nextParam _ _ ih ihmore
    | nextField _ _ ih ihmore => exact (ih d).trans (ihmore d)
  | single hleading _ htrailing ih | union hleading _ _ htrailing ih =>
    exact (((marking_of_leadingMarks hleading).behind_eq d).trans (ih d)).trans
      ((marking_of_trailingMarks htrailing).behind_eq d)
  | dots hleading _ _ _ htrailing =>
    exact ((marking_of_leadingMarks hleading).behind_eq d).trans
      ((marking_of_trailingMarks htrailing).behind_eq d)
  | constructed _ ih | bound _ ih => exact ih d
  | someParams _ ih => exact ih (d + 1)
  | bare hkey => rcases hkey with rfl | rfl <;> rfl
  | typed hkey _ ih => rcases hkey with rfl | rfl <;> exact ih d

/-- Some tokens have all their brackets in pairs. -/
def Balanced (tokens : List Token) : Prop :=
  ∀ ts : List Lexeme, ts.map Lexeme.token = tokens →
    ∀ d rest, behind d (ts ++ rest) = behind d rest

namespace Balanced

variable {tokens tokens' : List Token}

theorem append (h : Balanced tokens) (h' : Balanced tokens') : Balanced (tokens ++ tokens') := by
  intro ts hts d rest
  obtain ⟨us, vs, rfl, hus, hvs⟩ := List.map_eq_append_iff.mp hts
  rw [List.append_assoc, h us hus, h' vs hvs]

theorem of_forall (h : ∀ token ∈ tokens, token.bracket? = none) : Balanced tokens := by
  induction tokens with
  | nil =>
    intro ts hts d rest
    rw [List.map_eq_nil_iff.mp hts, List.nil_append]
  | cons token tokens ih =>
    intro ts hts d rest
    obtain ⟨o, ts, rfl, htail⟩ := map_token_eq_cons hts
    rw [List.forall_mem_cons] at h
    rw [List.cons_append, behind_cons h.1, ih h.2 ts htail]

theorem bracketed {opening closing : Token} (ho : opening.bracket? = some true)
    (hc : closing.bracket? = some false) (h : Balanced tokens) :
    Balanced (opening :: (tokens ++ [closing])) := by
  intro ts hts d rest
  obtain ⟨o, ts, rfl, htail⟩ := map_token_eq_cons hts
  obtain ⟨us, vs, rfl, hus, hvs⟩ := List.map_eq_append_iff.mp htail
  obtain ⟨o', rfl⟩ := map_token_eq_singleton hvs
  rw [List.cons_append, behind_opening ho, List.append_assoc, h us hus, List.singleton_append,
    behind_closing hc]

/-- Behind an opening bracket, reading comes out behind the bracket that closes it. -/
theorem exists_behind {opening closing : Token} (hc : closing.bracket? = some false)
    (h : Balanced tokens) {ts : List Lexeme}
    (hts : ts.map Lexeme.token = opening :: (tokens ++ [closing])) :
    ∃ o inside o', ts = ⟨opening, o⟩ :: (inside ++ [⟨closing, o'⟩]) ∧
      inside.map Lexeme.token = tokens ∧
      ∀ rest, behind 0 (inside ++ ⟨closing, o'⟩ :: rest) = rest := by
  obtain ⟨o, ts, rfl, htail⟩ := map_token_eq_cons hts
  obtain ⟨inside, close, rfl, hinside, hclose⟩ := List.map_eq_append_iff.mp htail
  obtain ⟨o', rfl⟩ := map_token_eq_singleton hclose
  refine ⟨o, inside, o', rfl, hinside, fun rest => ?_⟩
  rw [h inside hinside]
  cases closing <;> first | rfl | cases hc

theorem intercalate {α : Type} {separator : Token} (hs : separator.bracket? = none)
    {tokens : α → List Token} {xs : List α} (h : ∀ x ∈ xs, Balanced (tokens x)) :
    Balanced ([separator].intercalate (xs.map tokens)) := by
  induction xs with
  | nil => exact of_forall (List.forall_mem_nil _)
  | cons x xs ih =>
    rw [List.forall_mem_cons] at h
    rcases xs with _ | ⟨y, ys⟩
    · simpa using h.1
    · rw [List.map_cons, List.map_cons, List.intercalate_cons_cons, ← List.map_cons]
      exact (h.1.append (of_forall (List.forall_mem_singleton.mpr hs))).append (ih h.2)

end Balanced

theorem bracket?_wordToken (text : String) : (wordToken text).bracket? = none := by
  rcases wordToken_cases text with h | h <;> rw [h] <;> rfl

theorem Param.balanced (p : Param) (h : Balanced p.type.tokens) : Balanced p.tokens := by
  have hword : ∀ word, Balanced [.name word, .colon] := fun word =>
    .of_forall (by simp [Token.bracket?])
  rcases p with (type | type) | type
  · exact (hword "new").append h
  · exact (hword "this").append h
  · exact h

theorem Field.balanced (f : Field) (h : ∀ type ∈ f.type?, Balanced type.tokens) :
    Balanced f.tokens := by
  cases f with
  | bare key => exact .of_forall (List.forall_mem_singleton.mpr (bracket?_wordToken key))
  | typed key type =>
    have hkey : Balanced [wordToken key, .colon] :=
      .of_forall (List.forall_mem_cons.mpr
        ⟨bracket?_wordToken key, List.forall_mem_singleton.mpr rfl⟩)
    exact hkey.append (h type rfl)

/-- The text of a type has all its brackets in pairs. -/
theorem Node.All.balanced {p : Node → Prop} {node : Node} (h : node.All p) :
    Balanced node.tokens := by
  induction h with
  | @intro node _ _ ih =>
    cases node with
    | name text =>
      rw [Node.tokens]
      exact .of_forall (List.forall_mem_singleton.mpr (bracket?_wordToken text))
    | any | unknown =>
      rw [Node.tokens]
      exact .of_forall (List.forall_mem_singleton.mpr rfl)
    | union members =>
      rw [Node.tokens, tokensAll_eq_map]
      exact (Balanced.intercalate rfl ih).bracketed rfl rfl
    | generic base params =>
      rw [Node.tokens, tokensAll_eq_map]
      have hbase : ∀ token ∈ baseTokens base, token.bracket? = none := by
        rw [baseTokens]
        split <;> simp [Token.bracket?]
      exact (Balanced.of_forall hbase).append ((Balanced.intercalate rfl ih).bracketed rfl rfl)
    | function receiver params returns =>
      have hparam : ∀ p ∈ paramsOf receiver params, Balanced p.tokens := fun p hp =>
        p.balanced (ih p.type (mem_children_function.mpr (.inl ⟨p, hp, rfl⟩)))
      have hreturns : Balanced (tokensReturns returns) := by
        cases returns with
        | none => exact .of_forall (List.forall_mem_nil _)
        | some type =>
          have hcolon : Balanced [.colon] := .of_forall (List.forall_mem_singleton.mpr rfl)
          exact hcolon.append (ih type (mem_children_function.mpr (.inr rfl)))
      have hname : Balanced [.name "function"] := .of_forall (List.forall_mem_singleton.mpr rfl)
      have hparams : Balanced (.lparen ::
          ([.comma].intercalate ((paramsOf receiver params).map Param.tokens) ++ [.rparen])) :=
        (Balanced.intercalate rfl hparam).bracketed rfl rfl
      rw [tokens_function]
      simpa using (hname.append hparams).append hreturns
    | record fields =>
      have hfield : ∀ f ∈ fields, Balanced f.tokens := fun f hf =>
        f.balanced fun type htype => ih type (List.mem_filterMap.mpr ⟨f, hf, htype⟩)
      rw [Node.tokens, tokensFields_eq_map]
      exact (Balanced.intercalate rfl hfield).bracketed rfl rfl
    | modified inner m =>
      have hmarks : ∀ token ∈ m.leadingTokens ++ m.trailingTokens, token.bracket? = none := by
        rcases m with ⟨_ | _ | _, _ | _, _ | _⟩ <;> decide
      rw [List.forall_mem_append] at hmarks
      rw [Node.tokens]
      exact (Balanced.of_forall hmarks.1).append
        ((ih inner List.mem_cons_self).append (Balanced.of_forall hmarks.2))

theorem Node.All.balanced_members {p : Node → Prop} {node : Node} (h : node.All p)
    {members : List Node} (hnode : node = .union members) :
    Balanced ([.pipe].intercalate (members.map Node.tokens)) := by
  subst hnode
  exact .intercalate rfl fun member hmember => (h.inside member hmember).balanced

/-! ## Marks -/

/-- Whether a token marks a type, or separates a type from what stands in front of it. -/
def Token.isMark : Token → Bool
  | .colon | .equals | .question | .bang | .ellipsis => true
  | _ => false

/-- The number of marks among some tokens. -/
def weight (tokens : List Token) : Nat := tokens.countP Token.isMark

@[simp]
theorem weight_nil : weight [] = 0 := rfl

@[simp]
theorem weight_append (xs ys : List Token) : weight (xs ++ ys) = weight xs + weight ys :=
  List.countP_append

theorem weight_cons (token : Token) (tokens : List Token) :
    weight (token :: tokens) = token.isMark.toNat + weight tokens := by
  rw [weight, List.countP_cons, Nat.add_comm, weight]
  cases token.isMark <;> rfl

/-- The number of marks that are set. -/
def Modifiers.count (m : Modifiers) : Nat :=
  m.repeatable.toNat + m.nullable.isSome.toNat + m.optional.toNat

theorem weight_marks (m : Modifiers) :
    weight m.leadingTokens + weight m.trailingTokens = m.count := by
  rcases m with ⟨_ | _ | _, _ | _, _ | _⟩ <;> rfl

@[simp]
theorem count_empty : Modifiers.count {} = 0 := rfl

theorem count_pos {m : Modifiers} (h : m ≠ {}) : 0 < m.count := by
  rcases m with ⟨_ | _ | _, _ | _, _ | _⟩ <;> first | exact absurd rfl h | decide

theorem weight_mark {lexeme : Lexeme} (h : lexeme.token.isMark = true) (ts : List Lexeme) :
    weight ((lexeme :: ts).map Lexeme.token) = weight (ts.map Lexeme.token) + 1 := by
  rw [List.map_cons, weight_cons, h, Nat.add_comm]
  rfl

/-- A mark that is read sets at most one more. -/
theorem of_mark? {m m' : Modifiers} {token : Token} (h : m.mark? token = some m') :
    token.isMark = true ∧ m' ≠ {} ∧ m'.count ≤ m.count + 1 := by
  rcases m with ⟨_ | _, _ | _, _ | _⟩ <;> cases token <;> cases h <;>
    simp [Token.isMark, Modifiers.count]

theorem Marking.weight_le {m m' : Modifiers} {ts ts' : List Lexeme} (h : Marking m ts m' ts') :
    m'.count + weight (ts'.map Lexeme.token) ≤ m.count + weight (ts.map Lexeme.token) := by
  induction h with
  | done => exact Nat.le_refl _
  | mark h _ ih =>
    obtain ⟨hmark, -, hcount⟩ := of_mark? h
    rw [weight_mark hmark]
    omega

/-- Where no mark is set, none was taken. -/
theorem Marking.eq_of_empty {m m' : Modifiers} {ts ts' : List Lexeme} (h : Marking m ts m' ts')
    (hm' : m' = {}) : m = {} ∧ ts' = ts := by
  induction h with
  | done => exact ⟨hm', rfl⟩
  | mark h _ ih => exact absurd (ih hm').1 (of_mark? h).2.1

theorem weight_intercalate {α : Type} {separator : Token} (h : separator.isMark = false)
    (tokens : α → List Token) (xs : List α) :
    weight ([separator].intercalate (xs.map tokens)) = weight (xs.flatMap tokens) := by
  induction xs with
  | nil => rfl
  | cons x xs ih =>
    rcases xs with _ | ⟨y, ys⟩
    · simp
    · rw [List.map_cons, List.map_cons, List.intercalate_cons_cons, ← List.map_cons, weight_append,
        weight_append, ih]
      simp [weight_cons, h]

theorem isMark_wordToken (text : String) : (wordToken text).isMark = false := by
  rcases wordToken_cases text with h | h <;> rw [h] <;> rfl

theorem weight_base (base : String) : weight (baseTokens base) = 0 := by
  rw [baseTokens]
  split <;> rfl

theorem weight_union (members : List Node) :
    weight (Node.union members).tokens = weight (members.flatMap Node.tokens) := by
  rw [Node.tokens, tokensAll_eq_map, weight_cons, weight_append, weight_intercalate rfl]
  simp [Token.isMark, weight_cons]

theorem weight_generic (base : String) (params : List Node) :
    weight (Node.generic base params).tokens = weight (params.flatMap Node.tokens) := by
  rw [Node.tokens, tokensAll_eq_map, weight_append, weight_base, weight_cons, weight_append,
    weight_intercalate rfl]
  simp [Token.isMark, weight_cons]

theorem weight_function (receiver : Option Receiver) (params : List Node) (returns : Option Node) :
    weight (Node.function receiver params returns).tokens =
      weight ((paramsOf receiver params).flatMap Param.tokens) +
        weight (tokensReturns returns) := by
  rw [tokens_function, weight_cons, weight_cons, weight_append, weight_intercalate rfl, weight_cons]
  simp [Token.isMark]

theorem weight_record (fields : List Field) :
    weight (Node.record fields).tokens = weight (fields.flatMap Field.tokens) := by
  rw [Node.tokens, tokensFields_eq_map, weight_cons, weight_append, weight_intercalate rfl]
  simp [Token.isMark, weight_cons]

theorem weight_modified (node : Node) (m : Modifiers) :
    weight (Node.modified node m).tokens = m.count + weight node.tokens := by
  rw [Node.tokens, weight_append, weight_append, ← weight_marks]
  omega

theorem weight_withModifiers (node : Node) (m : Modifiers) :
    weight (node.withModifiers m).tokens = m.count + weight node.tokens := by
  rw [Node.withModifiers]
  split
  next hm => rw [hm, count_empty, Nat.zero_add]
  next => exact weight_modified node m

/-- The number of marks in the text of a phrase. -/
def Phrase.weight : Phrase → Nat
  | .atom node | .member node | .type node => TypeExpr.weight node.tokens
  | .members nodes | .types nodes => TypeExpr.weight (nodes.flatMap Node.tokens)
  | .param p => TypeExpr.weight p.tokens
  | .params ps | .paramList ps => TypeExpr.weight (ps.flatMap Param.tokens)
  | .field f => TypeExpr.weight f.tokens
  | .fields fs => TypeExpr.weight (fs.flatMap Field.tokens)

/-- Of several receivers only one is kept. -/
theorem weight_paramsOf_le (ps : List Param) :
    weight ((paramsOf (receiverOf ps) (ordinaryOf ps)).flatMap Param.tokens) ≤
      weight (ps.flatMap Param.tokens) := by
  induction ps with
  | nil => exact Nat.le_refl 0
  | cons p ps ih =>
    have hreceiver : receiverOf (p :: ps) = (receiverOf ps).or (receiverOf [p]) :=
      receiverOf_append [p] ps
    have hordinary : ordinaryOf (p :: ps) = ordinaryOf [p] ++ ordinaryOf ps :=
      List.filterMap_append (l := [p])
    rw [hreceiver, hordinary]
    rw [paramsOf, List.flatMap_append, weight_append] at ih ⊢
    cases p with
    | receiver r =>
      rcases hps : receiverOf ps with _ | r' <;> rw [hps] at ih <;>
        simp [receiverOf, ordinaryOf] at ih ⊢ <;> omega
    | ordinary node =>
      rw [show receiverOf [.ordinary node] = none from rfl, Option.or_none]
      simp [ordinaryOf] at ih ⊢
      omega

/-- Marks are never made up. -/
theorem Parses.weight_le {phrase : Phrase} {ts rest : List Lexeme} (h : Parses phrase ts rest) :
    phrase.weight + weight (rest.map Lexeme.token) ≤ weight (ts.map Lexeme.token) := by
  induction h with
  | name | literal =>
    rw [Phrase.weight, Node.tokens, weight_cons, isMark_wordToken, List.map_cons, weight_cons]
    exact Nat.le_refl _
  | any | unknown | emptyRecord | noParams =>
    simp [Phrase.weight, Node.tokens, weight_cons, Token.isMark]
  | group _ ih =>
    simp only [Phrase.weight, List.map_cons, weight_cons, Token.isMark] at ih ⊢
    omega
  | record _ ih =>
    simp only [Phrase.weight, weight_record, List.map_cons, weight_cons, Token.isMark] at ih ⊢
    omega
  | @function ps _ _ _ _ _ _ ih =>
    have hps := weight_paramsOf_le ps
    simp only [Phrase.weight, weight_function, tokensReturns, weight_nil, List.map_cons,
      weight_cons, Token.isMark] at ih ⊢
    omega
  | @returning ps _ _ _ _ _ _ _ _ _ ih ihnode =>
    have hps := weight_paramsOf_le ps
    simp only [Phrase.weight, weight_function, tokensReturns, List.map_cons,
      weight_cons, Token.isMark] at ih ihnode ⊢
    omega
  | generic _ _ ih ihparams =>
    simp only [Phrase.weight, weight_generic, List.map_cons, weight_cons, Token.isMark]
      at ih ihparams ⊢
    omega
  | array _ ih =>
    simp only [Phrase.weight, weight_generic, List.map_cons, weight_cons, Token.isMark,
      List.flatMap_cons, List.flatMap_nil, weight_append, weight_nil] at ih ⊢
    omega
  | member hmarks _ ih =>
    have hle := (marking_of_memberMarks hmarks).weight_le
    simp only [Phrase.weight, weight_withModifiers, count_empty] at ih hle ⊢
    omega
  | lastMember _ _ ih | lastType _ ih | lastParam _ ih | lastField _ ih =>
    simpa only [Phrase.weight, List.flatMap_cons, List.flatMap_nil, List.append_nil] using ih
  | ordinary _ _ ih => exact ih
  | nextMember _ _ ih ihmore | nextType _ _ ih ihmore | nextParam _ _ ih ihmore
    | nextField _ _ ih ihmore =>
    simp only [Phrase.weight, List.map_cons, List.flatMap_cons, weight_append, weight_cons,
      Token.isMark] at ih ihmore ⊢
    omega
  | single hleading _ htrailing ih =>
    have hfront := (marking_of_leadingMarks hleading).weight_le
    have hback := (marking_of_trailingMarks htrailing).weight_le
    simp only [Phrase.weight, weight_withModifiers, List.flatMap_cons, List.flatMap_nil,
      List.append_nil, count_empty] at ih hfront ⊢
    omega
  | union hleading _ _ htrailing ih =>
    have hfront := (marking_of_leadingMarks hleading).weight_le
    have hback := (marking_of_trailingMarks htrailing).weight_le
    simp only [Phrase.weight, weight_withModifiers, weight_union, count_empty] at ih hfront ⊢
    omega
  | dots hleading _ _ _ htrailing =>
    have hfront := (marking_of_leadingMarks hleading).weight_le
    have hback := (marking_of_trailingMarks htrailing).weight_le
    simp only [Phrase.weight, weight_withModifiers, Node.tokens, weight_cons, Token.isMark,
      weight_nil, count_empty, Bool.toNat_false] at hfront ⊢
    omega
  | constructed _ ih | bound _ ih =>
    simp only [Phrase.weight, Param.tokens, Receiver.tokens, List.map_cons, weight_cons,
      Token.isMark] at ih ⊢
    omega
  | someParams _ ih =>
    simp only [Phrase.weight, List.map_cons, weight_cons, Token.isMark] at ih ⊢
    omega
  | bare hkey =>
    rw [Phrase.weight, Field.tokens, weight_cons, isMark_wordToken, List.map_cons, weight_cons]
    rcases hkey with rfl | rfl <;> exact Nat.le_refl _
  | typed hkey _ ih =>
    rw [Phrase.weight, Field.tokens, weight_cons, isMark_wordToken, List.map_cons, weight_cons]
    rcases hkey with rfl | rfl <;>
    · simp only [Phrase.weight, List.map_cons, weight_cons, Token.isMark] at ih ⊢
      omega

/-! ## Under the marks -/

/-- A type without all the marks around it. -/
def Node.heart : Node → Node
  | .modified inner _ => inner.heart
  | node => node

theorem isModified_heart : (node : Node) → node.heart.isModified = false
  | .modified inner _ => isModified_heart inner
  | .name _ | .any | .unknown | .union _ | .generic _ _ | .function _ _ _ | .record _ => rfl

theorem weight_heart_le : (node : Node) → weight node.heart.tokens ≤ weight node.tokens
  | .modified inner m => by
    rw [weight_modified]
    exact (weight_heart_le inner).trans (Nat.le_add_left _ _)
  | .name _ | .any | .unknown | .union _ | .generic _ _ | .function _ _ _ | .record _ =>
    Nat.le_refl _

theorem Node.All.heart {p : Node → Prop} {node : Node} (h : node.All p) : node.heart.All p := by
  induction h with
  | @intro node here inside ih =>
    cases node with
    | modified inner m => exact ih inner List.mem_cons_self
    | _ => exact .intro here inside

theorem isMark_of_mem_marks {m : Modifiers} {token : Token}
    (h : token ∈ m.leadingTokens ++ m.trailingTokens) : token.isMark = true := by
  have hall : ∀ token ∈ m.leadingTokens ++ m.trailingTokens, token.isMark = true := by
    rcases m with ⟨_ | _ | _, _ | _, _ | _⟩ <;> decide
  exact hall token h

/-- Around the tokens of what is marked, a type has nothing but marks. -/
theorem exists_heart_tokens : (node : Node) → ∃ front back,
    node.tokens = front ++ (node.heart.tokens ++ back) ∧
      (∀ token ∈ front, token.isMark = true) ∧ ∀ token ∈ back, token.isMark = true
  | .modified inner m => by
    obtain ⟨front, back, htokens, hfront, hback⟩ := exists_heart_tokens inner
    refine ⟨m.leadingTokens ++ front, back ++ m.trailingTokens, ?_, ?_, ?_⟩
    · rw [Node.tokens, htokens]
      simp only [Node.heart, List.append_assoc]
    · exact List.forall_mem_append.mpr
        ⟨fun token h => isMark_of_mem_marks (List.mem_append_left _ h), hfront⟩
    · exact List.forall_mem_append.mpr
        ⟨hback, fun token h => isMark_of_mem_marks (List.mem_append_right _ h)⟩
  | .name _ | .any | .unknown | .union _ | .generic _ _ | .function _ _ _ | .record _ =>
    ⟨[], [], by rw [List.nil_append, List.append_nil]; rfl, nofun, nofun⟩

/-- What comes behind the marks at the front. -/
def unmark (ts : List Lexeme) : List Lexeme := ts.dropWhile (·.token.isMark)

theorem unmark_append {us : List Lexeme} (h : ∀ token ∈ us.map Lexeme.token, token.isMark = true)
    (vs : List Lexeme) : unmark (us ++ vs) = unmark vs :=
  List.dropWhile_append_of_pos fun _ hlexeme => h _ (List.mem_map_of_mem hlexeme)

theorem Marking.unmark_eq {m m' : Modifiers} {ts ts' : List Lexeme} (h : Marking m ts m' ts') :
    unmark ts = unmark ts' := by
  induction h with
  | done => rfl
  | mark h _ ih =>
    rw [← ih]
    exact List.dropWhile_cons_of_pos (p := fun lexeme : Lexeme => lexeme.token.isMark)
      (of_mark? h).1

theorem unmark_cons {token : Token} (h : token.isMark = false) (o : Nat) (ts : List Lexeme) :
    unmark (⟨token, o⟩ :: ts) = ⟨token, o⟩ :: ts :=
  List.dropWhile_cons_of_neg (p := fun lexeme : Lexeme => lexeme.token.isMark) (by simp [h])

/-- Only the text of a union begins with a parenthesis. -/
theorem exists_union_of_lparen {node : Node} (h : node.isModified = false) {more : List Token}
    (htokens : node.tokens = .lparen :: more) : ∃ members, node = .union members := by
  cases node with
  | union members => exact ⟨members, rfl⟩
  | name text =>
    rcases wordToken_cases text with htext | htext <;> simp [Node.tokens, htext] at htokens
  | generic base params =>
    rw [Node.tokens, baseTokens] at htokens
    split at htokens <;> simp at htokens
  | modified => cases h
  | any | unknown | function | record => simp [Node.tokens] at htokens

/-- Behind marks, the text of a marked type goes on as that of what is marked. -/
theorem unmark_tokens {node : Node} {ts rest : List Lexeme}
    (hts : ts.map Lexeme.token = node.tokens) (hrest : EndsMember rest) {o : Nat}
    {ts' : List Lexeme} (h : unmark (ts ++ rest) = ⟨.lparen, o⟩ :: ts') :
    ∃ members us back, node.heart = .union members ∧
      us.map Lexeme.token = (Node.union members).tokens ∧
      us ++ (back ++ rest) = ⟨.lparen, o⟩ :: ts' ∧
      ∀ token ∈ back.map Lexeme.token, token.isMark = true := by
  obtain ⟨front, back, htokens, hfront, hback⟩ := exists_heart_tokens node
  rw [htokens] at hts
  obtain ⟨fs, ts, rfl, hfs, hmiddle⟩ := List.map_eq_append_iff.mp hts
  obtain ⟨us, bs, rfl, hus, hbs⟩ := List.map_eq_append_iff.mp hmiddle
  rw [← hfs] at hfront
  rw [← hbs] at hback
  rw [List.append_assoc, List.append_assoc, unmark_append hfront] at h
  by_cases hunknown : node.heart = .unknown
  · -- all of the text is marks, and what follows is no parenthesis
    have hall : ∀ token ∈ us.map Lexeme.token, token.isMark = true := by
      rw [hus, hunknown, Node.tokens]
      exact List.forall_mem_singleton.mpr rfl
    rw [unmark_append hall, unmark_append hback] at h
    rcases rest with _ | ⟨⟨token, o'⟩, rest⟩
    · cases h
    · have htoken := hrest token rfl
      have hmark : token.isMark = false := by
        rcases htoken with hcloser | rfl
        · cases token <;> first | rfl | cases hcloser
        · rfl
      rw [unmark_cons hmark] at h
      cases h
      rcases htoken with hcloser | hpipe
      · cases hcloser
      · cases hpipe
  · obtain ⟨first, more, hfirst, hstart⟩ := exists_start (isModified_heart node) hunknown
    rw [hfirst] at hus
    obtain ⟨o', us, rfl, hmore⟩ := map_token_eq_cons hus
    have hmark : first.isMark = false := by
      cases first <;> first | rfl | cases hstart
    rw [List.cons_append, unmark_cons hmark] at h
    cases h
    obtain ⟨members, hmembers⟩ := exists_union_of_lparen (isModified_heart node) hfirst
    refine ⟨members, _ :: us, bs, hmembers, ?_, rfl, hback⟩
    rw [← hmembers, hfirst, hus]

/-- A marked type is read as an atom only from a group. If the text puts no group around it, the
group is that of a union inside its marks, and has too few marks in it. -/
theorem not_parses_modified {node inner : Node} {m : Modifiers} {p : Node → Prop}
    (hall : node.All p) (hheart : (Node.modified inner m).heart = node.heart) (hm : m ≠ {})
    {ts rest : List Lexeme}
    (hts : ts.map Lexeme.token = node.tokens) (hrest : EndsMember rest) {ts' rest' : List Lexeme}
    (hunmark : unmark (ts ++ rest) = unmark ts')
    (h : Parses (.atom (.modified inner m)) ts' rest') : False := by
  cases h with
  | @group _ o o' ts₁ _ h =>
    have hparen : unmark (⟨.lparen, o⟩ :: ts₁) = ⟨.lparen, o⟩ :: ts₁ := unmark_cons rfl o ts₁
    rw [hparen] at hunmark
    obtain ⟨members, us, back, hmembers, hus, hlist, -⟩ := unmark_tokens hts hrest hunmark
    have hlight : weight inner.tokens < weight (Node.modified inner m).tokens := by
      rw [weight_modified]
      exact Nat.lt_add_of_pos_left (count_pos hm)
    have hheavy := weight_heart_le inner
    rw [show inner.heart = node.heart from hheart, hmembers, weight_union] at hheavy
    rw [Node.tokens, tokensAll_eq_map] at hus
    have hbalanced : Balanced ([.pipe].intercalate (members.map Node.tokens)) :=
      hall.heart.balanced_members hmembers
    obtain ⟨o₁, inside, o₂, rfl, hinside, hbehind⟩ := Balanced.exists_behind rfl hbalanced hus
    obtain rfl : ts₁ = inside ++ ⟨.rparen, o₂⟩ :: (back ++ rest) := by
      simpa using (List.cons.inj hlist).2.symm
    obtain rfl : rest' = back ++ rest := (h.behind_eq 0).symm.trans (hbehind _)
    have hweight := h.weight_le
    rw [List.map_append, weight_append, hinside, weight_intercalate rfl, Phrase.weight] at hweight
    simp only [List.map_cons] at hweight
    omega

end Commentary.TypeExpr
