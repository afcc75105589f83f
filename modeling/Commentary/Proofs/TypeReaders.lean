import Commentary.Proofs.TypeTokens

/-!
# Readers of types

What the readers of type expressions do to a list of tokens with a `rest` behind it (`Takes`): lists
with separators, and the marks in front of a type and behind it. What can follow a type decides
where a reader stops (`EndsType`, `EndsAtom`), and which types can stand next to which without
parentheses is decided by that (`Node.IsGroupedAt`).
-/

namespace Commentary.TypeExpr

/-! ## Shapes of types -/

/-- Whether a type carries marks. -/
def Node.isModified : Node → Bool
  | .modified _ _ => true
  | _ => false

/-- A type without the marks around it. -/
def Node.core : Node → Node
  | .modified inner _ => inner
  | node => node

theorem unmarked_or_modified (node : Node) :
    node.isModified = false ∨ ∃ inner m, node = .modified inner m := by
  cases node with
  | modified inner m => exact .inr ⟨inner, m, rfl⟩
  | _ => exact .inl rfl

/-- The result type of a function that has one. -/
def Node.returns? : Node → Option Node
  | .function _ _ returns => returns
  | _ => none

/-- The text of a type ends in a mark that is read behind the type: nothing more can belong to the
type then. -/
def Node.EndsMarked : Node → Prop
  | .modified inner modifiers =>
    modifiers.optional = true ∨ inner = .unknown ∧ modifiers.nullable = some true
  | _ => False

/-- A member of a union carries marks of nullability at most. -/
def Node.IsMember : Node → Prop
  | .modified inner modifiers =>
    modifiers = { nullable := modifiers.nullable } ∧
      (inner = .unknown → modifiers.nullable = some false)
  | _ => True

theorem isMember_of_unmarked {node : Node} (h : node.isModified = false) : node.IsMember := by
  cases node with
  | modified => cases h
  | _ => trivial

/-- The text of a type needs no parentheses that the type does not show. -/
def Node.IsGroupedAt : Node → Prop
  | .union members =>
    (∀ first ∈ members.head?, first.isModified = false) ∧
      (∀ member ∈ members, member.IsMember) ∧
      ∀ member ∈ members.dropLast, ∀ type ∈ member.core.returns?, type.EndsMarked
  | .generic base _ => ¬IsLiteral base
  | .modified inner modifiers =>
    inner.isModified = false ∧ (modifiers.optional = true → inner.returns? = none)
  | _ => True

/-! ## What follows -/

/-- Whether a token closes a list of types or separates its items. -/
def Token.isCloser : Token → Bool
  | .comma | .rparen | .rangle | .rbrace => true
  | _ => false

/-- The brackets that close a group or type parameters. -/
def closing : List Token := [.rparen, .rangle]

/-- Whether a token starts a type that carries no marks. -/
def Token.isTypeStart : Token → Bool
  | .name _ | .literal _ | .lparen | .lbrace | .star => true
  | _ => false

theorem wordToken_cases (text : String) :
    wordToken text = .name text ∨ wordToken text = .literal text := by
  rw [wordToken]
  split
  · exact .inr rfl
  · exact .inl rfl

theorem startsType_eq (ts : List Lexeme) : startsType ts = (peek? ts).any Token.isTypeStart := by
  rw [startsType]
  rcases peek? ts with _ | token
  · rfl
  · cases token <;> rfl

/-- What follows a type: nothing, a separator of a list, or its end. -/
def EndsType (rest : List Lexeme) : Prop := ∀ token ∈ peek? rest, token.isCloser = true

/-- What follows a given type: a bar can, if a mark ends the type. -/
def EndsTypeOf (node : Node) (rest : List Lexeme) : Prop :=
  ∀ token ∈ peek? rest, token.isCloser = true ∨ token = .pipe ∧ node.EndsMarked

theorem EndsType.of {rest : List Lexeme} (h : EndsType rest) (node : Node) :
    EndsTypeOf node rest :=
  fun token htoken => .inl (h token htoken)

theorem EndsTypeOf.endsType {node : Node} {rest : List Lexeme} (h : EndsTypeOf node rest)
    (hnode : ¬node.EndsMarked) : EndsType rest :=
  fun token htoken => (h token htoken).resolve_right fun hpipe => hnode hpipe.2

/-- What follows a type that stands alone or in a union. -/
def EndsMember (rest : List Lexeme) : Prop :=
  ∀ token ∈ peek? rest, token.isCloser = true ∨ token = .pipe

theorem EndsTypeOf.endsMember {node : Node} {rest : List Lexeme} (h : EndsTypeOf node rest) :
    EndsMember rest := fun token htoken => (h token htoken).imp_right And.left

theorem EndsType.endsMember {rest : List Lexeme} (h : EndsType rest) : EndsMember rest :=
  fun token htoken => .inl (h token htoken)

/-- What follows an atom: what follows a type, or a bar, or a mark behind the type. -/
def EndsAtom (rest : List Lexeme) : Prop :=
  ∀ token ∈ peek? rest, token.isCloser = true ∨ token ∈ [.pipe, .equals, .question, .bang]

theorem EndsType.endsAtom {rest : List Lexeme} (h : EndsType rest) : EndsAtom rest :=
  fun token htoken => .inl (h token htoken)

theorem EndsMember.endsAtom {rest : List Lexeme} (h : EndsMember rest) : EndsAtom rest :=
  fun token htoken => (h token htoken).imp_right fun hpipe => by rw [hpipe]; decide

theorem endsAtom_cons {token : Token} {offset : Nat} {rest : List Lexeme}
    (h : token ∈ [.pipe, .equals, .question, .bang]) : EndsAtom (⟨token, offset⟩ :: rest) := by
  rintro _ ⟨⟩
  exact .inr h

theorem endsType_cons {token : Token} {offset : Nat} {rest : List Lexeme}
    (h : token.isCloser = true) : EndsType (⟨token, offset⟩ :: rest) := by
  rintro _ ⟨⟩
  exact h

theorem EndsAtom.nextIs {rest : List Lexeme} (h : EndsAtom rest) (token : Token)
    (htoken : token.isCloser = false ∧ token ∉ [.pipe, .equals, .question, .bang]) :
    nextIs token rest = false := by
  rw [TypeExpr.nextIs, beq_eq_false_iff_ne]
  intro hpeek
  rcases h token hpeek with hcloser | hmem
  · rw [htoken.1] at hcloser
    cases hcloser
  · exact htoken.2 hmem

theorem EndsType.nextIs {rest : List Lexeme} (h : EndsType rest) {token : Token}
    (htoken : token.isCloser = false) : nextIs token rest = false := by
  rw [TypeExpr.nextIs, beq_eq_false_iff_ne]
  intro hpeek
  rw [h token hpeek] at htoken
  cases htoken

theorem EndsMember.endsType {rest : List Lexeme} (h : EndsMember rest)
    (hpipe : nextIs .pipe rest = false) : EndsType rest := by
  intro token htoken
  refine (h token htoken).resolve_right ?_
  rintro rfl
  rw [TypeExpr.nextIs, beq_eq_false_iff_ne] at hpipe
  exact hpipe htoken

theorem EndsAtom.startsType {rest : List Lexeme} (h : EndsAtom rest) :
    startsType rest = false := by
  rw [startsType_eq]
  rcases hpeek : peek? rest with _ | token
  · rfl
  · rcases h token hpeek with hcloser | hmem
    · cases token <;> first | rfl | cases hcloser
    · have hnone : ∀ token ∈ [Token.pipe, .equals, .question, .bang],
          token.isTypeStart = false := by decide
      exact hnone token hmem

/-! ## Readers -/

theorem exists_cons_cons {α : Type} {xs : List α} (h : 2 ≤ xs.length) :
    ∃ first second more, xs = first :: second :: more := by
  rcases xs with _ | ⟨first, _ | ⟨second, more⟩⟩
  · simp at h
  · simp at h
  · exact ⟨first, second, more, rfl⟩

theorem map_token_eq_cons {ts : List Lexeme} {token : Token} {tokens : List Token}
    (h : ts.map Lexeme.token = token :: tokens) :
    ∃ offset ts', ts = ⟨token, offset⟩ :: ts' ∧ ts'.map Lexeme.token = tokens := by
  obtain ⟨⟨_, offset⟩, ts', rfl, rfl, hts'⟩ := List.map_eq_cons_iff.mp h
  exact ⟨offset, ts', rfl, hts'⟩

theorem map_token_eq_singleton {ts : List Lexeme} {token : Token}
    (h : ts.map Lexeme.token = [token]) : ∃ offset, ts = [⟨token, offset⟩] := by
  obtain ⟨offset, ts', rfl, hts'⟩ := map_token_eq_cons h
  obtain rfl := List.map_eq_nil_iff.mp hts'
  exact ⟨offset, rfl⟩

/-- In front of `rest`, a reader takes some tokens and gives a value. -/
def Takes {α : Type} (reader : Reader α) (tokens : List Token) (value : α) (rest : List Lexeme) :
    Prop :=
  ∀ ts, ts.map Lexeme.token = tokens → reader (ts ++ rest) = .ok (value, rest)

section Lists

variable {α : Type} {separator : Token} {item : Reader α} {tokens : α → List Token}

/-- The tokens of items behind a first one, each with the separator in front of it. -/
def separated (separator : Token) (tokens : α → List Token) (xs : List α) : List Token :=
  xs.flatMap fun x => separator :: tokens x

theorem intercalate_cons (x : α) (xs : List α) :
    [separator].intercalate ((x :: xs).map tokens) = tokens x ++ separated separator tokens xs := by
  induction xs generalizing x with
  | nil => simp [separated]
  | cons y ys ih =>
    rw [List.map_cons, List.map_cons, List.intercalate_cons_cons, ← List.map_cons, ih]
    simp [separated]

/-- In the tokens of a list, the first item ends at a separator, if it is not the last one. -/
theorem exists_first_item {x y : α} {xs : List α} {ts : List Lexeme}
    (hts : ts.map Lexeme.token = [separator].intercalate ((x :: y :: xs).map tokens)) :
    ∃ first offset more, ts = first ++ ⟨separator, offset⟩ :: more ∧
      first.map Lexeme.token = tokens x ∧
      more.map Lexeme.token = [separator].intercalate ((y :: xs).map tokens) := by
  rw [List.map_cons, List.map_cons, List.intercalate_cons_cons, ← List.map_cons, List.append_assoc,
    List.singleton_append] at hts
  obtain ⟨first, back, rfl, hfirst, hback⟩ := List.map_eq_append_iff.mp hts
  obtain ⟨offset, more, rfl, hmore⟩ := map_token_eq_cons hback
  exact ⟨first, offset, more, rfl, hfirst, hmore⟩

/-- Each item but the last is taken in front of a separator, the last one in front of what follows
the list. -/
structure TakesEach (separator : Token) (item : Reader α) (tokens : α → List Token) (xs : List α)
    (rest : List Lexeme) : Prop where
  init : ∀ x ∈ xs.dropLast, ∀ rest, nextIs separator rest = true → Takes item (tokens x) x rest
  last : ∀ x ∈ xs.getLast?, Takes item (tokens x) x rest

theorem TakesEach.tail {x : α} {xs : List α} {rest : List Lexeme}
    (h : TakesEach separator item tokens (x :: xs) rest) :
    TakesEach separator item tokens xs rest := by
  rcases xs with _ | ⟨y, ys⟩
  · exact ⟨by simp, by simp⟩
  · refine ⟨fun z hz => h.init z (List.mem_cons_of_mem x hz), fun z hz => h.last z ?_⟩
    rwa [List.getLast?_cons_cons]

theorem TakesEach.head {x : α} {xs : List α} {rest : List Lexeme}
    (h : TakesEach separator item tokens (x :: xs) rest) {ts : List Lexeme}
    (hts : ts.map Lexeme.token = tokens x ++ separated separator tokens xs) :
    ∃ more, more.map Lexeme.token = separated separator tokens xs ∧
      item (ts ++ rest) = .ok (x, more ++ rest) := by
  obtain ⟨first, more, rfl, hfirst, hmore⟩ := List.map_eq_append_iff.mp hts
  refine ⟨more, hmore, ?_⟩
  rw [List.append_assoc]
  rcases xs with _ | ⟨y, ys⟩
  · obtain rfl : more = [] := by simpa [separated] using hmore
    exact h.last x rfl first hfirst
  · refine h.init x (by simp) _ ?_ first hfirst
    rw [separated, List.flatMap_cons, List.cons_append] at hmore
    obtain ⟨offset, more, rfl, -⟩ := map_token_eq_cons hmore
    simp [nextIs, peek?]

theorem takes_moreItems {xs : List α} {rest : List Lexeme} (hstop : nextIs separator rest = false)
    (h : TakesEach separator item tokens xs rest) {n : Nat} (hn : xs.length ≤ n) :
    Takes (moreItems separator item n) (separated separator tokens xs) xs rest := by
  induction xs generalizing n with
  | nil =>
    intro ts hts
    obtain rfl : ts = [] := by simpa [separated] using hts
    cases n with
    | zero => rfl
    | succ n => rw [moreItems, List.nil_append, if_neg (by simp [hstop])]
  | cons x xs ih =>
    obtain ⟨n, rfl⟩ : ∃ m, n = m + 1 := ⟨n - 1, by simp only [List.length_cons] at hn; omega⟩
    intro ts hts
    rw [separated, List.flatMap_cons, List.cons_append] at hts
    obtain ⟨offset, ts, rfl, htail⟩ := map_token_eq_cons hts
    have hnext : nextIs separator (⟨separator, offset⟩ :: ts ++ rest) = true := by
      simp [nextIs, peek?]
    obtain ⟨more, hmore, hitem⟩ := h.head htail
    have hrest : moreItems separator item n (more ++ rest) = .ok (xs, rest) :=
      ih h.tail (by simpa using hn) more hmore
    rw [moreItems, if_pos hnext, List.cons_append, List.tail_cons, hitem]
    simp only [bind, Except.bind]
    rw [hrest]
    rfl

/-- A list is taken if each of its items is. -/
theorem takes_items {xs : List α} {rest : List Lexeme} (hne : xs ≠ [])
    (hstop : nextIs separator rest = false) (h : TakesEach separator item tokens xs rest) :
    Takes (items separator item) ([separator].intercalate (xs.map tokens)) xs rest := by
  obtain ⟨x, xs, rfl⟩ := List.exists_cons_of_ne_nil hne
  intro ts hts
  rw [intercalate_cons] at hts
  obtain ⟨more, hmore, hitem⟩ := h.head hts
  have hlength : xs.length ≤ (more ++ rest).length := by
    have hle : ∀ xs : List α, xs.length ≤ (separated separator tokens xs).length := by
      intro xs
      induction xs with
      | nil => exact Nat.le_refl 0
      | cons x xs ih =>
        simp only [separated, List.flatMap_cons, List.length_append, List.length_cons] at ih ⊢
        omega
    have hmap := congrArg List.length hmore
    rw [List.length_map] at hmap
    rw [List.length_append, hmap]
    exact Nat.le_add_right_of_le (hle xs)
  have hrest : moreItems separator item (more ++ rest).length (more ++ rest) = .ok (xs, rest) :=
    takes_moreItems hstop h.tail hlength more hmore
  rw [items, hitem]
  simp only [bind, Except.bind]
  rw [hrest]
  rfl

theorem length_le_intercalate (separator : Token) (tokens : α → List Token) {xs : List α} {x : α}
    (hx : x ∈ xs) :
    (tokens x).length ≤ ([separator].intercalate (xs.map tokens)).length := by
  induction xs with
  | nil => cases hx
  | cons y ys ih =>
    rcases ys with _ | ⟨z, zs⟩
    · obtain rfl : x = y := by simpa using hx
      simp
    · rw [List.map_cons, List.map_cons, List.intercalate_cons_cons, ← List.map_cons]
      simp only [List.length_append]
      rcases List.mem_cons.mp hx with rfl | hx
      · omega
      · have := ih hx
        omega

end Lists

/-! ## Marks

The three readers of marks differ in the tokens that they take for marks, and in whether a question
mark has to stand in front of a type. -/

/-- A reader of marks goes on as long as `take` says what the next token sets, given whether a type
starts behind it. -/
structure TakesMarks (take : Modifiers → Token → Bool → Option Modifiers)
    (marks : Modifiers → List Lexeme → Modifiers × List Lexeme) : Prop where
  nil : ∀ m, marks m [] = (m, [])
  cons : ∀ m lexeme ts, marks m (lexeme :: ts) =
    match take m lexeme.token (startsType ts) with
    | some m' => marks m' ts
    | none => (m, lexeme :: ts)
  closers : ∀ m starts, ∀ token ∈ closing, take m token starts = none

/-- What a mark in front of a type sets. -/
def takeLeading (m : Modifiers) : Token → Bool → Option Modifiers
  | .ellipsis, _ => some { m with repeatable := true }
  | .question, true => some { m with nullable := some true }
  | .bang, _ => some { m with nullable := some false }
  | _, _ => none

/-- What a mark in front of a member sets. -/
def takeMember (m : Modifiers) : Token → Bool → Option Modifiers
  | .question, true => some { m with nullable := some true }
  | .bang, _ => some { m with nullable := some false }
  | _, _ => none

/-- What a mark behind a type sets. -/
def takeTrailing (m : Modifiers) : Token → Bool → Option Modifiers
  | .equals, _ => some { m with optional := true }
  | .question, _ => some { m with nullable := some true }
  | .bang, _ => some { m with nullable := some false }
  | _, _ => none

theorem takesMarks_leading : TakesMarks takeLeading leadingMarks where
  nil _ := rfl
  cons m lexeme ts := by
    obtain ⟨token, offset⟩ := lexeme
    cases token <;> cases hstart : startsType ts <;> simp [leadingMarks, takeLeading, hstart]
  closers _ _ _ htoken := by rcases List.mem_pair.1 htoken with rfl | rfl <;> rfl

theorem takesMarks_member : TakesMarks takeMember memberMarks where
  nil _ := rfl
  cons m lexeme ts := by
    obtain ⟨token, offset⟩ := lexeme
    cases token <;> cases hstart : startsType ts <;> simp [memberMarks, takeMember, hstart]
  closers _ _ _ htoken := by rcases List.mem_pair.1 htoken with rfl | rfl <;> rfl

theorem takesMarks_trailing : TakesMarks takeTrailing trailingMarks where
  nil _ := rfl
  cons m lexeme ts := by
    obtain ⟨token, offset⟩ := lexeme
    cases token <;> rfl
  closers _ _ _ htoken := by rcases List.mem_pair.1 htoken with rfl | rfl <;> rfl

/-- Marks are taken until the next token is none. -/
theorem TakesMarks.stopped {take : Modifiers → Token → Bool → Option Modifiers}
    {marks : Modifiers → List Lexeme → Modifiers × List Lexeme} (htakes : TakesMarks take marks)
    {m m' : Modifiers} {ts ts' : List Lexeme} (h : marks m ts = (m', ts')) :
    ts' = [] ∨ ∃ lexeme rest, ts' = lexeme :: rest ∧
      take m' lexeme.token (startsType rest) = none := by
  induction ts generalizing m with
  | nil =>
    rw [htakes.nil] at h
    cases h
    exact .inl rfl
  | cons lexeme ts ih =>
    rw [htakes.cons] at h
    split at h
    next => exact ih h
    next hnone =>
      cases h
      exact .inr ⟨lexeme, ts, rfl, hnone⟩

/-- No marks stand in front of what comes next: it starts a type, or it is a question mark that
stands for one. -/
def IsUnmarked (ts : List Lexeme) : Prop :=
  startsType ts = true ∨ nextIs .question ts = true ∧ startsType ts.tail = false

section Marks

variable {m : Modifiers} {ts rest : List Lexeme}

theorem leadingMarks_of_isUnmarked (h : IsUnmarked ts) : leadingMarks m ts = (m, ts) := by
  rcases ts with _ | ⟨⟨token, offset⟩, ts⟩
  · rfl
  · cases token <;> simp_all [IsUnmarked, leadingMarks, startsType, nextIs, peek?]

theorem memberMarks_of_isUnmarked (h : IsUnmarked ts) : memberMarks m ts = (m, ts) := by
  rcases ts with _ | ⟨⟨token, offset⟩, ts⟩
  · rfl
  · cases token <;> simp_all [IsUnmarked, memberMarks, startsType, nextIs, peek?]

theorem leadingMarks_leading (hts : ts.map Lexeme.token = m.leadingTokens) (hrest : IsUnmarked rest)
    (hknown : m.nullable = some true → startsType rest = true) :
    leadingMarks {} (ts ++ rest) = ({ m with optional := false }, rest) := by
  have hstop : ∀ m, leadingMarks m rest = (m, rest) := fun m => leadingMarks_of_isUnmarked hrest
  rcases m with ⟨_ | _ | _, optional, _ | _⟩ <;>
    simp only [Modifiers.leadingTokens, List.map_eq_cons_iff, List.map_eq_nil_iff, if_true,
      if_false, Bool.false_eq_true, List.nil_append, List.cons_append] at hts
  · subst hts
    exact hstop _
  · obtain ⟨⟨_, offset⟩, _, rfl, rfl, rfl⟩ := hts
    exact hstop _
  · obtain ⟨⟨_, offset⟩, _, rfl, rfl, rfl⟩ := hts
    exact hstop _
  · obtain ⟨⟨_, offset⟩, _, rfl, rfl, ⟨_, offset'⟩, _, rfl, rfl, rfl⟩ := hts
    exact hstop _
  · obtain ⟨⟨_, offset⟩, _, rfl, rfl, rfl⟩ := hts
    simp [leadingMarks, hknown rfl, hstop]
  · obtain ⟨⟨_, offset⟩, _, rfl, rfl, ⟨_, offset'⟩, _, rfl, rfl, rfl⟩ := hts
    simp [leadingMarks, hknown rfl, hstop]

theorem trailingMarks_of_endsMember (h : EndsMember rest) : trailingMarks m rest = (m, rest) := by
  rcases rest with _ | ⟨⟨token, offset⟩, rest⟩
  · rfl
  · rcases h token rfl with hcloser | rfl
    · cases token <;> first | rfl | cases hcloser
    · rfl

theorem trailingMarks_trailing (m' : Modifiers) (hts : ts.map Lexeme.token = m.trailingTokens)
    (hrest : EndsMember rest) :
    trailingMarks m' (ts ++ rest) = ({ m' with optional := m'.optional || m.optional }, rest) := by
  rcases hoptional : m.optional with _ | _ <;>
    simp only [Modifiers.trailingTokens, hoptional, List.map_eq_cons_iff, List.map_eq_nil_iff,
      if_true, if_false, Bool.false_eq_true] at hts
  · subst hts
    rw [List.nil_append, trailingMarks_of_endsMember hrest, Bool.or_false]
  · obtain ⟨⟨_, offset⟩, _, rfl, rfl, rfl⟩ := hts
    rw [Bool.or_true]
    exact trailingMarks_of_endsMember hrest

/-- Behind a marked type the reading of its union stops in front of what follows the type, at a mark
or for lack of a bar. -/
theorem nextIs_pipe_trailing {node : Node} (hne : node ≠ .unknown)
    (hts : ts.map Lexeme.token = m.trailingTokens) (hrest : EndsMember rest) :
    EndsAtom (ts ++ rest) ∧
      (nextIs .pipe (ts ++ rest) = false ↔ EndsTypeOf (.modified node m) rest) := by
  rw [Modifiers.trailingTokens] at hts
  split at hts
  next hoptional =>
    obtain ⟨offset, rfl⟩ := map_token_eq_singleton hts
    exact ⟨endsAtom_cons (by decide), fun _ token htoken =>
      (hrest token htoken).imp_right fun hpipe => ⟨hpipe, .inl hoptional⟩, fun _ => rfl⟩
  next hoptional =>
    obtain rfl := List.map_eq_nil_iff.mp hts
    refine ⟨hrest.endsAtom, fun hpipe => (hrest.endsType hpipe).of _, fun h => ?_⟩
    have hends : EndsType rest := h.endsType fun hmarked =>
      hmarked.elim hoptional fun hunknown => hne hunknown.1
    exact hends.nextIs rfl

/-- The question mark of the unknown type starts no type, and so a mark of nullability in front of
it is not read as one: the second question mark is. -/
theorem marks_unknown (hts : ts.map Lexeme.token = (Node.modified .unknown m).tokens)
    (hrest : EndsMember rest) :
    ∃ marks offset ts', leadingMarks {} (ts ++ rest) = (marks, ⟨.question, offset⟩ :: ts') ∧
      trailingMarks marks ts' = (m, rest) ∧ EndsAtom ts' ∧
      (nextIs .pipe ts' = false ↔ EndsTypeOf (.modified .unknown m) rest) := by
  rw [Node.tokens] at hts
  obtain ⟨front, ts, rfl, hfront, hts⟩ := List.map_eq_append_iff.mp hts
  obtain ⟨middle, back, rfl, hmiddle, hback⟩ := List.map_eq_append_iff.mp hts
  rw [Node.tokens] at hmiddle
  obtain ⟨offset, rfl⟩ := map_token_eq_singleton hmiddle
  rw [List.append_assoc, List.append_assoc, List.singleton_append]
  by_cases htrue : m.nullable = some true
  · -- the mark in front is taken for the type, and the type for a mark behind it
    obtain ⟨nullable, optional, repeatable⟩ := m
    obtain rfl : nullable = some true := htrue
    have hsplit : Modifiers.leadingTokens ⟨some true, optional, repeatable⟩ =
        Modifiers.leadingTokens ⟨none, optional, repeatable⟩ ++ [.question] := by
      rw [Modifiers.leadingTokens, Modifiers.leadingTokens, List.append_nil]
    rw [hsplit] at hfront
    obtain ⟨front, question, rfl, hbefore, hquestion⟩ := List.map_eq_append_iff.mp hfront
    obtain ⟨offset', rfl⟩ := map_token_eq_singleton hquestion
    have hstart : IsUnmarked (⟨.question, offset'⟩ :: ⟨.question, offset⟩ :: (back ++ rest)) :=
      .inr ⟨rfl, rfl⟩
    have htrailing : trailingMarks ⟨none, false, repeatable⟩
        (⟨.question, offset⟩ :: (back ++ rest)) = (⟨some true, optional, repeatable⟩, rest) :=
      trailingMarks_trailing ⟨some true, false, repeatable⟩ hback hrest
    rw [List.append_assoc, List.singleton_append]
    refine ⟨_, offset', _, leadingMarks_leading hbefore hstart fun h => (by cases h), htrailing,
      endsAtom_cons (by decide), fun _ token htoken => ?_, fun _ => rfl⟩
    exact (hrest token htoken).imp_right fun hpipe => ⟨hpipe, .inr ⟨rfl, rfl⟩⟩
  · have hends : EndsTypeOf (.modified .unknown m) rest ↔ EndsTypeOf (.modified .any m) rest := by
      simp [EndsTypeOf, Node.EndsMarked, htrue]
    have hany : Node.any ≠ .unknown := by rintro ⟨⟩
    obtain ⟨hatom, hpipe⟩ := nextIs_pipe_trailing hany hback hrest
    have hstart : IsUnmarked (⟨.question, offset⟩ :: (back ++ rest)) := .inr ⟨rfl, hatom.startsType⟩
    refine ⟨_, offset, _, leadingMarks_leading hfront hstart fun h => absurd h htrue, ?_, hatom,
      hpipe.trans hends.symm⟩
    rw [trailingMarks_trailing _ hback hrest, Bool.false_or]

/-- A mark of nullability in front of a member. -/
theorem memberMarks_leading {nullable : Bool}
    (hts : ts.map Lexeme.token = Modifiers.leadingTokens { nullable := some nullable })
    (hrest : IsUnmarked rest) (hknown : nullable = true → startsType rest = true) :
    memberMarks {} (ts ++ rest) = ({ nullable := some nullable }, rest) := by
  cases nullable with
  | false =>
    obtain ⟨offset, rfl⟩ := map_token_eq_singleton hts
    exact memberMarks_of_isUnmarked hrest
  | true =>
    obtain ⟨offset, rfl⟩ := map_token_eq_singleton hts
    rw [List.singleton_append, memberMarks]
    simp only [hknown rfl, if_true]
    exact memberMarks_of_isUnmarked hrest

end Marks

/-! ## Functions and records -/

theorem receiverOf_append (ps qs : List Param) :
    receiverOf (ps ++ qs) = (receiverOf qs).or (receiverOf ps) := by
  rw [receiverOf, List.reverse_append, List.findSome?_append]
  rfl

theorem receiverOf_paramsOf (receiver : Option Receiver) (params : List Node) :
    receiverOf (paramsOf receiver params) = receiver := by
  have hordinary : receiverOf (params.map .ordinary) = none := by
    rw [receiverOf, List.findSome?_eq_none_iff]
    intro p hp
    obtain ⟨node, -, rfl⟩ := List.mem_map.mp (List.mem_reverse.mp hp)
    rfl
  rw [paramsOf, receiverOf_append, hordinary, Option.none_or]
  rcases receiver with _ | receiver <;> rfl

theorem ordinaryOf_paramsOf (receiver : Option Receiver) (params : List Node) :
    ordinaryOf (paramsOf receiver params) = params := by
  rw [ordinaryOf, paramsOf, List.filterMap_append]
  rcases receiver with _ | receiver <;> simp [List.filterMap_map]

/-- The parameters of a function, up to the parenthesis that closes them. -/
def paramList (stop : Nat) (type : Reader Node) : Reader (List Param) := fun ts =>
  if nextIs .rparen ts then .ok ([], ts.tail)
  else do
    let (params, ts) ← items .comma (param type) ts
    let (_, ts) ← expect stop .rparen ts
    .ok (params, ts)

/-- A list with commas, which may be empty, up to the token that closes it. -/
def closedItems {α : Type} (close : Token) (stop : Nat) (item : Reader α) : Reader (List α) :=
  fun ts =>
    if nextIs close ts then .ok ([], ts.tail)
    else do
      let (xs, ts) ← items .comma item ts
      let (_, ts) ← expect stop close ts
      .ok (xs, ts)

theorem paramList_eq (stop : Nat) (type : Reader Node) :
    paramList stop type = closedItems .rparen stop (param type) := rfl

theorem record_eq (stop : Nat) (type : Reader Node) (ts : List Lexeme) : record stop type ts =
    (closedItems .rbrace stop (field stop type) ts).map fun (fields, rest) =>
      (.record fields, rest) := by
  rw [record, closedItems]
  split
  · rfl
  · simp only [bind, Except.bind]
    rcases items .comma (field stop type) ts with _ | ⟨fields, ts⟩
    · rfl
    · dsimp only
      rcases expect stop .rbrace ts <;> rfl

/-- The result type of a function with the given parameters. -/
def returning (type : Reader Node) (params : List Param) : Reader Node := fun ts =>
  if nextIs .colon ts then do
    let (node, ts) ← type ts.tail
    return (.function (receiverOf params) (ordinaryOf params) (some node), ts)
  else return (.function (receiverOf params) (ordinaryOf params) none, ts)

theorem function_eq (stop : Nat) (type : Reader Node) (ts : List Lexeme) :
    function stop type ts = (do
      let (_, ts) ← expect stop .lparen ts
      let (params, ts) ← paramList stop type ts
      returning type params ts) := by
  simp only [function, paramList, bind, Except.bind]
  rcases expect stop .lparen ts with _ | ⟨_, ts⟩
  · rfl
  · dsimp only
    split
    · rfl
    · rcases items .comma (param type) ts with _ | ⟨params, ts⟩
      · rfl
      · dsimp only
        rcases expect stop .rparen ts <;> rfl

end Commentary.TypeExpr
