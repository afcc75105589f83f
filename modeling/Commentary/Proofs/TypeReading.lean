import Commentary.Proofs.TypeReaders

/-!
# Reading the canonical text of a type

The canonical text of a type is read back as the type it was made from, whenever the text groups
what the type groups (`reads_render`).

Only atoms are recursive. From the reading of atoms comes the reading of types with marks
(`takes_inner`) and of members (`takes_member`), from these the reading of the lists in which they
stand, and from the lists the reading of the next larger atom (`takes_atom_unmarked`).
-/

namespace Commentary.TypeExpr

/-! ## Types with marks -/

section Reading

variable {atom : Reader Node} {node : Node} {ts ts' rest rest' : List Lexeme}

theorem member_of_isUnmarked (h : IsUnmarked ts) (hatom : atom ts = .ok (node, rest)) :
    member atom ts = .ok (node, rest) := by
  simp only [member, memberMarks_of_isUnmarked h, bind, Except.bind, hatom]
  rfl

theorem union_of_member (hmember : member atom ts = .ok (node, rest))
    (hrest : nextIs .pipe rest = false) : union atom ts = .ok (node, rest) := by
  have hmore : moreItems .pipe (member atom) rest.length rest = .ok ([], rest) := by
    rcases rest with _ | ⟨lexeme, rest⟩
    · rfl
    · rw [List.length_cons, moreItems, if_neg (by simp [hrest])]
  rw [union, items, hmember]
  simp only [bind, Except.bind, hmore]
  rfl

theorem inner_of_union {marks marks' : Modifiers} (hleading : leadingMarks {} ts = (marks, ts'))
    (hstart : IsUnmarked ts') (hunion : union atom ts' = .ok (node, rest'))
    (htrailing : trailingMarks marks rest' = (marks', rest)) :
    inner atom ts = .ok (node.withModifiers marks', rest) := by
  have hany : (marks.repeatable && !startsType ts' && !nextIs .question ts') = false := by
    rcases hstart with hstart | ⟨hstart, -⟩ <;> simp [hstart]
  rw [inner, modified, hleading]
  simp only [bind, Except.bind, hany, Bool.false_eq_true, if_false, hunion, htrailing]
  rfl

end Reading

/-- The first token of an unmarked type starts a type, but for the question mark of the unknown
type. -/
theorem exists_start {node : Node} (hnode : node.isModified = false) (hne : node ≠ .unknown) :
    ∃ first more, node.tokens = first :: more ∧ first.isTypeStart = true := by
  cases node with
  | name text =>
    refine ⟨wordToken text, [], by rw [Node.tokens], ?_⟩
    rcases wordToken_cases text with htext | htext <;>
    · rw [htext]
      rfl
  | any => exact ⟨.star, [], by rw [Node.tokens], rfl⟩
  | unknown => exact absurd rfl hne
  | union members => exact ⟨.lparen, _, by rw [Node.tokens], rfl⟩
  | generic base params =>
    rw [Node.tokens, baseTokens]
    split
    · exact ⟨_, _, rfl, rfl⟩
    · exact ⟨_, _, rfl, rfl⟩
  | function receiver params returns => exact ⟨_, _, by rw [Node.tokens], rfl⟩
  | record fields => exact ⟨.lbrace, _, by rw [Node.tokens], rfl⟩
  | modified inner modifiers => cases hnode

theorem startsType_tokens {node : Node} (hnode : node.isModified = false) (hne : node ≠ .unknown)
    {ts : List Lexeme} (hts : ts.map Lexeme.token = node.tokens) (rest : List Lexeme) :
    startsType (ts ++ rest) = true := by
  obtain ⟨first, more, htokens, hfirst⟩ := exists_start hnode hne
  rw [htokens] at hts
  obtain ⟨offset, ts, rfl, -⟩ := map_token_eq_cons hts
  rw [startsType_eq]
  exact hfirst

theorem isUnmarked_tokens {node : Node} (hnode : node.isModified = false) {ts : List Lexeme}
    (hts : ts.map Lexeme.token = node.tokens) {rest : List Lexeme}
    (hrest : startsType rest = false) : IsUnmarked (ts ++ rest) := by
  by_cases hne : node = .unknown
  · subst hne
    rw [Node.tokens] at hts
    obtain ⟨offset, rfl⟩ := map_token_eq_singleton hts
    exact .inr ⟨rfl, hrest⟩
  · exact .inl (startsType_tokens hnode hne hts rest)

/-- The first token of a type closes nothing. -/
theorem exists_first_token {node : Node} (hgrouped : node.IsGroupedAt) :
    ∃ first more, node.tokens = first :: more ∧ first.isCloser = false := by
  have hunmarked : ∀ node : Node, node.isModified = false →
      ∃ first more, node.tokens = first :: more ∧ first.isCloser = false := by
    intro node hnode
    by_cases hne : node = .unknown
    · exact ⟨.question, [], by rw [hne, Node.tokens], rfl⟩
    · obtain ⟨first, more, htokens, hfirst⟩ := exists_start hnode hne
      refine ⟨first, more, htokens, ?_⟩
      cases first <;> first | rfl | cases hfirst
  rcases unmarked_or_modified node with hnode | ⟨inner, m, rfl⟩
  · exact hunmarked node hnode
  · obtain ⟨first, more, htokens, hfirst⟩ := hunmarked inner hgrouped.1
    rw [Node.tokens, htokens]
    rcases m with ⟨_ | _ | _, _, _ | _⟩ <;>
      simp only [Modifiers.leadingTokens, Bool.false_eq_true, if_true, if_false,
        List.nil_append, List.cons_append] <;>
      exact ⟨_, _, rfl, by first | rfl | exact hfirst⟩

/-- A reader takes a type as an atom. The result type of a function reaches as far as it can, and so
only what follows that type can follow the function. -/
def TakesAtom (atom : Reader Node) (node : Node) : Prop :=
  ∀ rest, EndsAtom rest → (∀ type ∈ node.returns?, EndsTypeOf type rest) →
    Takes atom node.tokens node rest

/-- A reader takes a type in front of all that can follow it. -/
def TakesType (type : Reader Node) (node : Node) : Prop :=
  ∀ rest, EndsTypeOf node rest → Takes type node.tokens node rest

theorem withModifiers_empty (node : Node) : node.withModifiers {} = node := if_pos rfl

theorem withModifiers_of_ne (node : Node) {modifiers : Modifiers} (h : modifiers ≠ {}) :
    node.withModifiers modifiers = .modified node modifiers := if_neg h

theorem core_of_unmarked {node : Node} (h : node.isModified = false) : node.core = node := by
  cases node <;> first | rfl | cases h

theorem not_endsMarked_of_unmarked {node : Node} (h : node.isModified = false) :
    ¬node.EndsMarked := by
  cases node with
  | modified => cases h
  | _ => exact id

theorem takes_inner_unmarked {atom : Reader Node} {node : Node} (hnode : node.isModified = false)
    (hatom : TakesAtom atom node) : TakesType (inner atom) node := by
  intro rest hrest ts hts
  have hends : EndsType rest := hrest.endsType (not_endsMarked_of_unmarked hnode)
  have hstart : IsUnmarked (ts ++ rest) := isUnmarked_tokens hnode hts hends.endsAtom.startsType
  have hunion : union atom (ts ++ rest) = .ok (node, rest) :=
    union_of_member
      (member_of_isUnmarked hstart (hatom rest hends.endsAtom (fun type _ => hends.of type) ts hts))
      (hends.nextIs rfl)
  rw [inner_of_union (leadingMarks_of_isUnmarked hstart) hstart hunion
    (trailingMarks_of_endsMember hrest.endsMember), withModifiers_empty]

/-- The marks of a known type are the marks in front of it and behind it. -/
theorem takes_inner_marked {atom : Reader Node} {node : Node} {m : Modifiers}
    (hnode : node.isModified = false) (hne : node ≠ .unknown) (hm : m ≠ {})
    (hoptional : m.optional = true → node.returns? = none) (hatom : TakesAtom atom node) :
    TakesType (inner atom) (.modified node m) := by
  intro rest hrest ts hts
  rw [Node.tokens] at hts
  obtain ⟨front, ts, rfl, hfront, hts⟩ := List.map_eq_append_iff.mp hts
  obtain ⟨middle, back, rfl, hmiddle, hback⟩ := List.map_eq_append_iff.mp hts
  have hstart : startsType (middle ++ (back ++ rest)) = true :=
    startsType_tokens hnode hne hmiddle _
  obtain ⟨hatomEnds, hpipe⟩ := nextIs_pipe_trailing hne hback hrest.endsMember
  have htypeEnds : ∀ type ∈ node.returns?, EndsTypeOf type (back ++ rest) := by
    intro type hreturns
    have hmark : ¬m.optional = true := fun hmark => by
      rw [hoptional hmark] at hreturns
      cases hreturns
    obtain rfl : back = [] := by simpa [Modifiers.trailingTokens, hmark] using hback
    exact EndsType.of (hrest.endsType fun h => h.elim hmark fun hunknown => hne hunknown.1) type
  have hunion : union atom (middle ++ (back ++ rest)) = .ok (node, back ++ rest) :=
    union_of_member
      (member_of_isUnmarked (.inl hstart) (hatom _ hatomEnds htypeEnds middle hmiddle))
      (hpipe.mpr hrest)
  rw [List.append_assoc, List.append_assoc, inner_of_union
    (leadingMarks_leading hfront (.inl hstart) fun _ => hstart) (.inl hstart) hunion
    (trailingMarks_trailing _ hback hrest.endsMember), Bool.false_or, withModifiers_of_ne node hm]

theorem takes_inner_unknown {atom : Reader Node} {m : Modifiers} (hm : m ≠ {})
    (hatom : TakesAtom atom .unknown) : TakesType (inner atom) (.modified .unknown m) := by
  intro rest hrest ts hts
  obtain ⟨marks, offset, ts', hleading, htrailing, hends, hpipe⟩ :=
    marks_unknown hts hrest.endsMember
  have hstart : IsUnmarked (⟨.question, offset⟩ :: ts') := .inr ⟨rfl, hends.startsType⟩
  have hread : atom (⟨.question, offset⟩ :: ts') = .ok (.unknown, ts') :=
    hatom ts' hends nofun [⟨.question, offset⟩] (by rw [Node.tokens]; rfl)
  rw [← withModifiers_of_ne .unknown hm]
  exact inner_of_union hleading hstart
    (union_of_member (member_of_isUnmarked hstart hread) (hpipe.mpr hrest)) htrailing

theorem takes_inner {atom : Reader Node} {node : Node} (hformed : node.IsFormedAt)
    (hgrouped : node.IsGroupedAt) (hatom : TakesAtom atom node.core) :
    TakesType (inner atom) node := by
  rcases unmarked_or_modified node with hnode | ⟨inner, m, rfl⟩
  · rw [core_of_unmarked hnode] at hatom
    exact takes_inner_unmarked hnode hatom
  · by_cases hne : inner = .unknown
    · subst hne
      exact takes_inner_unknown hformed hatom
    · exact takes_inner_marked hgrouped.1 hne hformed hgrouped.2 hatom

/-- A member of a union, in front of a bar or of what closes the union. -/
theorem takes_member {atom : Reader Node} {node : Node} (hformed : node.IsFormedAt)
    (hgrouped : node.IsGroupedAt) (hmember : node.IsMember) (hatom : TakesAtom atom node.core)
    {rest : List Lexeme} (hrest : EndsAtom rest)
    (hreturns : ∀ type ∈ node.core.returns?, EndsTypeOf type rest) :
    Takes (member atom) node.tokens node rest := by
  intro ts hts
  rcases unmarked_or_modified node with hnode | ⟨inner, modifiers, rfl⟩
  · rw [core_of_unmarked hnode] at hatom hreturns
    exact member_of_isUnmarked (isUnmarked_tokens hnode hts hrest.startsType)
      (hatom rest hrest hreturns ts hts)
  · obtain ⟨nullable, optional, repeatable⟩ := modifiers
    obtain ⟨rfl, rfl⟩ : optional = false ∧ repeatable = false := by simpa using hmember.1
    rw [Node.tokens] at hts
    obtain ⟨front, ts, rfl, hfront, hts⟩ := List.map_eq_append_iff.mp hts
    obtain ⟨middle, back, rfl, hmiddle, hback⟩ := List.map_eq_append_iff.mp hts
    obtain rfl : back = [] := by simpa [Modifiers.trailingTokens] using hback
    obtain ⟨nullable, rfl⟩ : ∃ b, nullable = some b := by
      rcases nullable with _ | b
      · exact absurd rfl hformed
      · exact ⟨b, rfl⟩
    have hmarks : memberMarks {} (front ++ (middle ++ rest)) =
        ({ nullable := some nullable }, middle ++ rest) := by
      refine memberMarks_leading hfront (isUnmarked_tokens hgrouped.1 hmiddle hrest.startsType)
        fun htrue => startsType_tokens hgrouped.1 (fun hunknown => ?_) hmiddle rest
      rw [htrue] at hmember
      cases hmember.2 hunknown
    have hread : atom (middle ++ rest) = .ok (inner, rest) :=
      hatom rest hrest hreturns middle hmiddle
    rw [List.append_nil, List.append_assoc, member, hmarks]
    simp only [bind, Except.bind, hread]
    rw [withModifiers_of_ne inner hformed]
    rfl

/-! ## Lists of types -/

/-- Items with commas between them, each of which is taken in front of all that can follow a
type. -/
theorem takes_commas {α : Type} {item : Reader α} {tokens : α → List Token} {xs : List α}
    (hne : xs ≠ []) (h : ∀ x ∈ xs, ∀ rest, EndsType rest → Takes item (tokens x) x rest)
    {rest : List Lexeme} (hrest : EndsType rest) (hcomma : nextIs .comma rest = false) :
    Takes (items .comma item) ([.comma].intercalate (xs.map tokens)) xs rest := by
  refine takes_items hne hcomma ⟨fun x hx rest' hnext => ?_, fun x hx => ?_⟩
  · refine h x (List.dropLast_subset xs hx) rest' fun token htoken => ?_
    rw [nextIs, beq_iff_eq] at hnext
    obtain rfl : Token.comma = token := by simpa [hnext] using htoken
    rfl
  · exact h x (List.mem_of_getLast? hx) rest hrest

/-- The members of a union, without the parentheses around them. -/
theorem takes_union {atom : Reader Node} {members : List Node} (hmany : 2 ≤ members.length)
    (hgrouped : (Node.union members).IsGroupedAt)
    (hhere : ∀ member ∈ members, member.IsFormedAt ∧ member.IsGroupedAt)
    (hatom : ∀ member ∈ members, TakesAtom atom member.core) {rest : List Lexeme}
    (hrest : EndsType rest) :
    Takes (inner atom) ([.pipe].intercalate (members.map Node.tokens)) (.union members) rest := by
  obtain ⟨hfirst, hmembers, hreturns⟩ := hgrouped
  have heach : TakesEach .pipe (member atom) Node.tokens members rest := by
    refine ⟨fun node hnode rest' hnext => ?_, fun node hnode => ?_⟩
    · have hmem := List.dropLast_subset members hnode
      have hends : EndsAtom rest' := by
        intro token htoken
        rw [nextIs, beq_iff_eq] at hnext
        obtain rfl : Token.pipe = token := by simpa [hnext] using htoken
        exact .inr (by decide)
      refine takes_member (hhere node hmem).1 (hhere node hmem).2 (hmembers node hmem)
        (hatom node hmem) hends fun type htype token htoken => ?_
      rw [nextIs, beq_iff_eq] at hnext
      obtain rfl : Token.pipe = token := by simpa [hnext] using htoken
      exact .inr ⟨rfl, hreturns node hnode type htype⟩
    · have hmem := List.mem_of_getLast? hnode
      exact takes_member (hhere node hmem).1 (hhere node hmem).2 (hmembers node hmem)
        (hatom node hmem) hrest.endsAtom fun type _ => hrest.of type
  intro ts hts
  obtain ⟨first, second, more, rfl⟩ := exists_cons_cons hmany
  have hitems := takes_items (List.cons_ne_nil _ _) (hrest.nextIs rfl) heach ts hts
  have hunion : union atom (ts ++ rest) = .ok (.union (first :: second :: more), rest) := by
    rw [union, hitems]
    rfl
  have hstart : IsUnmarked (ts ++ rest) := by
    obtain ⟨front, offset, back, rfl, hfront, -⟩ := exists_first_item hts
    rw [List.append_assoc]
    exact isUnmarked_tokens (hfirst first rfl) hfront rfl
  rw [inner_of_union (leadingMarks_of_isUnmarked hstart) hstart hunion
    (trailingMarks_of_endsMember (hrest.of first).endsMember), withModifiers_empty]

/-- The name that begins a type has no colon behind it. -/
theorem second_ne_colon_of_unmarked {node : Node} (hnode : node.isModified = false)
    {rest : List Token} (hrest : rest.head? ≠ some .colon) (word : String) (more : List Token) :
    node.tokens ++ rest ≠ .name word :: .colon :: more := by
  intro h
  cases node with
  | name text =>
    rw [Node.tokens, List.singleton_append, List.cons.injEq] at h
    exact hrest (by rw [h.2, List.head?_cons])
  | generic base params =>
    rw [Node.tokens, baseTokens] at h
    split at h <;> simp at h
  | modified inner modifiers => cases hnode
  | any | unknown | union | function | record => simp [Node.tokens] at h

theorem second_ne_colon {node : Node} (hgrouped : node.IsGroupedAt) {rest : List Token}
    (hrest : rest.head? ≠ some .colon) (word : String) (more : List Token) :
    node.tokens ++ rest ≠ .name word :: .colon :: more := by
  rcases unmarked_or_modified node with hnode | ⟨inner, m, rfl⟩
  · exact second_ne_colon_of_unmarked hnode hrest word more
  · intro h
    rw [Node.tokens, List.append_assoc, List.append_assoc] at h
    rcases hlead : m.leadingTokens with _ | ⟨first, lead⟩
    · rw [hlead, List.nil_append] at h
      refine second_ne_colon_of_unmarked hgrouped.1 ?_ word more h
      rw [Modifiers.trailingTokens]
      split
      · simp
      · exact hrest
    · rw [hlead, List.cons_append, List.cons.injEq] at h
      obtain ⟨rfl, -⟩ := h
      rcases m with ⟨_ | _ | _, _, _ | _⟩ <;> simp [Modifiers.leadingTokens] at hlead

theorem param_of_ne {type : Reader Node} {ts : List Lexeme}
    (h : ∀ word ∈ ["new", "this"], ∀ more, ts.map Lexeme.token ≠ .name word :: .colon :: more) :
    param type ts = (type ts).map fun (node, rest) => (.ordinary node, rest) := by
  unfold param
  split
  · exact absurd rfl (h _ List.mem_cons_self _)
  · exact absurd rfl (h _ (List.mem_cons_of_mem _ List.mem_cons_self) _)
  · cases type ts <;> rfl

theorem takes_param {type : Reader Node} {p : Param} (hgrouped : p.type.IsGroupedAt)
    (htype : TakesType type p.type) {rest : List Lexeme} (hrest : EndsType rest) :
    Takes (param type) p.tokens p rest := by
  intro ts hts
  rcases p with (node | node) | node
  · obtain ⟨offset, ts, rfl, htail⟩ := map_token_eq_cons hts
    obtain ⟨offset', ts, rfl, hnode⟩ := map_token_eq_cons htail
    have hread : type (ts ++ rest) = .ok (node, rest) := htype rest (hrest.of node) ts hnode
    simp only [List.cons_append, param, hread]
    rfl
  · obtain ⟨offset, ts, rfl, htail⟩ := map_token_eq_cons hts
    obtain ⟨offset', ts, rfl, hnode⟩ := map_token_eq_cons htail
    have hread : type (ts ++ rest) = .ok (node, rest) := htype rest (hrest.of node) ts hnode
    simp only [List.cons_append, param, hread]
    rfl
  · have hread : type (ts ++ rest) = .ok (node, rest) := htype rest (hrest.of node) ts hts
    have hcolon : (rest.map Lexeme.token).head? ≠ some .colon := by
      rw [List.head?_map]
      intro hcolon
      cases hrest _ hcolon
    rw [param_of_ne, hread]
    · rfl
    · rintro word - more
      rw [List.map_append, hts]
      exact second_ne_colon hgrouped hcolon word more

theorem takes_field {stop : Nat} {type : Reader Node} {f : Field}
    (htype : ∀ node ∈ f.type?, TakesType type node) {rest : List Lexeme} (hrest : EndsType rest) :
    Takes (field stop type) f.tokens f rest := by
  have hword : ∀ key (rest : List Lexeme) offset,
      field stop type (⟨wordToken key, offset⟩ :: rest) =
        if nextIs .colon rest then do
          let (node, rest) ← type rest.tail
          return (.typed key node, rest)
        else .ok (.bare key, rest) := by
    intro key rest offset
    rcases wordToken_cases key with hkey | hkey <;>
    · rw [hkey]
      rfl
  intro ts hts
  cases f with
  | bare key =>
    obtain ⟨offset, rfl⟩ := map_token_eq_singleton hts
    have hcolon : nextIs .colon rest = false := hrest.nextIs rfl
    rw [List.singleton_append, hword, hcolon]
    rfl
  | typed key node =>
    obtain ⟨offset, ts, rfl, htail⟩ := map_token_eq_cons hts
    obtain ⟨offset', ts, rfl, hnode⟩ := map_token_eq_cons htail
    have hcolon : nextIs .colon (⟨.colon, offset'⟩ :: ts ++ rest) = true := rfl
    rw [List.cons_append, hword, if_pos hcolon, List.cons_append, List.tail_cons,
      htype node rfl rest (hrest.of node) ts hnode]
    rfl

/-! ## Atoms -/

section Atoms

variable {stop k : Nat} {rest : List Lexeme}

theorem expect_cons {token : Token} {offset : Nat} :
    expect stop token (⟨token, offset⟩ :: rest) = .ok ((), rest) := by
  rw [expect, if_pos (by simp [nextIs, peek?])]
  rfl

theorem atomTail_of_endsAtom {type : Reader Node} {node : Node} (hrest : EndsAtom rest) (n : Nat) :
    atomTail stop type n node rest = .ok (node, rest) := by
  rcases n with _ | n
  · rfl
  · rcases rest with _ | ⟨⟨token, offset⟩, rest⟩
    · rfl
    · have hangle : token ≠ .langle := by
        rintro rfl
        cases hrest.nextIs .langle (by decide)
      have hbracket : token ≠ .lbracket := by
        rintro rfl
        cases hrest.nextIs .lbracket (by decide)
      cases token with
      | langle => exact absurd rfl hangle
      | lbracket => exact absurd rfl hbracket
      | _ => rfl

theorem atom_of_head {node : Node} {ts : List Lexeme}
    (hhead : atomHead stop (inner (atom stop k)) ts = .ok (node, rest)) (hrest : EndsAtom rest) :
    atom stop (k + 1) ts = .ok (node, rest) := by
  simp only [atom, hhead, bind, Except.bind]
  exact atomTail_of_endsAtom hrest _

/-- Items with commas between them, up to the token that closes the list. No item begins with that
token. -/
theorem takes_closedItems {α : Type} {item : Reader α} {tokens : α → List Token} {xs : List α}
    {close : Token} (hclose : close.isCloser = true) (hcomma : close ≠ .comma)
    (h : ∀ x ∈ xs, ∀ rest, EndsType rest → Takes item (tokens x) x rest)
    (hfirst : ∀ x ∈ xs, ∃ first more, tokens x = first :: more ∧ first.isCloser = false) :
    Takes (closedItems close stop item) ([.comma].intercalate (xs.map tokens) ++ [close]) xs
      rest := by
  intro ts hts
  obtain ⟨front, back, rfl, hfront, hback⟩ := List.map_eq_append_iff.mp hts
  obtain ⟨offset, rfl⟩ := map_token_eq_singleton hback
  have hends : EndsType (⟨close, offset⟩ :: rest) := endsType_cons hclose
  rw [List.append_assoc, List.singleton_append, closedItems]
  rcases xs with _ | ⟨x, xs⟩
  · obtain rfl : front = [] := by simpa using hfront
    rw [if_pos (by simp [nextIs, peek?])]
    rfl
  · have hitems : items .comma item (front ++ ⟨close, offset⟩ :: rest) =
        .ok (x :: xs, ⟨close, offset⟩ :: rest) :=
      takes_commas (List.cons_ne_nil _ _) h hends (by simpa [nextIs, peek?] using hcomma) front
        hfront
    have hnext : nextIs close (front ++ ⟨close, offset⟩ :: rest) = false := by
      obtain ⟨first, more, htokens, hopen⟩ := hfirst x List.mem_cons_self
      rw [intercalate_cons, htokens, List.cons_append] at hfront
      obtain ⟨offset', front, rfl, -⟩ := map_token_eq_cons hfront
      refine beq_eq_false_iff_ne.2 fun heq => ?_
      obtain rfl : first = close := Option.some.inj heq
      rw [hclose] at hopen
      cases hopen
    rw [hnext]
    simp only [Bool.false_eq_true, if_false, bind, Except.bind, hitems, expect_cons]

theorem takes_paramList {type : Reader Node} {ps : List Param}
    (hps : ∀ p ∈ ps, p.type.IsGroupedAt ∧ TakesType type p.type) :
    Takes (paramList stop type) ([.comma].intercalate (ps.map Param.tokens) ++ [.rparen]) ps
      rest := by
  refine takes_closedItems rfl nofun
    (fun p hp _ hrest => takes_param (hps p hp).1 (hps p hp).2 hrest) fun p hp => ?_
  rcases p with (node | node) | node
  · exact ⟨_, _, rfl, rfl⟩
  · exact ⟨_, _, rfl, rfl⟩
  · exact exists_first_token (hps _ hp).1

theorem takes_returning {type : Reader Node} {receiver : Option Receiver} {params : List Node}
    {returns : Option Node} (hreturns : ∀ node ∈ returns, TakesType type node)
    (hrest : EndsAtom rest) (hends : ∀ node ∈ returns, EndsTypeOf node rest) :
    Takes (returning type (paramsOf receiver params)) (tokensReturns returns)
      (.function receiver params returns) rest := by
  intro ts hts
  rw [returning, receiverOf_paramsOf, ordinaryOf_paramsOf]
  cases returns with
  | none =>
    obtain rfl : ts = [] := List.map_eq_nil_iff.mp hts
    have hcolon : nextIs .colon rest = false := hrest.nextIs .colon (by decide)
    rw [List.nil_append, hcolon]
    rfl
  | some node =>
    obtain ⟨offset, ts, rfl, hnode⟩ := map_token_eq_cons hts
    have hread : type (ts ++ rest) = .ok (node, rest) :=
      hreturns node rfl rest (hends node rfl) ts hnode
    have hcolon : nextIs .colon (⟨.colon, offset⟩ :: ts ++ rest) = true := rfl
    rw [if_pos hcolon, List.cons_append, List.tail_cons, hread]
    rfl

theorem takes_function {type : Reader Node} {receiver : Option Receiver} {params : List Node}
    {returns : Option Node}
    (hparams : ∀ p ∈ paramsOf receiver params, p.type.IsGroupedAt ∧ TakesType type p.type)
    (hreturns : ∀ node ∈ returns, TakesType type node) (hrest : EndsAtom rest)
    (hends : ∀ node ∈ returns, EndsTypeOf node rest) :
    Takes (function stop type)
      (.lparen :: (([.comma].intercalate ((paramsOf receiver params).map Param.tokens) ++
        [.rparen]) ++ tokensReturns returns)) (.function receiver params returns) rest := by
  intro ts hts
  obtain ⟨offset, ts, rfl, htail⟩ := map_token_eq_cons hts
  obtain ⟨front, back, rfl, hfront, hback⟩ := List.map_eq_append_iff.mp htail
  have hparamList : paramList stop type (front ++ (back ++ rest)) =
      .ok (paramsOf receiver params, back ++ rest) := takes_paramList hparams front hfront
  have hreturning : returning type (paramsOf receiver params) (back ++ rest) =
      .ok (.function receiver params returns, rest) :=
    takes_returning hreturns hrest hends back hback
  rw [function_eq, List.cons_append, expect_cons, List.append_assoc]
  simp only [bind, Except.bind, hparamList]
  exact hreturning

theorem takes_record {type : Reader Node} {fields : List Field}
    (hfields : ∀ f ∈ fields, ∀ node ∈ f.type?, TakesType type node) :
    Takes (record stop type) ([.comma].intercalate (fields.map Field.tokens) ++ [.rbrace])
      (.record fields) rest := by
  have hlist : Takes (closedItems .rbrace stop (field stop type))
      ([.comma].intercalate (fields.map Field.tokens) ++ [.rbrace]) fields rest := by
    refine takes_closedItems rfl nofun (fun f hf _ hrest => takes_field (hfields f hf) hrest)
      fun f _ => ?_
    have hfirst : (wordToken f.key).isCloser = false := by
      rcases wordToken_cases f.key with hkey | hkey <;> rw [hkey] <;> rfl
    cases f <;> exact ⟨_, _, rfl, hfirst⟩
  intro ts hts
  rw [record_eq, hlist ts hts]
  rfl

theorem takes_generic {base : String} {params : List Node}
    (hbase : baseTokens base = [.name (base ++ ".")]) (hne : params ≠ [])
    (hparams : ∀ node ∈ params, TakesType (inner (atom stop k)) node) (hrest : EndsAtom rest) :
    Takes (atom stop (k + 1)) (Node.generic base params).tokens (.generic base params) rest := by
  intro ts hts
  rw [Node.tokens, tokensAll_eq_map, hbase, List.singleton_append] at hts
  obtain ⟨offset, ts, rfl, htail⟩ := map_token_eq_cons hts
  obtain ⟨offset', ts, rfl, hlist⟩ := map_token_eq_cons htail
  obtain ⟨front, back, rfl, hfront, hback⟩ := List.map_eq_append_iff.mp hlist
  obtain ⟨offset'', rfl⟩ := map_token_eq_singleton hback
  have hends : EndsType (⟨.rangle, offset''⟩ :: rest) := endsType_cons rfl
  have hitems : items .comma (inner (atom stop k)) (front ++ ⟨.rangle, offset''⟩ :: rest) =
      .ok (params, ⟨.rangle, offset''⟩ :: rest) :=
    takes_commas hne (fun node hnode rest hrest => hparams node hnode rest (hrest.of node)) hends
      rfl front hfront
  have hbaseName : genericBase (base ++ ".") = base := by
    simp [genericBase, String.toList_append]
  have hhead : atomHead stop (inner (atom stop k)) (⟨.name (base ++ "."), offset⟩ ::
      ⟨.langle, offset'⟩ :: (front ++ ⟨.rangle, offset''⟩ :: rest)) =
        .ok (.name (base ++ "."), ⟨.langle, offset'⟩ ::
          (front ++ ⟨.rangle, offset''⟩ :: rest)) := by
    have hparen : nextIs .lparen (⟨.langle, offset'⟩ :: (front ++ ⟨.rangle, offset''⟩ :: rest)) =
        false := rfl
    rw [atomHead]
    simp only [hparen, Bool.and_false, Bool.false_eq_true, if_false]
  simp only [List.cons_append, List.append_assoc, List.nil_append, atom, hhead, bind, Except.bind,
    List.length_cons, atomTail, hitems, expect_cons, hbaseName]
  exact atomTail_of_endsAtom hrest _

/-- A type of a single token is taken, if that token is all of it. -/
theorem takes_token {node : Node} {token : Token} (htokens : node.tokens = [token])
    (hhead : ∀ offset,
      atomHead stop (inner (atom stop k)) (⟨token, offset⟩ :: rest) = .ok (node, rest))
    (hrest : EndsAtom rest) : Takes (atom stop (k + 1)) node.tokens node rest := by
  intro ts hts
  rw [htokens] at hts
  obtain ⟨offset, rfl⟩ := map_token_eq_singleton hts
  exact atom_of_head (hhead offset) hrest

/-- A union is taken in its parentheses. -/
theorem takes_group {members : List Node}
    (hmembers : ∀ {rest : List Lexeme}, EndsType rest → Takes (inner (atom stop k))
      ([.pipe].intercalate (members.map Node.tokens)) (.union members) rest)
    (hrest : EndsAtom rest) :
    Takes (atom stop (k + 1)) (Node.union members).tokens (.union members) rest := by
  intro ts hts
  rw [Node.tokens, tokensAll_eq_map] at hts
  obtain ⟨offset, ts, rfl, htail⟩ := map_token_eq_cons hts
  obtain ⟨front, back, rfl, hfront, hback⟩ := List.map_eq_append_iff.mp htail
  obtain ⟨offset', rfl⟩ := map_token_eq_singleton hback
  have hread : inner (atom stop k) (front ++ ⟨.rparen, offset'⟩ :: rest) =
      .ok (.union members, ⟨.rparen, offset'⟩ :: rest) :=
    hmembers (endsType_cons rfl) front hfront
  refine atom_of_head ?_ hrest
  simp only [List.cons_append, List.append_assoc, List.nil_append, atomHead, hread, bind,
    Except.bind, expect_cons]
  rfl

/-- A function is taken behind its keyword. -/
theorem takes_keyword {receiver : Option Receiver} {params : List Node} {returns : Option Node}
    (hparams : ∀ p ∈ paramsOf receiver params,
      p.type.IsGroupedAt ∧ TakesType (inner (atom stop k)) p.type)
    (hreturns : ∀ node ∈ returns, TakesType (inner (atom stop k)) node) (hrest : EndsAtom rest)
    (hends : ∀ node ∈ returns, EndsTypeOf node rest) :
    Takes (atom stop (k + 1)) (Node.function receiver params returns).tokens
      (.function receiver params returns) rest := by
  intro ts hts
  rw [tokens_function] at hts
  obtain ⟨offset, ts, rfl, htail⟩ := map_token_eq_cons hts
  have hread : function stop (inner (atom stop k)) (ts ++ rest) =
      .ok (.function receiver params returns, rest) := by
    refine takes_function hparams hreturns hrest hends ts ?_
    rw [htail, List.append_assoc]
    rfl
  have hparen : nextIs .lparen (ts ++ rest) = true := by
    obtain ⟨offset', ts, rfl, -⟩ := map_token_eq_cons htail
    rfl
  refine atom_of_head ?_ hrest
  simp only [List.cons_append, atomHead, hparen, beq_self_eq_true, Bool.and_self, if_true, hread]

/-- An unmarked type is taken as an atom, if the types inside it are taken one level below. -/
theorem takes_atom_unmarked {node : Node} (hnode : node.isModified = false)
    (hformed : node.IsFormedAt) (hgrouped : node.IsGroupedAt)
    (hhere : ∀ child ∈ node.children, child.IsFormedAt ∧ child.IsGroupedAt)
    (hatom : ∀ child ∈ node.children, TakesAtom (atom stop k) child.core) :
    TakesAtom (atom stop (k + 1)) node := by
  have htype : ∀ child ∈ node.children, TakesType (inner (atom stop k)) child :=
    fun child hchild =>
      takes_inner (hhere child hchild).1 (hhere child hchild).2 (hatom child hchild)
  intro rest hrest hends
  cases node with
  | name text =>
    have hparen : nextIs .lparen rest = false := hrest.nextIs .lparen (by decide)
    refine takes_token (by rw [Node.tokens]) (fun offset => ?_) hrest
    rcases wordToken_cases text with htext | htext <;> rw [htext]
    · simp [atomHead, hparen]
    · rfl
  | any => exact takes_token (by rw [Node.tokens]) (fun _ => rfl) hrest
  | unknown => exact takes_token (by rw [Node.tokens]) (fun _ => rfl) hrest
  | union members => exact takes_group (takes_union hformed hgrouped hhere hatom) hrest
  | generic base params =>
    have hbase : baseTokens base = [.name (base ++ ".")] :=
      baseTokens_of_isNameText (hformed.1.resolve_right hgrouped)
    exact takes_generic hbase hformed.2 htype hrest
  | function receiver params returns =>
    have hparams : ∀ p ∈ paramsOf receiver params,
        p.type.IsGroupedAt ∧ TakesType (inner (atom stop k)) p.type := fun p hp =>
      have hmem := mem_children_function.mpr (.inl ⟨p, hp, rfl⟩)
      ⟨(hhere _ hmem).2, htype _ hmem⟩
    have hreturns : ∀ node ∈ returns, TakesType (inner (atom stop k)) node := fun node hmem =>
      htype node (mem_children_function.mpr (.inr hmem))
    exact takes_keyword hparams hreturns hrest hends
  | record fields =>
    intro ts hts
    rw [Node.tokens, tokensFields_eq_map] at hts
    obtain ⟨offset, ts, rfl, htail⟩ := map_token_eq_cons hts
    refine atom_of_head (takes_record (fun f hf type htype' => htype type ?_) ts htail) hrest
    exact List.mem_filterMap.mpr ⟨f, hf, htype'⟩
  | modified inner modifiers => cases hnode

end Atoms

/-! ## All types -/

theorem length_core_tokens_le (node : Node) : node.core.tokens.length ≤ node.tokens.length := by
  cases node with
  | modified inner modifiers =>
    rw [Node.core, Node.tokens]
    simp only [List.length_append]
    omega
  | _ => exact Nat.le_refl _

theorem length_tokens_child_lt {node child : Node} (hnode : node.isModified = false)
    (hchild : child ∈ node.children) : child.tokens.length < node.tokens.length := by
  cases node with
  | name | any | unknown => cases hchild
  | union members =>
    have hle := length_le_intercalate .pipe Node.tokens hchild
    rw [Node.tokens, tokensAll_eq_map]
    simp only [List.length_cons, List.length_append]
    exact Nat.lt_succ_of_le (Nat.le_add_right_of_le hle)
  | generic base params =>
    have hle := length_le_intercalate .comma Node.tokens hchild
    rw [Node.tokens, tokensAll_eq_map]
    simp only [List.length_cons, List.length_append]
    exact Nat.lt_add_left _ (Nat.lt_succ_of_le (Nat.le_add_right_of_le hle))
  | function receiver params returns =>
    rw [tokens_function]
    simp only [List.length_cons, List.length_append]
    rcases mem_children_function.mp hchild with ⟨p, hp, rfl⟩ | rfl
    · have hle := length_le_intercalate .comma Param.tokens hp
      have htype : p.type.tokens.length ≤ p.tokens.length := by
        rcases p with (node | node) | node
        · exact (List.suffix_append [Token.name "new", .colon] node.tokens).length_le
        · exact (List.suffix_append [Token.name "this", .colon] node.tokens).length_le
        · exact Nat.le_refl _
      omega
    · rw [tokensReturns, List.length_cons]
      omega
  | record fields =>
    obtain ⟨f, hf, htype⟩ := List.mem_filterMap.mp hchild
    have hle := length_le_intercalate .comma Field.tokens hf
    have hfield : child.tokens.length ≤ f.tokens.length := by
      cases f with
      | bare key => cases htype
      | typed key node =>
        obtain rfl : node = child := Option.some.inj htype
        exact (List.suffix_append [wordToken key, .colon] node.tokens).length_le
    rw [Node.tokens, tokensFields_eq_map]
    simp only [List.length_cons, List.length_append]
    omega
  | modified inner modifiers => cases hnode

theorem takes_atom {stop n : Nat} {node : Node}
    (h : node.All fun node => node.IsFormedAt ∧ node.IsGroupedAt)
    (hn : node.core.tokens.length ≤ n) : TakesAtom (atom stop n) node.core := by
  induction h generalizing n with
  | @intro node here inside ih =>
    rcases unmarked_or_modified node with hnode | ⟨inner, modifiers, rfl⟩
    · rw [core_of_unmarked hnode] at hn ⊢
      obtain ⟨k, rfl⟩ : ∃ k, n = k + 1 := by
        obtain ⟨first, more, htokens, -⟩ := exists_first_token here.2
        rw [htokens, List.length_cons] at hn
        exact ⟨n - 1, by omega⟩
      refine takes_atom_unmarked hnode here.1 here.2
        (fun child hchild => (inside child hchild).here) fun child hchild => ih child hchild ?_
      have := length_tokens_child_lt hnode hchild
      have := length_core_tokens_le child
      omega
    · have hcore : inner.core = inner := core_of_unmarked here.2.1
      have hinner : inner.core.tokens.length ≤ n → TakesAtom (atom stop n) inner.core :=
        ih inner (by simp [Node.children])
      rw [hcore] at hinner
      exact hinner hn

/-- Reading a text as a type takes all of it and gives the type. -/
def Reads (text : String) (node : Node) : Prop :=
  ∃ ts, lex text = .ok ts ∧ inner (atom text.utf8ByteSize ts.length) ts = .ok (node, [])

/-- The canonical text of a type is read back as the type, if the text groups what the type groups
and does not end in a namespace with nothing behind it. -/
theorem reads_render {node : Node}
    (h : node.All fun node => node.IsFormedAt ∧ node.IsGroupedAt) (hopen : ¬node.EndsOpen) :
    Reads node.render node := by
  have hends : EndsName [] := by
    rintro _ ⟨⟩
  have hlexes : Lexes node.render.toList node.tokens [] :=
    Node.lexes_render (h.mono fun _ h => h.1) hends fun hends => absurd hends hopen
  obtain ⟨ts, hts, hlex⟩ := hlexes.lex_eq
  have hlength : node.core.tokens.length ≤ ts.length := by
    have hmap := congrArg List.length hts
    rw [List.length_map] at hmap
    rw [hmap]
    exact length_core_tokens_le node
  have htakes : TakesType (inner (atom node.render.utf8ByteSize ts.length)) node :=
    takes_inner h.here.1 h.here.2 (takes_atom h hlength)
  have hread := htakes [] nofun ts hts
  rw [List.append_nil] at hread
  exact ⟨ts, hlex, hread⟩

end Commentary.TypeExpr
