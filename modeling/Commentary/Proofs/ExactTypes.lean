import Commentary.Proofs.TypeGroups

/-!
# Exact readings

If the tokens of a type are read as the type, then each part of them is read as the part of the type
that it belongs to, and the text of the type groups what the type groups (`Node.All.isExact`): the
condition under which `reads_render` reads a type back is necessary.

What this says of a phrase is one notion for all phrases (`Exact`): in front of anything that can
follow the phrase, a reading of its tokens as the phrase takes all of them and no more. The proof
goes from the types inside a type to the type as an atom, then to the type as a member of a union,
and then to the type with marks around it. Readings that go astray are excluded by two facts about
all readings: brackets are read in pairs, and marks are not made up.
-/

namespace Commentary.TypeExpr

/-! ## What a reading can be -/

section Marks

variable {m m' : Modifiers} {ts ts' : List Lexeme}

/-- What is no mark in front of a type is none in front of a member. -/
theorem memberMarks_of_leadingMarks (h : leadingMarks m ts = (m', ts')) :
    memberMarks {} ts' = ({}, ts') := by
  obtain rfl | ⟨lexeme, rest, rfl, hnone⟩ := takesMarks_leading.stopped h
  · rfl
  · have hnone' : takeMember {} lexeme.token (startsType rest) = none := by
      generalize lexeme.token = token, startsType rest = starts at hnone ⊢
      cases token <;> cases starts <;> first | rfl | cases hnone
    rw [takesMarks_member.cons, hnone']

theorem trailingMarks_of_trailingMarks (h : trailingMarks m ts = (m', ts')) (m'' : Modifiers) :
    trailingMarks m'' ts' = (m'', ts') := by
  obtain rfl | ⟨lexeme, rest, rfl, hnone⟩ := takesMarks_trailing.stopped h
  · rfl
  · have hnone' : takeTrailing m'' lexeme.token (startsType rest) = none := by
      generalize lexeme.token = token at hnone ⊢
      cases token <;> first | rfl | cases hnone
    rw [takesMarks_trailing.cons, hnone']

theorem eq_of_memberMarks (h : memberMarks m ts = (m', ts')) :
    m' = { m with nullable := m'.nullable } := by
  fun_induction memberMarks m ts with
  | case1 | case3 | case5 =>
    cases h
    rfl
  | case2 _ _ _ _ _ ih | case4 _ _ _ _ ih => exact ih h

end Marks

theorem eq_or_eq_of_withModifiers {inner node : Node} {marks : Modifiers}
    (h : node = inner.withModifiers marks) :
    marks = {} ∧ inner = node ∨ marks ≠ {} ∧ node = .modified inner marks := by
  rw [Node.withModifiers] at h
  split at h
  next hmarks => exact .inl ⟨hmarks, h.symm⟩
  next hmarks => exact .inr ⟨hmarks, h⟩

namespace Parses

variable {node : Node} {ts rest : List Lexeme}

theorem of_member (h : Parses (.member node) ts rest) :
    ∃ inner marks ts', memberMarks {} ts = (marks, ts') ∧ Parses (.atom inner) ts' rest ∧
      node = inner.withModifiers marks := by
  cases h with
  | member hmarks h => exact ⟨_, _, _, hmarks, h, rfl⟩

/-- Behind marks that have been taken, a member has no more of them. -/
theorem atom_of_member {m m' : Modifiers} {front : List Lexeme} (h : Parses (.member node) ts rest)
    (hmarks : leadingMarks m front = (m', ts)) : Parses (.atom node) ts rest := by
  obtain ⟨inner, marks, ts', hnone, hread, hnode⟩ := h.of_member
  rw [memberMarks_of_leadingMarks hmarks] at hnone
  cases hnone
  rwa [hnode.trans (withModifiers_empty inner)]

/-- Behind its marks, a type is a member of a union that has no others, a union, or nothing. -/
theorem of_type (h : Parses (.type node) ts rest) :
    ∃ inner marks marks' ts' ts'', leadingMarks {} ts = (marks, ts') ∧
      trailingMarks marks ts'' = (marks', rest) ∧ node = inner.withModifiers marks' ∧
      (Parses (.member inner) ts' ts'' ∧ nextIs .pipe ts'' = false ∨
        (∃ nodes, inner = .union nodes ∧ 2 ≤ nodes.length ∧ Parses (.members nodes) ts' ts'') ∨
        inner = .any ∧ marks.repeatable = true ∧ startsType ts' = false) := by
  cases h with
  | single hleading h htrailing =>
    refine ⟨_, _, _, _, _, hleading, htrailing, rfl, .inl ?_⟩
    cases h with
    | lastMember h hpipe => exact ⟨h, hpipe⟩
    | nextMember _ hmore => cases hmore
  | union hleading h hmany htrailing =>
    exact ⟨_, _, _, _, _, hleading, htrailing, rfl, .inr (.inl ⟨_, rfl, hmany, h⟩)⟩
  | dots hleading hrepeatable hstart _ htrailing =>
    exact ⟨_, _, _, _, _, hleading, htrailing, rfl, .inr (.inr ⟨rfl, hrepeatable, hstart⟩)⟩

/-- A type is read without marks, or what is inside its marks is. -/
theorem of_type_cases (h : Parses (.type node) ts rest) :
    leadingMarks {} ts = ({}, ts) ∧
        (Parses (.member node) ts rest ∧ nextIs .pipe rest = false ∨
          ∃ nodes, node = .union nodes ∧ 2 ≤ nodes.length ∧ Parses (.members nodes) ts rest) ∨
      ∃ inner m marks ts' ts'', node = .modified inner m ∧ m ≠ {} ∧
        leadingMarks {} ts = (marks, ts') ∧ trailingMarks marks ts'' = (m, rest) ∧
          (Parses (.member inner) ts' ts'' ∧ nextIs .pipe ts'' = false ∨
            (∃ nodes, inner = .union nodes ∧ 2 ≤ nodes.length ∧ Parses (.members nodes) ts' ts'') ∨
            inner = .any ∧ startsType ts' = false) := by
  obtain ⟨inner, marks, marks', ts', ts'', hleading, htrailing, hnode, hread⟩ := h.of_type
  rcases eq_or_eq_of_withModifiers hnode with ⟨hmarks', rfl⟩ | ⟨hmarks', hnode⟩
  · obtain ⟨rfl, rfl⟩ := (marking_of_trailingMarks htrailing).eq_of_empty hmarks'
    obtain ⟨-, rfl⟩ := (marking_of_leadingMarks hleading).eq_of_empty rfl
    refine .inl ⟨hleading, ?_⟩
    rcases hread with hmember | hunion | ⟨-, hrepeatable, -⟩
    · exact .inl hmember
    · exact .inr hunion
    · cases hrepeatable
  · refine .inr ⟨inner, marks', marks, ts', ts'', hnode, hmarks', hleading, htrailing, ?_⟩
    exact hread.imp_right (.imp_right fun hany => ⟨hany.1, hany.2.2⟩)

/-- The result type of a function takes all the marks behind it. -/
theorem trailingMarks_of_returns {token : Token} {o : Nat} {type : Node}
    (h : Parses (.atom node) (⟨token, o⟩ :: ts) rest) (htoken : token ≠ .lparen)
    (hreturns : node.returns? = some type) (m : Modifiers) : trailingMarks m rest = (m, rest) := by
  cases h with
  | returning _ hnode =>
    obtain ⟨_, _, _, _, _, -, htrailing, -⟩ := hnode.of_type
    exact trailingMarks_of_trailingMarks htrailing m
  | group => exact absurd rfl htoken
  | _ => cases hreturns

/-- What a parenthesis opens is a group, unless type parameters follow. -/
theorem of_lparen {o : Nat} (h : Parses (.atom node) (⟨.lparen, o⟩ :: ts) rest)
    (hends : EndsAtom (behind 0 ts)) :
    rest = behind 0 ts ∧ ∃ o', Parses (.type node) ts (⟨.rparen, o'⟩ :: rest) := by
  generalize hphrase : Phrase.atom node = phrase at h
  generalize hfront : (⟨.lparen, o⟩ :: ts : List Lexeme) = front at h
  induction h generalizing node with
  | group h _ =>
    cases hphrase
    cases hfront
    exact ⟨(h.behind_eq 0).symm, _, h⟩
  | generic _ _ ih =>
    cases hphrase
    rw [← (ih rfl hfront).1] at hends
    cases hends.nextIs .langle (by decide)
  | array _ ih =>
    cases hphrase
    rw [← (ih rfl hfront).1] at hends
    cases hends.nextIs .lbracket (by decide)
  | _ => cases hphrase <;> cases hfront

/-- A name with type parameters behind it is read without them, or as a generic type. -/
theorem of_langle {text : String} {o o' : Nat}
    (h : Parses (.atom node) (⟨.name text, o⟩ :: ⟨.langle, o'⟩ :: ts) rest)
    (hends : EndsAtom (behind 0 ts)) :
    node = .name text ∧ rest = ⟨.langle, o'⟩ :: ts ∨
      ∃ params o'', node = .generic (genericBase text) params ∧
        Parses (.types params) ts (⟨.rangle, o''⟩ :: rest) := by
  generalize hphrase : Phrase.atom node = phrase at h
  generalize hfront : (⟨.name text, o⟩ :: ⟨.langle, o'⟩ :: ts : List Lexeme) = front at h
  induction h generalizing node with
  | name =>
    cases hphrase
    cases hfront
    exact .inl ⟨rfl, rfl⟩
  | generic _ hparams ih =>
    cases hphrase
    rcases ih rfl hfront with ⟨hname, hrest⟩ | ⟨_, _, hname, -⟩
    · cases hname
      cases hrest
      exact .inr ⟨_, _, rfl, hparams⟩
    · cases hname
  | array _ ih =>
    cases hphrase
    rcases ih rfl hfront with ⟨-, hrest⟩ | ⟨_, _, -, hparams⟩
    · cases hrest
    · have hbehind := hparams.behind_eq 0
      rw [show behind 0 ts = _ from hbehind] at hends
      cases hends.nextIs .lbracket (by decide)
  | _ => cases hphrase <;> cases hfront

/-- A literal with a name behind it is read alone. -/
theorem of_literal {text word : String} {o o' : Nat}
    (h : Parses (.atom node) (⟨.literal text, o⟩ :: ⟨.name word, o'⟩ :: ts) rest) :
    node = .name text ∧ rest = ⟨.name word, o'⟩ :: ts := by
  generalize hphrase : Phrase.atom node = phrase at h
  generalize hfront : (⟨.literal text, o⟩ :: ⟨.name word, o'⟩ :: ts : List Lexeme) = front at h
  induction h generalizing node with
  | literal =>
    cases hphrase
    cases hfront
    exact ⟨rfl, rfl⟩
  | generic _ _ ih | array _ ih => cases (ih rfl hfront).2
  | _ => cases hphrase <;> cases hfront

end Parses

/-! ## Exact readings -/

/-- A phrase is read from some tokens only as a whole, in front of what can follow it (`follow`),
and then what follows is as `fact` says. -/
def Exact (phrase : Phrase) (tokens : List Token) (follow fact : List Lexeme → Prop) : Prop :=
  ∀ ⦃ts rest rest' : List Lexeme⦄, ts.map Lexeme.token = tokens → follow rest →
    Parses phrase (ts ++ rest) rest' → rest' = rest ∧ fact rest

/-- A phrase lists others, with a separator between them. -/
def Lists {α : Type} (separator : Token) (one : α → Phrase) (many : List α → Phrase) : Prop :=
  ∀ ⦃xs : List α⦄ ⦃ts rest : List Lexeme⦄, Parses (many xs) ts rest →
    ∃ x xs', xs = x :: xs' ∧ (xs' = [] ∧ Parses (one x) ts rest ∨ ∃ o ts',
      Parses (one x) ts (⟨separator, o⟩ :: ts') ∧ Parses (many xs') ts' rest)

theorem lists_members : Lists .pipe .member .members := by
  intro nodes ts rest h
  cases h with
  | lastMember h _ => exact ⟨_, _, rfl, .inl ⟨rfl, h⟩⟩
  | nextMember h hmore => exact ⟨_, _, rfl, .inr ⟨_, _, h, hmore⟩⟩

theorem lists_types : Lists .comma .type .types := by
  intro nodes ts rest h
  cases h with
  | lastType h => exact ⟨_, _, rfl, .inl ⟨rfl, h⟩⟩
  | nextType h hmore => exact ⟨_, _, rfl, .inr ⟨_, _, h, hmore⟩⟩

theorem lists_params : Lists .comma .param .params := by
  intro ps ts rest h
  cases h with
  | lastParam h => exact ⟨_, _, rfl, .inl ⟨rfl, h⟩⟩
  | nextParam h hmore => exact ⟨_, _, rfl, .inr ⟨_, _, h, hmore⟩⟩

theorem lists_fields : Lists .comma .field .fields := by
  intro fs ts rest h
  cases h with
  | lastField h => exact ⟨_, _, rfl, .inl ⟨rfl, h⟩⟩
  | nextField h hmore => exact ⟨_, _, rfl, .inr ⟨_, _, h, hmore⟩⟩

/-- The first item of a list is read where the list is. -/
theorem Lists.first {α : Type} {separator : Token} {one : α → Phrase} {many : List α → Phrase}
    (hlist : Lists separator one many) {x : α} {xs : List α} {ts rest : List Lexeme}
    (h : Parses (many (x :: xs)) ts rest) : ∃ rest', Parses (one x) ts rest' := by
  obtain ⟨_, _, hcons, hread⟩ := hlist h
  cases hcons
  rcases hread with ⟨-, hread⟩ | ⟨_, _, hread, -⟩
  · exact ⟨_, hread⟩
  · exact ⟨_, hread⟩

/-- A list is read as a whole, if each of its items is. -/
theorem Exact.list {α : Type} {one : α → Phrase} {many : List α → Phrase} {separator : Token}
    (hlist : Lists separator one many)
    {tokens : α → List Token} {follow : List Lexeme → Prop} {fact : α → List Lexeme → Prop}
    (hseparator : ∀ o rest, follow (⟨separator, o⟩ :: rest)) {xs : List α}
    (h : ∀ x ∈ xs, Exact (one x) (tokens x) follow (fact x)) :
    Exact (many xs) ([separator].intercalate (xs.map tokens)) follow fun rest =>
      (∀ x ∈ xs.dropLast, ∃ o rest, fact x (⟨separator, o⟩ :: rest)) ∧
        ∀ x ∈ xs.getLast?, fact x rest := by
  induction xs with
  | nil =>
    intro ts rest rest' _ _ hparse
    obtain ⟨_, _, hnil, -⟩ := hlist hparse
    cases hnil
  | cons x xs ih =>
    intro ts rest rest' hts hrest hparse
    rw [List.forall_mem_cons] at h
    obtain ⟨_, _, hcons, hparse⟩ := hlist hparse
    cases hcons
    rcases xs with _ | ⟨y, ys⟩
    · rcases hparse with ⟨-, hlast⟩ | ⟨_, _, -, hmore⟩
      · obtain ⟨hrest', hfact⟩ := h.1 (by simpa using hts) hrest hlast
        refine ⟨hrest', nofun, ?_⟩
        rintro _ ⟨⟩
        exact hfact
      · obtain ⟨_, _, hnil, -⟩ := hlist hmore
        cases hnil
    · rcases hparse with ⟨hnil, -⟩ | ⟨o, ts', hfirst, hmore⟩
      · cases hnil
      · obtain ⟨us, o', vs, rfl, hus, hvs⟩ := exists_first_item hts
        rw [List.append_assoc] at hfirst
        obtain ⟨hseam, hfact⟩ := h.1 hus (hseparator o' (vs ++ rest)) hfirst
        cases hseam
        obtain ⟨hrest', hinit, hlast⟩ := ih h.2 hvs hrest hmore
        refine ⟨hrest', ?_, by rwa [List.getLast?_cons_cons]⟩
        rw [List.dropLast_cons_cons, List.forall_mem_cons]
        exact ⟨⟨_, _, hfact⟩, hinit⟩

theorem forall_mem_of_getLast? {α : Type} {p : α → Prop} {xs : List α}
    (hinit : ∀ x ∈ xs.dropLast, p x) (hlast : ∀ x ∈ xs.getLast?, p x) : ∀ x ∈ xs, p x := by
  intro x hx
  obtain ⟨last, hlast'⟩ := Option.ne_none_iff_exists'.mp
    (mt List.getLast?_eq_none_iff.mp (List.ne_nil_of_mem hx))
  rw [← List.dropLast_append_getLast? last hlast', List.mem_append, List.mem_singleton] at hx
  rcases hx with hx | rfl
  · exact hinit x hx
  · exact hlast x hlast'

/-- Items with commas between them are read as a whole, if each of them is. -/
theorem Exact.commas {α : Type} {one : α → Phrase} {many : List α → Phrase}
    (hlist : Lists .comma one many) {tokens : α → List Token} {fact : α → Prop} {xs : List α}
    (h : ∀ x ∈ xs, Exact (one x) (tokens x) EndsMember fun _ => fact x) :
    Exact (many xs) ([.comma].intercalate (xs.map tokens)) EndsMember
      fun _ => ∀ x ∈ xs, fact x := by
  have hcomma : ∀ o rest, EndsMember (⟨.comma, o⟩ :: rest) := fun o rest =>
    (endsType_cons rfl).endsMember
  intro ts rest rest' hts hrest hparse
  obtain ⟨hrest', hinit, hlast⟩ := Exact.list hlist hcomma h hts hrest hparse
  refine ⟨hrest', forall_mem_of_getLast? (fun x hx => ?_) hlast⟩
  obtain ⟨-, -, hfact⟩ := hinit x hx
  exact hfact

theorem endsMember_pipe (o : Nat) (rest : List Lexeme) : EndsMember (⟨.pipe, o⟩ :: rest) := by
  rintro _ ⟨⟩
  exact .inr rfl

/-- As an atom a type is read exactly, in front of what can follow an atom; what follows the result
type of a function follows the function. -/
def ExactAtom (node : Node) : Prop :=
  Exact (.atom node) node.tokens
    (fun rest => EndsAtom rest ∧ (node.returns? ≠ none → EndsMember rest)) fun rest =>
    node.All Node.IsGroupedAt ∧ ∀ type ∈ node.returns?, EndsTypeOf type rest

/-- As a member of a union a type is read exactly. -/
def ExactMember (node : Node) : Prop :=
  Exact (.member node) node.tokens EndsMember fun rest =>
    node.All Node.IsGroupedAt ∧ node.IsMember ∧ ∀ type ∈ node.core.returns?, EndsTypeOf type rest

/-- With the marks around it a type is read exactly. -/
def ExactType (node : Node) : Prop :=
  Exact (.type node) node.tokens EndsMember fun rest =>
    node.All Node.IsGroupedAt ∧ EndsTypeOf node rest

/-- What is read as an atom from the text of a type, behind marks or not, carries no marks. -/
theorem unmarked_of_parses {node inner : Node} (hformed : node.All Node.IsFormedAt)
    (hinner : inner.IsFormedAt) (hheart : inner.heart = node.heart)
    {ts rest ts' rest' : List Lexeme} (hts : ts.map Lexeme.token = node.tokens)
    (hrest : EndsMember rest) (hunmark : unmark (ts ++ rest) = unmark ts')
    (h : Parses (.atom inner) ts' rest') : inner.isModified = false := by
  rcases unmarked_or_modified inner with hnone | ⟨inner, m, rfl⟩
  · exact hnone
  · exact (not_parses_modified hformed hheart hinner hts hrest hunmark h).elim

theorem exactMember_of_core {node : Node} (hformed : node.All Node.IsFormedAt)
    (hatom : node.core.isModified = false → ExactAtom node.core) : ExactMember node := by
  intro ts rest rest' hts hrest h
  obtain ⟨inner, marks, ts', hmarks, hparse, hnode⟩ := h.of_member
  have hunmark := (marking_of_memberMarks hmarks).unmark_eq
  rcases eq_or_eq_of_withModifiers hnode with ⟨hempty, rfl⟩ | ⟨hne, rfl⟩
  · obtain ⟨-, rfl⟩ := (marking_of_memberMarks hmarks).eq_of_empty hempty
    have hinner := unmarked_of_parses hformed hformed.here rfl hts hrest rfl hparse
    rw [core_of_unmarked hinner] at hatom ⊢
    obtain ⟨hrest', hall, hreturns⟩ := hatom hinner hts ⟨hrest.endsAtom, fun _ => hrest⟩ hparse
    exact ⟨hrest', hall, isMember_of_unmarked hinner, hreturns⟩
  · have hinner := unmarked_of_parses hformed (hformed.inside inner List.mem_cons_self).here rfl hts
      hrest hunmark hparse
    have hset := eq_of_memberMarks hmarks
    obtain ⟨nullable, optional, repeatable⟩ := marks
    cases hset
    obtain ⟨b, rfl⟩ : ∃ b, nullable = some b := by
      rcases nullable with _ | b
      · exact absurd rfl hne
      · exact ⟨b, rfl⟩
    rw [Node.tokens] at hts
    obtain ⟨front, ts, rfl, hfront, hts⟩ := List.map_eq_append_iff.mp hts
    have hmiddle : ts.map Lexeme.token = inner.tokens := hts.trans (List.append_nil _)
    rw [List.append_assoc] at hmarks
    have hknown : b = true → inner ≠ .unknown := by
      -- of two question marks in front of nothing, the first one is taken for the type
      rintro rfl rfl
      obtain ⟨o, rfl⟩ := map_token_eq_singleton hfront
      rw [Node.tokens] at hmiddle
      obtain ⟨o', rfl⟩ := map_token_eq_singleton hmiddle
      cases hmarks
    rw [memberMarks_leading hfront (isUnmarked_tokens hinner hmiddle hrest.endsAtom.startsType)
      fun htrue => startsType_tokens hinner (hknown htrue) hmiddle rest] at hmarks
    cases hmarks
    obtain ⟨hrest', hall, hreturns⟩ :=
      hatom hinner hmiddle ⟨hrest.endsAtom, fun _ => hrest⟩ hparse
    refine ⟨hrest', .intro ⟨hinner, fun h => by cases h⟩ (List.forall_mem_singleton.mpr hall),
      ⟨rfl, fun hunknown => ?_⟩, hreturns⟩
    cases b with
    | false => rfl
    | true => exact absurd hunknown (hknown rfl)

/-- The members of a union are not read from the text of the union: its first token opens a group,
and the first member would have to end where the group does. -/
theorem not_parses_members {members : List Node}
    (hformed : (Node.union members).All Node.IsFormedAt)
    (hexact : ∀ member ∈ members, ExactType member) {ts rest rest' : List Lexeme}
    (hts : ts.map Lexeme.token = (Node.union members).tokens) (hrest : EndsAtom rest)
    (h : Parses (.members members) (ts ++ rest) rest') : False := by
  rw [Node.tokens, tokensAll_eq_map] at hts
  obtain ⟨o, inside, o', rfl, hmembers, hbehind⟩ :=
    Balanced.exists_behind rfl (hformed.balanced_members rfl) hts
  obtain ⟨first, second, more, rfl⟩ := exists_cons_cons hformed.here
  obtain ⟨_, hfirst⟩ := lists_members.first h
  obtain ⟨inner, marks, ts'', hmarks, hatom, hnode⟩ := hfirst.of_member
  rw [List.cons_append, List.append_assoc, List.singleton_append] at hmarks
  cases hmarks
  obtain ⟨-, o₂, hgroup⟩ := hatom.of_lparen (by rwa [hbehind rest])
  obtain rfl : first = inner := hnode.trans (withModifiers_empty inner)
  obtain ⟨us, o₃, vs, rfl, hus, -⟩ := exists_first_item hmembers
  rw [List.append_assoc] at hgroup
  cases (hexact first List.mem_cons_self hus (endsMember_pipe _ _) hgroup).1

/-- The result type of a function would take the mark behind the function. -/
theorem returns?_eq_none_of_trailingMarks {node : Node} {m m' : Modifiers}
    {ts rest rest' rest'' : List Lexeme} (hts : ts.map Lexeme.token = node.tokens)
    (h : Parses (.atom node) (ts ++ rest) rest')
    (htrailing : trailingMarks { m' with optional := false } rest' = (m, rest''))
    (hoptional : m.optional = true) : node.returns? = none := by
  rcases hreturns : node.returns? with _ | type
  · rfl
  cases node with
  | function receiver params returns =>
    rw [tokens_function] at hts
    obtain ⟨o, ts, rfl, -⟩ := map_token_eq_cons hts
    rw [h.trailingMarks_of_returns nofun hreturns] at htrailing
    cases htrailing
    cases hoptional
  | _ => cases hreturns

/-- Inside its marks a type is read exactly. -/
theorem exactType_of_core {node : Node} (hformed : node.All Node.IsFormedAt)
    (hatom : node.core.isModified = false → ExactAtom node.core)
    (hmembers : ∀ members, node.core = .union members → ∀ member ∈ members, ExactType member) :
    ExactType node := by
  intro ts rest rest' hts hrest h
  rcases h.of_type_cases with ⟨-, hmember | ⟨nodes, rfl, -, hnodes⟩⟩ |
    ⟨inner, m, marks, ts', ts'', rfl, hm, hleading, htrailing, hread⟩
  · obtain ⟨rfl, hall, -⟩ := exactMember_of_core hformed hatom hts hrest hmember.1
    exact ⟨rfl, hall, (hrest.endsType hmember.2).of node⟩
  · exact (not_parses_members hformed (hmembers nodes rfl) hts hrest.endsAtom hnodes).elim
  have hunmark := (marking_of_leadingMarks hleading).unmark_eq
  have hinside := hformed.inside inner List.mem_cons_self
  -- a single member is read as an atom, since the marks in front of it have been taken
  have hsingle : Parses (.member inner) ts' ts'' →
      inner.isModified = false ∧ Parses (.atom inner) ts' ts'' := by
    intro hmember
    have hparse := hmember.atom_of_member hleading
    exact ⟨unmarked_of_parses hformed hinside.here rfl hts hrest hunmark hparse, hparse⟩
  have hinner : inner.isModified = false := by
    rcases hread with ⟨hmember, -⟩ | ⟨nodes, rfl, -⟩ | ⟨rfl, -⟩
    · exact (hsingle hmember).1
    · rfl
    · rfl
  by_cases hne : inner = .unknown
  · subst hne
    obtain ⟨marks', o, ts₁, hleading', htrailing', -, hpipe⟩ := marks_unknown hts hrest
    rw [hleading'] at hleading
    cases hleading
    rcases hread with ⟨hmember, hread⟩ | ⟨_, hunion, -⟩ | ⟨hany, -⟩
    · cases (hsingle hmember).2
      rw [htrailing'] at htrailing
      cases htrailing
      exact ⟨rfl, .intro ⟨rfl, fun _ => rfl⟩ (List.forall_mem_singleton.mpr (.leaf trivial rfl)),
        hpipe.mp hread⟩
    · cases hunion
    · cases hany
  rw [Node.tokens] at hts
  obtain ⟨front, ts, rfl, hfront, hts⟩ := List.map_eq_append_iff.mp hts
  obtain ⟨middle, back, rfl, hmiddle, hback⟩ := List.map_eq_append_iff.mp hts
  obtain ⟨hends, hpipe⟩ := nextIs_pipe_trailing hne hback hrest
  have hstart : startsType (middle ++ (back ++ rest)) = true :=
    startsType_tokens hinner hne hmiddle _
  rw [List.append_assoc, List.append_assoc,
    leadingMarks_leading hfront (.inl hstart) fun _ => hstart] at hleading
  cases hleading
  rcases hread with ⟨hmember, hread⟩ | ⟨nodes, rfl, -, hnodes⟩ | ⟨-, hany⟩
  · have hparse := (hsingle hmember).2
    have hoptional : m.optional = true → inner.returns? = none :=
      returns?_eq_none_of_trailingMarks hmiddle hparse htrailing
    have hfollow : EndsAtom (back ++ rest) ∧
        (inner.returns? ≠ none → EndsMember (back ++ rest)) := by
      refine ⟨hends, fun hreturns => ?_⟩
      obtain rfl : back = [] := by
        simpa [Modifiers.trailingTokens, mt hoptional hreturns] using hback
      exact hrest
    obtain ⟨rfl, hall, -⟩ := hatom hinner hmiddle hfollow hparse
    rw [trailingMarks_trailing _ hback hrest] at htrailing
    cases htrailing
    exact ⟨rfl, .intro ⟨hinner, hoptional⟩ (List.forall_mem_singleton.mpr hall), hpipe.mp hread⟩
  · exact (not_parses_members hinside (hmembers nodes rfl) hmiddle hends hnodes).elim
  · rw [hstart] at hany
    cases hany

/-! ## Atoms -/

theorem exact_param {p : Param} (h : ExactType p.type) :
    Exact (.param p) p.tokens EndsMember fun _ => p.type.All Node.IsGroupedAt := by
  intro ts rest rest' hts hrest hparse
  have hword : ∀ {word : String} {node : Node} {o o' : Nat} {ts' : List Lexeme},
      ts.map Lexeme.token = .name word :: .colon :: node.tokens → ExactType node →
        ts ++ rest = ⟨.name word, o⟩ :: ⟨.colon, o'⟩ :: ts' → Parses (.type node) ts' rest' →
          rest' = rest ∧ node.All Node.IsGroupedAt := by
    intro word node o o' ts' hts h hsplit hparse
    obtain ⟨_, ts, rfl, hcolon⟩ := map_token_eq_cons hts
    obtain ⟨_, ts, rfl, hnode⟩ := map_token_eq_cons hcolon
    cases hsplit
    exact (h hnode hrest hparse).imp_right And.left
  generalize hsplit : ts ++ rest = us at hparse
  cases hparse with
  | constructed hparse => exact hword hts h hsplit hparse
  | bound hparse => exact hword hts h hsplit hparse
  | ordinary _ hparse =>
    subst hsplit
    exact (h hts hrest hparse).imp_right And.left

theorem exact_field {f : Field} (h : ∀ type ∈ f.type?, ExactType type) :
    Exact (.field f) f.tokens EndsMember fun _ => ∀ type ∈ f.type?, type.All Node.IsGroupedAt := by
  intro ts rest rest' hts hrest hparse
  generalize hsplit : ts ++ rest = us at hparse
  cases hparse with
  | bare =>
    obtain ⟨_, rfl⟩ := map_token_eq_singleton hts
    cases hsplit
    exact ⟨rfl, nofun⟩
  | typed _ hparse =>
    obtain ⟨_, ts, rfl, hcolon⟩ := map_token_eq_cons hts
    obtain ⟨_, ts, rfl, hnode⟩ := map_token_eq_cons hcolon
    cases hsplit
    obtain ⟨hrest', hall, -⟩ := h _ rfl hnode hrest hparse
    refine ⟨hrest', ?_⟩
    rintro _ ⟨⟩
    exact hall

theorem map_ordinaryOf {ps : List Param} (h : receiverOf ps = none) :
    (ordinaryOf ps).map .ordinary = ps := by
  induction ps with
  | nil => rfl
  | cons p ps ih =>
    have hreceiver : receiverOf (p :: ps) = (receiverOf ps).or (receiverOf [p]) :=
      receiverOf_append [p] ps
    rw [hreceiver, Option.or_eq_none_iff] at h
    cases p with
    | receiver => cases h.2
    | ordinary node =>
      rw [show ordinaryOf (.ordinary node :: ps) = node :: ordinaryOf ps from rfl, List.map_cons,
        ih h.1]

/-- Parameters with no receiver but in front are those that the text of a function lists. Of two
receivers the first one would be missing there, and so would the colon behind it. -/
theorem paramsOf_eq {ps : List Param}
    (hweight : weight (ps.flatMap Param.tokens) ≤
      weight ((paramsOf (receiverOf ps) (ordinaryOf ps)).flatMap Param.tokens))
    (hfirst : ∀ node ps', ps = .ordinary node :: ps' → receiverOf ps = none) :
    paramsOf (receiverOf ps) (ordinaryOf ps) = ps := by
  rcases ps with _ | ⟨p, ps⟩
  · rfl
  have hreceiver : receiverOf (p :: ps) = (receiverOf ps).or (receiverOf [p]) :=
    receiverOf_append [p] ps
  cases p with
  | ordinary node =>
    have hnone := hfirst node ps rfl
    rw [hnone]
    exact map_ordinaryOf hnone
  | receiver r =>
    rcases hmore : receiverOf ps with _ | r'
    · rw [hreceiver, hmore]
      exact congrArg (.receiver r :: ·) (map_ordinaryOf hmore)
    · have hle := weight_paramsOf_le ps
      have hcolon : 0 < weight (Param.receiver r).tokens := by
        cases r <;> simp [Param.tokens, Receiver.tokens, weight_cons, Token.isMark,
          Nat.add_comm 1]
      rw [hmore] at hle
      rw [hreceiver, hmore, Option.some_or,
        show ordinaryOf (.receiver r :: ps) = ordinaryOf ps from rfl, List.flatMap_cons,
        weight_append] at hweight
      omega

/-- A receiver in front is read as a receiver. -/
theorem receiverOf_eq_none_of_parses {ps : List Param} {node : Node} {params : List Node}
    {ts rest rest' : List Lexeme}
    (hts : ts.map Lexeme.token = [.comma].intercalate
      ((paramsOf (receiverOf (.ordinary node :: ps)) params).map Param.tokens))
    (h : Parses (.params (.ordinary node :: ps)) (ts ++ rest) rest') :
    receiverOf (.ordinary node :: ps) = none := by
  rcases hreceiver : receiverOf (.ordinary node :: ps) with _ | r
  · rfl
  obtain ⟨word, hword, more, hmore⟩ : ∃ word ∈ ["new", "this"], ∃ more,
      r.tokens = .name word :: .colon :: more := by
    cases r
    · exact ⟨"new", by decide, _, rfl⟩
    · exact ⟨"this", by decide, _, rfl⟩
  rw [hreceiver, paramsOf, Option.toList_some, List.map_singleton, List.singleton_append,
    intercalate_cons, Param.tokens, hmore] at hts
  obtain ⟨_, hordinary⟩ := lists_params.first h
  cases hordinary with
  | ordinary hne =>
    rw [List.map_append, hts, List.cons_append, List.cons_append, List.cons_append,
      List.cons_append] at hne
    exact (hne word hword _ rfl).elim

theorem exact_paramList {ps : List Param}
    (hformed : ∀ p ∈ paramsOf (receiverOf ps) (ordinaryOf ps), p.type.All Node.IsFormedAt)
    (hexact : ∀ p ∈ paramsOf (receiverOf ps) (ordinaryOf ps), ExactType p.type)
    {ts rest rest' : List Lexeme}
    (hts : ts.map Lexeme.token = [.comma].intercalate
      ((paramsOf (receiverOf ps) (ordinaryOf ps)).map Param.tokens) ++ [.rparen])
    (h : Parses (.paramList ps) (ts ++ rest) rest') :
    rest' = rest ∧
      ∀ p ∈ paramsOf (receiverOf ps) (ordinaryOf ps), p.type.All Node.IsGroupedAt := by
  generalize hsplit : ts ++ rest = us at h
  cases h with
  | noParams =>
    obtain ⟨_, rfl⟩ := map_token_eq_singleton hts
    cases hsplit
    exact ⟨rfl, nofun⟩
  | @someParams _ o' _ _ h =>
    subst hsplit
    obtain ⟨front, close, rfl, hfront, hclose⟩ := List.map_eq_append_iff.mp hts
    obtain ⟨o, rfl⟩ := map_token_eq_singleton hclose
    rw [List.append_assoc, List.singleton_append] at h
    have hrest' : rest' = rest := by
      have hbalanced : Balanced ([.comma].intercalate
          ((paramsOf (receiverOf ps) (ordinaryOf ps)).map Param.tokens)) :=
        .intercalate rfl fun p hp => p.balanced (hformed p hp).balanced
      have hprinted := hbalanced front hfront 0 (⟨.rparen, o⟩ :: rest)
      exact (h.behind_eq 0).symm.trans hprinted
    have hweight := h.weight_le
    rw [hrest', List.map_append, weight_append, hfront, weight_intercalate rfl, Phrase.weight]
      at hweight
    simp only [List.map_cons] at hweight
    have hps : paramsOf (receiverOf ps) (ordinaryOf ps) = ps := by
      refine paramsOf_eq (by omega) ?_
      rintro node ps' rfl
      exact receiverOf_eq_none_of_parses hfront h
    rw [hps] at hfront hexact ⊢
    exact ⟨hrest', (Exact.commas lists_params (fun p hp => exact_param (hexact p hp)) hfront
      (endsType_cons rfl).endsMember h).2⟩

/-- The members of a union are not read from the text of its first member: they would have to end
where a group in that text does. -/
theorem not_parses_first {first : Node} (hformed : first.All Node.IsFormedAt)
    {members : List Node} {ts rest rest' : List Lexeme} {o o' : Nat}
    (hts : ts.map Lexeme.token = first.tokens)
    (h : Parses (.atom (.union members)) (ts ++ ⟨.pipe, o⟩ :: rest) (⟨.rparen, o'⟩ :: rest')) :
    False := by
  generalize hsplit : ts ++ ⟨.pipe, o⟩ :: rest = us at h
  cases h with
  | @group _ o₁ _ us _ h =>
    have hunmark : unmark (ts ++ ⟨.pipe, o⟩ :: rest) = ⟨.lparen, o₁⟩ :: us := by
      rw [hsplit]
      exact unmark_cons rfl o₁ us
    obtain ⟨members', vs, back, hheart, hvs, hgroup, hback⟩ :=
      unmark_tokens hts (endsMember_pipe o rest) hunmark
    rw [Node.tokens, tokensAll_eq_map] at hvs
    obtain ⟨o₂, inside, o₃, rfl, -, hbehind⟩ :=
      Balanced.exists_behind rfl (hformed.heart.balanced_members hheart) hvs
    obtain rfl : us = inside ++ ⟨.rparen, o₃⟩ :: (back ++ ⟨.pipe, o⟩ :: rest) := by
      simpa using (List.cons.inj hgroup).2.symm
    have hclose : back ++ ⟨.pipe, o⟩ :: rest = ⟨.rparen, o'⟩ :: rest' :=
      (hbehind _).symm.trans (h.behind_eq 0)
    rcases back with _ | ⟨lexeme, back⟩
    · cases hclose
    · cases hclose
      cases hback _ List.mem_cons_self

theorem exactAtom_union {members : List Node} (hformed : (Node.union members).All Node.IsFormedAt)
    (hmembers : ∀ member ∈ members, ExactMember member) : ExactAtom (.union members) := by
  rintro ts rest rest' hts ⟨hends, -⟩ h
  rw [Node.tokens, tokensAll_eq_map] at hts
  obtain ⟨o, inside, o', rfl, hinside, hbehind⟩ :=
    Balanced.exists_behind rfl (hformed.balanced_members rfl) hts
  rw [List.cons_append, List.append_assoc, List.singleton_append] at h
  obtain ⟨hrest', o₁, hgroup⟩ := h.of_lparen (by rwa [hbehind rest])
  refine ⟨hrest'.trans (hbehind rest), ?_, by rintro _ ⟨⟩⟩
  obtain ⟨first, second, more, rfl⟩ := exists_cons_cons hformed.here
  obtain ⟨us, o₂, vs, hsplit, hus, -⟩ := exists_first_item hinside
  have hfirst := hformed.inside first List.mem_cons_self
  rcases hgroup.of_type_cases with ⟨hleading, ⟨hmember, -⟩ | ⟨nodes, hnodes, -, hread⟩⟩ |
    ⟨_, _, _, _, _, hmodified, -⟩
  · have hatom := hmember.atom_of_member hleading
    rw [hsplit, List.append_assoc] at hatom
    exact (not_parses_first hfirst hus hatom).elim
  · cases hnodes
    obtain ⟨-, hinit, hlast⟩ := Exact.list lists_members endsMember_pipe hmembers hinside
      (endsType_cons rfl).endsMember hread
    have heach : ∀ member ∈ first :: second :: more,
        member.All Node.IsGroupedAt ∧ member.IsMember := by
      refine forall_mem_of_getLast? (fun member hmember => ?_) fun member hmember => ?_
      · obtain ⟨_, _, hall, hmember, -⟩ := hinit member hmember
        exact ⟨hall, hmember⟩
      · obtain ⟨hall, hmember, -⟩ := hlast member hmember
        exact ⟨hall, hmember⟩
    refine .intro ⟨?_, fun member hmember => (heach member hmember).2, ?_⟩
      fun member hmember => (heach member hmember).1
    · -- marks in front of the first member would be those of the union
      rintro _ ⟨⟩
      obtain ⟨_, hmember⟩ := lists_members.first hread
      have hatom := hmember.atom_of_member hleading
      rw [hsplit, List.append_assoc] at hatom
      exact unmarked_of_parses hfirst hfirst.here rfl hus (endsMember_pipe o₂ _) rfl hatom
    · intro member hmember type htype
      obtain ⟨_, _, -, -, hends⟩ := hinit member hmember
      exact ((hends type htype .pipe rfl).resolve_left (by decide)).2
  · cases hmodified

theorem exactAtom_generic {base : String} {params : List Node}
    (hformed : (Node.generic base params).All Node.IsFormedAt)
    (hparams : ∀ param ∈ params, ExactType param) : ExactAtom (.generic base params) := by
  rintro ts rest rest' hts ⟨hends, -⟩ h
  have hlist : Balanced ([.comma].intercalate (params.map Node.tokens)) :=
    .intercalate rfl fun param hparam => (hformed.inside param hparam).balanced
  rw [Node.tokens, tokensAll_eq_map] at hts
  rcases hformed.here.1 with hname | hliteral
  · rw [baseTokens_of_isNameText hname, List.singleton_append] at hts
    obtain ⟨o, ts, rfl, htail⟩ := map_token_eq_cons hts
    obtain ⟨o₁, inside, o₂, rfl, hinside, hbehind⟩ := Balanced.exists_behind rfl hlist htail
    rw [List.cons_append, List.cons_append, List.append_assoc, List.singleton_append] at h
    rcases h.of_langle (by rwa [hbehind rest]) with ⟨hnode, -⟩ | ⟨params', o₃, hnode, hread⟩
    · cases hnode
    obtain ⟨-, rfl⟩ := Node.generic.inj hnode
    have hparam : ∀ param ∈ params, Exact (.type param) param.tokens EndsMember fun _ =>
        param.All Node.IsGroupedAt := fun param hparam _ _ _ hts hrest h =>
      (hparams param hparam hts hrest h).imp_right And.left
    obtain ⟨hseam, hall⟩ :=
      Exact.commas lists_types hparam hinside (endsType_cons rfl).endsMember hread
    cases hseam
    refine ⟨rfl, .intro (fun hliteral => ?_) hall, by rintro _ ⟨⟩⟩
    cases (baseTokens_of_isNameText hname).symm.trans (baseTokens_of_isLiteral hliteral)
  · -- the dot behind a literal is a name of its own
    rw [baseTokens_of_isLiteral hliteral] at hts
    obtain ⟨o, ts, rfl, htail⟩ := map_token_eq_cons hts
    obtain ⟨o₁, ts, rfl, -⟩ := map_token_eq_cons htail
    cases h.of_literal.1

theorem exactAtom_function {receiver : Option Receiver} {params : List Node}
    {returns : Option Node} (hformed : (Node.function receiver params returns).All Node.IsFormedAt)
    (hinside : ∀ child ∈ (Node.function receiver params returns).children, ExactType child) :
    ExactAtom (.function receiver params returns) := by
  rintro ts rest rest' hts ⟨-, hends⟩ h
  rw [tokens_function] at hts
  obtain ⟨o, ts, rfl, htail⟩ := map_token_eq_cons hts
  obtain ⟨o₁, ts, rfl, hlist⟩ := map_token_eq_cons htail
  rw [List.append_cons] at hlist
  obtain ⟨front, back, rfl, hfront, hback⟩ := List.map_eq_append_iff.mp hlist
  have hparams : ∀ p ∈ paramsOf receiver params,
      p.type.All Node.IsFormedAt ∧ ExactType p.type := fun p hp =>
    have hchild := mem_children_function.mpr (.inl ⟨p, hp, rfl⟩)
    ⟨hformed.inside _ hchild, hinside _ hchild⟩
  rw [List.cons_append, List.cons_append, List.append_assoc] at h
  cases h with
  | function hread _ =>
    obtain ⟨hrest', hall⟩ := exact_paramList (fun p hp => (hparams p hp).1)
      (fun p hp => (hparams p hp).2) hfront hread
    obtain rfl := List.map_eq_nil_iff.mp hback
    refine ⟨hrest', .intro trivial fun child hchild => ?_, nofun⟩
    rcases mem_children_function.mp hchild with ⟨p, hp, rfl⟩ | hnone
    · exact hall p hp
    · cases hnone
  | returning hread hnode =>
    obtain ⟨hcolon, hall⟩ := exact_paramList (fun p hp => (hparams p hp).1)
      (fun p hp => (hparams p hp).2) hfront hread
    obtain ⟨o₂, back, rfl, htype⟩ := map_token_eq_cons hback
    cases hcolon
    obtain ⟨hrest', htypeAll, htypeEnds⟩ :=
      hinside _ (mem_children_function.mpr (.inr rfl)) htype (hends nofun) hnode
    refine ⟨hrest', .intro trivial fun child hchild => ?_, ?_⟩
    · rcases mem_children_function.mp hchild with ⟨p, hp, rfl⟩ | hsome
      · exact hall p hp
      · cases hsome
        exact htypeAll
    · rintro _ ⟨⟩
      exact htypeEnds

theorem exactAtom_record {fields : List Field}
    (hfields : ∀ f ∈ fields, ∀ type ∈ f.type?, ExactType type) : ExactAtom (.record fields) := by
  rintro ts rest rest' hts - h
  rw [Node.tokens, tokensFields_eq_map] at hts
  obtain ⟨o, ts, rfl, htail⟩ := map_token_eq_cons hts
  obtain ⟨front, back, rfl, hfront, hback⟩ := List.map_eq_append_iff.mp htail
  obtain ⟨o₁, rfl⟩ := map_token_eq_singleton hback
  rw [List.cons_append, List.append_assoc, List.singleton_append] at h
  generalize hsplit : front ++ ⟨.rbrace, o₁⟩ :: rest = us at h
  cases h with
  | emptyRecord =>
    obtain rfl := List.map_eq_nil_iff.mp hfront
    cases hsplit
    exact ⟨rfl, .leaf trivial rfl, by rintro _ ⟨⟩⟩
  | record hread =>
    subst hsplit
    obtain ⟨hseam, hall⟩ := Exact.commas lists_fields
      (fun f hf => exact_field (hfields f hf)) hfront (endsType_cons rfl).endsMember hread
    cases hseam
    refine ⟨rfl, .intro trivial fun child hchild => ?_, by rintro _ ⟨⟩⟩
    obtain ⟨f, hf, htype⟩ := List.mem_filterMap.mp hchild
    exact hall f hf child htype

/-- A type without marks is read exactly, if the types inside it are. -/
theorem exactAtom_of_children {node : Node} (hnode : node.isModified = false)
    (hformed : node.All Node.IsFormedAt)
    (hinside : ∀ child ∈ node.children, ExactMember child ∧ ExactType child) : ExactAtom node := by
  cases node with
  | name text =>
    rintro ts rest rest' hts - h
    rw [Node.tokens] at hts
    obtain ⟨o, rfl⟩ := map_token_eq_singleton hts
    rw [List.singleton_append] at h
    rcases wordToken_cases text with htext | htext <;>
    · rw [htext] at h
      cases h
      exact ⟨rfl, .leaf trivial rfl, by rintro _ ⟨⟩⟩
  | any | unknown =>
    rintro ts rest rest' hts - h
    rw [Node.tokens] at hts
    obtain ⟨o, rfl⟩ := map_token_eq_singleton hts
    cases h
    exact ⟨rfl, .leaf trivial rfl, by rintro _ ⟨⟩⟩
  | union members => exact exactAtom_union hformed fun member hmember => (hinside member hmember).1
  | generic base params =>
    exact exactAtom_generic hformed fun param hparam => (hinside param hparam).2
  | function receiver params returns =>
    exact exactAtom_function hformed fun child hchild => (hinside child hchild).2
  | record fields =>
    exact exactAtom_record fun f hf type htype =>
      (hinside type (List.mem_filterMap.mpr ⟨f, hf, htype⟩)).2
  | modified => cases hnode

/-! ## All types -/

/-- A type is read exactly in all the places where one can stand. -/
structure Node.IsExact (node : Node) : Prop where
  atom : node.isModified = false → ExactAtom node
  member : ExactMember node
  type : ExactType node

/-- Well formed types are read exactly. -/
theorem Node.All.isExact {node : Node} (h : node.All IsFormedAt) : node.All IsExact := by
  induction h with
  | @intro node here inside ih =>
    have hformed : node.All IsFormedAt := .intro here inside
    have hatom : node.isModified = false → ExactAtom node := fun hnode =>
      exactAtom_of_children hnode hformed fun child hchild =>
        ⟨(ih child hchild).here.member, (ih child hchild).here.type⟩
    have hcore : node.core.isModified = false → ExactAtom node.core := by
      cases node with
      | modified inner m => exact (ih inner List.mem_cons_self).here.atom
      | _ => exact hatom
    have hmembers : ∀ members, node.core = .union members →
        ∀ member ∈ members, ExactType member := by
      intro members hunion member hmember
      cases node with
      | modified inner m =>
        obtain rfl : inner = .union members := hunion
        exact ((ih _ List.mem_cons_self).inside member hmember).here.type
      | union members' =>
        cases hunion
        exact (ih member hmember).here.type
      | _ => cases hunion
    exact .intro ⟨hatom, exactMember_of_core hformed hcore,
      exactType_of_core hformed hcore hmembers⟩ ih

end Commentary.TypeExpr
