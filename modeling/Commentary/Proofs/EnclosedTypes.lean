import Commentary.Proofs.TypeNames

/-!
# Types in brackets

An expression is read in front of a closing parenthesis or angle bracket as it is read at the end
(`Reads.enclosed`): no reader goes on behind the tokens of a type because of such a bracket, and
none is stopped by it sooner. Neither the offsets of the tokens nor the number of levels matter, as
long as there are enough.
-/

namespace Commentary.TypeExpr

open Text

/-! ## Tokens in front of a bracket -/

/-- A list of tokens that begins with a closing bracket. -/
def Closes (closers : List Token) : Prop :=
  ∃ token more, closers = token :: more ∧ token ∈ closing

/-- The tokens of `vs` are those of `ts` with `closers` behind them. -/
def InFrontOf (closers : List Token) (ts vs : List Lexeme) : Prop :=
  vs.map Lexeme.token = ts.map Lexeme.token ++ closers

/-- What `reader` reads at the end, `reader'` reads in front of `closers`. -/
def Encloses {α : Type} (closers : List Token) (reader reader' : Reader α) : Prop :=
  ∀ ⦃ts vs : List Lexeme⦄ ⦃x : α⦄ ⦃rest : List Lexeme⦄, InFrontOf closers ts vs →
    reader ts = .ok (x, rest) → ∃ rest', InFrontOf closers rest rest' ∧ reader' vs = .ok (x, rest')

section Lookahead

variable {closers : List Token} {ts vs : List Lexeme}

theorem InFrontOf.exists_cons {lexeme : Lexeme} (h : InFrontOf closers (lexeme :: ts) vs) :
    ∃ offset vs', vs = ⟨lexeme.token, offset⟩ :: vs' ∧ InFrontOf closers ts vs' :=
  map_token_eq_cons h

theorem InFrontOf.length_eq (h : InFrontOf closers ts vs) :
    vs.length = ts.length + closers.length := by
  have hlength := congrArg List.length h
  simpa using hlength

theorem InFrontOf.exists_nil (hclose : Closes closers) (h : InFrontOf closers [] vs) :
    ∃ token offset vs', vs = ⟨token, offset⟩ :: vs' ∧ token ∈ closing := by
  obtain ⟨token, more, rfl, htoken⟩ := hclose
  obtain ⟨offset, vs', rfl, -⟩ := map_token_eq_cons h
  exact ⟨token, offset, vs', rfl, htoken⟩

/-- The next token is the same, or the bracket where there was none. -/
theorem InFrontOf.nextIs_eq (hclose : Closes closers) (h : InFrontOf closers ts vs) {token : Token}
    (htoken : ts ≠ [] ∨ token ∉ closing) : nextIs token vs = nextIs token ts := by
  rcases ts with _ | ⟨lexeme, ts⟩
  · obtain ⟨closer, offset, vs', rfl, hcloser⟩ := h.exists_nil hclose
    refine beq_eq_false_iff_ne.2 fun heq => htoken.resolve_left (· rfl) ?_
    rwa [← Option.some.inj heq]
  · obtain ⟨offset, vs', rfl, -⟩ := h.exists_cons
    rfl

theorem InFrontOf.startsType_eq (hclose : Closes closers) (h : InFrontOf closers ts vs) :
    startsType vs = startsType ts := by
  rcases ts with _ | ⟨lexeme, ts⟩
  · obtain ⟨closer, offset, vs', rfl, hcloser⟩ := h.exists_nil hclose
    rcases List.mem_pair.1 hcloser with rfl | rfl <;> rfl
  · obtain ⟨offset, vs', rfl, -⟩ := h.exists_cons
    rfl

/-- The given token is taken in front of the bracket too. -/
theorem encloses_expect (stop stop' : Nat) (token : Token) :
    Encloses closers (expect stop token) (expect stop' token) := by
  intro ts vs _ rest h hexpect
  obtain ⟨o, rfl⟩ := expect_eq_ok hexpect
  obtain ⟨o', vs', rfl, hrest⟩ := h.exists_cons
  exact ⟨vs', hrest, expect_cons⟩

end Lookahead

section Enclosed

variable {closers : List Token} (hclose : Closes closers)
include hclose

theorem TakesMarks.encloses {take : Modifiers → Token → Bool → Option Modifiers}
    {marks : Modifiers → List Lexeme → Modifiers × List Lexeme} (htakes : TakesMarks take marks)
    {ts vs : List Lexeme} (h : InFrontOf closers ts vs) (m : Modifiers) :
    (marks m vs).1 = (marks m ts).1 ∧ InFrontOf closers (marks m ts).2 (marks m vs).2 := by
  induction ts generalizing vs m with
  | nil =>
    obtain ⟨closer, offset, vs', rfl, htoken⟩ := h.exists_nil hclose
    rw [htakes.nil, htakes.cons, htakes.closers m (startsType vs') closer htoken]
    exact ⟨rfl, h⟩
  | cons lexeme ts ih =>
    obtain ⟨offset, vs', rfl, htail⟩ := h.exists_cons
    rw [htakes.cons, htakes.cons, htail.startsType_eq hclose]
    rcases take m lexeme.token (startsType ts) with _ | m'
    · exact ⟨rfl, h⟩
    · exact ih htail m'

/-! ## Lists -/

section Lists

variable {α : Type} {separator : Token} {item item' : Reader α}

theorem encloses_moreItems (hseparator : separator ∉ closing)
    (hshorter : ∀ x ts rest, item ts = .ok (x, rest) → rest.length ≤ ts.length)
    (hitem : Encloses closers item item') {n n' : Nat} {ts vs rest : List Lexeme} {xs : List α}
    (hn : ts.length ≤ n) (hn' : ts.length ≤ n') (h : InFrontOf closers ts vs)
    (hread : moreItems separator item n ts = .ok (xs, rest)) :
    ∃ rest', InFrontOf closers rest rest' ∧
      moreItems separator item' n' vs = .ok (xs, rest') := by
  have hnext : nextIs separator vs = nextIs separator ts := h.nextIs_eq hclose (.inr hseparator)
  induction n generalizing n' ts vs xs with
  | zero =>
    obtain rfl := List.length_eq_zero_iff.mp (Nat.le_zero.mp hn)
    cases hread
    refine ⟨vs, h, ?_⟩
    rcases n' with _ | n'
    · rfl
    · rw [moreItems, if_neg (hnext ▸ Bool.false_ne_true)]
  | succ n ih =>
    rw [moreItems] at hread
    split at hread
    next hsep =>
      obtain ⟨o, ts, rfl⟩ := nextIs_eq_true hsep
      obtain ⟨⟨x, ts'⟩, hx, hread⟩ := bind_eq_ok hread
      obtain ⟨⟨xs', rest⟩, hxs, hread⟩ := bind_eq_ok hread
      cases hread
      obtain ⟨o', vs, rfl, htail⟩ := h.exists_cons
      obtain ⟨vs', hvs', hx'⟩ := hitem htail hx
      have hlength := hshorter x ts ts' hx
      simp only [List.length_cons] at hn hn'
      obtain ⟨m, rfl⟩ : ∃ m, n' = m + 1 := ⟨n' - 1, by omega⟩
      have hm : ts'.length ≤ m := by omega
      obtain ⟨rest', hrest', hxs'⟩ := ih (by omega) hm hvs' hxs
        (hvs'.nextIs_eq hclose (.inr hseparator))
      refine ⟨rest', hrest', ?_⟩
      rw [moreItems, if_pos (hnext.trans hsep), List.tail_cons, hx']
      simp only [bind, Except.bind, hxs']
      rfl
    next hsep =>
      cases hread
      refine ⟨vs, h, ?_⟩
      rcases n' with _ | n'
      · rfl
      · rw [moreItems, if_neg (by rwa [hnext])]

theorem encloses_items (hseparator : separator ∉ closing)
    (hshorter : ∀ x ts rest, item ts = .ok (x, rest) → rest.length ≤ ts.length)
    (hitem : Encloses closers item item') :
    Encloses closers (items separator item) (items separator item') := by
  intro ts vs xs rest h hread
  obtain ⟨⟨x, ts'⟩, hx, hread⟩ := bind_eq_ok hread
  obtain ⟨⟨xs', rest⟩, hxs, hread⟩ := bind_eq_ok hread
  cases hread
  obtain ⟨vs', hvs', hx'⟩ := hitem h hx
  have hle : ts'.length ≤ vs'.length := by
    rw [hvs'.length_eq]
    omega
  obtain ⟨rest', hrest', hxs'⟩ :=
    encloses_moreItems hclose hseparator hshorter hitem (Nat.le_refl _) hle hvs' hxs
  refine ⟨rest', hrest', ?_⟩
  rw [items, hx']
  simp only [bind, Except.bind, hxs']
  rfl

/-- Where the closing token could be taken for one of the brackets behind the list, there is an item
in front of it. -/
theorem encloses_closedItems (close : Token) (stop stop' : Nat)
    (hlength : ∀ x ts rest, item ts = .ok (x, rest) → ts ≠ [] ∧ rest.length ≤ ts.length)
    (hitem : Encloses closers item item') :
    Encloses closers (closedItems close stop item) (closedItems close stop' item') := by
  intro ts vs xs rest h hread
  rw [closedItems] at hread
  split at hread
  next hnext =>
    obtain ⟨o, ts, rfl⟩ := nextIs_eq_true hnext
    cases hread
    obtain ⟨o', vs, rfl, htail⟩ := h.exists_cons
    exact ⟨vs, htail, if_pos (by simp [nextIs, peek?])⟩
  next hnext =>
    obtain ⟨⟨xs', ts'⟩, hxs, hread⟩ := bind_eq_ok hread
    obtain ⟨⟨_, rest'⟩, hexpect, hread⟩ := bind_eq_ok hread
    cases hread
    obtain ⟨⟨x, _⟩, hfirst, -⟩ := bind_eq_ok hxs
    obtain ⟨vs', hvs', hxs'⟩ := encloses_items hclose (by decide)
      (fun x ts rest hx => (hlength x ts rest hx).2) hitem h hxs
    obtain ⟨rest', hrest', hexpect'⟩ := encloses_expect stop stop' close hvs' hexpect
    refine ⟨rest', hrest', ?_⟩
    rw [closedItems, h.nextIs_eq hclose (.inl (hlength x ts _ hfirst).1), if_neg hnext]
    simp only [bind, Except.bind, hxs', hexpect']

end Lists

/-! ## Types, given readers of atoms -/

/-- Reads a type between marks, of which those in front are known. -/
def unmarked (atom : Reader Node) (marks : Modifiers) : Reader Node := fun ts =>
  if marks.repeatable && !startsType ts && !nextIs .question ts then .ok (.any, ts)
  else union atom ts

omit hclose in
theorem modified_eq (atom : Reader Node) (ts : List Lexeme) : modified atom ts =
    (unmarked atom (leadingMarks {} ts).1 (leadingMarks {} ts).2).map fun (node, ts') =>
      ((node, (trailingMarks (leadingMarks {} ts).1 ts').1),
        (trailingMarks (leadingMarks {} ts).1 ts').2) := by
  rw [modified, unmarked]
  dsimp only
  split
  · rfl
  · rcases union atom (leadingMarks {} ts).2 with _ | ⟨node, ts'⟩ <;> rfl

section Types

variable {atom atom' : Reader Node}
  (hparses : ∀ node ts rest, atom ts = .ok (node, rest) → Parses (.atom node) ts rest)
  (hatom : Encloses closers atom atom')
include hatom

theorem encloses_member : Encloses closers (member atom) (member atom') := by
  intro ts vs node rest h hread
  obtain ⟨⟨node', ts'⟩, hnode, hread⟩ := bind_eq_ok hread
  cases hread
  obtain ⟨hmarks, hts⟩ := takesMarks_member.encloses hclose h {}
  obtain ⟨rest', hrest', hnode'⟩ := hatom hts hnode
  refine ⟨rest', hrest', ?_⟩
  rw [member]
  simp only [bind, Except.bind, hnode', hmarks]
  rfl

include hparses

theorem encloses_union : Encloses closers (union atom) (union atom') := by
  intro ts vs node rest h hread
  obtain ⟨⟨members, ts'⟩, hmembers, hread⟩ := bind_eq_ok hread
  have hshorter : ∀ x ts rest, member atom ts = .ok (x, rest) → rest.length ≤ ts.length :=
    fun x ts rest hx => (parses_member hparses hx).suffix.length_le
  obtain ⟨vs', hvs', hmembers'⟩ :=
    encloses_items hclose (by decide) hshorter (encloses_member hclose hatom) h hmembers
  rw [union, hmembers']
  rcases members with _ | ⟨first, _ | ⟨second, members⟩⟩ <;>
  · cases hread
    exact ⟨vs', hvs', rfl⟩

theorem encloses_unmarked (marks : Modifiers) :
    Encloses closers (unmarked atom marks) (unmarked atom' marks) := by
  intro ts vs node rest h hread
  rw [unmarked, ← h.startsType_eq hclose, ← h.nextIs_eq hclose (.inr (by decide))] at hread
  rw [unmarked]
  split at hread
  next hdots =>
    cases hread
    exact ⟨vs, h, if_pos hdots⟩
  next hdots =>
    rw [if_neg hdots]
    exact encloses_union hclose hparses hatom h hread

theorem encloses_modified : Encloses closers (modified atom) (modified atom') := by
  intro ts vs result rest h hread
  obtain ⟨hmarks, hts⟩ := takesMarks_leading.encloses hclose h {}
  rw [modified_eq] at hread
  obtain ⟨⟨node, ts'⟩, hnode, hread⟩ := map_eq_ok hread
  cases hread
  obtain ⟨vs', hvs', hnode'⟩ := encloses_unmarked hclose hparses hatom _ hts hnode
  obtain ⟨htrailing, hrest⟩ :=
    takesMarks_trailing.encloses hclose hvs' (leadingMarks {} ts).1
  refine ⟨_, hrest, ?_⟩
  rw [modified_eq, hmarks, hnode', Except.map]
  dsimp only
  rw [htrailing]

theorem encloses_inner : Encloses closers (inner atom) (inner atom') := by
  intro ts vs node rest h hread
  obtain ⟨⟨⟨node', marks⟩, ts'⟩, hmodified, hread⟩ := bind_eq_ok hread
  cases hread
  obtain ⟨rest', hrest', hmodified'⟩ := encloses_modified hclose hparses hatom h hmodified
  refine ⟨rest', hrest', ?_⟩
  rw [inner, hmodified']
  rfl

end Types

/-! ## Atoms, given readers of types -/

section Atoms

variable {type type' : Reader Node} {stop stop' : Nat}
  (hparses : ∀ node ts rest, type ts = .ok (node, rest) → Parses (.type node) ts rest)
  (htype : Encloses closers type type')

omit hclose in
theorem length_of_parses {phrase : Phrase} {ts rest : List Lexeme} (h : Parses phrase ts rest) :
    ts ≠ [] ∧ rest.length ≤ ts.length := by
  obtain ⟨front, last, rfl, -⟩ := h.leaves
  exact ⟨by simp, h.suffix.length_le⟩

theorem InFrontOf.ne_first {ts vs : List Lexeme} (h : InFrontOf closers ts vs) {first : Token}
    (hfirst : first ∉ closing)
    (hne : ∀ more, ts.map Lexeme.token ≠ first :: more) (more : List Token) :
    vs.map Lexeme.token ≠ first :: more := by
  rcases ts with _ | ⟨lexeme, ts⟩
  · obtain ⟨closer, offset, vs, rfl, htoken⟩ := h.exists_nil hclose
    intro heq
    have hcloser : closer = first := (List.cons_eq_cons.1 heq).1
    exact hfirst (hcloser ▸ htoken)
  · obtain ⟨offset, vs, rfl, -⟩ := h.exists_cons
    intro heq
    refine hne (ts.map Lexeme.token) ?_
    rw [List.map_cons, show lexeme.token = first from (List.cons_eq_cons.1 heq).1]

/-- The next two tokens are no pair that they were not before. -/
theorem InFrontOf.ne_pair {ts vs : List Lexeme} (h : InFrontOf closers ts vs) {first second : Token}
    (hfirst : first ∉ closing) (hsecond : second ∉ closing)
    (hne : ∀ more, ts.map Lexeme.token ≠ first :: second :: more) (more : List Token) :
    vs.map Lexeme.token ≠ first :: second :: more := by
  rcases ts with _ | ⟨lexeme, ts⟩
  · exact h.ne_first hclose hfirst nofun (second :: more)
  · obtain ⟨offset, vs, rfl, htail⟩ := h.exists_cons
    intro heq
    obtain ⟨hlexeme, hrest⟩ := List.cons_eq_cons.1 heq
    refine htail.ne_first hclose hsecond (fun more' hts => hne more' ?_) more hrest
    rw [List.map_cons, hts, show lexeme.token = first from hlexeme]

omit hclose in
/-- Without type parameters or a pair of brackets, nothing more belongs to an atom. -/
theorem atomTail_of_ne {n : Nat} {node : Node} {vs : List Lexeme}
    (hangle : ∀ more, vs.map Lexeme.token ≠ .langle :: more)
    (hbracket : ∀ more, vs.map Lexeme.token ≠ .lbracket :: .rbracket :: more) :
    atomTail stop type n node vs = .ok (node, vs) := by
  rcases n with _ | n
  · rfl
  · unfold atomTail
    split
    · exact absurd rfl (hangle _)
    · exact absurd rfl (hbracket _)
    · rfl

section Given

include htype

theorem encloses_param : Encloses closers (param type) (param type') := by
  intro ts vs p rest h hread
  rcases param_cases hread with ⟨o, o', ts, node, rfl, rfl, hnode⟩ |
    ⟨o, o', ts, node, rfl, rfl, hnode⟩ | ⟨hne, node, rfl, hnode⟩
  iterate 2
    obtain ⟨o₁, vs, rfl, htail⟩ := h.exists_cons
    obtain ⟨o₂, vs, rfl, hnext⟩ := htail.exists_cons
    obtain ⟨rest', hrest', hnode'⟩ := htype hnext hnode
    refine ⟨rest', hrest', ?_⟩
    simp only [param, bind, Except.bind, hnode']
    rfl
  obtain ⟨rest', hrest', hnode'⟩ := htype h hnode
  refine ⟨rest', hrest', ?_⟩
  rw [param_of_ne fun word hword =>
    h.ne_pair hclose (by simp [closing]) (by decide) (hne word hword), hnode']
  rfl

include hparses

theorem encloses_paramList :
    Encloses closers (paramList stop type) (paramList stop' type') := by
  rw [paramList_eq, paramList_eq]
  exact encloses_closedItems hclose .rparen stop stop'
    (fun _ _ _ hx => length_of_parses (parses_param hparses hx)) (encloses_param hclose htype)

omit hparses in
theorem encloses_returning (ps : List Param) :
    Encloses closers (returning type ps) (returning type' ps) := by
  intro ts vs node rest h hread
  rw [returning, h.nextIs_eq hclose (.inr (by decide))]
  rw [returning] at hread
  split at hread
  next hnext =>
    obtain ⟨o, ts, rfl⟩ := nextIs_eq_true hnext
    obtain ⟨⟨result, rest⟩, hresult, hread⟩ := bind_eq_ok hread
    cases hread
    obtain ⟨o', vs, rfl, htail⟩ := h.exists_cons
    obtain ⟨rest', hrest', hresult'⟩ := htype htail hresult
    refine ⟨rest', hrest', ?_⟩
    rw [if_pos hnext, List.tail_cons, hresult']
    rfl
  next hnext =>
    cases hread
    exact ⟨vs, h, if_neg hnext⟩

theorem encloses_function : Encloses closers (function stop type) (function stop' type') := by
  intro ts vs node rest h hread
  rw [function_eq] at hread
  obtain ⟨⟨_, ts'⟩, hparen, hread⟩ := bind_eq_ok hread
  obtain ⟨⟨ps, ts''⟩, hps, hreturning⟩ := bind_eq_ok hread
  obtain ⟨vs', hvs', hparen'⟩ := encloses_expect stop stop' .lparen h hparen
  have hparams : Encloses closers (paramList stop type) (paramList stop' type') :=
    encloses_paramList hclose hparses htype
  obtain ⟨vs'', hvs'', hps'⟩ := hparams hvs' hps
  obtain ⟨rest', hrest', hreturning'⟩ := encloses_returning hclose htype ps hvs'' hreturning
  refine ⟨rest', hrest', ?_⟩
  rw [function_eq]
  simp only [bind, Except.bind, hparen', hps']
  exact hreturning'

omit hparses in
theorem encloses_field : Encloses closers (field stop type) (field stop' type') := by
  intro ts vs f rest h hread
  obtain ⟨token, o, ts, key, rfl, hkey, hcases⟩ := field_cases hread
  obtain ⟨o₁, vs, rfl, htail⟩ := h.exists_cons
  rw [field_cons hkey, htail.nextIs_eq hclose (.inr (by decide))]
  rcases hcases with ⟨o', ts, node, rfl, rfl, hnode⟩ | ⟨hnext, rfl, rfl⟩
  · obtain ⟨o₂, vs, rfl, hbehind⟩ := htail.exists_cons
    obtain ⟨rest', hrest', hnode'⟩ := htype hbehind hnode
    refine ⟨rest', hrest', ?_⟩
    rw [if_pos (by simp [nextIs, peek?]), List.tail_cons, hnode']
    rfl
  · exact ⟨vs, htail, if_neg (by simp [hnext])⟩

theorem encloses_record : Encloses closers (record stop type) (record stop' type') := by
  intro ts vs node rest h hread
  rw [record_eq] at hread ⊢
  obtain ⟨⟨fields, rest⟩, hfields, hread⟩ := map_eq_ok hread
  cases hread
  obtain ⟨rest', hrest', hfields'⟩ := encloses_closedItems hclose .rbrace stop stop'
    (fun _ _ _ hx => length_of_parses (parses_field hparses hx)) (encloses_field hclose htype) h
    hfields
  rw [hfields']
  exact ⟨rest', hrest', rfl⟩

theorem encloses_atomHead : Encloses closers (atomHead stop type) (atomHead stop' type') := by
  intro ts vs node rest h hread
  rcases ts with _ | ⟨⟨token, o⟩, ts⟩
  · cases hread
  obtain ⟨o', vs, rfl, htail⟩ := h.exists_cons
  unfold atomHead at hread ⊢
  dsimp only at hread ⊢
  split at hread
  next =>
    obtain ⟨⟨node', ts'⟩, hnode, hread⟩ := bind_eq_ok hread
    obtain ⟨⟨_, rest'⟩, hparen, hread⟩ := bind_eq_ok hread
    cases hread
    obtain ⟨vs', hvs', hnode'⟩ := htype htail hnode
    obtain ⟨rest', hrest', hparen'⟩ := encloses_expect stop stop' .rparen hvs' hparen
    refine ⟨rest', hrest', ?_⟩
    simp only [bind, Except.bind, hnode', hparen']
    rfl
  next =>
    cases hread
    exact ⟨vs, htail, rfl⟩
  next =>
    cases hread
    exact ⟨vs, htail, rfl⟩
  next => exact encloses_record hclose hparses htype htail hread
  next text =>
    rw [htail.nextIs_eq hclose (.inr (by decide))]
    split at hread
    next hfunction =>
      rw [if_pos hfunction]
      exact encloses_function hclose hparses htype htail hread
    next hname =>
      cases hread
      exact ⟨vs, htail, if_neg hname⟩
  next =>
    cases hread
    exact ⟨vs, htail, rfl⟩
  next => cases hread

theorem encloses_atomTail {n n' : Nat} {node node' : Node} {ts vs rest : List Lexeme}
    (hn : ts.length ≤ n) (hn' : ts.length ≤ n') (h : InFrontOf closers ts vs)
    (hread : atomTail stop type n node ts = .ok (node', rest)) :
    ∃ rest', InFrontOf closers rest rest' ∧
      atomTail stop' type' n' node vs = .ok (node', rest') := by
  fun_induction atomTail stop type n node ts generalizing n' vs with
  | case1 node ts =>
    cases hread
    obtain rfl := List.length_eq_zero_iff.mp (Nat.le_zero.mp hn)
    have hnil (first : Token) (more : List Token) : [].map Lexeme.token ≠ first :: more :=
      (List.cons_ne_nil first more).symm
    exact ⟨vs, h, atomTail_of_ne (h.ne_first hclose (by decide) (hnil _))
      (h.ne_pair hclose (by decide) (by decide) fun more => hnil _ (_ :: more))⟩
  | case2 n offset ts base ih =>
    obtain ⟨⟨params, ts'⟩, hparams, hread⟩ := bind_eq_ok hread
    obtain ⟨⟨_, ts''⟩, hexpect, hread⟩ := bind_eq_ok hread
    obtain ⟨o, vs, rfl, htail⟩ := h.exists_cons
    obtain ⟨vs', hvs', hparams'⟩ := encloses_items hclose (by decide)
      (fun x ts rest hx => (length_of_parses (hparses x ts rest hx)).2) htype htail hparams
    obtain ⟨vs'', hvs'', hexpect'⟩ := encloses_expect stop stop' .rangle hvs' hexpect
    have hlength := (length_of_parses (parses_types hparses hparams)).2
    obtain ⟨o', rfl⟩ := expect_eq_ok hexpect
    simp only [List.length_cons] at hn hn' hlength
    obtain ⟨m, rfl⟩ : ∃ m, n' = m + 1 := ⟨n' - 1, by omega⟩
    have hm : ts''.length ≤ m := by omega
    obtain ⟨rest', hrest', hread'⟩ := ih _ _ (by omega) hm hvs'' hread
    refine ⟨rest', hrest', ?_⟩
    simp only [atomTail, bind, Except.bind, hparams', hexpect', hread']
  | case3 => cases hread
  | case4 n node offset offset' ts ih =>
    obtain ⟨o, vs, rfl, htail⟩ := h.exists_cons
    obtain ⟨o', vs, rfl, hbehind⟩ := htail.exists_cons
    simp only [List.length_cons] at hn hn'
    obtain ⟨m, rfl⟩ : ∃ m, n' = m + 1 := ⟨n' - 1, by omega⟩
    have hm : ts.length ≤ m := by omega
    obtain ⟨rest', hrest', hread'⟩ := ih (by omega) hm hbehind hread
    exact ⟨rest', hrest', by rw [atomTail, hread']⟩
  | case5 n node ts hangle hbracket =>
    cases hread
    refine ⟨vs, h, atomTail_of_ne (h.ne_first hclose (by decide) fun more hts => ?_)
      (h.ne_pair hclose (by decide) (by decide) fun more hts => ?_)⟩
    · obtain ⟨o, ts, rfl, -⟩ := map_token_eq_cons hts
      exact hangle _ _ rfl
    · obtain ⟨o, ts, rfl, htail⟩ := map_token_eq_cons hts
      obtain ⟨o', ts, rfl, -⟩ := map_token_eq_cons htail
      exact hbracket _ _ _ rfl

end Given

end Atoms

/-! ## The grammar -/

/-- With enough levels an atom is read in front of a bracket as it is read at the end. -/
theorem encloses_atom {stop stop' n n' : Nat} (hn : n ≤ n') :
    Encloses closers (atom stop n) (atom stop' n') := by
  induction n generalizing n' with
  | zero =>
    intro ts vs node rest h hread
    cases hread
  | succ n ih =>
    obtain ⟨m, rfl⟩ : ∃ m, n' = m + 1 := ⟨n' - 1, by omega⟩
    intro ts vs node rest h hread
    have hparses : ∀ node ts rest, inner (atom stop n) ts = .ok (node, rest) →
        Parses (.type node) ts rest := fun _ _ _ h => parses_inner h
    have htype : Encloses closers (inner (atom stop n)) (inner (atom stop' m)) :=
      encloses_inner hclose (fun _ _ _ h => parses_atom h) (ih (by omega))
    rw [atom] at hread
    obtain ⟨⟨head, ts'⟩, hhead, htail⟩ := bind_eq_ok hread
    have henclosed : Encloses closers (atomHead stop (inner (atom stop n)))
        (atomHead stop' (inner (atom stop' m))) := encloses_atomHead hclose hparses htype
    obtain ⟨vs', hvs', hhead'⟩ := henclosed h hhead
    have hlength : ts'.length ≤ vs'.length := by
      rw [hvs'.length_eq]
      omega
    obtain ⟨rest', hrest', htail' : atomTail stop' _ _ _ _ = _⟩ :=
      encloses_atomTail hclose hparses htype (Nat.le_refl _) hlength hvs' htail
    refine ⟨rest', hrest', ?_⟩
    rw [atom]
    simp only [bind, Except.bind, hhead']
    exact htail'

end Enclosed

/-- What is read as a type, all of it, is read as that type in front of a closing bracket. -/
theorem Reads.enclosed {text : String} {node : Node} {ts vs : List Lexeme} {closers : List Token}
    (h : Reads text node) (hlex : lex text = .ok ts) (hclose : Closes closers)
    (hvs : vs.map Lexeme.token = ts.map Lexeme.token ++ closers) {n : Nat} (hn : ts.length ≤ n)
    (stop : Nat) :
    ∃ rest, rest.map Lexeme.token = closers ∧ inner (atom stop n) vs = .ok (node, rest) := by
  obtain ⟨ts', hlex', hread⟩ := h
  obtain rfl : ts = ts' := Except.ok.inj (hlex.symm.trans hlex')
  exact encloses_inner hclose (fun _ _ _ h => parses_atom h) (encloses_atom hclose hn) hvs hread

end Commentary.TypeExpr
