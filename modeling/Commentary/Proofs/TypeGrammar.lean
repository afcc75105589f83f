import Commentary.Proofs.TypeReaders

/-!
# The grammar of types

The grammar that the readers follow, as a relation: which phrase is read off the front of a list of
lexemes, and what it leaves (`Parses`). Every successful reading has a derivation behind it
(`parses_inner`), and what holds of all readings is shown once, by induction on derivations. Here
this is that the types read are well formed, if the lexemes are (`Parses.isFormed`).
-/

namespace Commentary.TypeExpr

open Commentary.Text

/-- What can be read off a list of lexemes. -/
inductive Phrase where
  | atom (node : Node)
  | member (node : Node)
  | members (nodes : List Node)
  | type (node : Node)
  | types (nodes : List Node)
  | param (param : Param)
  | params (params : List Param)
  | paramList (params : List Param)
  | field (field : Field)
  | fields (fields : List Field)

/-- Off the front of some lexemes a phrase is read, and others are left. -/
inductive Parses : Phrase → List Lexeme → List Lexeme → Prop
  | name {text : String} {o : Nat} {rest : List Lexeme}
      (h : text = "function" → nextIs .lparen rest = false) :
      Parses (.atom (.name text)) (⟨.name text, o⟩ :: rest) rest
  | literal {text : String} {o : Nat} {rest : List Lexeme} :
      Parses (.atom (.name text)) (⟨.literal text, o⟩ :: rest) rest
  | any {o : Nat} {rest : List Lexeme} : Parses (.atom .any) (⟨.star, o⟩ :: rest) rest
  | unknown {o : Nat} {rest : List Lexeme} : Parses (.atom .unknown) (⟨.question, o⟩ :: rest) rest
  | group {node : Node} {o o' : Nat} {ts rest : List Lexeme}
      (h : Parses (.type node) ts (⟨.rparen, o'⟩ :: rest)) :
      Parses (.atom node) (⟨.lparen, o⟩ :: ts) rest
  | emptyRecord {o o' : Nat} {rest : List Lexeme} :
      Parses (.atom (.record [])) (⟨.lbrace, o⟩ :: ⟨.rbrace, o'⟩ :: rest) rest
  | record {fields : List Field} {o o' : Nat} {ts rest : List Lexeme}
      (h : Parses (.fields fields) ts (⟨.rbrace, o'⟩ :: rest)) :
      Parses (.atom (.record fields)) (⟨.lbrace, o⟩ :: ts) rest
  | function {ps : List Param} {o o' : Nat} {ts rest : List Lexeme}
      (h : Parses (.paramList ps) ts rest) (hcolon : nextIs .colon rest = false) :
      Parses (.atom (.function (receiverOf ps) (ordinaryOf ps) none))
        (⟨.name "function", o⟩ :: ⟨.lparen, o'⟩ :: ts) rest
  | returning {ps : List Param} {node : Node} {o o' c : Nat} {ts ts' rest : List Lexeme}
      (h : Parses (.paramList ps) ts (⟨.colon, c⟩ :: ts')) (hnode : Parses (.type node) ts' rest) :
      Parses (.atom (.function (receiverOf ps) (ordinaryOf ps) (some node)))
        (⟨.name "function", o⟩ :: ⟨.lparen, o'⟩ :: ts) rest
  | generic {base : String} {params : List Node} {o o' : Nat} {ts ts' rest : List Lexeme}
      (h : Parses (.atom (.name base)) ts (⟨.langle, o⟩ :: ts'))
      (hparams : Parses (.types params) ts' (⟨.rangle, o'⟩ :: rest)) :
      Parses (.atom (.generic (genericBase base) params)) ts rest
  | array {node : Node} {o o' : Nat} {ts rest : List Lexeme}
      (h : Parses (.atom node) ts (⟨.lbracket, o⟩ :: ⟨.rbracket, o'⟩ :: rest)) :
      Parses (.atom (.generic "Array" [node])) ts rest
  | member {node : Node} {marks : Modifiers} {ts ts' rest : List Lexeme}
      (hmarks : memberMarks {} ts = (marks, ts')) (h : Parses (.atom node) ts' rest) :
      Parses (.member (node.withModifiers marks)) ts rest
  | lastMember {node : Node} {ts rest : List Lexeme} (h : Parses (.member node) ts rest)
      (hpipe : nextIs .pipe rest = false) : Parses (.members [node]) ts rest
  | nextMember {node : Node} {nodes : List Node} {o : Nat} {ts ts' rest : List Lexeme}
      (h : Parses (.member node) ts (⟨.pipe, o⟩ :: ts'))
      (hmore : Parses (.members nodes) ts' rest) :
      Parses (.members (node :: nodes)) ts rest
  | single {node : Node} {marks marks' : Modifiers} {ts ts' ts'' rest : List Lexeme}
      (hleading : leadingMarks {} ts = (marks, ts')) (h : Parses (.members [node]) ts' ts'')
      (htrailing : trailingMarks marks ts'' = (marks', rest)) :
      Parses (.type (node.withModifiers marks')) ts rest
  | union {nodes : List Node} {marks marks' : Modifiers} {ts ts' ts'' rest : List Lexeme}
      (hleading : leadingMarks {} ts = (marks, ts')) (h : Parses (.members nodes) ts' ts'')
      (hmany : 2 ≤ nodes.length) (htrailing : trailingMarks marks ts'' = (marks', rest)) :
      Parses (.type ((Node.union nodes).withModifiers marks')) ts rest
  | dots {marks marks' : Modifiers} {ts ts' rest : List Lexeme}
      (hleading : leadingMarks {} ts = (marks, ts')) (hrepeatable : marks.repeatable = true)
      (hstart : startsType ts' = false) (hquestion : nextIs .question ts' = false)
      (htrailing : trailingMarks marks ts' = (marks', rest)) :
      Parses (.type (Node.any.withModifiers marks')) ts rest
  | lastType {node : Node} {ts rest : List Lexeme} (h : Parses (.type node) ts rest) :
      Parses (.types [node]) ts rest
  | nextType {node : Node} {nodes : List Node} {o : Nat} {ts ts' rest : List Lexeme}
      (h : Parses (.type node) ts (⟨.comma, o⟩ :: ts')) (hmore : Parses (.types nodes) ts' rest) :
      Parses (.types (node :: nodes)) ts rest
  | constructed {node : Node} {o o' : Nat} {ts rest : List Lexeme}
      (h : Parses (.type node) ts rest) :
      Parses (.param (.receiver (.constructed node))) (⟨.name "new", o⟩ :: ⟨.colon, o'⟩ :: ts) rest
  | bound {node : Node} {o o' : Nat} {ts rest : List Lexeme} (h : Parses (.type node) ts rest) :
      Parses (.param (.receiver (.bound node))) (⟨.name "this", o⟩ :: ⟨.colon, o'⟩ :: ts) rest
  | ordinary {node : Node} {ts rest : List Lexeme}
      (hne : ∀ word ∈ ["new", "this"], ∀ more, ts.map Lexeme.token ≠ .name word :: .colon :: more)
      (h : Parses (.type node) ts rest) : Parses (.param (.ordinary node)) ts rest
  | lastParam {p : Param} {ts rest : List Lexeme} (h : Parses (.param p) ts rest) :
      Parses (.params [p]) ts rest
  | nextParam {p : Param} {ps : List Param} {o : Nat} {ts ts' rest : List Lexeme}
      (h : Parses (.param p) ts (⟨.comma, o⟩ :: ts')) (hmore : Parses (.params ps) ts' rest) :
      Parses (.params (p :: ps)) ts rest
  | noParams {o : Nat} {rest : List Lexeme} : Parses (.paramList []) (⟨.rparen, o⟩ :: rest) rest
  | someParams {ps : List Param} {o : Nat} {ts rest : List Lexeme}
      (h : Parses (.params ps) ts (⟨.rparen, o⟩ :: rest)) : Parses (.paramList ps) ts rest
  | bare {key : String} {token : Token} {o : Nat} {rest : List Lexeme}
      (hkey : token = .name key ∨ token = .literal key) (hcolon : nextIs .colon rest = false) :
      Parses (.field (.bare key)) (⟨token, o⟩ :: rest) rest
  | typed {key : String} {token : Token} {node : Node} {o o' : Nat} {ts rest : List Lexeme}
      (hkey : token = .name key ∨ token = .literal key) (h : Parses (.type node) ts rest) :
      Parses (.field (.typed key node)) (⟨token, o⟩ :: ⟨.colon, o'⟩ :: ts) rest
  | lastField {f : Field} {ts rest : List Lexeme} (h : Parses (.field f) ts rest) :
      Parses (.fields [f]) ts rest
  | nextField {f : Field} {fs : List Field} {o : Nat} {ts ts' rest : List Lexeme}
      (h : Parses (.field f) ts (⟨.comma, o⟩ :: ts')) (hmore : Parses (.fields fs) ts' rest) :
      Parses (.fields (f :: fs)) ts rest

/-! ## Readings have derivations -/

theorem bind_eq_ok {α β : Type} {x : Except Error α} {f : α → Except Error β} {b : β}
    (h : x.bind f = .ok b) : ∃ a, x = .ok a ∧ f a = .ok b := by
  cases x with
  | error => cases h
  | ok a => exact ⟨a, rfl, h⟩

theorem map_eq_ok {α β : Type} {x : Except Error α} {f : α → β} {b : β}
    (h : x.map f = .ok b) : ∃ a, x = .ok a ∧ f a = b := by
  cases x with
  | error => cases h
  | ok a => exact ⟨a, rfl, Except.ok.inj h⟩

theorem nextIs_eq_true {token : Token} {ts : List Lexeme} (h : nextIs token ts = true) :
    ∃ o ts', ts = ⟨token, o⟩ :: ts' := by
  rw [nextIs, beq_iff_eq] at h
  rcases ts with _ | ⟨⟨_, o⟩, ts'⟩
  · cases h
  · obtain rfl := Option.some.inj h
    exact ⟨o, ts', rfl⟩

theorem expect_eq_ok {stop : Nat} {token : Token} {ts rest : List Lexeme} {u : Unit}
    (h : expect stop token ts = .ok (u, rest)) : ∃ o, ts = ⟨token, o⟩ :: rest := by
  rw [expect] at h
  split at h
  next hnext =>
    obtain ⟨o, ts', rfl⟩ := nextIs_eq_true hnext
    cases h
    exact ⟨o, rfl⟩
  next => cases h

/-- What a mark sets. -/
def Modifiers.mark? (m : Modifiers) : Token → Option Modifiers
  | .ellipsis => some { m with repeatable := true }
  | .question => some { m with nullable := some true }
  | .bang => some { m with nullable := some false }
  | .equals => some { m with optional := true }
  | _ => none

/-- Some marks are taken off the front of some lexemes, and others are left. -/
inductive Marking : Modifiers → List Lexeme → Modifiers → List Lexeme → Prop
  | done {m : Modifiers} {ts : List Lexeme} : Marking m ts m ts
  | mark {m m' m'' : Modifiers} {lexeme : Lexeme} {ts ts' : List Lexeme}
      (h : m.mark? lexeme.token = some m') (more : Marking m' ts m'' ts') :
      Marking m (lexeme :: ts) m'' ts'

section Marks

variable {m m' : Modifiers} {ts ts' : List Lexeme}

/-- What sets marks only as their tokens say takes these tokens off the front. -/
theorem TakesMarks.marking {take : Modifiers → Token → Bool → Option Modifiers}
    {marks : Modifiers → List Lexeme → Modifiers × List Lexeme} (htakes : TakesMarks take marks)
    (hmark : ∀ {m m' : Modifiers} {token : Token} {starts : Bool},
      take m token starts = some m' → m.mark? token = some m')
    (h : marks m ts = (m', ts')) : Marking m ts m' ts' := by
  induction ts generalizing m with
  | nil =>
    rw [htakes.nil] at h
    cases h
    exact .done
  | cons lexeme ts ih =>
    rw [htakes.cons] at h
    split at h
    next htake => exact .mark (hmark htake) (ih h)
    next =>
      cases h
      exact .done

theorem mark?_of_takeLeading {token : Token} {starts : Bool}
    (h : takeLeading m token starts = some m') : m.mark? token = some m' := by
  cases token <;> cases starts <;> first | exact h | cases h

theorem mark?_of_takeMember {token : Token} {starts : Bool}
    (h : takeMember m token starts = some m') : m.mark? token = some m' := by
  cases token <;> cases starts <;> first | exact h | cases h

theorem mark?_of_takeTrailing {token : Token} {starts : Bool}
    (h : takeTrailing m token starts = some m') : m.mark? token = some m' := by
  cases token <;> first | exact h | cases h

theorem marking_of_leadingMarks (h : leadingMarks m ts = (m', ts')) : Marking m ts m' ts' :=
  takesMarks_leading.marking mark?_of_takeLeading h

theorem marking_of_memberMarks (h : memberMarks m ts = (m', ts')) : Marking m ts m' ts' :=
  takesMarks_member.marking mark?_of_takeMember h

theorem marking_of_trailingMarks (h : trailingMarks m ts = (m', ts')) : Marking m ts m' ts' :=
  takesMarks_trailing.marking mark?_of_takeTrailing h

end Marks

/-- Some lexemes are taken and others are left. The last one that is taken is no colon, since there
is always a type behind a colon. -/
def Leaves (ts rest : List Lexeme) : Prop :=
  ∃ front last, ts = front ++ last :: rest ∧ last.token ≠ .colon

namespace Leaves

variable {ts ts' rest : List Lexeme} {lexeme : Lexeme}

theorem one (h : lexeme.token ≠ .colon) : Leaves (lexeme :: rest) rest := ⟨[], lexeme, rfl, h⟩

theorem cons (h : Leaves ts rest) (lexeme : Lexeme) : Leaves (lexeme :: ts) rest := by
  obtain ⟨front, last, rfl, hlast⟩ := h
  exact ⟨lexeme :: front, last, rfl, hlast⟩

theorem trans (h : Leaves ts ts') (h' : Leaves ts' rest) : Leaves ts rest := by
  obtain ⟨front, last, rfl, -⟩ := h
  obtain ⟨front', last', rfl, hlast⟩ := h'
  exact ⟨front ++ last :: front', last', by simp, hlast⟩

/-- One more is taken. -/
theorem more (h : Leaves ts (lexeme :: rest)) (hlexeme : lexeme.token ≠ .colon) : Leaves ts rest :=
  h.trans (one hlexeme)

/-- A colon is taken with what follows it. -/
theorem skip (h : Leaves ts (lexeme :: ts')) (h' : Leaves ts' rest) : Leaves ts rest :=
  h.trans (h'.cons lexeme)

theorem suffix (h : Leaves ts rest) : rest <:+ ts := by
  obtain ⟨front, last, rfl, -⟩ := h
  exact (List.suffix_cons last rest).trans (List.suffix_append front _)

end Leaves

/-- Marks are none, or they are taken. -/
theorem Marking.leaves {m m' : Modifiers} {ts ts' : List Lexeme} (h : Marking m ts m' ts') :
    m' = m ∧ ts' = ts ∨ Leaves ts ts' := by
  induction h with
  | done => exact .inl ⟨rfl, rfl⟩
  | @mark _ _ _ lexeme _ _ h _ ih =>
    have hone : lexeme.token ≠ .colon := by
      intro hcolon
      rw [hcolon] at h
      cases h
    right
    rcases ih with ⟨-, rfl⟩ | ih
    · exact .one hone
    · exact ih.cons lexeme

theorem Marking.suffix {m m' : Modifiers} {ts ts' : List Lexeme} (h : Marking m ts m' ts') :
    ts' <:+ ts := by
  rcases h.leaves with ⟨-, rfl⟩ | h
  · exact List.suffix_refl _
  · exact h.suffix

theorem Marking.leaves_front {m m' : Modifiers} {ts ts' rest : List Lexeme}
    (h : Marking m ts m' ts') (hrest : Leaves ts' rest) : Leaves ts rest := by
  rcases h.leaves with ⟨-, rfl⟩ | h
  · exact hrest
  · exact h.trans hrest

theorem Marking.leaves_back {m m' : Modifiers} {ts ts' rest : List Lexeme}
    (h : Marking m ts' m' rest) (hts : Leaves ts ts') : Leaves ts rest := by
  rcases h.leaves with ⟨-, rfl⟩ | h
  · exact hts
  · exact hts.trans h

/-- What is read is taken off the front, and does not end in a colon. -/
theorem Parses.leaves {phrase : Phrase} {ts rest : List Lexeme} (h : Parses phrase ts rest) :
    Leaves ts rest := by
  induction h with
  | name | literal | any | unknown | noParams => exact .one nofun
  | emptyRecord =>
    refine .cons (.one ?_) _
    exact nofun
  | group _ ih | record _ ih => exact (ih.more nofun).cons _
  | function _ _ ih => exact (ih.cons _).cons _
  | returning _ _ ih ihnode => exact ((ih.skip ihnode).cons _).cons _
  | generic _ _ ih ihparams => exact ih.skip (ihparams.more nofun)
  | array _ ih => exact (ih.more nofun).more nofun
  | member hmarks _ ih => exact (marking_of_memberMarks hmarks).leaves_front ih
  | lastMember _ _ ih | lastType _ ih | lastParam _ ih | lastField _ ih => exact ih
  | ordinary _ _ ih => exact ih
  | nextMember _ _ ih ihmore | nextType _ _ ih ihmore | nextParam _ _ ih ihmore
    | nextField _ _ ih ihmore => exact ih.skip ihmore
  | single hleading _ htrailing ih | union hleading _ _ htrailing ih =>
    exact (marking_of_leadingMarks hleading).leaves_front
      ((marking_of_trailingMarks htrailing).leaves_back ih)
  | dots hleading hrepeatable _ _ htrailing =>
    refine (marking_of_trailingMarks htrailing).leaves_back ?_
    refine (marking_of_leadingMarks hleading).leaves.resolve_left ?_
    rintro ⟨rfl, -⟩
    cases hrepeatable
  | constructed _ ih | bound _ ih | typed _ _ ih => exact (ih.cons _).cons _
  | someParams _ ih => exact ih.more nofun
  | bare hkey => rcases hkey with rfl | rfl <;> exact .one nofun

theorem Parses.suffix {phrase : Phrase} {ts rest : List Lexeme} (h : Parses phrase ts rest) :
    rest <:+ ts := h.leaves.suffix

theorem suffix_of_cons {lexeme : Lexeme} {rest ts : List Lexeme} (h : lexeme :: rest <:+ ts) :
    rest <:+ ts := (List.suffix_cons lexeme rest).trans h

section Items

variable {α : Type} {separator : Token} {item : Reader α} {one : α → Phrase}
  {many : List α → Phrase}

/-- A list has a derivation, if its items have. -/
theorem parses_items
    (hitem : ∀ x ts rest, item ts = .ok (x, rest) → Parses (one x) ts rest)
    (hlast : ∀ x ts rest, Parses (one x) ts rest → nextIs separator rest = false →
      Parses (many [x]) ts rest)
    (hnext : ∀ x xs o ts ts' rest, Parses (one x) ts (⟨separator, o⟩ :: ts') →
      Parses (many xs) ts' rest → Parses (many (x :: xs)) ts rest)
    {xs : List α} {ts rest : List Lexeme} (h : items separator item ts = .ok (xs, rest)) :
    Parses (many xs) ts rest := by
  -- `n` is enough for all items to come, since each of them is taken behind a separator
  have hmore : ∀ (n : Nat) (x : α) (xs : List α) (ts ts' : List Lexeme), ts'.length ≤ n →
      Parses (one x) ts ts' → moreItems separator item n ts' = .ok (xs, rest) →
        Parses (many (x :: xs)) ts rest := by
    intro n
    induction n with
    | zero =>
      intro x xs ts ts' hn hx h
      obtain rfl := List.length_eq_zero_iff.mp (Nat.le_zero.mp hn)
      cases h
      exact hlast x ts [] hx rfl
    | succ n ih =>
      intro x xs ts ts' hn hx h
      rw [moreItems] at h
      split at h
      next hseparator =>
        obtain ⟨o, ts', rfl⟩ := nextIs_eq_true hseparator
        obtain ⟨⟨y, ts''⟩, hy, h⟩ := bind_eq_ok h
        obtain ⟨⟨ys, rest'⟩, hys, h⟩ := bind_eq_ok h
        cases h
        have hparse := hitem y ts' ts'' hy
        have hlength := hparse.suffix.length_le
        refine hnext x (y :: ys) o ts ts' rest hx (ih y ys ts' ts'' ?_ hparse hys)
        simp only [List.length_cons] at hn
        omega
      next hseparator =>
        cases h
        exact hlast x ts _ hx (by simpa using hseparator)
  obtain ⟨⟨x, ts'⟩, hx, h⟩ := bind_eq_ok h
  obtain ⟨⟨xs', rest'⟩, hxs, h⟩ := bind_eq_ok h
  cases h
  exact hmore _ x xs' ts ts' (Nat.le_refl _) (hitem x ts ts' hx) hxs

end Items

/-- A list up to a closing token is empty, or it holds items in front of that token. -/
theorem closedItems_cases {α : Type} {close : Token} {stop : Nat} {item : Reader α} {xs : List α}
    {ts rest : List Lexeme} (h : closedItems close stop item ts = .ok (xs, rest)) :
    (∃ o, xs = [] ∧ ts = ⟨close, o⟩ :: rest) ∨
      ∃ o, items .comma item ts = .ok (xs, ⟨close, o⟩ :: rest) := by
  rw [closedItems] at h
  split at h
  next hnext =>
    obtain ⟨o, ts, rfl⟩ := nextIs_eq_true hnext
    cases h
    exact .inl ⟨o, rfl, rfl⟩
  next =>
    obtain ⟨⟨xs', ts'⟩, hxs, h⟩ := bind_eq_ok h
    obtain ⟨⟨_, rest'⟩, hclose, h⟩ := bind_eq_ok h
    cases h
    obtain ⟨o, rfl⟩ := expect_eq_ok hclose
    exact .inr ⟨o, hxs⟩

section Readers

variable {atom : Reader Node} {type : Reader Node} {stop : Nat}

theorem parses_member
    (hatom : ∀ node ts rest, atom ts = .ok (node, rest) → Parses (.atom node) ts rest)
    {node : Node} {ts rest : List Lexeme} (h : member atom ts = .ok (node, rest)) :
    Parses (.member node) ts rest := by
  rw [member] at h
  rcases hmarks : memberMarks {} ts with ⟨marks, ts'⟩
  rw [hmarks] at h
  obtain ⟨⟨node', rest'⟩, hnode, h⟩ := bind_eq_ok h
  cases h
  exact .member hmarks (hatom _ _ _ hnode)

theorem parses_type
    (hatom : ∀ node ts rest, atom ts = .ok (node, rest) → Parses (.atom node) ts rest)
    {node : Node} {ts rest : List Lexeme} (h : inner atom ts = .ok (node, rest)) :
    Parses (.type node) ts rest := by
  rw [inner, modified] at h
  rcases hleading : leadingMarks {} ts with ⟨marks, ts'⟩
  rw [hleading] at h
  obtain ⟨⟨⟨inner, marks'⟩, rest'⟩, h, hnode⟩ := bind_eq_ok h
  cases hnode
  dsimp only at h
  split at h
  next hdots =>
    obtain ⟨⟨_, _⟩, hany, h⟩ := bind_eq_ok h
    cases hany
    simp only [Bool.and_eq_true, Bool.not_eq_true'] at hdots
    cases h
    exact .dots hleading hdots.1.1 hdots.1.2 hdots.2 rfl
  next hdots =>
    obtain ⟨⟨inner', ts''⟩, hunion, h⟩ := bind_eq_ok h
    cases h
    obtain ⟨⟨members, ts''⟩, hmembers, hunion⟩ := bind_eq_ok hunion
    have hparse : Parses (.members members) ts' ts'' := parses_items
      (fun _ _ _ h => parses_member hatom h) (fun _ _ _ h hpipe => .lastMember h hpipe)
      (fun _ _ _ _ _ _ h hmore => .nextMember h hmore) hmembers
    dsimp only at hunion
    split at hunion
    next =>
      cases hunion
      exact .single hleading hparse rfl
    next hmany =>
      cases hunion
      refine .union hleading hparse ?_ rfl
      rcases members with _ | ⟨a, _ | ⟨b, members⟩⟩
      · cases hparse
      · exact absurd rfl (hmany a)
      · simp

theorem field_cons {token : Token} {key : String} (hkey : token = .name key ∨ token = .literal key)
    (o : Nat) (ts : List Lexeme) : field stop type (⟨token, o⟩ :: ts) =
      if nextIs .colon ts then (type ts.tail).map fun (node, rest) => (.typed key node, rest)
      else .ok (.bare key, ts) := by
  rcases hkey with rfl | rfl <;>
  · simp only [field]
    split
    · rcases type ts.tail with _ | ⟨node, rest⟩ <;> rfl
    · rfl

/-- A field is a key with a colon and a type behind it, or a key alone. -/
theorem field_cases {f : Field} {ts rest : List Lexeme} (h : field stop type ts = .ok (f, rest)) :
    ∃ token o ts' key, ts = ⟨token, o⟩ :: ts' ∧ (token = .name key ∨ token = .literal key) ∧
      ((∃ o' ts'' node, ts' = ⟨.colon, o'⟩ :: ts'' ∧ f = .typed key node ∧
          type ts'' = .ok (node, rest)) ∨
        nextIs .colon ts' = false ∧ f = .bare key ∧ rest = ts') := by
  have hkey : ∃ token o ts' key, ts = ⟨token, o⟩ :: ts' ∧
      (token = .name key ∨ token = .literal key) := by
    rcases ts with _ | ⟨⟨token, o⟩, ts⟩
    · cases h
    · cases token with
      | name key => exact ⟨_, o, ts, key, rfl, .inl rfl⟩
      | literal key => exact ⟨_, o, ts, key, rfl, .inr rfl⟩
      | _ => cases h
  obtain ⟨token, o, ts, key, rfl, hkey⟩ := hkey
  refine ⟨token, o, ts, key, rfl, hkey, ?_⟩
  rw [field_cons hkey] at h
  split at h
  next hcolon =>
    obtain ⟨o', ts, rfl⟩ := nextIs_eq_true hcolon
    obtain ⟨⟨node, rest'⟩, hnode, h⟩ := map_eq_ok h
    cases h
    exact .inl ⟨o', ts, node, rfl, rfl, hnode⟩
  next hcolon =>
    cases h
    exact .inr ⟨by simpa using hcolon, rfl, rfl⟩

/-- A parameter is a receiver behind its word and a colon, or an ordinary type. -/
theorem param_cases {p : Param} {ts rest : List Lexeme} (h : param type ts = .ok (p, rest)) :
    (∃ o o' ts' node, ts = ⟨.name "new", o⟩ :: ⟨.colon, o'⟩ :: ts' ∧
      p = .receiver (.constructed node) ∧ type ts' = .ok (node, rest)) ∨
    (∃ o o' ts' node, ts = ⟨.name "this", o⟩ :: ⟨.colon, o'⟩ :: ts' ∧
      p = .receiver (.bound node) ∧ type ts' = .ok (node, rest)) ∨
    (∀ word ∈ ["new", "this"], ∀ more, ts.map Lexeme.token ≠ .name word :: .colon :: more) ∧
      ∃ node, p = .ordinary node ∧ type ts = .ok (node, rest) := by
  unfold param at h
  split at h
  next o o' ts =>
    obtain ⟨⟨node, rest'⟩, hnode, h⟩ := bind_eq_ok h
    cases h
    exact .inl ⟨o, o', ts, node, rfl, rfl, hnode⟩
  next o o' ts =>
    obtain ⟨⟨node, rest'⟩, hnode, h⟩ := bind_eq_ok h
    cases h
    exact .inr (.inl ⟨o, o', ts, node, rfl, rfl, hnode⟩)
  next hnew hthis =>
    obtain ⟨⟨node, rest'⟩, hnode, h⟩ := bind_eq_ok h
    cases h
    refine .inr (.inr ⟨fun word hword more hts => ?_, node, rfl, hnode⟩)
    obtain ⟨o, ts, rfl, htail⟩ := map_token_eq_cons hts
    obtain ⟨o', ts, rfl, -⟩ := map_token_eq_cons htail
    rcases List.mem_pair.mp hword with rfl | rfl
    · exact hnew _ _ _ rfl
    · exact hthis _ _ _ rfl

variable (htype : ∀ node ts rest, type ts = .ok (node, rest) → Parses (.type node) ts rest)

include htype

theorem parses_types {nodes : List Node} {ts rest : List Lexeme}
    (h : items .comma type ts = .ok (nodes, rest)) : Parses (.types nodes) ts rest :=
  parses_items htype (fun _ _ _ h _ => .lastType h) (fun _ _ _ _ _ _ h hmore => .nextType h hmore) h

theorem parses_param {p : Param} {ts rest : List Lexeme} (h : param type ts = .ok (p, rest)) :
    Parses (.param p) ts rest := by
  rcases param_cases h with ⟨o, o', ts, node, rfl, rfl, hnode⟩ |
    ⟨o, o', ts, node, rfl, rfl, hnode⟩ | ⟨hne, node, rfl, hnode⟩
  · exact .constructed (htype _ _ _ hnode)
  · exact .bound (htype _ _ _ hnode)
  · exact .ordinary hne (htype _ _ _ hnode)

theorem parses_paramList {ps : List Param} {ts rest : List Lexeme}
    (h : paramList stop type ts = .ok (ps, rest)) : Parses (.paramList ps) ts rest := by
  rw [paramList_eq] at h
  obtain ⟨o, rfl, rfl⟩ | ⟨o, hps⟩ := closedItems_cases h
  · exact .noParams
  · exact .someParams (parses_items (fun _ _ _ h => parses_param htype h)
      (fun _ _ _ h _ => .lastParam h) (fun _ _ _ _ _ _ h hmore => .nextParam h hmore) hps)

theorem parses_function {node : Node} {o : Nat} {ts rest : List Lexeme}
    (h : function stop type ts = .ok (node, rest)) :
    Parses (.atom node) (⟨.name "function", o⟩ :: ts) rest := by
  rw [function_eq] at h
  obtain ⟨⟨_, ts'⟩, hparen, hrest⟩ := bind_eq_ok h
  obtain ⟨⟨ps, ts''⟩, hps, hreturning⟩ := bind_eq_ok hrest
  obtain ⟨o', rfl⟩ := expect_eq_ok hparen
  have hparams := parses_paramList htype hps
  dsimp only [returning] at hreturning
  split at hreturning
  next hcolon =>
    obtain ⟨c, ts'', rfl⟩ := nextIs_eq_true hcolon
    obtain ⟨⟨result, rest'⟩, hresult, hnode⟩ := bind_eq_ok hreturning
    cases hnode
    exact .returning hparams (htype _ _ _ hresult)
  next hcolon =>
    cases hreturning
    exact .function hparams (by simpa using hcolon)

theorem parses_field {f : Field} {ts rest : List Lexeme} (h : field stop type ts = .ok (f, rest)) :
    Parses (.field f) ts rest := by
  obtain ⟨token, o, ts, key, rfl, hkey, ⟨o', ts, node, rfl, rfl, hnode⟩ | ⟨hcolon, rfl, rfl⟩⟩ :=
    field_cases h
  · exact .typed hkey (htype _ _ _ hnode)
  · exact .bare hkey hcolon

theorem parses_record {node : Node} {o : Nat} {ts rest : List Lexeme}
    (h : record stop type ts = .ok (node, rest)) :
    Parses (.atom node) (⟨.lbrace, o⟩ :: ts) rest := by
  rw [record_eq] at h
  obtain ⟨⟨fields, rest⟩, hfields, h⟩ := map_eq_ok h
  cases h
  obtain ⟨o, rfl, rfl⟩ | ⟨o, hfields⟩ := closedItems_cases hfields
  · exact .emptyRecord
  · exact .record (parses_items (fun _ _ _ h => parses_field htype h)
      (fun _ _ _ h _ => .lastField h) (fun _ _ _ _ _ _ h hmore => .nextField h hmore) hfields)

theorem parses_atomHead {node : Node} {ts rest : List Lexeme}
    (h : atomHead stop type ts = .ok (node, rest)) : Parses (.atom node) ts rest := by
  unfold atomHead at h
  split at h
  · cases h
  next lexeme ts =>
    obtain ⟨token, o⟩ := lexeme
    dsimp only at h
    split at h
    next =>
      obtain ⟨⟨node', ts'⟩, hnode, h⟩ := bind_eq_ok h
      obtain ⟨⟨_, rest'⟩, hparen, h⟩ := bind_eq_ok h
      cases h
      obtain ⟨o', rfl⟩ := expect_eq_ok hparen
      exact .group (htype _ _ _ hnode)
    next =>
      cases h
      exact .any
    next =>
      cases h
      exact .unknown
    next => exact parses_record htype h
    next text =>
      split at h
      next hfunction =>
        rw [Bool.and_eq_true, beq_iff_eq] at hfunction
        rw [hfunction.1]
        exact parses_function htype h
      next hname =>
        cases h
        exact .name fun htext => by simpa [htext] using hname
    next =>
      cases h
      exact .literal
    next => cases h

theorem parses_atomTail {n : Nat} {node node' : Node} {ts ts' rest : List Lexeme}
    (hnode : Parses (.atom node) ts ts') (h : atomTail stop type n node ts' = .ok (node', rest)) :
    Parses (.atom node') ts rest := by
  fun_induction atomTail stop type n node ts' with
  | case1 =>
    cases h
    exact hnode
  | case2 n offset ts' base ih =>
    obtain ⟨⟨params, ts''⟩, hparams, h⟩ := bind_eq_ok h
    obtain ⟨⟨_, rest'⟩, hangle, h⟩ := bind_eq_ok h
    obtain ⟨o', rfl⟩ := expect_eq_ok hangle
    exact ih _ _ (.generic hnode (parses_types htype hparams)) h
  | case3 => cases h
  | case4 n node _ _ rest' ih => exact ih (.array hnode) h
  | case5 =>
    cases h
    exact hnode

end Readers

/-- A successful reading of an atom has a derivation. -/
theorem parses_atom {stop n : Nat} {node : Node} {ts rest : List Lexeme}
    (h : atom stop n ts = .ok (node, rest)) : Parses (.atom node) ts rest := by
  induction n generalizing node ts rest with
  | zero => cases h
  | succ n ih =>
    have htype : ∀ node ts rest, inner (atom stop n) ts = .ok (node, rest) →
        Parses (.type node) ts rest := fun node ts rest h => parses_type (fun _ _ _ h => ih h) h
    rw [atom] at h
    obtain ⟨⟨head, ts'⟩, hhead, h⟩ := bind_eq_ok h
    exact parses_atomTail htype (parses_atomHead htype hhead) h

/-- A successful reading of a type has a derivation. -/
theorem parses_inner {stop n : Nat} {node : Node} {ts rest : List Lexeme}
    (h : inner (atom stop n) ts = .ok (node, rest)) : Parses (.type node) ts rest :=
  parses_type (fun _ _ _ h => parses_atom h) h

/-! ## What is read is well formed -/

/-- The text of a name or literal is cut off as one. -/
def Token.IsFormed : Token → Prop
  | .name text => IsNameText text
  | .literal text => IsLiteral text
  | _ => True

/-- The types in a phrase are well formed. -/
def Phrase.IsFormed : Phrase → Prop
  | .atom node | .member node | .type node => node.All Node.IsFormedAt
  | .members nodes => ∀ node ∈ nodes, node.All Node.IsFormedAt
  | .types nodes => nodes ≠ [] ∧ ∀ node ∈ nodes, node.All Node.IsFormedAt
  | .param p => p.type.All Node.IsFormedAt
  | .params ps | .paramList ps => ∀ p ∈ ps, p.type.All Node.IsFormedAt
  | .field f => IsWordText f.key ∧ ∀ node ∈ f.type?, node.All Node.IsFormedAt
  | .fields fs => ∀ f ∈ fs, IsWordText f.key ∧ ∀ node ∈ f.type?, node.All Node.IsFormedAt

theorem Node.All.withModifiers {node : Node} (h : node.All Node.IsFormedAt) (m : Modifiers) :
    (node.withModifiers m).All Node.IsFormedAt := by
  rw [Node.withModifiers]
  split
  next => exact h
  next hm => exact .intro hm (List.forall_mem_singleton.mpr h)

theorem isPlain_append {cs ds : List Char} (hcs : IsPlain cs) (hds : IsPlain ds) :
    IsPlain (cs ++ ds) := fun c hc =>
  (List.mem_append.mp hc).elim (hcs c) (hds c)

theorem isPlain_dot : IsPlain ['.'] := by decide

/-- A name without a dot at its end is still one with the dot. -/
theorem IsNameText.dot {text : String} (h : IsNameText text)
    (hlast : text.toList.getLast? ≠ some '.') : IsNameText (text ++ ".") := by
  have htext : (text ++ ".").toList = text.toList ++ ['.'] := String.toList_append
  refine ⟨by simp [htext], fun hdots => ?_, ?_⟩
  · rw [htext] at hdots
    rcases List.prefix_concat_iff.mp hdots with hall | hall
    · -- the name would be two dots
      have : text.toList = ['.', '.'] := by
        have := congrArg List.dropLast hall
        simpa using this.symm
      exact hlast (by rw [this]; rfl)
    · exact h.not_dots hall
  · rcases h.shape with hplain | ⟨word, hword, cs, hcs, hplain⟩
    · exact .inl (htext ▸ isPlain_append hplain isPlain_dot)
    · refine .inr ⟨word, hword, cs ++ ['.'], ?_, isPlain_append hplain isPlain_dot⟩
      rw [htext, hcs, List.append_assoc, List.cons_append]

theorem isBaseText_genericBase {text : String} (h : IsWordText text) :
    IsBaseText (genericBase text) := by
  rw [genericBase]
  split
  next hlast =>
    rcases h with hname | ⟨q, span, htext, hquote, hspan⟩
    · left
      have hdot : String.ofList text.toList.dropLast ++ "." = text := by
        rw [← String.toList_inj, String.toList_append, String.toList_ofList]
        exact List.dropLast_append_getLast? '.' hlast
      rwa [hdot]
    · -- a literal ends in its quotation mark
      have hend : (q :: span).getLast? = some q := by
        rw [List.getLast?_cons, Longname.getLast?_of_splitAfterMark hspan]
        rfl
      obtain rfl : '.' = q := by
        rw [htext, hend] at hlast
        exact (Option.some.inj hlast).symm
      cases hquote
  next hlast =>
    exact h.imp_left fun hname => hname.dot hlast

theorem mem_of_mem_paramsOf {ps : List Param} {p : Param}
    (h : p ∈ paramsOf (receiverOf ps) (ordinaryOf ps)) : p ∈ ps := by
  rw [paramsOf, List.mem_append, List.mem_map, List.mem_map] at h
  rcases h with ⟨receiver, hreceiver, rfl⟩ | ⟨node, hnode, rfl⟩
  · rw [Option.mem_toList, receiverOf] at hreceiver
    obtain ⟨q, hq, heq⟩ := List.exists_of_findSome?_eq_some hreceiver
    rw [List.mem_reverse] at hq
    cases q with
    | receiver receiver' =>
      cases heq
      exact hq
    | ordinary => cases heq
  · obtain ⟨q, hq, heq⟩ := List.mem_filterMap.mp hnode
    cases q with
    | receiver => cases heq
    | ordinary node' =>
      cases heq
      exact hq

theorem isFormed_function {ps : List Param} {returns : Option Node}
    (hps : ∀ p ∈ ps, p.type.All Node.IsFormedAt)
    (hreturns : ∀ node ∈ returns, node.All Node.IsFormedAt) :
    (Node.function (receiverOf ps) (ordinaryOf ps) returns).All Node.IsFormedAt := by
  refine .intro trivial fun child hchild => ?_
  rcases mem_children_function.mp hchild with ⟨p, hp, rfl⟩ | hreturn
  · exact hps p (mem_of_mem_paramsOf hp)
  · exact hreturns child hreturn

theorem Parses.isFormed {phrase : Phrase} {ts rest : List Lexeme} (h : Parses phrase ts rest)
    (hts : ∀ lexeme ∈ ts, lexeme.token.IsFormed) : phrase.IsFormed := by
  have hkeep : ∀ {ts ts' : List Lexeme}, (∀ lexeme ∈ ts, lexeme.token.IsFormed) → ts' <:+ ts →
      ∀ lexeme ∈ ts', lexeme.token.IsFormed := fun hts hsuffix lexeme hlexeme =>
    hts lexeme (hsuffix.subset hlexeme)
  induction h with
  | name =>
    exact .leaf (.inl (hts _ List.mem_cons_self)) rfl
  | literal =>
    exact .leaf (.inr (hts _ List.mem_cons_self)) rfl
  | any | unknown => exact .leaf trivial rfl
  | emptyRecord => exact .intro nofun nofun
  | group _ ih => exact ih (hkeep hts (List.suffix_cons _ _))
  | record _ ih =>
    have hfields := ih (hkeep hts (List.suffix_cons _ _))
    refine .intro (fun f hf => (hfields f hf).1) fun child hchild => ?_
    obtain ⟨f, hf, htype⟩ := List.mem_filterMap.mp hchild
    exact (hfields f hf).2 child htype
  | function _ _ ih => exact isFormed_function (ih (hkeep hts (List.suffix_append [_, _] _))) nofun
  | returning h _ ih ihnode =>
    have hparams := hkeep hts (List.suffix_append [_, _] _)
    have hnode := ihnode (hkeep hparams (suffix_of_cons h.suffix))
    exact isFormed_function (ih hparams) fun _ hmem => Option.some.inj hmem ▸ hnode
  | generic h _ ih ihparams =>
    have hbase := (ih hts).here
    have hparams := ihparams (hkeep hts (suffix_of_cons h.suffix))
    exact .intro ⟨isBaseText_genericBase hbase, hparams.1⟩ hparams.2
  | array _ ih =>
    have harray : IsNameText "Array." := ⟨by decide, by decide, .inl (by decide)⟩
    exact .intro ⟨.inl harray, nofun⟩ (List.forall_mem_singleton.mpr (ih hts))
  | member hmarks _ ih =>
    exact (ih (hkeep hts (marking_of_memberMarks hmarks).suffix)).withModifiers _
  | lastMember _ _ ih => exact List.forall_mem_singleton.mpr (ih hts)
  | lastType _ ih => exact ⟨nofun, List.forall_mem_singleton.mpr (ih hts)⟩
  | lastParam _ ih | lastField _ ih => exact List.forall_mem_singleton.mpr (ih hts)
  | nextMember h _ ih ihmore =>
    exact List.forall_mem_cons.mpr ⟨ih hts, ihmore (hkeep hts (suffix_of_cons h.suffix))⟩
  | nextType h _ ih ihmore =>
    have hmore := ihmore (hkeep hts (suffix_of_cons h.suffix))
    exact ⟨nofun, List.forall_mem_cons.mpr ⟨ih hts, hmore.2⟩⟩
  | nextParam h _ ih ihmore | nextField h _ ih ihmore =>
    exact List.forall_mem_cons.mpr ⟨ih hts, ihmore (hkeep hts (suffix_of_cons h.suffix))⟩
  | single hleading _ _ ih =>
    have hnode := ih (hkeep hts (marking_of_leadingMarks hleading).suffix)
    exact (List.forall_mem_singleton.mp hnode).withModifiers _
  | @union nodes _ _ _ _ _ _ hleading _ hmany _ ih =>
    have hunion : (Node.union nodes).All Node.IsFormedAt :=
      .intro hmany (ih (hkeep hts (marking_of_leadingMarks hleading).suffix))
    exact hunion.withModifiers _
  | dots =>
    have hany : Node.any.All Node.IsFormedAt := .leaf trivial rfl
    exact hany.withModifiers _
  | constructed _ ih | bound _ ih => exact ih (hkeep hts (List.suffix_append [_, _] _))
  | ordinary _ _ ih => exact ih hts
  | noParams => exact nofun
  | someParams _ ih => exact ih hts
  | bare hkey => 
    refine ⟨?_, nofun⟩
    have := hts _ List.mem_cons_self
    rcases hkey with rfl | rfl
    · exact .inl this
    · exact .inr this
  | typed hkey _ ih =>
    have hnode := ih (hkeep hts (List.suffix_append [_, _] _))
    refine ⟨?_, fun _ hmem => Option.some.inj hmem ▸ hnode⟩
    have := hts _ List.mem_cons_self
    rcases hkey with rfl | rfl
    · exact .inl this
    · exact .inr this

/-- The characters of a name that has been read so far. -/
def IsNameShape (cs : List Char) : Prop :=
  IsPlain cs ∨ ∃ word ∈ namespaceWords, ∃ cs', cs = word ++ ':' :: cs' ∧ IsPlain cs'

theorem mem_namespaceWords_of_isNamespaceWord {reversed : List Char}
    (h : isNamespaceWord reversed = true) : reversed.reverse ∈ namespaceWords := by
  simp only [isNamespaceWord, Bool.or_eq_true, beq_iff_eq, or_assoc] at h
  have hword : ∀ text : String, String.ofList reversed.reverse = text →
      reversed.reverse = text.toList := fun text htext => by rw [← htext, String.toList_ofList]
  rcases h with h | h | h <;> rw [hword _ h] <;> decide

theorem IsNameShape.takeName {reversed : List Char} (h : IsNameShape reversed.reverse)
    (cs : List Char) : IsNameShape (takeName reversed cs).1 := by
  fun_induction TypeExpr.takeName reversed cs with
  | case1 => exact h
  | case2 => exact h
  | case3 reversed c rest hc ih =>
    refine ih ?_
    rw [List.reverse_cons]
    simp only [Bool.or_eq_true, Bool.and_eq_true, Bool.not_eq_true', not_or, not_and,
      Bool.not_eq_true, Bool.not_eq_false] at hc
    obtain ⟨hblank, hcolon⟩ := hc
    by_cases hmark : isStructural c = true
    · -- the only mark inside a name is the colon of a namespace
      have hnamespace := hcolon hmark
      simp only [atNamespaceColon, Bool.and_eq_true, beq_iff_eq] at hnamespace
      obtain ⟨⟨rfl, hword⟩, -⟩ := hnamespace
      exact .inr ⟨_, mem_namespaceWords_of_isNamespaceWord hword, [], rfl, List.forall_mem_nil _⟩
    · have hplain : IsPlain [c] :=
        List.forall_mem_singleton.mpr ⟨hblank, Bool.eq_false_iff.mpr hmark⟩
      rcases h with h | ⟨word, hword, cs', hcs, h⟩
      · exact .inl (isPlain_append h hplain)
      · refine .inr ⟨word, hword, cs' ++ [c], ?_, isPlain_append h hplain⟩
        rw [hcs, List.append_assoc, List.cons_append]

theorem reverse_prefix_takeName (reversed cs : List Char) :
    reversed.reverse <+: (takeName reversed cs).1 := by
  fun_induction takeName reversed cs with
  | case1 | case2 => exact List.prefix_refl _
  | case3 reversed c rest hc ih =>
    rw [List.reverse_cons] at ih
    exact (List.prefix_append _ _).trans ih

theorem isFormed_of_ofMark? {c : Char} {token : Token} (h : Token.ofMark? c = some token) :
    token.IsFormed := by
  unfold Token.ofMark? at h
  split at h <;> cases h <;> trivial

/-- A name is cut off where no ellipsis begins, and so it does not begin with one. -/
theorem isNameText_takeName {c : Char} {rest : List Char}
    (hdots : ∀ rest', c = '.' → rest = '.' :: '.' :: rest' → False)
    (hblank : ¬isBlank c = true) (hquote : ¬isQuote c = true) (hmark : Token.ofMark? c = none) :
    IsNameText (String.ofList (takeName [c] rest).1) := by
  have happend : (takeName [c] rest).1 ++ (takeName [c] rest).2 = c :: rest :=
    takeName_append [c] rest
  have hplain : IsPlain [c] := by
    refine List.forall_mem_singleton.mpr ⟨by simpa using hblank, ?_⟩
    rw [isStructural, hmark]
    simpa using hquote
  have hstart : IsNameShape [c].reverse := .inl hplain
  have hshape : IsNameShape (takeName [c] rest).1 := hstart.takeName rest
  have hne : (takeName [c] rest).1 ≠ [] := fun hnil => by
    simpa [hnil] using reverse_prefix_takeName [c] rest
  rw [← String.toList_ofList (l := (takeName [c] rest).1)] at hshape hne
  refine ⟨hne, fun hprefix => ?_, hshape⟩
  rw [String.toList_ofList] at hprefix
  obtain ⟨more, hmore⟩ := hprefix.trans (List.prefix_append _ (takeName [c] rest).2)
  rw [happend] at hmore
  cases hmore
  exact hdots _ rfl rfl

/-- What is cut off behind a quotation mark is a literal. -/
theorem isLiteral_of_splitAfterMark {q : Char} {cs span after : List Char}
    (hquote : isQuote q = true) (h : splitAfterMark q cs = some (span, after)) :
    IsLiteral (String.ofList (q :: span)) := by
  have hspan := (Longname.splitAfterMark_append h []).1
  rw [List.append_nil] at hspan
  exact ⟨q, span, String.toList_ofList, hquote, hspan⟩

end Commentary.TypeExpr
