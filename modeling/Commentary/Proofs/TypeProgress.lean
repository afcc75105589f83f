import Commentary.Proofs.EnclosedTypes
import Commentary.Proofs.RecursionDepth

/-!
# Reading a type gets somewhere

A reader of types either takes tokens off the front, at least one, or it reports the place of a
token or the end (`Advances`). So all that it reads inside what it reads has fewer tokens to read
from, and neither the bound on the levels nor the bounds on the lists and suffixes are ever felt.
Both facts need each other: a reader gets somewhere if the readers inside it do, and it calls for
fewer tokens only as long as these take some. They are shown together, of two readings at a time
(`Alike`): readings whose inner readers agree on fewer tokens come to the same and get somewhere.
-/

namespace Commentary.TypeExpr

open Recursion

variable {α β : Type} {stop k : Nat} {ts us : List Lexeme}

/-! ## Getting somewhere -/

/-- Something stands at an offset: one of the tokens, or the end. -/
def IsPlace (stop : Nat) (ts : List Lexeme) (offset : Nat) : Prop :=
  offset = stop ∨ ∃ lexeme ∈ ts, lexeme.offset = offset

theorem IsPlace.behind {offset : Nat} (h : IsPlace stop us offset) (hsuffix : us <:+ ts) :
    IsPlace stop ts offset :=
  h.imp_right fun ⟨lexeme, hmem, heq⟩ => ⟨lexeme, hsuffix.subset hmem, heq⟩

theorem isPlace_nextOffset (stop : Nat) (ts : List Lexeme) :
    IsPlace stop ts (nextOffset stop ts) := by
  cases ts with
  | nil => exact .inl rfl
  | cons lexeme ts => exact .inr ⟨lexeme, List.mem_cons_self, rfl⟩

/-- A reading takes at least `n` tokens off the front, or it reports a place. -/
def Advances (stop n : Nat) (ts : List Lexeme) : Except Error (α × List Lexeme) → Prop
  | .ok (_, rest) => rest <:+ ts ∧ rest.length + n ≤ ts.length
  | .error e => IsPlace stop ts e.offset

/-- Two readings come to the same, and get somewhere. -/
structure Alike (stop n : Nat) (ts : List Lexeme) (x x' : Except Error (α × List Lexeme)) :
    Prop where
  eq : x = x'
  advances : Advances stop n ts x

/-- Two readers read alike what has fewer than `k` tokens, and take some of them. -/
def AlikeBelow (stop k : Nat) (reader reader' : Reader α) : Prop :=
  ∀ ts, ts.length < k → Alike stop 1 ts (reader ts) (reader' ts)

namespace Alike

variable {m n : Nat} {x x' : Except Error (α × List Lexeme)}

theorem ok (y : α) {rest : List Lexeme} (hsuffix : rest <:+ ts)
    (hlength : rest.length + n ≤ ts.length) : Alike stop n ts (.ok (y, rest)) (.ok (y, rest)) :=
  ⟨rfl, hsuffix, hlength⟩

/-- A reading that takes nothing. -/
theorem none (y : α) : Alike stop 0 ts (.ok (y, ts)) (.ok (y, ts)) :=
  ok y (List.suffix_refl ts) (Nat.le_refl _)

/-- A reading that takes the next token. -/
theorem next (y : α) (lexeme : Lexeme) :
    Alike stop 1 (lexeme :: ts) (.ok (y, ts)) (.ok (y, ts)) :=
  ok y (List.suffix_cons lexeme ts) (Nat.le_refl _)

theorem error (n : Nat) {cause : Cause} {offset : Nat} (h : IsPlace stop ts offset) :
    Alike (α := α) stop n ts (.error ⟨cause, offset⟩) (.error ⟨cause, offset⟩) := ⟨rfl, h⟩

/-- Readings behind some tokens are readings from all of them. -/
theorem behind (h : Alike stop n us x x') (hsuffix : us <:+ ts)
    (hlength : us.length + m ≤ ts.length + n) : Alike stop m ts x x' := by
  refine ⟨h.eq, ?_⟩
  have hadvances := h.advances
  rcases x with e | ⟨y, rest⟩
  · exact IsPlace.behind hadvances hsuffix
  · exact ⟨hadvances.1.trans hsuffix, by
      have := hadvances.2
      omega⟩

theorem of_suffix (h : Alike stop n us x x') (hsuffix : us <:+ ts) : Alike stop n ts x x' :=
  h.behind hsuffix (Nat.add_le_add_right hsuffix.length_le n)

/-- Readings that look for a token first. -/
theorem ite {token : Token} {y y' : Except Error (α × List Lexeme)}
    (hnext : ∀ o us, ts = ⟨token, o⟩ :: us → Alike stop n ts x x') (hother : Alike stop n ts y y') :
    Alike stop n ts (if nextIs token ts then x else y) (if nextIs token ts then x' else y') := by
  split
  next h =>
    obtain ⟨o, us, hts⟩ := nextIs_eq_true h
    exact hnext o us hts
  next => exact hother

/-- One reading after another takes what both take. -/
theorem bind {f f' : α × List Lexeme → Except Error (β × List Lexeme)}
    (hx : Alike stop m ts x x') (n : Nat) (hk : k ≤ m + n)
    (hf : ∀ y us, us <:+ ts → us.length + m ≤ ts.length →
      Alike stop n us (f (y, us)) (f' (y, us))) :
    Alike stop k ts (x.bind f) (x'.bind f') := by
  obtain ⟨rfl, hadvances⟩ := hx
  rcases x with e | ⟨y, us⟩
  · exact ⟨rfl, hadvances⟩
  · obtain ⟨hsuffix, hlength⟩ := hadvances
    exact (hf y us hsuffix hlength).behind hsuffix (by omega)

/-- A reading whose value is changed, and behind which more is taken. -/
theorem map {f : α × List Lexeme → β × List Lexeme} (hx : Alike stop n ts x x')
    (hf : ∀ y us, (f (y, us)).2 <:+ us) : Alike stop n ts (x.map f) (x'.map f) := by
  have hbind : Alike stop n ts (x.bind fun p => .ok (f p)) (x'.bind fun p => .ok (f p)) :=
    hx.bind 0 (Nat.le_refl n) fun y us _ _ =>
      .ok (f (y, us)).1 (hf y us) (hf y us).length_le
  have hmap (z : Except Error (α × List Lexeme)) : z.map f = z.bind fun p => .ok (f p) := by
    cases z <;> rfl
  rwa [hmap, hmap]

end Alike

theorem alikeBelow_of_advances {reader : Reader α} (h : ∀ ts, Advances stop 1 ts (reader ts)) :
    AlikeBelow stop k reader reader := fun ts _ => ⟨rfl, h ts⟩

theorem alike_expect (token : Token) (ts : List Lexeme) :
    Alike stop 1 ts (expect stop token ts) (expect stop token ts) := by
  unfold expect
  split
  next hnext =>
    obtain ⟨o, rest, rfl⟩ := nextIs_eq_true hnext
    exact .next () _
  next => exact .error 1 (isPlace_nextOffset stop ts)

/-! ## Lists -/

section Lists

variable (separator : Token) {item item' : Reader α}

/-- One turn of reading a list: an item behind a separator, and then what follows. -/
def moreTurn (separator : Token) (item : Reader α) (again : Reader (List α)) : Reader (List α) :=
  fun ts =>
    if nextIs separator ts then do
      let (x, ts) ← item ts.tail
      let (xs, ts) ← again ts
      return (x :: xs, ts)
    else .ok ([], ts)

theorem alike_moreTurn {again again' : Reader (List α)} (hts : ts.length ≤ k)
    (hitem : AlikeBelow stop k item item')
    (hagain : ∀ us, us.length < ts.length → Alike stop 0 us (again us) (again' us)) :
    Alike stop 0 ts (moreTurn separator item again ts) (moreTurn separator item' again' ts) := by
  refine .ite ?_ (.none [])
  rintro o ts rfl
  have hfirst : Alike stop 1 (⟨separator, o⟩ :: ts) (item ts) (item' ts) :=
    (hitem ts hts).of_suffix (List.suffix_cons _ ts)
  refine hfirst.bind 0 (Nat.zero_le _) fun x us _ hus => ?_
  exact (hagain us hus).bind 0 (Nat.le_refl 0) fun xs rest _ _ => .none (x :: xs)

theorem alike_moreItems (hitem : AlikeBelow stop k item item') (n : Nat) (hts : ts.length ≤ k) :
    Alike stop 0 ts (moreItems separator item n ts) (moreItems separator item' n ts) := by
  induction n generalizing ts with
  | zero => exact .none []
  | succ n ih => exact alike_moreTurn separator hts hitem fun us hus => ih (by omega)

theorem alike_items (hitem : AlikeBelow stop k item item') :
    AlikeBelow stop k (items separator item) (items separator item') := by
  intro ts hts
  refine (hitem ts hts).bind 0 (Nat.le_refl 1) fun x us hsuffix _ => ?_
  have hus : us.length ≤ k := by
    have := hsuffix.length_le
    omega
  exact (alike_moreItems separator hitem us.length hus).bind 0 (Nat.le_refl 0) fun xs rest _ _ =>
    .none (x :: xs)

theorem alike_closedItems (close : Token) (hitem : AlikeBelow stop k item item') :
    AlikeBelow stop k (closedItems close stop item) (closedItems close stop item') := by
  intro ts hts
  refine .ite ?_ ?_
  · rintro o us rfl
    exact .next [] _
  · refine (alike_items .comma hitem ts hts).bind 1 (by omega) fun xs us _ _ => ?_
    exact (alike_expect close us).bind 0 (Nat.le_refl 1) fun _ rest _ _ => .none xs

end Lists

/-! ## Types, given readers of atoms -/

section Types

variable {atom atom' : Reader Node} (hatom : AlikeBelow stop k atom atom')
include hatom

theorem alike_member : AlikeBelow stop k (member atom) (member atom') := by
  intro ts hts
  unfold member
  rcases hmarks : memberMarks {} ts with ⟨marks, us⟩
  have hsuffix := (marking_of_memberMarks hmarks).suffix
  have hread : Alike stop 1 ts (atom us) (atom' us) :=
    (hatom us (Nat.lt_of_le_of_lt hsuffix.length_le hts)).of_suffix hsuffix
  exact hread.bind 0 (Nat.le_refl 1) fun node rest _ _ => .none (node.withModifiers marks)

theorem alike_union : AlikeBelow stop k (union atom) (union atom') := by
  intro ts hts
  refine (alike_items .pipe (alike_member hatom) ts hts).bind 0 (Nat.le_refl 1)
    fun members rest _ _ => ?_
  dsimp only
  split <;> exact .none _

theorem alike_unmarked (marks : Modifiers) (hts : ts.length < k) :
    Alike stop 0 ts (unmarked atom marks ts) (unmarked atom' marks ts) := by
  unfold unmarked
  split
  · exact .none _
  · exact (alike_union hatom ts hts).behind (List.suffix_refl ts) (by omega)

/-- A type takes a token: where nothing but marks is read, dots are among them. -/
theorem alike_modified : AlikeBelow stop k (modified atom) (modified atom') := by
  intro ts hts
  rw [modified_eq, modified_eq]
  rcases hmarks : leadingMarks {} ts with ⟨marks, us⟩
  refine Alike.map ?_ fun node rest => (marking_of_trailingMarks rfl).suffix
  rcases (marking_of_leadingMarks hmarks).leaves with ⟨rfl, rfl⟩ | hleaves
  · exact alike_union hatom us hts
  · obtain ⟨front, last, rfl, -⟩ := hleaves
    have hlength : us.length + 1 ≤ (front ++ last :: us).length := by simp
    have hread : Alike stop 0 us (unmarked atom marks us) (unmarked atom' marks us) :=
      alike_unmarked hatom marks (by omega)
    exact hread.behind ⟨front ++ [last], by simp⟩ hlength

theorem alike_inner : AlikeBelow stop k (inner atom) (inner atom') := by
  intro ts hts
  exact (alike_modified hatom ts hts).bind 0 (Nat.le_refl 1) fun result rest _ _ => .none _

end Types

/-! ## Atoms, given readers of types -/

section Atoms

variable {type type' : Reader Node} (htype : AlikeBelow stop k type type')
include htype

/-- What is read behind some tokens and changed is read from all of them. -/
theorem alike_map_behind {f : Node → α} (hsuffix : us <:+ ts) (hus : us.length < k) :
    Alike stop 1 ts ((type us).map fun (node, rest) => (f node, rest))
      ((type' us).map fun (node, rest) => (f node, rest)) :=
  ((htype us hus).map fun _ => List.suffix_refl).of_suffix hsuffix

theorem alike_param : AlikeBelow stop k (param type) (param type') := by
  intro ts hts
  have hreceiver (word : String) (o o' : Nat) (us : List Lexeme) :
      us <:+ ⟨.name word, o⟩ :: ⟨.colon, o'⟩ :: us :=
    (List.suffix_cons _ us).trans (List.suffix_cons _ _)
  by_cases hnew : ∃ o o' us, ts = ⟨.name "new", o⟩ :: ⟨.colon, o'⟩ :: us
  · obtain ⟨o, o', us, rfl⟩ := hnew
    simp only [List.length_cons] at hts
    exact alike_map_behind (f := fun node => Param.receiver (.constructed node)) htype
      (hreceiver "new" o o' us) (by omega)
  by_cases hthis : ∃ o o' us, ts = ⟨.name "this", o⟩ :: ⟨.colon, o'⟩ :: us
  · obtain ⟨o, o', us, rfl⟩ := hthis
    simp only [List.length_cons] at hts
    exact alike_map_behind (f := fun node => Param.receiver (.bound node)) htype
      (hreceiver "this" o o' us) (by omega)
  have hne : ∀ word ∈ ["new", "this"], ∀ more,
      ts.map Lexeme.token ≠ .name word :: .colon :: more := by
    intro word hword more hts
    obtain ⟨o, us, rfl, htail⟩ := map_token_eq_cons hts
    obtain ⟨o', us, rfl, -⟩ := map_token_eq_cons htail
    rcases List.mem_pair.1 hword with rfl | rfl
    · exact hnew ⟨o, o', us, rfl⟩
    · exact hthis ⟨o, o', us, rfl⟩
  rw [param_of_ne hne, param_of_ne hne]
  exact alike_map_behind htype (List.suffix_refl ts) hts

theorem alike_paramList :
    AlikeBelow stop k (paramList stop type) (paramList stop type') := by
  rw [paramList_eq, paramList_eq]
  exact alike_closedItems .rparen (alike_param htype)

theorem alike_returning (params : List Param) (hts : ts.length < k) :
    Alike stop 0 ts (returning type params ts) (returning type' params ts) := by
  refine .ite ?_ (.none _)
  rintro o us rfl
  have hread := alike_map_behind (f := fun node =>
    Node.function (receiverOf params) (ordinaryOf params) (some node)) htype
    (List.suffix_cons ⟨.colon, o⟩ us) (Nat.lt_of_succ_lt hts)
  exact hread.behind (List.suffix_refl _) (by omega)

theorem alike_function : AlikeBelow stop k (function stop type) (function stop type') := by
  intro ts hts
  rw [function_eq, function_eq]
  refine (alike_expect .lparen ts).bind 0 (Nat.le_refl 1) fun _ us _ hus => ?_
  have hparams := alike_paramList htype us (by omega)
  exact hparams.bind 0 (Nat.zero_le _) fun params rest _ hrest =>
    alike_returning htype params (by omega)

theorem alike_field : AlikeBelow stop k (field stop type) (field stop type') := by
  intro ts hts
  rcases ts with _ | ⟨⟨token, o⟩, ts⟩
  · exact .error 1 (.inl rfl)
  have hplace : IsPlace stop (⟨token, o⟩ :: ts) o := .inr ⟨_, List.mem_cons_self, rfl⟩
  have hkeyed (key : String) (hkey : token = .name key ∨ token = .literal key) :
      Alike stop 1 (⟨token, o⟩ :: ts) (field stop type (⟨token, o⟩ :: ts))
        (field stop type' (⟨token, o⟩ :: ts)) := by
    rw [field_cons hkey, field_cons hkey]
    by_cases hnext : nextIs .colon ts = true
    · rw [if_pos hnext, if_pos hnext]
      obtain ⟨o', us, rfl⟩ := nextIs_eq_true hnext
      simp only [List.length_cons] at hts
      have hus : us.length < k := by omega
      exact alike_map_behind htype ((List.suffix_cons _ us).trans (List.suffix_cons _ _)) hus
    · rw [if_neg hnext, if_neg hnext]
      exact .next _ _
  cases token with
  | name key => exact hkeyed key (.inl rfl)
  | literal key => exact hkeyed key (.inr rfl)
  | _ => exact .error 1 hplace

theorem alike_record : AlikeBelow stop k (record stop type) (record stop type') := by
  intro ts hts
  rw [record_eq, record_eq]
  exact (alike_closedItems .rbrace (alike_field htype) ts hts).map fun _ => List.suffix_refl

/-- The first part of an atom takes a token before it reads a type. -/
theorem alike_atomHead : AlikeBelow stop (k + 1) (atomHead stop type) (atomHead stop type') := by
  intro ts hts
  rcases ts with _ | ⟨⟨token, o⟩, ts⟩
  · exact .error 1 (.inl rfl)
  have hplace : IsPlace stop (⟨token, o⟩ :: ts) o := .inr ⟨_, List.mem_cons_self, rfl⟩
  have hsuffix : ts <:+ ⟨token, o⟩ :: ts := List.suffix_cons _ ts
  have hlength : ts.length < k := Nat.lt_of_succ_lt_succ hts
  cases token with
  | lparen =>
    refine ((htype ts hlength).of_suffix hsuffix).bind 1 (by omega) fun node us _ _ => ?_
    exact (alike_expect .rparen us).bind 0 (Nat.le_refl 1) fun _ rest _ _ => .none node
  | star | question | literal => exact .next _ _
  | lbrace => exact (alike_record htype ts hlength).of_suffix hsuffix
  | name text =>
    unfold atomHead
    dsimp only
    by_cases hfunction : (text == "function" && nextIs .lparen ts) = true
    · rw [if_pos hfunction, if_pos hfunction]
      exact (alike_function htype ts hlength).of_suffix hsuffix
    · rw [if_neg hfunction, if_neg hfunction]
      exact .next _ _
  | _ => exact .error 1 hplace

end Atoms

/-- One turn of reading behind a type: a type parameter list or `[]`, and then what follows. -/
def tailTurn (stop : Nat) (type : Reader Node)
    (again : Node × List Lexeme → Except Error (Node × List Lexeme)) :
    Node × List Lexeme → Except Error (Node × List Lexeme)
  | (node, ⟨.langle, offset⟩ :: rest) =>
    match node with
    | .name base => do
      let (params, rest) ← items .comma type rest
      let (_, rest) ← expect stop .rangle rest
      again (.generic (genericBase base) params, rest)
    | _ => .error ⟨.parametersOnNonName, offset⟩
  | (node, ⟨.lbracket, _⟩ :: ⟨.rbracket, _⟩ :: rest) => again (.generic "Array" [node], rest)
  | (node, ts) => .ok (node, ts)

/-- Reads behind a type, given the type together with the tokens. -/
def tailFrom (stop : Nat) (type : Reader Node) (n : Nat) (start : Node × List Lexeme) :
    Except Error (Node × List Lexeme) := atomTail stop type n start.1 start.2

theorem tailFrom_succ (stop : Nat) (type : Reader Node) (n : Nat) :
    tailFrom stop type (n + 1) = tailTurn stop type (tailFrom stop type n) := by
  funext ⟨node, ts⟩
  rcases ts with _ | ⟨⟨token, o⟩, ts⟩
  · rfl
  cases token with
  | langle => cases node <;> rfl
  | lbracket =>
    rcases ts with _ | ⟨⟨token, o'⟩, ts⟩
    · rfl
    · cases token <;> rfl
  | _ => rfl

theorem alike_tailTurn {type type' : Reader Node}
    {again again' : Node × List Lexeme → Except Error (Node × List Lexeme)}
    (htype : AlikeBelow stop k type type') (hts : ts.length ≤ k)
    (hagain : ∀ node us, us.length < ts.length →
      Alike stop 0 us (again (node, us)) (again' (node, us))) (node : Node) :
    Alike stop 0 ts (tailTurn stop type again (node, ts))
      (tailTurn stop type' again' (node, ts)) := by
  rcases ts with _ | ⟨⟨token, o⟩, ts⟩
  · exact .none node
  have hsuffix : ts <:+ ⟨token, o⟩ :: ts := List.suffix_cons _ ts
  cases token with
  | langle =>
    cases node with
    | name base =>
      have hparams : Alike stop 1 (⟨.langle, o⟩ :: ts) (items .comma type ts)
          (items .comma type' ts) :=
        (alike_items .comma htype ts hts).of_suffix hsuffix
      refine hparams.bind 0 (Nat.zero_le _) fun params us _ hus => ?_
      refine (alike_expect .rangle us).bind 0 (Nat.zero_le _) fun _ rest _ hrest => ?_
      exact hagain _ rest (by omega)
    | _ => exact .error 0 (.inr ⟨_, List.mem_cons_self, rfl⟩)
  | lbracket =>
    rcases ts with _ | ⟨⟨token, o'⟩, ts⟩
    · exact .none node
    · cases token with
      | rbracket =>
        have hlt : ts.length < (⟨.lbracket, o⟩ :: ⟨.rbracket, o'⟩ :: ts : List Lexeme).length :=
          Nat.lt_add_of_pos_right (Nat.zero_lt_two)
        exact (hagain _ ts hlt).of_suffix ((List.suffix_cons _ ts).trans hsuffix)
      | _ => exact .none node
  | _ => exact .none node

theorem alike_tailFrom {type type' : Reader Node} (htype : AlikeBelow stop k type type') (n : Nat)
    (hts : ts.length ≤ k) (node : Node) :
    Alike stop 0 ts (tailFrom stop type n (node, ts)) (tailFrom stop type' n (node, ts)) := by
  induction n generalizing ts node with
  | zero => exact .none node
  | succ n ih =>
    rw [tailFrom_succ, tailFrom_succ]
    exact alike_tailTurn htype hts (fun node us hus => ih (by omega) node) node

/-! ## Levels -/

/-- One turn of reading an atom, given how the atoms inside it are read. -/
def atomTurn (stop : Nat) (read : Reader Node) : Reader Node := fun ts => do
  let type := inner read
  let (node, ts) ← atomHead stop type ts
  atomTail stop type ts.length node ts

theorem alike_atomTurn {read read' : Reader Node} (hread : AlikeBelow stop k read read') :
    AlikeBelow stop (k + 1) (atomTurn stop read) (atomTurn stop read') := by
  intro ts hts
  have htype : AlikeBelow stop k (inner read) (inner read') := alike_inner hread
  refine (alike_atomHead htype ts hts).bind 0 (Nat.le_refl 1) fun node us _ hus => ?_
  exact alike_tailFrom htype us.length (by omega) node

theorem alike_atom (stop n : Nat) : AlikeBelow stop k (atom stop n) (atom stop n) := by
  induction n generalizing k with
  | zero => exact fun ts _ => .error 1 (isPlace_nextOffset stop ts)
  | succ n ih => exact fun ts hts => alike_atomTurn ih ts (Nat.lt_succ_of_lt hts)

theorem descends_atomTurn (stop : Nat) :
    Descends (atomTurn stop) List.length (Advances stop 1) := by
  intro read read' ts hread
  have hbelow : AlikeBelow stop ts.length read read' := fun us hus =>
    ⟨(hread us hus).1, (hread us hus).2⟩
  have halike := alike_atomTurn hbelow ts (Nat.lt_succ_self _)
  exact ⟨halike.eq, halike.advances⟩

theorem descends_moreTurn (separator : Token) {item : Reader α}
    (hitem : ∀ ts, Advances stop 1 ts (item ts)) :
    Descends (moreTurn separator item) List.length (Advances stop 0) := by
  intro again again' ts hagain
  have halike := alike_moreTurn separator (Nat.le_refl ts.length) (alikeBelow_of_advances hitem)
    fun us hus => ⟨(hagain us hus).1, (hagain us hus).2⟩
  exact ⟨halike.eq, halike.advances⟩

theorem descends_tailTurn {type : Reader Node} (htype : ∀ ts, Advances stop 1 ts (type ts)) :
    Descends (tailTurn stop type) (·.2.length) fun start => Advances stop 0 start.2 := by
  rintro again again' ⟨node, ts⟩ hagain
  have hlater (node : Node) (us : List Lexeme) (hus : us.length < ts.length) :
      Alike stop 0 us (again (node, us)) (again' (node, us)) :=
    ⟨(hagain (node, us) hus).1, (hagain (node, us) hus).2⟩
  have halike := alike_tailTurn (alikeBelow_of_advances htype) (Nat.le_refl ts.length) hlater node
  exact ⟨halike.eq, halike.advances⟩

/-- Without tokens, an atom is refused at any level. -/
theorem atom_zero (hts : ts.length = 0) :
    atom stop 0 ts = atom stop 1 ts ∧ Advances stop 1 ts (atom stop 0 ts) := by
  obtain rfl := List.length_eq_zero_iff.1 hts
  exact ⟨rfl, .inl rfl⟩

theorem endsWith_atom (stop : Nat) :
    EndsWith (atomTurn stop) (·.length + 1) fun ts => atom stop ts.length ts :=
  (descends_atomTurn stop).endsWith_bounded (fun _ => rfl) fun _ => atom_zero

theorem endsWith_moreItems (separator : Token) {item : Reader α}
    (hitem : ∀ ts, Advances stop 1 ts (item ts)) :
    EndsWith (moreTurn separator item) (·.length + 1) fun ts =>
      moreItems separator item ts.length ts := by
  refine (descends_moreTurn separator hitem).endsWith_bounded (fun _ => rfl) fun ts hts => ?_
  obtain rfl := List.length_eq_zero_iff.1 hts
  exact ⟨rfl, List.suffix_refl _, Nat.le_refl _⟩

theorem endsWith_atomTail {type : Reader Node} (htype : ∀ ts, Advances stop 1 ts (type ts)) :
    EndsWith (tailTurn stop type) (·.2.length + 1) fun start =>
      atomTail stop type start.2.length start.1 start.2 := by
  refine (descends_tailTurn htype).endsWith_bounded (tailFrom_succ stop type) fun start hstart => ?_
  obtain ⟨node, ts⟩ := start
  obtain rfl := List.length_eq_zero_iff.1 hstart
  exact ⟨rfl, List.suffix_refl _, Nat.le_refl _⟩

/-- Reading a whole expression, nothing hangs on what is done below the levels that are read. -/
theorem modified_atom_eq (beyond : Reader Node) {levels : Nat} (hlevels : ts.length < levels) :
    modified (atom stop ts.length) ts = modified ((atomTurn stop)^[levels] beyond) ts := by
  have hbelow : AlikeBelow stop (ts.length + 1) (atom stop ts.length)
      ((atomTurn stop)^[levels] beyond) := by
    intro us hus
    have hle := Nat.le_of_lt_succ hus
    rw [← (descends_atomTurn stop).bounded_eq (fun _ => rfl) (fun _ => atom_zero) beyond hle
      (Nat.lt_of_le_of_lt hle hlevels)]
    exact alike_atom stop ts.length us hus
  exact (alike_modified hbelow ts (Nat.lt_succ_self _)).eq

/-- The recursion of the readers comes to an end. -/
structure ReadersEnd (stop : Nat) : Prop where
  /-- Every reader that is part of the recursion takes a token or reports a place. -/
  advances : ∀ levels ts, Advances stop 1 ts (atom stop levels ts) ∧
    Advances stop 1 ts (member (atom stop levels) ts) ∧
    Advances stop 1 ts (union (atom stop levels) ts) ∧
    Advances stop 1 ts (modified (atom stop levels) ts) ∧
    Advances stop 1 ts (inner (atom stop levels) ts)
  /-- Inside an atom, atoms are read from fewer tokens. -/
  calls : ∀ ts us, Calls (Advances stop 1) (atomTurn stop) ts us → us.length < ts.length
  /-- Deeper levels than there are tokens are not reached. -/
  atoms : EndsWith (atomTurn stop) (·.length + 1) fun ts => atom stop ts.length ts
  /-- A list ends, if its items take tokens. -/
  lists : ∀ (α : Type) (separator : Token) (item : Reader α),
    (∀ ts, Advances stop 1 ts (item ts)) →
      EndsWith (moreTurn separator item) (·.length + 1) fun ts =>
        moreItems separator item ts.length ts
  /-- What can follow a type ends, if the types in it take tokens. -/
  tails : ∀ type : Reader Node, (∀ ts, Advances stop 1 ts (type ts)) →
    EndsWith (tailTurn stop type) (·.2.length + 1) fun start =>
      atomTail stop type start.2.length start.1 start.2
  /-- In a whole expression, nothing hangs on what is done below the levels that are read. -/
  whole : ∀ ts beyond levels, ts.length < levels →
    modified (atom stop ts.length) ts = modified ((atomTurn stop)^[levels] beyond) ts

theorem readersEnd (stop : Nat) : ReadersEnd stop where
  advances levels ts := by
    have hlength := Nat.lt_succ_self ts.length
    have halike : AlikeBelow stop (ts.length + 1) (atom stop levels) (atom stop levels) :=
      alike_atom stop levels
    exact ⟨(halike ts hlength).advances, (alike_member halike ts hlength).advances,
      (alike_union halike ts hlength).advances, (alike_modified halike ts hlength).advances,
      (alike_inner halike ts hlength).advances⟩
  calls _ _ := (descends_atomTurn stop).lt_of_calls
  atoms := endsWith_atom stop
  lists _ separator _ hitem := endsWith_moreItems separator hitem
  tails _ htype := endsWith_atomTail htype
  whole _ beyond _ hlevels := modified_atom_eq beyond hlevels

/-- A whole expression that is refused is refused at a token or at the end. -/
theorem isPlace_of_readAll {e : Error} (h : readAll stop ts = .error e) :
    IsPlace stop ts e.offset := by
  have hmodified := ((readersEnd stop).advances ts.length ts).2.2.2.1
  rw [readAll] at h
  rcases hread : modified (atom stop ts.length) ts with e' | ⟨result, rest⟩
  · rw [hread] at h hmodified
    cases h
    exact hmodified
  · rw [hread] at h hmodified
    obtain ⟨hsuffix, -⟩ := hmodified
    rcases rest with _ | ⟨lexeme, rest⟩
    · cases h
    · cases h
      exact .inr ⟨lexeme, hsuffix.subset List.mem_cons_self, rfl⟩

/-- Reading an expression comes to an end, whatever the expression. -/
theorem parse_ends_at_places :
    (∀ stop, ReadersEnd stop) ∧
    (∀ expression ts, lex expression = .ok ts → Tiles 0 expression.toList ts) ∧
    ∀ expression e, parse expression = .error e →
      OpensAt 0 expression.toList e.offset ∨
      ∃ ts, lex expression = .ok ts ∧ IsPlace expression.utf8ByteSize ts e.offset := by
  have hcut (expression : String) : IsCut 0 expression.toList (lex expression) :=
    isCut_lexFrom 0 expression.toList
  refine ⟨readersEnd, fun expression ts hlex => ?_, fun expression e h => ?_⟩
  · have htiles := hcut expression
    rwa [hlex] at htiles
  · rw [parse] at h
    rcases hlex : lex expression with e' | ts
    · have hopens := hcut expression
      rw [hlex] at h hopens
      cases h
      exact .inl hopens.2
    · rcases ts with _ | ⟨lexeme, ts⟩
      · rw [hlex] at h
        cases h
      · rcases hread : readAll expression.utf8ByteSize (lexeme :: ts) with e' | result
        · simp only [hlex, bind, Except.bind, List.isEmpty_cons, Bool.false_eq_true, if_false,
            hread] at h
          cases h
          exact .inr ⟨lexeme :: ts, rfl, isPlace_of_readAll hread⟩
        · simp only [hlex, bind, Except.bind, List.isEmpty_cons, Bool.false_eq_true, if_false,
            hread] at h
          cases h

end Commentary.TypeExpr
