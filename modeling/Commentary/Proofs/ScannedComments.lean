import Commentary.Proofs.CommentLayout
import Commentary.Script.Scan
import Mathlib.Data.List.Infix

/-!
# The comments of a source

Which documentation comments a text holds has nothing to do with the code between them: the first
one stands between the first mark that opens one and the first mark behind it that closes it, and
the others in what follows (`CommentsIn`). A scan goes through the text line by line, and through
the code of each line, and has up to three comments in hand on its way: one that is still open, one
that waits for code, and those that are done. It gives exactly the comments of the text, each once,
in order, and with the line on which it opens (`scan_comments`). A line's number is never above the
number of lines (`line_le_length_lines`).

The comments that are done and the one that waits make up what a scan has been given
(`Scan.given`). Code never changes that (`Scan.given_code`), and a comment that is closed is added
at its end (`Scan.given_close`). So it is enough to follow the cuts: a mark stands in one line, so
cutting a line and cutting the text from that line on come to the same (`splitAtOpening_append`,
`splitAfterClose_append`).
-/

namespace Commentary.Script

open Commentary.Text

/-! ## The comments of a text -/

/-- A documentation comment opens at the front of a text. -/
def Opens (text : List Char) : Prop :=
  ∃ rest, text = '/' :: '*' :: '*' :: rest ∧ rest.head? ≠ some '*' ∧ rest.head? ≠ some '/'

/-- A mark that closes a comment stands at the front of a text. -/
def Closes (text : List Char) : Prop := ∃ rest, text = '*' :: '/' :: rest

/-- A property holds at no place of a text. -/
def Nowhere (p : List Char → Prop) (text : List Char) : Prop := ∀ rest, rest <:+ text → ¬p rest

/-- A text splits at the first place at which a property holds. -/
structure SplitsAt (p : List Char → Prop) (text before rest : List Char) : Prop where
  append : before ++ rest = text
  holds : p rest
  first : ∀ longer, longer <:+ text → rest.length < longer.length → ¬p longer

/-- Some comments are those of a text of which the first line has the given number. -/
inductive CommentsIn : Nat → List Char → List DocComment → Prop
  /-- No comment opens. -/
  | none {number : Nat} {text : List Char} (hopens : Nowhere Opens text) :
    CommentsIn number text []
  /-- A comment opens and does not close. -/
  | unclosed {number : Nat} {text code inside : List Char}
    (hopens : SplitsAt Opens text code ('/' :: '*' :: '*' :: inside))
    (hcloses : Nowhere Closes inside) : CommentsIn number text []
  /-- A comment opens and closes, and others follow. -/
  | closed {number : Nat} {text code tail inside rest : List Char} {comments : List DocComment}
    (hopens : SplitsAt Opens text code ('/' :: '*' :: '*' :: tail))
    (hcloses : SplitsAt Closes tail inside ('*' :: '/' :: rest))
    (hrest : CommentsIn (number + (code ++ inside).count '\n') rest comments) :
    CommentsIn number text
      (⟨String.ofList ('/' :: '*' :: '*' :: (inside ++ ['*', '/'])),
        number + code.count '\n'⟩ :: comments)

/-! ## Cutting -/

theorem Nowhere.cons {p : List Char → Prop} {c : Char} {text : List Char} (h : ¬p (c :: text))
    (htext : Nowhere p text) : Nowhere p (c :: text) := by
  intro rest hrest
  rcases List.suffix_cons_iff.1 hrest with rfl | hrest
  · exact h
  · exact htext rest hrest

theorem SplitsAt.cons {p : List Char → Prop} {c : Char} {text before rest : List Char}
    (h : ¬p (c :: text)) (htext : SplitsAt p text before rest) :
    SplitsAt p (c :: text) (c :: before) rest where
  append := by rw [List.cons_append, htext.append]
  holds := htext.holds
  first := by
    intro longer hlonger hlength
    rcases List.suffix_cons_iff.1 hlonger with rfl | hlonger
    · exact h
    · exact htext.first longer hlonger hlength

theorem SplitsAt.front {p : List Char → Prop} {text : List Char} (h : p text) :
    SplitsAt p text [] text where
  append := rfl
  holds := h
  first := fun _ hlonger hlength => absurd hlonger.length_le (Nat.not_le.2 hlength)

/-- There is one first place. -/
theorem SplitsAt.unique {p : List Char → Prop} {text before rest before' rest' : List Char}
    (h : SplitsAt p text before rest) (h' : SplitsAt p text before' rest') :
    before = before' ∧ rest = rest' := by
  have hle : ∀ {before rest before' rest' : List Char}, SplitsAt p text before rest →
      SplitsAt p text before' rest' → rest'.length ≤ rest.length := fun {_ _ before' _} h h' =>
    Nat.not_lt.1 fun hlt => h.first _ ⟨before', h'.append⟩ hlt h'.holds
  exact List.append_inj' (h.append.trans h'.append.symm) (le_antisymm (hle h' h) (hle h h'))

theorem SplitsAt.not_nowhere {p : List Char → Prop} {text before rest : List Char}
    (h : SplitsAt p text before rest) : ¬Nowhere p text := fun hnowhere =>
  hnowhere rest ⟨before, h.append⟩ h.holds

theorem not_opens_of_ne {c : Char} {text : List Char} (h : c ≠ '/') : ¬Opens (c :: text) := by
  rintro ⟨rest, heq, -⟩
  exact h (List.cons.inj heq).1

theorem nowhere_nil {p : List Char → Prop} (h : ¬p []) : Nowhere p [] := by
  intro rest hrest
  rwa [List.suffix_nil.1 hrest]

/-- A line is cut where the first comment opens. -/
theorem splitAtOpening_spec (text : List Char) :
    match splitAtOpening text with
    | some (code, body) => SplitsAt Opens text code body
    | none => Nowhere Opens text := by
  fun_induction splitAtOpening text with
  | case1 rest hrest ih =>
    have h : ¬Opens ('/' :: '*' :: '*' :: rest) := by
      rintro ⟨rest', heq, hstar, hslash⟩
      obtain rfl : rest = rest' := by simpa using heq
      exact hrest.elim hstar hslash
    -- three characters are passed over at once, and no comment opens at any of them
    have hstar : ∀ text, ¬Opens ('*' :: text) := fun _ => not_opens_of_ne (by decide)
    rcases hsplit : splitAtOpening rest with _ | ⟨code, body⟩
    · rw [hsplit] at ih
      exact .cons h (.cons (hstar _) (.cons (hstar _) ih))
    · rw [hsplit] at ih
      exact .cons h (.cons (hstar _) (.cons (hstar _) ih))
  | case2 rest hrest =>
    rw [not_or] at hrest
    exact .front ⟨rest, rfl, hrest⟩
  | case3 c rest hc ih =>
    have h : ¬Opens (c :: rest) := by
      rintro ⟨rest', heq, -⟩
      obtain ⟨rfl, rfl⟩ := List.cons.inj heq
      exact hc rest' rfl rfl
    rcases hsplit : splitAtOpening rest with _ | ⟨code, body⟩
    · rw [hsplit] at ih
      exact .cons h ih
    · rw [hsplit] at ih
      exact .cons h ih
  | case4 => exact nowhere_nil (by rintro ⟨rest, heq, -⟩; cases heq)

/-- A comment is cut behind the first mark that closes it. -/
theorem splitAfterClose_spec (text : List Char) :
    match splitAfterClose text with
    | some (closed, rest) => ∃ inside, closed = inside ++ ['*', '/'] ∧
        SplitsAt Closes text inside ('*' :: '/' :: rest)
    | none => Nowhere Closes text := by
  fun_induction splitAfterClose text with
  | case1 rest => exact ⟨[], rfl, .front ⟨rest, rfl⟩⟩
  | case2 c rest hc ih =>
    have h : ¬Closes (c :: rest) := by
      rintro ⟨rest', heq⟩
      obtain ⟨rfl, rfl⟩ := List.cons.inj heq
      exact hc rest' rfl rfl
    rcases hsplit : splitAfterClose rest with _ | ⟨closed, after⟩
    · rw [hsplit] at ih
      exact .cons h ih
    · rw [hsplit] at ih
      obtain ⟨inside, rfl, hinside⟩ := ih
      exact ⟨c :: inside, rfl, .cons h hinside⟩
  | case3 => exact nowhere_nil (by rintro ⟨rest, heq⟩; cases heq)

theorem splitAtOpening_eq_none_iff {text : List Char} :
    splitAtOpening text = none ↔ Nowhere Opens text := by
  have hspec := splitAtOpening_spec text
  rcases hsplit : splitAtOpening text with _ | ⟨code, body⟩
  · rw [hsplit] at hspec
    exact iff_of_true rfl hspec
  · rw [hsplit] at hspec
    exact iff_of_false (by simp) hspec.not_nowhere

theorem splitAtOpening_eq_some_iff {text code body : List Char} :
    splitAtOpening text = some (code, body) ↔ SplitsAt Opens text code body := by
  have hspec := splitAtOpening_spec text
  rcases hsplit : splitAtOpening text with _ | ⟨code', body'⟩
  · rw [hsplit] at hspec
    exact iff_of_false (by simp) fun h => h.not_nowhere hspec
  · rw [hsplit] at hspec
    rw [Option.some.injEq, Prod.mk.injEq]
    refine ⟨?_, hspec.unique⟩
    rintro ⟨rfl, rfl⟩
    exact hspec

theorem splitAfterClose_eq_none_iff {text : List Char} :
    splitAfterClose text = none ↔ Nowhere Closes text := by
  have hspec := splitAfterClose_spec text
  rcases hsplit : splitAfterClose text with _ | ⟨closed, rest⟩
  · rw [hsplit] at hspec
    exact iff_of_true rfl hspec
  · rw [hsplit] at hspec
    obtain ⟨inside, -, hinside⟩ := hspec
    exact iff_of_false (by simp) hinside.not_nowhere

theorem splitAfterClose_of_splitsAt {text inside rest : List Char}
    (h : SplitsAt Closes text inside ('*' :: '/' :: rest)) :
    splitAfterClose text = some (inside ++ ['*', '/'], rest) := by
  have hspec := splitAfterClose_spec text
  rcases hsplit : splitAfterClose text with _ | ⟨closed, rest'⟩
  · rw [hsplit] at hspec
    exact absurd hspec h.not_nowhere
  · rw [hsplit] at hspec
    obtain ⟨inside', rfl, hinside⟩ := hspec
    obtain ⟨rfl, hrest⟩ := h.unique hinside
    obtain rfl : rest = rest' := by simpa using hrest
    rfl

/-! ## The comments of a text, in order -/

/-- The comments of a text of which the first line has the given number. -/
def commentsFrom (number : Nat) (text : List Char) : List DocComment :=
  match _hcode : splitAtOpening text with
  | none => []
  | some (code, body) =>
    match _htext : splitComment body with
    | none => []
    | some (closed, rest) =>
      ⟨String.ofList closed, number + code.count '\n'⟩ ::
        commentsFrom (number + (code ++ closed).count '\n') rest
termination_by text.length
decreasing_by
  have hcode := congrArg List.length (append_of_splitAtOpening _hcode)
  obtain ⟨happ, hne⟩ := append_of_splitComment _htext
  have htext := congrArg List.length happ
  have hpos := List.length_pos_iff.2 hne
  simp at hcode htext
  omega

theorem commentsFrom_of_none {text : List Char} (h : splitAtOpening text = none) (number : Nat) :
    commentsFrom number text = [] := by
  rw [commentsFrom]
  split
  · rfl
  · rename_i hsome
    simp [h] at hsome

theorem commentsFrom_of_some {text code body : List Char}
    (h : splitAtOpening text = some (code, body)) (number : Nat) :
    commentsFrom number text =
      match splitComment body with
      | none => []
      | some (closed, rest) =>
        ⟨String.ofList closed, number + code.count '\n'⟩ ::
          commentsFrom (number + (code ++ closed).count '\n') rest := by
  rw [commentsFrom]
  split
  · rename_i hnone
    simp [h] at hnone
  · rename_i code' body' hsome
    obtain ⟨rfl, rfl⟩ : code = code' ∧ body = body' := by simpa [h] using hsome
    split <;> rename_i hcomment <;> simp [hcomment]

theorem splitComment_opening (tail : List Char) :
    splitComment ('/' :: '*' :: '*' :: tail) =
      (splitAfterClose tail).map fun (inside, rest) => ('/' :: '*' :: '*' :: inside, rest) := rfl

/-- Some comments are those of a text exactly if they are found by cutting it. -/
theorem commentsIn_iff {number : Nat} {text : List Char} {comments : List DocComment} :
    CommentsIn number text comments ↔ commentsFrom number text = comments := by
  constructor
  · intro h
    induction h with
    | none hopens => exact commentsFrom_of_none (splitAtOpening_eq_none_iff.2 hopens) _
    | unclosed hopens hcloses =>
      rw [commentsFrom_of_some (splitAtOpening_eq_some_iff.2 hopens), splitComment_opening,
        splitAfterClose_eq_none_iff.2 hcloses]
      rfl
    | closed hopens hcloses hrest ih =>
      rw [commentsFrom_of_some (splitAtOpening_eq_some_iff.2 hopens), splitComment_opening,
        splitAfterClose_of_splitsAt hcloses]
      simp [← ih]
  · rintro rfl
    fun_induction commentsFrom number text with
    | case1 number text hnone => exact .none (splitAtOpening_eq_none_iff.1 hnone)
    | case2 number text code body hcode hnone =>
      have hopens := splitAtOpening_eq_some_iff.1 hcode
      obtain ⟨tail, rfl, -⟩ := hopens.holds
      rw [splitComment_opening, Option.map_eq_none_iff] at hnone
      exact .unclosed hopens (splitAfterClose_eq_none_iff.1 hnone)
    | case3 number text code body hcode closed rest hclosed ih =>
      have hopens := splitAtOpening_eq_some_iff.1 hcode
      obtain ⟨tail, rfl, -⟩ := hopens.holds
      rw [splitComment_opening, Option.map_eq_some_iff] at hclosed
      obtain ⟨⟨inside, rest'⟩, hinside, heq⟩ := hclosed
      obtain ⟨rfl, rfl⟩ := Prod.mk.inj heq
      have hspec := splitAfterClose_spec tail
      rw [hinside] at hspec
      obtain ⟨inside, rfl, hcloses⟩ := hspec
      refine .closed hopens hcloses ?_
      simpa [Nat.add_assoc] using ih

/-! ## From lines to the text

A line is followed by nothing, or by a line feed and further lines. Neither mark can reach across a
line feed. -/

/-- What follows a line: each further line behind a line feed. -/
def behindLine (more : List (List Char)) : List Char := more.flatMap ('\n' :: ·)

@[simp]
theorem behindLine_cons (line : List Char) (more : List (List Char)) :
    behindLine (line :: more) = '\n' :: (line ++ behindLine more) := rfl

theorem count_behindLine {more : List (List Char)} (hmore : ∀ line ∈ more, '\n' ∉ line) :
    (behindLine more).count '\n' = more.length := by
  induction more with
  | nil => rfl
  | cons line more ih =>
    rw [List.forall_mem_cons] at hmore
    rw [behindLine_cons, List.count_cons_self, List.count_append, List.count_eq_zero.2 hmore.1,
      ih hmore.2, Nat.zero_add, List.length_cons]

theorem splitAtOpening_append (line : List Char) (more : List (List Char)) :
    splitAtOpening (line ++ behindLine more) =
      match splitAtOpening line with
      | some (code, body) => some (code, body ++ behindLine more)
      | none =>
        (splitAtOpening (behindLine more)).map fun (code, body) => (line ++ code, body) := by
  fun_induction splitAtOpening line with
  | case1 rest hrest ih =>
    have hhead : (rest ++ behindLine more).head? = rest.head? := by
      rcases rest with _ | ⟨c, rest⟩
      · simp at hrest
      · rfl
    rw [List.cons_append, List.cons_append, List.cons_append, splitAtOpening, hhead, if_pos hrest,
      ih]
    rcases splitAtOpening rest with _ | ⟨code, body⟩ <;> simp [Function.comp_def]
  | case2 rest hrest =>
    have hhead : ¬((rest ++ behindLine more).head? = some '*' ∨
        (rest ++ behindLine more).head? = some '/') := by
      rcases rest with _ | ⟨c, rest⟩
      · rcases more with _ | ⟨next, more⟩ <;> simp [behindLine]
      · exact hrest
    rw [List.cons_append, List.cons_append, List.cons_append, splitAtOpening, if_neg hhead]
    rfl
  | case3 c rest hc ih =>
    rw [List.cons_append, splitAtOpening, ih]
    · rcases splitAtOpening rest with _ | ⟨code, body⟩ <;> simp [Function.comp_def]
    · rintro rest' rfl hrest'
      rcases rest with _ | ⟨c₁, _ | ⟨c₂, rest⟩⟩
      · rcases more with _ | ⟨next, more⟩ <;> simp [behindLine] at hrest'
      · rcases more with _ | ⟨next, more⟩ <;> simp [behindLine] at hrest'
      · simp only [List.cons_append, List.cons.injEq] at hrest'
        exact hc rest rfl (by rw [hrest'.1, hrest'.2.1])
  | case4 => simp

theorem splitAfterClose_append (line : List Char) (more : List (List Char)) :
    splitAfterClose (line ++ behindLine more) =
      match splitAfterClose line with
      | some (closed, rest) => some (closed, rest ++ behindLine more)
      | none =>
        (splitAfterClose (behindLine more)).map fun (closed, rest) => (line ++ closed, rest) := by
  fun_induction splitAfterClose line with
  | case1 rest => rfl
  | case2 c rest hc ih =>
    rw [List.cons_append, splitAfterClose, ih]
    · rcases splitAfterClose rest with _ | ⟨closed, after⟩ <;> simp [Function.comp_def]
    · rintro rest' rfl hrest'
      rcases rest with _ | ⟨c₁, rest⟩
      · rcases more with _ | ⟨next, more⟩ <;> simp [behindLine] at hrest'
      · rw [List.cons_append, List.cons.injEq] at hrest'
        exact hc rest rfl (by rw [hrest'.1])
  | case3 => simp

theorem splitAtOpening_lineFeed (text : List Char) :
    splitAtOpening ('\n' :: text) =
      (splitAtOpening text).map fun (code, body) => ('\n' :: code, body) := by
  rw [splitAtOpening]
  intro rest h
  simp at h

theorem splitAfterClose_lineFeed (text : List Char) :
    splitAfterClose ('\n' :: text) =
      (splitAfterClose text).map fun (closed, rest) => ('\n' :: closed, rest) := by
  rw [splitAfterClose]
  intro rest h
  simp at h

/-- A line without comments counts as a line and holds nothing. -/
theorem commentsFrom_line {line : List Char} (h : splitAtOpening line = none)
    (hline : '\n' ∉ line) (number : Nat) (next : List Char) (more : List (List Char)) :
    commentsFrom number (line ++ behindLine (next :: more)) =
      commentsFrom (number + 1) (next ++ behindLine more) := by
  have hsplit : splitAtOpening (line ++ behindLine (next :: more)) =
      (splitAtOpening (next ++ behindLine more)).map
        fun (code, body) => (line ++ '\n' :: code, body) := by
    rw [splitAtOpening_append, h, behindLine_cons, splitAtOpening_lineFeed, Option.map_map]
    rfl
  have hcount : line.count '\n' = 0 := List.count_eq_zero.2 hline
  rcases hnext : splitAtOpening (next ++ behindLine more) with _ | ⟨code, body⟩
  · rw [commentsFrom_of_none hnext, commentsFrom_of_none]
    rw [hsplit, hnext]
    rfl
  · rw [hnext] at hsplit
    rw [commentsFrom_of_some hnext, commentsFrom_of_some hsplit]
    rcases splitComment body with _ | ⟨closed, rest⟩
    · rfl
    · simp [hcount, Nat.add_assoc, Nat.add_comm, Nat.add_left_comm]

/-! ## Inside a comment -/

/-- A comment with more text. -/
def DocComment.extend (comment : DocComment) (cs : List Char) : DocComment :=
  { comment with text := comment.text ++ String.ofList cs }

theorem DocComment.extend_ofList (cs more : List Char) (number : Nat) :
    DocComment.extend ⟨String.ofList cs, number⟩ more = ⟨String.ofList (cs ++ more), number⟩ := by
  rw [extend, String.ofList_append]

theorem DocComment.extend_extend (comment : DocComment) (cs more : List Char) :
    (comment.extend cs).extend more = comment.extend (cs ++ more) := by
  rw [extend, extend, extend, String.ofList_append, String.append_assoc]

theorem DocComment.extend_lineFeed (comment : DocComment) (cs : List Char) :
    { comment with text := comment.text ++ "\n" ++ String.ofList cs } =
      comment.extend ('\n' :: cs) := by
  rw [extend, ← List.singleton_append, String.ofList_append, String.append_assoc]

/-- The comments of a text that begins inside a comment, on the line with the given number. -/
def commentsInside (comment : DocComment) (number : Nat) (text : List Char) : List DocComment :=
  match splitAfterClose text with
  | none => []
  | some (closed, rest) =>
    comment.extend closed :: commentsFrom (number + closed.count '\n') rest

/-- Behind the mark that opens a comment, a text begins inside that comment. -/
theorem commentsFrom_of_opening {text code tail : List Char}
    (h : splitAtOpening text = some (code, '/' :: '*' :: '*' :: tail)) (hcode : '\n' ∉ code)
    (number : Nat) :
    commentsFrom number text =
      commentsInside ⟨String.ofList ['/', '*', '*'], number⟩ number tail := by
  have hcount : code.count '\n' = 0 := List.count_eq_zero.2 hcode
  rw [commentsFrom_of_some h, splitComment_opening, hcount, commentsInside]
  rcases splitAfterClose tail with _ | ⟨closed, rest⟩
  · rfl
  · simp only [Option.map_some, List.count_append, hcount, Nat.zero_add, DocComment.extend_ofList]
    rfl

theorem commentsInside_of_none {line : List Char} (h : splitAfterClose line = none)
    (hline : '\n' ∉ line) (comment : DocComment) (number : Nat) (more : List (List Char)) :
    commentsInside comment number (line ++ behindLine more) =
      commentsInside (comment.extend line) number (behindLine more) := by
  have hcount : line.count '\n' = 0 := List.count_eq_zero.2 hline
  rw [commentsInside, splitAfterClose_append, h, commentsInside]
  rcases splitAfterClose (behindLine more) with _ | ⟨closed, rest⟩
  · rfl
  · simp only [Option.map_some, DocComment.extend_extend, List.count_append, hcount, Nat.zero_add]

theorem commentsInside_of_some {line closed rest : List Char}
    (h : splitAfterClose line = some (closed, rest)) (hline : '\n' ∉ line) (comment : DocComment)
    (number : Nat) (more : List (List Char)) :
    commentsInside comment number (line ++ behindLine more) =
      comment.extend closed :: commentsFrom number (rest ++ behindLine more) := by
  rw [← append_of_splitAfterClose h, List.mem_append, not_or] at hline
  rw [commentsInside, splitAfterClose_append, h]
  simp only [List.count_eq_zero.2 hline.1, Nat.add_zero]

theorem commentsInside_lineFeed (comment : DocComment) (number : Nat) (text : List Char) :
    commentsInside comment number ('\n' :: text) =
      commentsInside (comment.extend ['\n']) (number + 1) text := by
  rw [commentsInside, splitAfterClose_lineFeed, commentsInside]
  rcases splitAfterClose text with _ | ⟨closed, rest⟩
  · rfl
  · simp only [Option.map_some, DocComment.extend_extend, List.singleton_append,
      List.count_cons_self, Nat.add_assoc, Nat.add_comm 1]

/-! ## Scanning -/

namespace Scan

/-- The comments that a scan has been given: those that are done, and the one that waits. -/
def given (scan : Scan) : List DocComment := scan.found.map Prod.fst ++ scan.pending.toList

theorem given_flush (scan : Scan) (code : CodeHint) : (scan.flush code).given = scan.given := by
  rcases hpending : scan.pending with _ | comment <;> simp [flush, given, emit, hpending]

theorem opened_flush (scan : Scan) (code : CodeHint) : (scan.flush code).opened = scan.opened := by
  unfold flush
  split <;> rfl

theorem pending_flush (scan : Scan) (code : CodeHint) : (scan.flush code).pending = none := by
  unfold flush
  split
  · rfl
  · assumption

/-- A comment that is closed is the last one given. -/
theorem given_close (scan : Scan) (comment : DocComment) :
    (scan.close comment).given = scan.given ++ [comment] := by
  have h := scan.given_flush {}
  simp only [given, scan.pending_flush {}, Option.toList_none, List.append_nil] at h
  rw [close, given, h]
  rfl

theorem opened_close (scan : Scan) (comment : DocComment) :
    (scan.close comment).opened = scan.opened := scan.opened_flush {}

theorem given_openBlock (scan : Scan) (line : List Char) (opens : Option Block) :
    (scan.openBlock line opens).given = scan.given ∧
      (scan.openBlock line opens).opened = scan.opened := by
  unfold openBlock
  split
  · split <;> exact ⟨rfl, rfl⟩
  · exact ⟨rfl, rfl⟩

/-- Code does not change which comments a scan has been given, or which one is open. -/
theorem given_code (scan : Scan) (piece : List Char) :
    (scan.code piece).given = scan.given ∧ (scan.code piece).opened = scan.opened := by
  unfold code
  simp only
  split
  · exact ⟨rfl, rfl⟩
  · exact ⟨(given_openBlock _ _ _).1.trans (given_flush _ _),
      (given_openBlock _ _ _).2.trans (opened_flush _ _)⟩

theorem map_fst_finish (scan : Scan) : scan.finish.map Prod.fst = scan.given := by
  have h := scan.given_flush {}
  rwa [given, scan.pending_flush {}, Option.toList_none, List.append_nil] at h

/-- The rest of a line is taken comment by comment. -/
theorem rest_eq (number : Nat) (scan : Scan) (cs : List Char) :
    scan.rest number cs =
      match splitAtOpening cs with
      | none => scan.code cs
      | some (piece, body) =>
        match splitComment body with
        | some (text, after) =>
          ((scan.code piece).close ⟨String.ofList text, number⟩).rest number after
        | none => { scan.code piece with opened := some ⟨String.ofList body, number⟩ } := by
  rw [rest]
  split
  · rename_i hnone
    rw [hnone]
  · rename_i piece body hsome
    rw [hsome]
    split <;> rename_i hcomment <;> simp [hcomment]

/-- Scans that stand in some line outside of comments, with further lines to come, give the
comments of the text. -/
def GivesOutside (more : List (List Char)) : Prop :=
  ∀ (scan : Scan) (number : Nat) (cs : List Char), '\n' ∉ cs → scan.opened = none →
    ((scan.rest number cs).lines (number + 1) more).given =
      scan.given ++ commentsFrom number (cs ++ behindLine more)

/-- Scans that end a line inside a comment give what is left of this comment, and those behind. -/
def GivesInside (more : List (List Char)) : Prop :=
  ∀ (scan : Scan) (comment : DocComment) (number : Nat), scan.opened = some comment →
    (scan.lines (number + 1) more).given =
      scan.given ++ commentsInside comment number (behindLine more)

variable {more : List (List Char)}

/-- By induction on what is left of the line; only what follows the line remains to be scanned. -/
theorem givesOutside_of (hinside : GivesInside more)
    (hplain : ∀ (scan : Scan) (number : Nat) (line : List Char), '\n' ∉ line →
      splitAtOpening line = none → scan.opened = none →
      (scan.lines (number + 1) more).given =
        scan.given ++ commentsFrom number (line ++ behindLine more)) :
    GivesOutside more := by
  intro scan number cs hcs hopened
  induction hlength : cs.length using Nat.strongRecOn generalizing scan cs with
  | ind length ih =>
    rw [rest_eq]
    rcases hsplit : splitAtOpening cs with _ | ⟨code, body⟩
    · simp only
      rw [hplain (scan.code cs) number cs hcs hsplit ((given_code scan cs).2.trans hopened),
        (given_code scan cs).1]
    · obtain ⟨tail, rfl, -⟩ := (splitAtOpening_eq_some_iff.1 hsplit).holds
      have happend := append_of_splitAtOpening hsplit
      rw [← happend, List.mem_append, not_or] at hcs
      have htail : '\n' ∉ tail := fun htail => hcs.2 (by simp [htail])
      have hsplit' : splitAtOpening (cs ++ behindLine more) =
          some (code, '/' :: '*' :: '*' :: (tail ++ behindLine more)) := by
        rw [splitAtOpening_append, hsplit]
        rfl
      rw [commentsFrom_of_opening hsplit' hcs.1]
      simp only [splitComment_opening]
      rcases hclose : splitAfterClose tail with _ | ⟨closed, rest⟩
      · -- the comment goes on behind the line
        rw [commentsInside_of_none hclose htail, DocComment.extend_ofList,
          ← (given_code scan code).1]
        exact hinside _ _ number rfl
      · -- the comment closes, and the scan goes on behind it
        have hrest := append_of_splitAfterClose hclose
        have hshorter : rest.length < length := by
          have h1 := congrArg List.length happend
          have h2 := congrArg List.length hrest
          simp only [List.length_append, List.length_cons] at h1 h2
          omega
        rw [commentsInside_of_some hclose htail, DocComment.extend_ofList]
        simp only [Option.map_some]
        rw [← hrest, List.mem_append, not_or] at htail
        rw [ih rest.length hshorter _ rest htail.2
            ((opened_close _ _).trans ((given_code scan code).2.trans hopened)) rfl,
          given_close, (given_code scan code).1, List.append_assoc]
        rfl

theorem givesInside_nil : GivesInside [] := fun _ _ _ _ => (List.append_nil _).symm

theorem givesInside_cons {line : List Char} (hline : '\n' ∉ line) (houtside : GivesOutside more)
    (hinside : GivesInside more) : GivesInside (line :: more) := by
  intro scan comment number hopened
  rw [lines, Scan.line, hopened, behindLine_cons, commentsInside_lineFeed]
  simp only [DocComment.extend_lineFeed]
  rcases hclose : splitAfterClose line with _ | ⟨closed, after⟩
  · simp only
    rw [hinside _ _ (number + 1) rfl, commentsInside_of_none hclose hline,
      DocComment.extend_extend]
    rfl
  · simp only
    rw [commentsInside_of_some hclose hline, DocComment.extend_extend]
    rw [← append_of_splitAfterClose hclose, List.mem_append, not_or] at hline
    rw [houtside _ (number + 1) after hline.2 ((opened_close _ _).trans rfl), given_close,
      List.append_assoc]
    rfl

theorem gives {more : List (List Char)} (hmore : ∀ line ∈ more, '\n' ∉ line) :
    GivesOutside more ∧ GivesInside more := by
  induction more with
  | nil =>
    refine ⟨givesOutside_of givesInside_nil ?_, givesInside_nil⟩
    intro scan number line _ hsplit _
    rw [commentsFrom_of_none (by simpa [behindLine] using hsplit), List.append_nil]
    rfl
  | cons next more ih =>
    rw [List.forall_mem_cons] at hmore
    obtain ⟨houtside, hinside⟩ := ih hmore.2
    have hinside' := givesInside_cons hmore.1 houtside hinside
    refine ⟨givesOutside_of hinside' ?_, hinside'⟩
    intro scan number line hline hsplit hopened
    rw [commentsFrom_line hsplit hline, lines, Scan.line, hopened]
    exact houtside scan (number + 1) next hmore.1 hopened

/-- A scan of lines gives the comments of their text. -/
theorem given_lines {ls : List (List Char)} (hls : ∀ line ∈ ls, '\n' ∉ line) :
    (Scan.lines {} 1 ls).given = commentsFrom 1 (Comment.joinLines ls) := by
  rcases ls with _ | ⟨line, more⟩
  · rw [commentsFrom_of_none rfl]
    rfl
  · rw [List.forall_mem_cons] at hls
    rw [Comment.joinLines_cons]
    exact (gives hls.2).1 {} 1 line hls.1 rfl

end Scan

/-! ## Lines of a source -/

theorem lineFeed_not_mem_linesFrom {read : List Char} (hread : '\n' ∉ read) (text : List Char) :
    ∀ line ∈ linesFrom read text, '\n' ∉ line := by
  have hdrop : ∀ {read : List Char}, '\n' ∉ read → '\n' ∉ dropCarriageReturn read := by
    intro read hread
    unfold dropCarriageReturn
    split
    · exact fun hmem => hread (List.mem_cons_of_mem _ hmem)
    · exact hread
  induction text generalizing read with
  | nil =>
    rw [linesFrom]
    split <;> simp [hread]
  | cons c text ih =>
    rw [linesFrom]
    split
    · rw [List.forall_mem_cons, List.mem_reverse]
      exact ⟨hdrop hread, ih List.not_mem_nil⟩
    · rename_i hc
      exact ih (by simp [hread, Ne.symm hc])

/-- Without carriage returns, the lines of a text make up the text, but for a line feed at its
end. -/
theorem joinLines_linesFrom {read text : List Char} (hread : '\r' ∉ read) (htext : '\r' ∉ text) :
    Comment.joinLines (linesFrom read text) <+: read.reverse ++ text := by
  induction text generalizing read with
  | nil =>
    rw [linesFrom]
    split
    · exact List.nil_prefix
    · simp [Comment.joinLines_cons, Comment.joinTag]
  | cons c text ih =>
    rw [List.mem_cons, not_or] at htext
    rw [linesFrom]
    split
    · rename_i hc
      have hdrop : dropCarriageReturn read = read := by
        unfold dropCarriageReturn
        split
        · simp at hread
        · rfl
      have hrest := ih List.not_mem_nil htext.2
      rw [hdrop, hc, Comment.joinLines_cons]
      rcases hls : linesFrom [] text with _ | ⟨next, more⟩
      · simp [Comment.joinTag]
      · rw [hls, Comment.joinLines_cons] at hrest
        rw [Comment.joinTag_cons, List.prefix_append_right_inj, List.cons_prefix_cons]
        exact ⟨rfl, hrest⟩
    · have hread' : '\r' ∉ c :: read := by simp [hread, htext.1]
      simpa using ih hread' htext.2

theorem toList_unlines_lines (source : String) :
    (unlines (lines source)).toList = Comment.joinLines (lineChars source.toList) := by
  rw [unlines, lines, String.toList_intercalate, List.map_map]
  have hmap : String.toList ∘ String.ofList = id := funext fun cs => String.toList_ofList
  rw [hmap, List.map_id]
  rfl

/-! ## What is given -/

/-- The comments of a text stand in it, between the marks that open and close them. -/
theorem CommentsIn.forall_mem {number : Nat} {text : List Char} {comments : List DocComment}
    (h : CommentsIn number text comments) :
    ∀ comment ∈ comments, "/**".toList <+: comment.text.toList ∧
      "*/".toList <:+ comment.text.toList ∧ comment.text.toList <:+: text := by
  induction h with
  | none | unclosed => simp
  | @closed number text code tail inside rest comments hopens hcloses _ ih =>
    have htext : text =
        code ++ ('/' :: '*' :: '*' :: (inside ++ ['*', '/'])) ++ rest := by
      rw [← hopens.append, ← hcloses.append]
      simp
    rw [List.forall_mem_cons]
    refine ⟨?_, fun comment hcomment => ?_⟩
    · simp only [String.toList_ofList, htext]
      exact ⟨⟨inside ++ ['*', '/'], rfl⟩, ⟨'/' :: '*' :: '*' :: inside, rfl⟩, ⟨code, rest, rfl⟩⟩
    · obtain ⟨hstart, hend, hmem⟩ := ih comment hcomment
      exact ⟨hstart, hend, hmem.trans ⟨code ++ '/' :: '*' :: '*' :: (inside ++ ['*', '/']), [],
        by rw [htext, List.append_nil]⟩⟩

theorem map_fst_comments (source : String) :
    (comments source).map Prod.fst = commentsFrom 1 (unlines (lines source)).toList := by
  have hlines : ∀ line ∈ lineChars source.toList, '\n' ∉ line :=
    lineFeed_not_mem_linesFrom List.not_mem_nil _
  rw [comments, Scan.map_fst_finish, toList_unlines_lines, Scan.given_lines hlines]

/-- The number of a comment's line is that of some line of the text. -/
theorem CommentsIn.line_bounds {number : Nat} {text : List Char} {comments : List DocComment}
    (h : CommentsIn number text comments) :
    ∀ comment ∈ comments,
      number ≤ comment.line ∧ comment.line ≤ number + text.count '\n' := by
  induction h with
  | none | unclosed => simp
  | @closed number text code tail inside rest comments hopens hcloses _ ih =>
    have hcount : text.count '\n' = (code ++ inside).count '\n' + rest.count '\n' := by
      rw [← hopens.append, ← hcloses.append]
      simp [Nat.add_assoc]
    rw [List.forall_mem_cons]
    refine ⟨⟨Nat.le_add_right _ _, ?_⟩, fun comment hcomment => ?_⟩
    · have hcode : code.count '\n' ≤ text.count '\n' := by
        rw [hcount, List.count_append]
        omega
      exact Nat.add_le_add_left hcode number
    · obtain ⟨hfrom, hto⟩ := ih comment hcomment
      omega

theorem exists_comment_of_mem_scan {path source : String} {given : Doclet.Source}
    (h : given ∈ scan path source) :
    ∃ comment ∈ commentsFrom 1 (unlines (lines source)).toList,
      given.comment = comment.text ∧ given.origin.line = some comment.line := by
  obtain ⟨⟨comment, code⟩, hcomment, rfl⟩ := List.mem_map.1 h
  refine ⟨comment, ?_, rfl, rfl⟩
  rw [← map_fst_comments]
  exact List.mem_map_of_mem hcomment

/-- No line number is above the number of lines, so in a source of fewer than `2 ^ 32` lines all of
them fit 32 bits. -/
theorem line_le_length_lines {path source : String} {given : Doclet.Source}
    (h : given ∈ scan path source) :
    ∃ line, given.origin.line = some line ∧ 1 ≤ line ∧ line ≤ (lines source).length := by
  obtain ⟨comment, hmem, -, hline⟩ := exists_comment_of_mem_scan h
  have hlines : ∀ line ∈ lineChars source.toList, '\n' ∉ line :=
    lineFeed_not_mem_linesFrom List.not_mem_nil _
  rw [toList_unlines_lines] at hmem
  obtain ⟨hfrom, hto⟩ := (commentsIn_iff.2 rfl).line_bounds comment hmem
  refine ⟨comment.line, hline, hfrom, ?_⟩
  rw [lines, List.length_map]
  rcases hls : lineChars source.toList with _ | ⟨line, more⟩
  · rw [hls, commentsFrom_of_none rfl] at hmem
    cases hmem
  · rw [hls, List.forall_mem_cons] at hlines
    rw [hls, Comment.joinLines_cons, Comment.joinTag, ← behindLine, List.count_append,
      List.count_eq_zero.2 hlines.1, count_behindLine hlines.2] at hto
    rw [List.length_cons]
    omega

/-- A scan gives the documentation comments of a source, all of them, each once and in order, with
the lines on which they open. Each of them begins with the mark that opens it and ends with the mark
that closes it, and stands in the source as it is given if that has no carriage returns. -/
theorem scan_comments (path source : String) :
    (∀ found : List DocComment, CommentsIn 1 (unlines (lines source)).toList found ↔
      (scan path source).map (fun given => (given.comment, given.origin.line)) =
        found.map fun comment => (comment.text, some comment.line)) ∧
    ∀ given ∈ scan path source,
      "/**".toList <+: given.comment.toList ∧ "*/".toList <:+ given.comment.toList ∧
        ('\r' ∉ source.toList → given.comment.toList <:+: source.toList) := by
  have hscan : (scan path source).map (fun given => (given.comment, given.origin.line)) =
      ((comments source).map Prod.fst).map fun comment => (comment.text, some comment.line) := by
    rw [scan, List.map_map, List.map_map]
    rfl
  have hinjective : Function.Injective
      fun comment : DocComment => (comment.text, some comment.line) := by
    rintro ⟨text, line⟩ ⟨text', line'⟩ heq
    simpa using heq
  refine ⟨fun found => ?_, fun given hgiven => ?_⟩
  · rw [commentsIn_iff, hscan, map_fst_comments]
    exact (List.map_injective_iff.2 hinjective).eq_iff.symm
  · obtain ⟨comment, hmem, hcomment, -⟩ := exists_comment_of_mem_scan hgiven
    obtain ⟨hstart, hend, hinfix⟩ := (commentsIn_iff.2 rfl).forall_mem comment hmem
    rw [hcomment]
    refine ⟨hstart, hend, fun hreturn => hinfix.trans ?_⟩
    rw [toList_unlines_lines]
    exact (joinLines_linesFrom List.not_mem_nil hreturn).isInfix

end Commentary.Script
