import Commentary.Proofs.CommentLayout
import Commentary.Tag.Body
import Mathlib.Data.List.Infix

/-!
# Tag bodies as they are written

A tag body is written as a type in braces, a name and, behind a dash, a description. Taking it apart
gives these three back (`split_text`), with the default of a name in brackets.

The parts are taken off from the front. The type runs to the brace that closes it, whether its
braces have backslashes or come in pairs (`readType_text`); an inline type would win over it, but
nothing can open one (`inlineType?_eq_none`); the name runs to the bracket that closes it, wherever
brackets stand in the quoted spans of its default (`splitBrackets_outside`), or else to the blank in
front of the dash.
-/

namespace Commentary.Tag

open Commentary.Text

/-! ## The layout -/

/-- Behind `depth` opening marks, each closing mark of a text closes one of these or of its own, and
in the end all are closed. -/
structure Balanced (opening closing : Char) (depth : Nat) (cs : List Char) : Prop where
  closed : cs.count closing = depth + cs.count opening
  opened : ∀ front, front <+: cs → front.count closing ≤ depth + front.count opening

/-- What is left of a text, all of whose quoted spans are closed, without these spans. -/
inductive Outside : List Char → List Char → Prop
  | nil : Outside [] []
  | plain {c : Char} {cs outside : List Char} (hc : isQuote c = false) (h : Outside cs outside) :
    Outside (c :: cs) (c :: outside)
  | quoted {mark : Char} {span cs outside : List Char} (hmark : isQuote mark = true)
    (hspan : mark ∉ span) (h : Outside cs outside) :
    Outside (mark :: (span ++ mark :: cs)) outside

/-- A text without blanks at its ends. -/
structure IsTrimmed (cs : List Char) : Prop where
  head : ∀ c ∈ cs.head?, isBlank c = false
  last : ∀ c ∈ cs.getLast?, isBlank c = false

instance : DecidablePred IsTrimmed := fun cs =>
  decidable_of_iff (cs.head?.all (!isBlank ·) = true ∧ cs.getLast?.all (!isBlank ·) = true) <| by
    simp only [Option.all_eq_true, Bool.not_eq_true']
    exact ⟨fun h => ⟨h.1, h.2⟩, fun h => ⟨h.head, h.last⟩⟩

/-- A brace with a backslash in front of it; any other character stays as it is. -/
def escapeBrace (c : Char) : List Char := if c = '\x7b' ∨ c = '\x7d' then ['\\', c] else [c]

/-- A type as it stands in braces: with a backslash in front of each of its own, or as it is. -/
inductive TypeLayout where
  | escaped (type : List Char)
  | verbatim (type : List Char)
deriving DecidableEq, Repr

namespace TypeLayout

/-- The type that is meant. -/
def type : TypeLayout → List Char
  | escaped type | verbatim type => type

/-- The type as it is written. -/
def text : TypeLayout → List Char
  | escaped type => type.flatMap escapeBrace
  | verbatim type => type

/-- Only a type whose braces come in pairs can be written as it is. -/
def IsProper : TypeLayout → Prop
  | escaped type => '\\' ∉ type
  | verbatim type => '\\' ∉ type ∧ Balanced '\x7b' '\x7d' 0 type

end TypeLayout

/-- A name that can stand in front of an equals sign in brackets. -/
structure IsOptionalName (name : List Char) : Prop where
  ne_nil : name ≠ []
  trimmed : IsTrimmed name
  equals : '=' ∉ name
  unmarked : ∀ c ∈ name, c ≠ '\\' ∧ isQuote c = false ∧ c ≠ '[' ∧ c ≠ ']'

/-- A default that can stand behind an equals sign in brackets. -/
structure IsDefault (value : List Char) : Prop where
  ne_nil : value ≠ []
  trimmed : IsTrimmed value
  backslash : '\\' ∉ value
  brackets : ∃ outside, Outside value outside ∧ Balanced '[' ']' 0 outside

/-- A name as it is written: by itself, or in brackets and with a default. -/
inductive NameLayout where
  | plain (name : List Char)
  | optional (name value : List Char)
deriving DecidableEq, Repr

namespace NameLayout

/-- The name as it is written. -/
def text : NameLayout → List Char
  | plain name => name
  | optional name value => '[' :: (name ++ '=' :: value ++ [']'])

/-- What the name says. -/
def part : NameLayout → NamePart
  | plain name => { name := String.ofList name }
  | optional name value =>
    { name := String.ofList name
      optional := some true
      defaultValue := some (String.ofList value) }

/-- A name by itself is one word, which is not a dash and not in brackets. -/
def IsProper : NameLayout → Prop
  | plain name => name ≠ [] ∧ (∀ c ∈ name, isBlank c = false) ∧ name ≠ ['-'] ∧ name.head? ≠ some '['
  | optional name value => IsOptionalName name ∧ IsDefault value

end NameLayout

/-- A tag body to be laid out. -/
structure BodyLayout where
  type : TypeLayout
  name : NameLayout
  description : List Char
deriving DecidableEq, Repr

namespace BodyLayout

/-- The body as it is written. -/
def text (b : BodyLayout) : String :=
  String.ofList ('\x7b' :: (b.type.text ++ '\x7d' :: ' ' ::
    (b.name.text ++ ' ' :: '-' :: ' ' :: b.description)))

/-- What the body says. -/
def body (b : BodyLayout) : Body where
  typeExpression := some (String.ofList (trimChars b.type.type))
  name := some b.name.part.name
  text := String.ofList b.description
  optional := b.name.part.optional
  defaultValue := b.name.part.defaultValue

/-- A body of proper parts, in which neither the name nor the description opens an inline type. -/
structure IsProper (b : BodyLayout) : Prop where
  type : b.type.IsProper
  name : b.name.IsProper
  trimmed : IsTrimmed b.description
  name_mark : ¬inlineTypeMark <:+: b.name.text
  description_mark : ¬inlineTypeMark <:+: b.description

end BodyLayout

/-! ## Marks in pairs -/

section Pairs

variable {opening closing c : Char} {depth : Nat} {cs : List Char}

theorem balanced_iff_inits : Balanced opening closing depth cs ↔
    cs.count closing = depth + cs.count opening ∧
      ∀ front ∈ cs.inits, front.count closing ≤ depth + front.count opening := by
  refine ⟨fun h => ⟨h.closed, fun front hfront => h.opened front ((List.mem_inits _ _).1 hfront)⟩,
    fun h => ⟨h.1, fun front hfront => h.2 front ((List.mem_inits _ _).2 hfront)⟩⟩

instance : Decidable (Balanced opening closing depth cs) :=
  decidable_of_iff _ balanced_iff_inits.symm

theorem Balanced.depth_eq (h : Balanced opening closing depth []) : depth = 0 := by
  have hclosed := h.closed
  simp only [List.count_nil] at hclosed
  omega

/-- Behind the first character as many marks are open as it leaves open. -/
theorem Balanced.tail (h : Balanced opening closing depth (c :: cs)) {depth' : Nat}
    (hdepth : depth + [c].count opening = depth' + [c].count closing) :
    Balanced opening closing depth' cs where
  closed := by
    have hclosed := h.closed
    rw [List.count_cons, List.count_cons] at hclosed
    simp only [List.count_singleton] at hdepth
    omega
  opened front hfront := by
    have hopened := h.opened (c :: front) ((List.prefix_cons_inj c).2 hfront)
    rw [List.count_cons, List.count_cons] at hopened
    simp only [List.count_singleton] at hdepth
    omega

theorem Balanced.tail_opening (h : Balanced opening closing depth (opening :: cs))
    (hne : opening ≠ closing) : Balanced opening closing (depth + 1) cs :=
  h.tail (by simp [hne])

/-- The first character can close a mark only if one is open. -/
theorem Balanced.tail_closing (h : Balanced opening closing depth (closing :: cs))
    (hne : opening ≠ closing) :
    ∃ depth', depth = depth' + 1 ∧ Balanced opening closing depth' cs := by
  have hopened := h.opened [closing] (by simp)
  simp only [List.count_singleton_self, List.count_singleton, beq_iff_eq, Ne.symm hne, if_false,
    Nat.add_zero] at hopened
  obtain ⟨depth', rfl⟩ : ∃ depth', depth = depth' + 1 := ⟨depth - 1, by omega⟩
  exact ⟨depth', rfl, h.tail (by simp [Ne.symm hne])⟩

theorem Balanced.tail_other (h : Balanced opening closing depth (c :: cs)) (hopening : c ≠ opening)
    (hclosing : c ≠ closing) : Balanced opening closing depth cs :=
  h.tail (by simp [hopening, hclosing])

end Pairs

/-! ## Types in braces -/

theorem readType_plain {c : Char} (hopening : c ≠ '\x7b') (hclosing : c ≠ '\x7d')
    (hbackslash : c ≠ '\\') (depth : Nat) (read rest : List Char) :
    readType depth read (c :: rest) = readType depth (c :: read) rest := by
  rw [readType, if_neg hopening, if_neg hclosing]
  all_goals simp [hbackslash]

/-- A brace behind a backslash neither opens nor closes anything. -/
theorem readType_escaped {type : List Char} (hbackslash : '\\' ∉ type) (read rest : List Char) :
    readType 1 read (type.flatMap escapeBrace ++ '\x7d' :: rest) =
      some (read.reverse ++ type, rest) := by
  induction type generalizing read with
  | nil => simp [readType]
  | cons c type ih =>
    rw [List.mem_cons, not_or] at hbackslash
    rw [List.flatMap_cons, List.append_assoc, escapeBrace]
    split
    next hbrace =>
      rw [List.cons_append, List.singleton_append, readType, if_pos hbrace, ih hbackslash.2]
      simp
    next hbrace =>
      rw [not_or] at hbrace
      rw [List.singleton_append, readType_plain hbrace.1 hbrace.2 (Ne.symm hbackslash.1),
        ih hbackslash.2]
      simp

/-- Braces in pairs are read as part of the type. -/
theorem readType_balanced {depth : Nat} {type : List Char}
    (hbalanced : Balanced '\x7b' '\x7d' depth type) (hbackslash : '\\' ∉ type)
    (read rest : List Char) :
    readType (depth + 1) read (type ++ '\x7d' :: rest) = some (read.reverse ++ type, rest) := by
  induction type generalizing depth read with
  | nil =>
    obtain rfl := hbalanced.depth_eq
    simp [readType]
  | cons c type ih =>
    rw [List.mem_cons, not_or] at hbackslash
    rw [List.cons_append]
    by_cases hopening : c = '\x7b'
    · subst hopening
      rw [readType, if_pos rfl, ih (hbalanced.tail_opening (by decide)) hbackslash.2]
      · simp
      all_goals simp
    by_cases hclosing : c = '\x7d'
    · subst hclosing
      obtain ⟨depth, rfl, htype⟩ := hbalanced.tail_closing (by decide)
      rw [readType, if_neg (by decide), if_pos rfl, if_neg (by omega), Nat.add_sub_cancel,
        ih htype hbackslash.2]
      · simp
      all_goals simp
    · rw [readType_plain hopening hclosing (Ne.symm hbackslash.1),
        ih (hbalanced.tail_other hopening hclosing) hbackslash.2]
      simp

/-- A type is read up to the brace that closes it, however it is written. -/
theorem readType_text {t : TypeLayout} (h : t.IsProper) (rest : List Char) :
    readType 1 [] (t.text ++ '\x7d' :: rest) = some (t.type, rest) := by
  cases t with
  | escaped type => exact readType_escaped h [] rest
  | verbatim type => exact readType_balanced h.2 h.1 [] rest

/-! ## Inline types -/

/-- A character that a mark does not hold keeps what is in front of it from what is behind. -/
theorem infix_append_cons {mark back : List Char} {c : Char} (hc : c ∉ mark) (front : List Char)
    (h : mark <:+: front ++ c :: back) : mark <:+: front ∨ mark <:+: back := by
  obtain ⟨start, stop, heq⟩ := h
  rcases List.append_eq_append_iff.1 heq with ⟨between, rfl, -⟩ | ⟨within, hfront, hback⟩
  · exact .inl ⟨start, between, rfl⟩
  rcases within with _ | ⟨d, within⟩
  · exact .inl ⟨start, [], by simpa using hfront⟩
  obtain ⟨rfl, rfl⟩ := List.cons_eq_cons.1 hback
  rcases List.append_eq_append_iff.1 hfront with ⟨between, -, rfl⟩ | ⟨before, -, hwithin⟩
  · exact absurd (List.mem_append_right between List.mem_cons_self) hc
  rcases before with _ | ⟨e, before⟩
  · rw [List.nil_append] at hwithin
    exact absurd (hwithin ▸ List.mem_cons_self) hc
  · obtain ⟨rfl, rfl⟩ := List.cons_eq_cons.1 hwithin
    exact .inr ⟨before, stop, by simp⟩

theorem infix_of_infix_cons {mark back : List Char} {c : Char} (hc : c ∉ mark) (hne : mark ≠ [])
    (h : mark <:+: c :: back) : mark <:+: back :=
  (infix_append_cons hc [] h).resolve_left fun hnil => hne (List.infix_nil.1 hnil)

/-- Without the mark that opens one there is no inline type. -/
theorem inlineType?_eq_none {cs : List Char} (h : ¬inlineTypeMark <:+: cs) :
    inlineType? cs = none := by
  induction cs with
  | nil => rfl
  | cons c cs ih =>
    rw [List.infix_cons_iff, not_or] at h
    have hhere : inlineTypeHere? (c :: cs) = none := by
      have hprefix : inlineTypeMark.isPrefixOf? (c :: cs) = none := by
        refine Option.eq_none_iff_forall_not_mem.2 fun rest hrest => h.1 ⟨rest, ?_⟩
        exact List.append_eq_of_isPrefixOf?_eq_some hrest
      rw [inlineTypeHere?, hprefix]
    rw [inlineType?, hhere, ih h.2]
    rfl

/-! ## Blanks at the ends -/

/-- Trimming takes off the blanks around a text, and no more. -/
theorem trimChars_blanks {cs front back : List Char} (h : IsTrimmed cs)
    (hfront : ∀ c ∈ front, isBlank c = true) (hback : ∀ c ∈ back, isBlank c = true) :
    trimChars (front ++ (cs ++ back)) = cs := by
  rcases cs.eq_nil_or_concat with rfl | ⟨start, last, rfl⟩
  · have hall : ∀ c ∈ front ++ ([] ++ back), isBlank c = true :=
      List.forall_mem_append.2 ⟨hfront, hback⟩
    rw [trimChars, trimStartChars, ← List.append_nil (front ++ _),
      List.dropWhile_append_of_pos hall, List.dropWhile_nil, trimEndChars_nil]
  · have hlast : (start.concat last).getLast? = some last := by simp
    exact Comment.trimChars_of_blank_ends hfront hback h.head ⟨last, hlast, h.last last hlast⟩

theorem trimChars_eq_self {cs : List Char} (h : IsTrimmed cs) : trimChars cs = cs := by
  simpa using trimChars_blanks h (List.forall_mem_nil _) (List.forall_mem_nil _)

theorem trimChars_space {cs : List Char} (h : IsTrimmed cs) : trimChars (' ' :: cs) = cs := by
  have hspace : ∀ c ∈ [' '], isBlank c = true := List.forall_mem_singleton.2 (by decide)
  simpa using trimChars_blanks h hspace (List.forall_mem_nil _)

theorem trimStartChars_eq_self {cs : List Char} (h : ∀ c ∈ cs.head?, isBlank c = false) :
    trimStartChars cs = cs := by
  rcases cs with _ | ⟨c, cs⟩
  · rfl
  · exact List.dropWhile_cons_of_neg (by simp [h c rfl])

theorem isBlank_head?_trimStartChars (cs : List Char) :
    ∀ c ∈ (trimStartChars cs).head?, isBlank c = false := by
  intro c hc
  have h := List.head?_dropWhile_not isBlank cs
  rw [trimStartChars] at hc
  rw [hc] at h
  exact h

/-- What trimming leaves of a text has no blanks at its ends. -/
theorem isTrimmed_trimChars (cs : List Char) : IsTrimmed (trimChars cs) where
  head c hc := by
    have hfront : trimChars cs <+: trimStartChars cs := by
      have h := (List.dropWhile_suffix isBlank (l := (trimStartChars cs).reverse)).reverse
      rwa [List.reverse_reverse] at h
    obtain ⟨back, hback⟩ := hfront
    refine isBlank_head?_trimStartChars cs c ?_
    rw [← hback, List.head?_append, hc]
    rfl
  last c hc := by
    rw [trimChars, trimEndChars, List.getLast?_reverse] at hc
    exact isBlank_head?_trimStartChars _ c hc

/-! ## Names -/

/-- A split with more in front of its first part. -/
def ahead (front : List Char) (found : List Char × List Char) : List Char × List Char :=
  (front ++ found.1, found.2)

theorem splitBrackets_cons {scan : BracketScan} {c : Char} (hescaped : scan.escaped = false)
    (hc : c = ']' → scan.quote = none → 1 < scan.depth) (rest : List Char) :
    splitBrackets scan (c :: rest) = (splitBrackets (scan.step c) rest).map (ahead [c]) := by
  have hopen : ¬(c = ']' ∧ scan.quote = none ∧ scan.depth ≤ 1) := fun h =>
    Nat.not_lt.2 h.2.2 (hc h.1 h.2.1)
  rw [splitBrackets, hescaped, if_neg Bool.false_ne_true, if_neg hopen]
  rfl

/-- A quoted span is passed over, with the brackets in it. -/
theorem splitBrackets_quoted {mark : Char} (hmark : isQuote mark = true) {span : List Char}
    (hspan : mark ∉ span) (hbackslash : '\\' ∉ span) (depth : Nat) (rest : List Char) :
    splitBrackets { depth := depth, quote := some mark } (span ++ mark :: rest) =
      (splitBrackets { depth := depth } rest).map (ahead (span ++ [mark])) := by
  induction span with
  | nil =>
    have hslash : mark ≠ '\\' := by
      rintro rfl
      cases hmark
    rw [List.nil_append, splitBrackets_cons rfl (by simp), BracketScan.step, if_neg hslash]
    simp
  | cons c span ih =>
    rw [List.mem_cons, not_or] at hspan hbackslash
    rw [List.cons_append, splitBrackets_cons rfl (by simp), BracketScan.step,
      if_neg (Ne.symm hbackslash.1)]
    simp only [if_neg (Ne.symm hspan.1)]
    rw [ih hspan.2 hbackslash.2, Option.map_map]
    rfl

theorem splitBrackets_plain {front : List Char}
    (h : ∀ c ∈ front, c ≠ '\\' ∧ isQuote c = false ∧ c ≠ '[' ∧ c ≠ ']') (depth : Nat)
    (rest : List Char) : splitBrackets { depth := depth } (front ++ rest) =
      (splitBrackets { depth := depth } rest).map (ahead front) := by
  induction front with
  | nil =>
    cases hrest : splitBrackets { depth := depth } rest <;> simp [hrest, ahead]
  | cons c front ih =>
    rw [List.forall_mem_cons] at h
    obtain ⟨⟨hslash, hquote, hopening, hclosing⟩, hfront⟩ := h
    have hstep : BracketScan.step { depth := depth } c = { depth := depth } := by
      simp [BracketScan.step, hslash, hquote, hopening, hclosing]
    rw [List.cons_append, splitBrackets_cons rfl (fun hc => absurd hc hclosing), hstep, ih hfront,
      Option.map_map]
    rfl

/-- A text is passed over if its brackets outside quotes come in pairs. -/
theorem splitBrackets_outside {value outside : List Char} {depth : Nat} (h : Outside value outside)
    (hbalanced : Balanced '[' ']' depth outside) (hbackslash : '\\' ∉ value) (rest : List Char) :
    splitBrackets { depth := depth + 1 } (value ++ ']' :: rest) = some (value ++ [']'], rest) := by
  induction h generalizing depth with
  | nil =>
    obtain rfl := hbalanced.depth_eq
    simp [splitBrackets]
  | @plain c cs outside hc h ih =>
    rw [List.mem_cons, not_or] at hbackslash
    obtain ⟨hslash, hcs⟩ := hbackslash
    rw [List.cons_append]
    by_cases hopening : c = '['
    · subst hopening
      have hstep : BracketScan.step { depth := depth + 1 } '[' = { depth := depth + 1 + 1 } := rfl
      rw [splitBrackets_cons rfl (by simp), hstep, ih (hbalanced.tail_opening (by decide)) hcs]
      rfl
    by_cases hclosing : c = ']'
    · subst hclosing
      obtain ⟨depth, rfl, houtside⟩ := hbalanced.tail_closing (by decide)
      have hstep : BracketScan.step { depth := depth + 1 + 1 } ']' = { depth := depth + 1 } := rfl
      rw [splitBrackets_cons rfl (fun _ _ => by simp), hstep, ih houtside hcs]
      rfl
    · have hplain : ∀ d ∈ [c], d ≠ '\\' ∧ isQuote d = false ∧ d ≠ '[' ∧ d ≠ ']' := by
        simp [Ne.symm hslash, hc, hopening, hclosing]
      rw [← List.singleton_append, splitBrackets_plain hplain,
        ih (hbalanced.tail_other hopening hclosing) hcs]
      rfl
  | @quoted mark span cs outside hmark hspan h ih =>
    simp only [List.mem_cons, List.mem_append, not_or] at hbackslash
    obtain ⟨hslash, hinside, -, hcs⟩ := hbackslash
    have hstep : BracketScan.step { depth := depth + 1 } mark =
        { depth := depth + 1, quote := some mark } := by
      simp [BracketScan.step, Ne.symm hslash, hmark]
    have hclosing : mark ≠ ']' := by
      rintro rfl
      cases hmark
    rw [List.cons_append, List.append_assoc, List.cons_append,
      splitBrackets_cons rfl (fun hc => absurd hc hclosing), hstep,
      splitBrackets_quoted hmark hspan hinside, ih hbalanced hcs]
    simp [ahead]

/-- A name is cut off in front of a blank, or behind its closing bracket. -/
theorem splitName_text {n : NameLayout} (h : n.IsProper) (rest : List Char) :
    splitName (n.text ++ ' ' :: rest) = (n.text, ' ' :: rest) := by
  cases n with
  | plain name =>
    obtain ⟨hne, hblank, -, hbracket⟩ := h
    obtain ⟨c, name, rfl⟩ := List.exists_cons_of_ne_nil hne
    have hother : ((c :: name) ++ ' ' :: rest).head? ≠ some '[' := hbracket
    have hspace : ∀ d ∈ (' ' :: rest).head?, isBlank d = true := by
      rintro _ ⟨⟩
      decide
    rw [NameLayout.text, splitName, if_neg hother]
    exact Comment.splitAtBlank_append hblank hspace
  | optional name value =>
    obtain ⟨hname, hvalue⟩ := h
    obtain ⟨outside, houtside, hbalanced⟩ := hvalue.brackets
    have hfront : ∀ c ∈ name ++ ['='], c ≠ '\\' ∧ isQuote c = false ∧ c ≠ '[' ∧ c ≠ ']' := by
      rw [List.forall_mem_append, List.forall_mem_singleton]
      exact ⟨hname.unmarked, by decide⟩
    have hscan : splitBrackets {} ((NameLayout.optional name value).text ++ ' ' :: rest) =
        some ((NameLayout.optional name value).text, ' ' :: rest) := by
      have htext : (NameLayout.optional name value).text ++ ' ' :: rest =
          '[' :: ((name ++ ['=']) ++ (value ++ ']' :: ' ' :: rest)) := by
        simp [NameLayout.text]
      have hstep : BracketScan.step {} '[' = { depth := 0 + 1 } := rfl
      rw [htext, splitBrackets_cons rfl (by simp), hstep, splitBrackets_plain hfront,
        splitBrackets_outside houtside hbalanced hvalue.backslash]
      simp [NameLayout.text, ahead]
    have hbracket : ((NameLayout.optional name value).text ++ ' ' :: rest).head? = some '[' := rfl
    rw [splitName, if_pos hbracket, hscan]
    rfl

/-- Brackets around a text are taken off. -/
theorem bracketed?_eq {inside : List Char} (h : IsTrimmed inside) (hne : inside ≠ []) :
    bracketed? ('[' :: (inside ++ [']'])) = some inside := by
  obtain ⟨start, last, rfl⟩ := (List.eq_nil_or_concat inside).resolve_left hne
  have hreverse : (start.concat last ++ [']']).reverse = ']' :: last :: start.reverse := by simp
  have htrim : trimChars (last :: start.reverse).reverse = start.concat last := by
    rw [List.reverse_cons, List.reverse_reverse, ← List.concat_eq_append, trimChars_eq_self h]
  rw [bracketed?]
  simp only [hreverse, htrim, List.isEmpty_iff, hne, if_false]

/-- A name is read as it was meant. -/
theorem readName_text {n : NameLayout} (h : n.IsProper) : readName n.text = n.part := by
  cases n with
  | plain name =>
    have hnone : bracketed? name = none := by
      unfold bracketed?
      split
      · exact absurd rfl h.2.2.2
      · rfl
    rw [readName, NameLayout.text, hnone]
    rfl
  | optional name value =>
    obtain ⟨hname, hvalue⟩ := h
    have htrimmed : IsTrimmed (name ++ '=' :: value) := by
      refine ⟨?_, ?_⟩
      · rw [List.head?_append_of_ne_nil _ hname.ne_nil]
        exact hname.trimmed.head
      · rw [List.getLast?_append_of_ne_nil _ (List.cons_ne_nil _ _),
          List.getLast?_cons_of_ne_nil hvalue.ne_nil]
        exact hvalue.trimmed.last
    have hbracketed : bracketed? (NameLayout.optional name value).text =
        some (name ++ '=' :: value) := bracketed?_eq htrimmed (by simp)
    have hspan : (name ++ '=' :: value).span (· != '=') = (name, '=' :: value) := by
      have hpos : ∀ c ∈ name, (c != '=') = true := by
        intro c hc
        rw [bne_iff_ne]
        rintro rfl
        exact hname.equals hc
      rw [List.span_eq_takeWhile_dropWhile, List.takeWhile_append_of_pos hpos,
        List.dropWhile_append_of_pos hpos]
      simp
    have htrim : trimEndChars name = name := by
      conv_lhs => rw [← trimStartChars_eq_self hname.trimmed.head]
      exact trimChars_eq_self hname.trimmed
    obtain ⟨c, name, rfl⟩ := List.exists_cons_of_ne_nil hname.ne_nil
    rw [readName, hbracketed]
    simp only [hspan, htrim, trimChars_eq_self hvalue.trimmed, List.isEmpty_iff, hvalue.ne_nil,
      if_false]
    rfl

theorem NameLayout.IsProper.ne_nil {n : NameLayout} (h : n.IsProper) : n.text ≠ [] := by
  cases n with
  | plain name => exact h.1
  | optional name value => exact List.cons_ne_nil _ _

theorem NameLayout.IsProper.head {n : NameLayout} (h : n.IsProper) :
    ∀ c ∈ n.text.head?, isBlank c = false := by
  cases n with
  | plain name => exact fun c hc => h.2.1 c (List.mem_of_mem_head? hc)
  | optional name value =>
    rintro _ ⟨⟩
    decide

theorem NameLayout.IsProper.ne_dash {n : NameLayout} (h : n.IsProper) : n.text ≠ ['-'] := by
  cases n with
  | plain name => exact h.2.2.1
  | optional name value => simp [NameLayout.text]

/-! ## Whole bodies -/

namespace BodyLayout

/-- A description behind its dash, without a blank at the end. -/
def ending (description : List Char) : List Char :=
  if description.isEmpty then [] else ' ' :: description

/-- What follows the type. -/
def behindType (b : BodyLayout) : List Char := b.name.text ++ ' ' :: '-' :: ending b.description

theorem exists_ending (description : List Char) :
    ∃ blanks, (∀ c ∈ blanks, isBlank c = true) ∧
      ' ' :: description = ending description ++ blanks := by
  rcases description with _ | ⟨c, description⟩
  · exact ⟨[' '], List.forall_mem_singleton.2 (by decide), rfl⟩
  · exact ⟨[], by simp, by simp [ending]⟩

theorem trimChars_ending {description : List Char} (h : IsTrimmed description) :
    trimChars (ending description) = description := by
  rcases description with _ | ⟨c, description⟩
  · rfl
  · exact trimChars_space h

variable {b : BodyLayout}

theorem IsProper.head_behindType (h : b.IsProper) :
    ∀ c ∈ b.behindType.head?, isBlank c = false := by
  rw [behindType, List.head?_append_of_ne_nil _ h.name.ne_nil]
  exact h.name.head

theorem IsProper.isTrimmed_behindType (h : b.IsProper) : IsTrimmed b.behindType := by
  refine ⟨h.head_behindType, ?_⟩
  rw [behindType, List.getLast?_append_of_ne_nil _ (List.cons_ne_nil _ _), List.getLast?_cons_cons]
  have hlast := h.trimmed.last
  revert hlast
  rcases b.description with _ | ⟨c, description⟩
  · rintro - _ ⟨⟩
    decide
  · exact id

theorem IsProper.trimChars_text (h : b.IsProper) : trimChars b.text.toList =
    '\x7b' :: (b.type.text ++ '\x7d' :: ' ' :: b.behindType) := by
  obtain ⟨blanks, hblanks, hending⟩ := exists_ending b.description
  have htext : b.text.toList =
      [] ++ (('\x7b' :: (b.type.text ++ '\x7d' :: ' ' :: b.behindType)) ++ blanks) := by
    simp [text, behindType, hending]
  have htrimmed : IsTrimmed ('\x7b' :: (b.type.text ++ '\x7d' :: ' ' :: b.behindType)) := by
    have hne : b.behindType ≠ [] := by simp [behindType]
    refine ⟨by rintro _ ⟨⟩; decide, ?_⟩
    rw [← List.cons_append, List.getLast?_append_of_ne_nil _ (List.cons_ne_nil _ _),
      List.getLast?_cons_cons, List.getLast?_cons_of_ne_nil hne]
    exact h.isTrimmed_behindType.last
  rw [htext]
  exact trimChars_blanks htrimmed (List.forall_mem_nil _) hblanks

/-- No inline type starts in the name or in the description, nor in one and goes on in the other. -/
theorem IsProper.inlineType?_eq (h : b.IsProper) : inlineType? b.behindType = none := by
  refine inlineType?_eq_none fun hmark => ?_
  rcases infix_append_cons (by decide) b.name.text hmark with hname | hdash
  · exact h.name_mark hname
  obtain ⟨blanks, -, hending⟩ := exists_ending b.description
  have hbehind : inlineTypeMark <:+: ending b.description :=
    infix_of_infix_cons (by decide) (by decide) hdash
  have hspace : inlineTypeMark <:+: ' ' :: b.description := by
    rw [hending]
    exact hbehind.trans (List.prefix_append _ _).isInfix
  exact h.description_mark (infix_of_infix_cons (by decide) (by decide) hspace)

theorem IsProper.splitType_eq (h : b.IsProper) : splitType (trimChars b.text.toList) =
    (some (trimChars b.type.type), b.behindType) := by
  have hleading : leadingType? (trimChars b.text.toList) =
      some (trimChars b.type.type, ' ' :: b.behindType) := by
    rw [h.trimChars_text, leadingType?, readType_text h.type]
    rfl
  rw [splitType, hleading]
  simp only [trimChars_space h.isTrimmed_behindType, h.inlineType?_eq]

theorem IsProper.splitDescriptionChars_eq (h : b.IsProper) :
    splitDescriptionChars b.behindType = (b.name.text, b.description) := by
  have hname : (!b.name.text.isEmpty) = true := by
    rw [Bool.not_eq_true', List.isEmpty_eq_false_iff]
    exact h.name.ne_nil
  have hdash : dropDash true (' ' :: '-' :: ending b.description) =
      trimStartChars (ending b.description) := rfl
  rw [splitDescriptionChars, trimStartChars_eq_self h.head_behindType, behindType,
    splitName_text h.name]
  dsimp only
  rw [hname, hdash]
  exact congrArg (b.name.text, ·) (trimChars_ending h.trimmed)

/-- Taking a body apart gives back the type, the name and the description that were written, and the
default of a name in brackets. -/
theorem split_text (h : b.IsProper) : Body.split b.text true true = b.body := by
  have hname : (b.name.text.isEmpty || b.name.text == ['-']) = false := by
    rw [Bool.or_eq_false_iff, List.isEmpty_eq_false_iff, beq_eq_false_iff_ne]
    exact ⟨h.name.ne_nil, h.name.ne_dash⟩
  rw [Body.split]
  simp only [if_true, h.splitType_eq, h.splitDescriptionChars_eq, hname, Bool.false_eq_true,
    if_false, readName_text h.name]
  rfl

/-- A type in braces of its own, and a default that holds a bracket in quotes. -/
def shelf : BodyLayout where
  type := .verbatim "\x7ba: string\x7d".toList
  name := .optional "path".toList ['[', '"', ']', '"', ']']
  description := "Where it is.".toList

theorem isProper_shelf : shelf.IsProper where
  type := ⟨by decide, by decide⟩
  name := by
    have hquoted : Outside ('"' :: ([']'] ++ '"' :: [']'])) [']'] :=
      .quoted rfl (by decide) (.plain rfl .nil)
    have houtside : Outside ['[', '"', ']', '"', ']'] ['[', ']'] := .plain rfl hquoted
    refine ⟨⟨by decide, by decide, by decide, ?_⟩, by decide, by decide, by decide, _, houtside,
      by decide⟩
    simp [isQuote]
  trimmed := by decide
  name_mark := by decide
  description_mark := by decide

theorem split_text_shelf :
    shelf.IsProper ∧
      Body.split "\x7b\x7ba: string\x7d\x7d [path=[\"]\"]] - Where it is." true true =
        { typeExpression := some "\x7ba: string\x7d", name := some "path", text := "Where it is.",
          optional := some true, defaultValue := some "[\"]\"]" } := by
  have htext : shelf.text =
      "\x7b\x7ba: string\x7d\x7d [path=[\"]\"]] - Where it is." := by decide
  rw [← htext]
  exact ⟨isProper_shelf, split_text isProper_shelf⟩

end BodyLayout

end Commentary.Tag
