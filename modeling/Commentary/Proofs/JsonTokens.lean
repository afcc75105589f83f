import Commentary.Json.Reader
import Mathlib.Data.List.TakeDrop

/-!
# The tokens of JSON values

The text of a JSON value over several lines is cut back into the tokens of the value
(`cuts_prettyAt`). Marks, words and strings end by themselves, whatever comes next: a string
escapes all that could close it (`stringChars?_escaped`). Only a number could grow together with
what follows it, and what follows it in a text is a comma or a line end (`EndsNumber`).

A value keeps its numbers as they are spelled. All of this is about values in which they are natural
numbers in their usual spelling (`Counts`).
-/

namespace Commentary.Json

/-- The numbers of a value are natural numbers. -/
inductive Counts : Json → Prop
  | null : Counts .null
  | bool (b : Bool) : Counts (.bool b)
  | nat (n : Nat) : Counts (.nat n)
  | string (s : String) : Counts (.string s)
  | array {items : List Json} (h : ∀ item ∈ items, Counts item) : Counts (.array items)
  | object {members : List (String × Json)} (h : ∀ member ∈ members, Counts member.2) :
    Counts (.object members)

/-! ## Numbers -/

/-- What follows a number does not go on with it. -/
def EndsNumber (rest : List Char) : Prop :=
  ∀ c ∈ rest.head?, c.isDigit = false ∧ c ≠ '.' ∧ c ≠ 'e' ∧ c ≠ 'E'

theorem endsNumber_cons {c : Char} {rest : List Char}
    (h : c.isDigit = false ∧ c ≠ '.' ∧ c ≠ 'e' ∧ c ≠ 'E') : EndsNumber (c :: rest) := by
  intro c' hc'
  cases hc'
  exact h

section Number

variable {rest : List Char}

/-- Only zero is spelled with a zero in front. -/
theorem head?_toDigits_ne {n : Nat} (hn : n ≠ 0) : (Nat.toDigits 10 n).head? ≠ some '0' := by
  induction n using Nat.strongRecOn with
  | ind n ih =>
    rcases Nat.lt_or_ge n 10 with hlt | hge
    · rw [Nat.toDigits_of_lt_base hlt, List.head?_cons]
      simpa using hn
    · have hfront := ih (n / 10) (by omega) (by omega)
      rw [Nat.toDigits_of_base_le (by omega) hge, List.head?_append]
      rcases hdigits : Nat.toDigits 10 (n / 10) with _ | ⟨c, cs⟩
      · exact absurd hdigits Nat.toDigits_ne_nil
      · rw [hdigits] at hfront
        exact hfront

theorem span_isDigit_append {digits : List Char} (hdigits : ∀ c ∈ digits, c.isDigit = true)
    (hends : EndsNumber rest) : (digits ++ rest).span Char.isDigit = (digits, rest) := by
  have hrest : rest.takeWhile Char.isDigit = [] ∧ rest.dropWhile Char.isDigit = rest := by
    cases rest with
    | nil => exact ⟨rfl, rfl⟩
    | cons c rest => simp [(hends c rfl).1]
  rw [List.span_eq_takeWhile_dropWhile, List.takeWhile_append_of_pos hdigits,
    List.dropWhile_append_of_pos hdigits, hrest.1, hrest.2, List.append_nil]

theorem wholeDigits?_toDigits (n : Nat) (hends : EndsNumber rest) :
    wholeDigits? (Nat.toDigits 10 n ++ rest) = some (Nat.toDigits 10 n, rest) := by
  have hdigits : ∀ c ∈ Nat.toDigits 10 n, c.isDigit = true := fun c hc =>
    Nat.isDigit_of_mem_toDigits (by omega) (by omega) hc
  by_cases hn : n = 0
  · subst hn
    have hhead : rest.head?.any Char.isDigit = false := by
      cases rest with
      | nil => rfl
      | cons c rest => exact (hends c rfl).1
    simp [wholeDigits?, hhead]
  · have hspan := span_isDigit_append hdigits hends
    have hhead := head?_toDigits_ne hn
    rcases hcases : Nat.toDigits 10 n with _ | ⟨c, cs⟩
    · exact absurd hcases Nat.toDigits_ne_nil
    · rw [hcases] at hspan hhead
      have hc : c ≠ '0' := by simpa using hhead
      unfold wholeDigits?
      split
      · rename_i heq
        exact absurd (List.cons.inj heq).1 hc
      · rw [hspan]

theorem fraction?_of_endsNumber (hends : EndsNumber rest) : fraction? rest = some ([], rest) := by
  unfold fraction?
  split
  · exact absurd rfl (hends '.' rfl).2.1
  · rfl

theorem exponent?_of_endsNumber (hends : EndsNumber rest) : exponent? rest = some ([], rest) := by
  cases rest with
  | nil => rfl
  | cons c rest => simp [exponent?, (hends c rfl).2.2]

theorem exists_toDigits_eq_cons (n : Nat) :
    ∃ c cs, Nat.toDigits 10 n = c :: cs ∧ c.isDigit = true := by
  obtain ⟨c, cs, hcons⟩ := List.exists_cons_of_ne_nil (Nat.toDigits_ne_nil (n := n) (b := 10))
  exact ⟨c, cs, hcons, Nat.isDigit_of_mem_toDigits (b := 10) (n := n) (by omega) (by omega)
    (hcons ▸ List.mem_cons_self)⟩

/-- The digits of a number are read, and nothing of what follows them. -/
theorem number?_toDigits (n : Nat) (hends : EndsNumber rest) :
    number? (Nat.toDigits 10 n ++ rest) = some (Nat.toDigits 10 n, rest) := by
  have hminus : ∀ cs, Nat.toDigits 10 n ++ rest ≠ '-' :: cs := by
    intro cs heq
    obtain ⟨c, digits, hcons, hdigit⟩ := exists_toDigits_eq_cons n
    rw [hcons] at heq
    rw [(List.cons.inj heq).1] at hdigit
    exact absurd hdigit (by decide)
  have hparts : number? (Nat.toDigits 10 n ++ rest) =
      (wholeDigits? (Nat.toDigits 10 n ++ rest)).bind fun whole =>
        (fraction? whole.2).bind fun fraction =>
          (exponent? fraction.2).bind fun exponent =>
            some (whole.1 ++ fraction.1 ++ exponent.1, exponent.2) := by
    unfold number?
    split
    rename_i heq
    split at heq
    · rename_i cs htext
      exact absurd htext (hminus cs)
    · cases heq
      rfl
  simp [hparts, wholeDigits?_toDigits n hends, fraction?_of_endsNumber hends,
    exponent?_of_endsNumber hends]

end Number

/-! ## Strings -/

theorem hexValue?_hexDigit : ∀ n < 16, hexValue? (hexDigit n) = some n := by decide

/-- The escape of a control character writes that character. -/
theorem escape?_unit {c : Char} (hc : c.toNat < 32) (rest : List Char) :
    escape? ('u' :: '0' :: '0' :: hexDigit (c.toNat / 16) :: hexDigit (c.toNat % 16) :: rest) =
      some (some c, rest) := by
  have hhex : hexUnit? ('0' :: '0' :: hexDigit (c.toNat / 16) :: hexDigit (c.toNat % 16) :: rest) =
      some (c.toNat, rest) := by
    have hhigh := hexValue?_hexDigit (c.toNat / 16) (by omega)
    have hlow := hexValue?_hexDigit (c.toNat % 16) (by omega)
    have hzero : hexValue? '0' = some 0 := by decide
    simp [hexUnit?, hhigh, hlow, hzero]
    omega
  have hunit : unitChar? c.toNat = some c := by
    rw [unitChar?, if_neg (by omega), Char.ofNat_toNat]
  -- what follows may be an escape as well, but a pair would need a high surrogate here
  have hpair : ∀ low, pairChar? c.toNat low = none := by
    intro low
    rw [pairChar?, if_neg (by omega)]
  rw [escape?, unitEscape?, hhex]
  simp only [Option.bind_eq_bind, Option.bind_some, hpair, hunit]
  split <;> rfl

theorem stringChars?_escape {cs after : List Char} {c : Option Char}
    (h : escape? cs = some (c, after)) :
    stringChars? ('\\' :: cs) =
      (stringChars? after).map fun (found, rest) => (c :: found, rest) := by
  rw [stringChars?]
  split
  · rename_i hnone
    rw [h] at hnone
    cases hnone
  · rename_i hsome
    rw [h] at hsome
    cases hsome
    rfl

theorem stringChars?_plain {c : Char} (hquote : c ≠ '"') (hescape : c ≠ '\\')
    (hcontrol : ¬c.toNat < 32) (cs : List Char) :
    stringChars? (c :: cs) =
      (stringChars? cs).map fun (found, rest) => (some c :: found, rest) := by
  conv_lhs => unfold stringChars?
  split
  · rename_i heq
    cases heq
  · rename_i heq
    exact absurd (List.cons.inj heq).1 hquote
  · rename_i heq
    exact absurd (List.cons.inj heq).1 hescape
  · rename_i heq
    cases heq
    rw [if_neg hcontrol]

/-- What stands for a character in a string is read as that character. -/
theorem stringChars?_escapeChar (c : Char) (cs : List Char) :
    stringChars? (escapeChar c ++ cs) =
      (stringChars? cs).map fun (found, rest) => (some c :: found, rest) := by
  unfold escapeChar
  split_ifs with hquote hslash hn hr ht hb hf hcontrol
  all_goals try subst c
  · exact stringChars?_escape rfl
  · exact stringChars?_escape rfl
  · exact stringChars?_escape rfl
  · exact stringChars?_escape rfl
  · exact stringChars?_escape rfl
  · exact stringChars?_escape rfl
  · exact stringChars?_escape rfl
  · exact stringChars?_escape (escape?_unit hcontrol cs)
  · exact stringChars?_plain hquote hslash hcontrol cs

/-- A string is read up to its closing mark. -/
theorem stringChars?_escaped (cs rest : List Char) :
    stringChars? (cs.flatMap escapeChar ++ '"' :: rest) = some (cs.map some, rest) := by
  induction cs with
  | nil => simp [stringChars?]
  | cons c cs ih =>
    rw [List.flatMap_cons, List.append_assoc, stringChars?_escapeChar, ih]
    rfl

theorem stringText_map_some (s : String) : stringText (s.toList.map some) = some s := by
  have hmap : ∀ cs : List Char, (cs.map some).mapM id = some cs := by
    intro cs
    induction cs with
    | nil => rfl
    | cons c cs ih => simp [List.mapM_cons, ih]
  rw [stringText, hmap, Option.map_some, String.ofList_toList]

/-! ## Cutting -/

/-- A text is cut into some tokens, with as many steps as there are tokens. -/
structure Cuts (cs : List Char) (ts : List Token) : Prop where
  length_le : ts.length ≤ cs.length
  tokensUpTo : ∀ n, ts.length ≤ n → tokensUpTo n cs = some ts

theorem Cuts.tokens? {text : String} {ts : List Token} (h : Cuts text.toList ts) :
    tokens? text = some ts :=
  h.tokensUpTo _ h.length_le

namespace Cuts

variable {cs rest : List Char} {ts : List Token} {t : Token}

theorem nil : Cuts [] [] where
  length_le := Nat.le_refl _
  tokensUpTo := by
    intro n _
    unfold Json.tokensUpTo
    rfl

/-- A blank in front makes no difference. -/
theorem space {c : Char} (hc : isSpace c = true) (h : Cuts rest ts) : Cuts (c :: rest) ts where
  length_le := Nat.le_succ_of_le h.length_le
  tokensUpTo := by
    intro n hn
    have hcut := h.tokensUpTo n hn
    unfold Json.tokensUpTo at hcut ⊢
    rwa [List.dropWhile_cons_of_pos hc]

theorem spaces {blanks : List Char} (hblanks : ∀ c ∈ blanks, isSpace c = true) (h : Cuts rest ts) :
    Cuts (blanks ++ rest) ts := by
  induction blanks with
  | nil => exact h
  | cons c blanks ih =>
    rw [List.forall_mem_cons] at hblanks
    exact (ih hblanks.2).space hblanks.1

/-- A token comes off the front of a text. -/
theorem cons {c : Char} (hc : isSpace c = false) (htoken : token? (c :: cs) = some (t, rest))
    (hlength : rest.length ≤ cs.length) (h : Cuts rest ts) : Cuts (c :: cs) (t :: ts) where
  length_le := Nat.succ_le_succ (Nat.le_trans h.length_le hlength)
  tokensUpTo := by
    intro n hn
    unfold Json.tokensUpTo
    rw [List.dropWhile_cons_of_neg (Bool.eq_false_iff.1 hc)]
    cases n with
    | zero => cases hn
    | succ n => simp [htoken, h.tokensUpTo n (Nat.le_of_succ_le_succ hn)]

theorem mark {c : Char} (hmark : ofMark? c = some t) (h : Cuts rest ts) :
    Cuts (c :: rest) (t :: ts) := by
  unfold ofMark? at hmark
  split at hmark
  all_goals first | cases hmark; exact h.cons rfl rfl (Nat.le_refl _) | cases hmark

theorem quote (s : String) (h : Cuts rest ts) :
    Cuts ((Json.quote s).toList ++ rest) (.string (some s) :: ts) := by
  have htext : (Json.quote s).toList ++ rest =
      '"' :: (s.toList.flatMap escapeChar ++ '"' :: rest) := by
    simp [Json.quote]
  rw [htext]
  refine h.cons rfl ?_ (by simp; omega)
  simp only [token?, stringChars?_escaped, Option.map_some, stringText_map_some]

/-- A text that starts with a digit starts with a number. -/
theorem token?_digit {c : Char} (hc : c.isDigit = true) (cs : List Char) :
    token? (c :: cs) =
      (number? (c :: cs)).map fun (spelling, rest) => (.number (String.ofList spelling), rest) := by
  have hmark : ofMark? c = none := by
    unfold ofMark?
    split
    all_goals first | exact absurd hc (by decide) | rfl
  unfold token?
  split
  all_goals rename_i heq
  · cases heq
    exact absurd hc (by decide)
  · cases heq
    exact absurd hc (by decide)
  · cases heq
    exact absurd hc (by decide)
  · cases heq
    exact absurd hc (by decide)
  · cases heq
    rw [hmark]
  · cases heq

theorem isSpace_eq_false_of_isDigit {c : Char} (hc : c.isDigit = true) : isSpace c = false := by
  simp only [isSpace, Bool.or_eq_false_iff, beq_eq_false_iff_ne]
  refine ⟨⟨⟨?_, ?_⟩, ?_⟩, ?_⟩
  all_goals
    rintro rfl
    exact absurd hc (by decide)

theorem number (n : Nat) (hends : EndsNumber rest) (h : Cuts rest ts) :
    Cuts ((toString n).toList ++ rest) (.number (toString n) :: ts) := by
  have hdigits : (toString n).toList = Nat.toDigits 10 n := Nat.toList_repr
  have hspelling : String.ofList (Nat.toDigits 10 n) = toString n := by
    rw [← hdigits, String.ofList_toList]
  have hnumber := number?_toDigits n hends
  obtain ⟨c, cs, hcons, hdigit⟩ := exists_toDigits_eq_cons n
  rw [hcons] at hnumber hspelling
  rw [hdigits, hcons]
  refine h.cons (isSpace_eq_false_of_isDigit hdigit) ?_ (by simp)
  rw [List.cons_append] at hnumber
  simp only [token?_digit hdigit, List.append_eq, hnumber, Option.map_some, hspelling]

end Cuts

/-! ## Values -/

mutual

/-- The tokens of a value. -/
def tokens : Json → List Token
  | .null => [.null]
  | .bool b => [.bool b]
  | .number spelling => [.number spelling]
  | .string s => [.string (some s)]
  | .array items => .lbracket :: (itemTokens items ++ [.rbracket])
  | .object members => .lbrace :: (memberTokens members ++ [.rbrace])

/-- The tokens of items with commas between them. -/
def itemTokens : List Json → List Token
  | [] => []
  | [item] => item.tokens
  | item :: rest => item.tokens ++ .comma :: itemTokens rest

/-- The tokens of members with commas between them. -/
def memberTokens : List (String × Json) → List Token
  | [] => []
  | [(key, value)] => .string (some key) :: .colon :: value.tokens
  | (key, value) :: rest =>
    .string (some key) :: .colon :: (value.tokens ++ .comma :: memberTokens rest)

end

section Pretty

variable {rest : List Char} {ts : List Token}

theorem Cuts.newline (level : Nat) (h : Cuts rest ts) :
    Cuts ((newline level).toList ++ rest) ts := by
  refine h.spaces fun c hc => ?_
  simp only [Json.newline, String.toList_append, String.toList_ofList, List.mem_append,
    List.mem_replicate] at hc
  rcases hc with hc | ⟨-, rfl⟩
  · rw [List.mem_singleton.1 hc]
    rfl
  · rfl

theorem endsNumber_newline (level : Nat) (rest : List Char) :
    EndsNumber ((newline level).toList ++ rest) := by
  simp only [newline, String.toList_append, List.append_assoc]
  exact endsNumber_cons (by decide)

theorem endsNumber_comma (rest : List Char) : EndsNumber (',' :: rest) :=
  endsNumber_cons (by decide)

/-- A value is cut off the front of a text that does not go on with a number. -/
def CutsOff (value : Json) : Prop :=
  ∀ (level : Nat) ⦃rest : List Char⦄ ⦃ts : List Token⦄, EndsNumber rest → Cuts rest ts →
    Cuts ((value.prettyAt level).toList ++ rest) (value.tokens ++ ts)

theorem cuts_prettyItems {items : List Json} (hitems : ∀ item ∈ items, CutsOff item) (level : Nat)
    (hends : EndsNumber rest) (h : Cuts rest ts) :
    Cuts ((prettyItems level items).toList ++ rest) (itemTokens items ++ ts) := by
  induction items with
  | nil => exact h
  | cons item items ih =>
    rw [List.forall_mem_cons] at hitems
    cases items with
    | nil =>
      rw [prettyItems, itemTokens, String.toList_append, List.append_assoc]
      exact (hitems.1 level hends h).newline level
    | cons next items =>
      have hcut := (ih hitems.2).mark (c := ',') rfl
      have hitem := hitems.1 level (endsNumber_comma _) hcut
      simp only [prettyItems, itemTokens, String.toList_append, List.append_assoc,
        List.cons_append]
      exact hitem.newline level

theorem cuts_prettyMembers {members : List (String × Json)}
    (hmembers : ∀ member ∈ members, CutsOff member.2) (level : Nat) (hends : EndsNumber rest)
    (h : Cuts rest ts) :
    Cuts ((prettyMembers level members).toList ++ rest) (memberTokens members ++ ts) := by
  induction members with
  | nil => exact h
  | cons member members ih =>
    obtain ⟨key, value⟩ := member
    rw [List.forall_mem_cons] at hmembers
    -- a member is its key, a colon with a blank behind it, and its value
    have hmember : ∀ {rest ts}, Cuts ((value.prettyAt level).toList ++ rest) ts →
        Cuts ((newline level).toList ++ ((quote key).toList ++
          (':' :: ' ' :: ((value.prettyAt level).toList ++ rest))))
          (.string (some key) :: .colon :: ts) := fun hvalue =>
      (((hvalue.space rfl).mark rfl).quote key).newline level
    cases members with
    | nil =>
      have hcut := hmember (hmembers.1 level hends h)
      simpa [prettyMembers, memberTokens] using hcut
    | cons next members =>
      have hcut := hmember (hmembers.1 level (endsNumber_comma _) ((ih hmembers.2).mark rfl))
      simpa [prettyMembers, memberTokens] using hcut

/-- The text of a value is cut into the tokens of the value. -/
theorem Counts.cutsOff {value : Json} (h : value.Counts) : value.CutsOff := by
  induction h with
  | null =>
    intro level rest ts _ hcut
    have hword : Cuts ('n' :: 'u' :: 'l' :: 'l' :: rest) (.null :: ts) :=
      hcut.cons rfl rfl (by simp; omega)
    simpa [prettyAt, tokens] using hword
  | bool b =>
    intro level rest ts _ hcut
    cases b with
    | false =>
      have hword : Cuts ('f' :: 'a' :: 'l' :: 's' :: 'e' :: rest) (.bool false :: ts) :=
        hcut.cons rfl rfl (by simp; omega)
      simpa [prettyAt, tokens] using hword
    | true =>
      have hword : Cuts ('t' :: 'r' :: 'u' :: 'e' :: rest) (.bool true :: ts) :=
        hcut.cons rfl rfl (by simp; omega)
      simpa [prettyAt, tokens] using hword
  | nat n =>
    intro level rest ts hends hcut
    exact hcut.number n hends
  | string s =>
    intro level rest ts _ hcut
    exact hcut.quote s
  | array _ ih =>
    rename_i items _
    intro level rest ts _ hcut
    have hclosed := hcut.mark (c := ']') rfl
    cases items with
    | nil => simpa [prettyAt, tokens, itemTokens] using hclosed.mark (c := '[') rfl
    | cons item items =>
      have hinside := cuts_prettyItems ih (level + 1) (endsNumber_newline level _)
        (hclosed.newline level)
      simpa [prettyAt, tokens] using hinside.mark (c := '[') rfl
  | object _ ih =>
    rename_i members _
    intro level rest ts _ hcut
    have hclosed := hcut.mark (c := '\x7d') rfl
    cases members with
    | nil => simpa [prettyAt, tokens, memberTokens] using hclosed.mark (c := '\x7b') rfl
    | cons member members =>
      have hinside := cuts_prettyMembers ih (level + 1) (endsNumber_newline level _)
        (hclosed.newline level)
      simpa [prettyAt, tokens] using hinside.mark (c := '\x7b') rfl

theorem endsNumber_of_spaces {blanks : List Char} (hblanks : ∀ c ∈ blanks, isSpace c = true) :
    EndsNumber blanks := by
  cases blanks with
  | nil => nofun
  | cons c blanks =>
    have hc := hblanks c List.mem_cons_self
    simp only [isSpace, Bool.or_eq_true, beq_iff_eq] at hc
    refine endsNumber_cons ?_
    rcases hc with ((rfl | rfl) | rfl) | rfl <;> decide

/-- The text of a value, perhaps with blanks behind it, has the tokens of the value. -/
theorem Counts.tokens?_pretty {value : Json} (h : value.Counts) {blanks : String}
    (hblanks : ∀ c ∈ blanks.toList, isSpace c = true) :
    tokens? (value.pretty ++ blanks) = some value.tokens := by
  have hend : Cuts blanks.toList [] := by
    simpa using Cuts.nil.spaces hblanks
  refine Cuts.tokens? ?_
  simpa [pretty] using h.cutsOff 0 (endsNumber_of_spaces hblanks) hend

end Pretty

end Commentary.Json
