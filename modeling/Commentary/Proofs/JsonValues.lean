import Commentary.Proofs.JsonTokens

/-!
# JSON values from their tokens

The readers of JSON take the tokens of a value, and leave what follows them alone (`Takes`). So a
JSON value that was written over several lines is read back as it was (`Counts.parse?_pretty`).

The bounds of the readers never get in the way: a value takes at least one level for each token
that it nests, and each further item of a list comes with a comma.
-/

namespace Commentary.Json

/-- A reader takes the tokens of something off the front of any tokens. -/
def Takes {α : Type} (reader : Reader α) (written : List Token) (x : α) : Prop :=
  ∀ rest, reader (written ++ rest) = some (x, rest)

/-- The tokens of some things with commas between them. -/
def separated {α : Type} (write : α → List Token) : List α → List Token
  | [] => []
  | x :: xs => write x ++ xs.flatMap fun x => .comma :: write x

section Lists

variable {α : Type} {item : Reader α} {write : α → List Token} {rest : List Token}

theorem length_le_length_flatMap (write : α → List Token) (xs : List α) :
    xs.length ≤ (xs.flatMap fun x => Token.comma :: write x).length := by
  induction xs with
  | nil => exact Nat.le_refl _
  | cons x xs ih =>
    rw [List.flatMap_cons, List.length_append, List.length_cons, List.length_cons]
    omega

/-- Items behind commas are taken as long as there are any. -/
theorem moreItems_separated {xs : List α} (hitems : ∀ x ∈ xs, Takes item (write x) x) {n : Nat}
    (hn : xs.length ≤ n) (hrest : rest.head? ≠ some .comma) :
    moreItems item n ((xs.flatMap fun x => .comma :: write x) ++ rest) = some (xs, rest) := by
  induction xs generalizing n with
  | nil =>
    cases n with
    | zero => rfl
    | succ n =>
      unfold moreItems
      split
      · rename_i heq
        exact absurd (by rw [show rest = _ from heq]; rfl) hrest
      · rfl
  | cons x xs ih =>
    rw [List.forall_mem_cons] at hitems
    cases n with
    | zero => cases hn
    | succ n =>
      have hmore := ih hitems.2 (Nat.le_of_succ_le_succ hn)
      rw [List.flatMap_cons, List.append_assoc, List.cons_append]
      simp [moreItems, hitems.1 _, hmore]

/-- A list is taken up to the mark that closes it. -/
theorem itemsUpTo_separated {close : Token} (hclose : close ≠ .comma) {xs : List α}
    (hitems : ∀ x ∈ xs, Takes item (write x) x)
    (hfirst : ∀ x ∈ xs, ∃ t ts, write x = t :: ts ∧ t ≠ close) (rest : List Token) :
    itemsUpTo close item (separated write xs ++ close :: rest) = some (xs, rest) := by
  cases xs with
  | nil => simp [separated, itemsUpTo]
  | cons x xs =>
    rw [List.forall_mem_cons] at hitems
    obtain ⟨t, ts, hwrite, ht⟩ := hfirst x List.mem_cons_self
    have hmore : moreItems item ((xs.flatMap fun x => .comma :: write x) ++ close :: rest).length
        ((xs.flatMap fun x => .comma :: write x) ++ close :: rest) = some (xs, close :: rest) := by
      refine moreItems_separated hitems.2 ?_ (by simpa using hclose)
      -- every further item has a comma, so there are enough steps for all
      rw [List.length_append]
      exact Nat.le_add_right_of_le (length_le_length_flatMap write xs)
    rw [separated, List.append_assoc]
    generalize (xs.flatMap fun x => Token.comma :: write x) ++ close :: rest = more at hmore ⊢
    have hitem := hitems.1 more
    rw [hwrite, List.cons_append] at hitem ⊢
    simp [itemsUpTo, ht, hitem, hmore]

end Lists

/-! ## Values -/

theorem itemTokens_eq (items : List Json) : itemTokens items = separated tokens items := by
  induction items with
  | nil => rfl
  | cons item items ih =>
    cases items with
    | nil => simp [itemTokens, separated]
    | cons next items =>
      rw [itemTokens, ih]
      · simp [separated]
      · simp

/-- The tokens of a member. -/
def tokensOfMember (m : String × Json) : List Token := .string (some m.1) :: .colon :: m.2.tokens

theorem memberTokens_eq (members : List (String × Json)) :
    memberTokens members = separated tokensOfMember members := by
  induction members with
  | nil => rfl
  | cons m members ih =>
    cases members with
    | nil => simp [memberTokens, separated, tokensOfMember]
    | cons next members =>
      rw [memberTokens, ih]
      · simp [separated, tokensOfMember]
      · simp

/-- The tokens of a value do not start with a mark that closes a list. -/
theorem exists_tokens_eq_cons (value : Json) :
    ∃ t ts, value.tokens = t :: ts ∧ t ≠ .rbracket := by
  cases value <;> exact ⟨_, _, rfl, by simp⟩

/-- The items of a list have no more tokens than the list. -/
theorem length_le_separated {α : Type} (write : α → List Token) {x : α} {xs : List α}
    (h : x ∈ xs) : (write x).length ≤ (separated write xs).length := by
  obtain ⟨front, back, rfl⟩ := List.append_of_mem h
  cases front with
  | nil => simp [separated]
  | cons first front =>
    simp only [List.cons_append, separated, List.flatMap_append, List.flatMap_cons,
      List.length_append, List.length_cons]
    omega

/-- A value is read off its tokens, with a level for each of them. -/
theorem Counts.takes {v : Json} (h : v.Counts) {levels : Nat} (hlevels : v.tokens.length ≤ levels) :
    Takes (value levels) v.tokens v := by
  induction h generalizing levels with
  | null | bool | nat | string =>
    obtain ⟨levels, rfl⟩ := Nat.exists_eq_add_of_le' hlevels
    intro rest
    rfl
  | array _ ih =>
    rename_i items _
    rw [tokens, itemTokens_eq] at hlevels ⊢
    simp only [List.length_cons, List.length_append] at hlevels
    obtain ⟨levels, rfl⟩ : ∃ n, levels = n + 1 := ⟨levels - 1, by omega⟩
    have hitems : ∀ item ∈ items, Takes (value levels) item.tokens item := fun item hitem => by
      have hlength := length_le_separated tokens hitem
      exact ih item hitem (by omega)
    intro rest
    have hlist := itemsUpTo_separated (by decide) hitems
      (fun item _ => exists_tokens_eq_cons item) rest
    simp [value, hlist]
  | object _ ih =>
    rename_i members _
    rw [tokens, memberTokens_eq] at hlevels ⊢
    simp only [List.length_cons, List.length_append] at hlevels
    obtain ⟨levels, rfl⟩ : ∃ n, levels = n + 1 := ⟨levels - 1, by omega⟩
    have hmembers : ∀ m ∈ members, Takes (member (value levels)) (tokensOfMember m) m :=
      fun m hm rest => by
        have hlength := length_le_separated tokensOfMember hm
        simp only [tokensOfMember, List.length_cons] at hlength
        have hvalue : Takes (value levels) m.2.tokens m.2 := ih m hm (by omega)
        simp [member, tokensOfMember, hvalue rest]
    intro rest
    have hfirst : ∀ m ∈ members, ∃ t ts, tokensOfMember m = t :: ts ∧ t ≠ .rbrace :=
      fun m _ => ⟨_, _, rfl, by simp⟩
    have hlist := itemsUpTo_separated (by decide) hmembers hfirst rest
    simp [value, hlist]

/-- A value that was written over several lines, perhaps with blanks behind it, is read back. -/
theorem Counts.parse?_pretty {v : Json} (h : v.Counts) {blanks : String}
    (hblanks : ∀ c ∈ blanks.toList, isSpace c = true) : parse? (v.pretty ++ blanks) = some v := by
  have hvalue := h.takes (Nat.le_refl _) []
  rw [List.append_nil] at hvalue
  rw [parse?, h.tokens?_pretty hblanks, Option.bind_some, ofTokens?, hvalue]

end Commentary.Json
