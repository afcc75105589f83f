import Commentary.Proofs.LongnameParts

/-!
# Members below their owners

A longname is read from the left, and quotation marks and parentheses that stay open reach into
whatever is written behind them. A text in which nothing stays open is read on its own, and so is
what follows it (`atoms_append`, `gather_append_of`). Segments of this kind, with delimiters between
them, make a *path*. A path is in its normal spelling, and a member below it is split into the path
and the member's name again (`PathOf.split_member`).
-/

namespace Commentary.Longname

open Commentary.Text

/-! ## Nothing stays open -/

/-- Whether an atom is read as such whatever follows it. -/
def Atom.IsWhole : Atom → Prop
  | .escaped next => next.isSome = true
  | .quoted _ _ => True
  | .plain c => isQuote c = false

theorem Atom.Fits.of_isWhole {a : Atom} {rest : List Char} (h : a.Fits rest) (hwhole : a.IsWhole)
    (more : List Char) : a.Fits more := by
  match a, h with
  | .escaped none, _ => cases hwhole
  | .escaped (some c), _ => trivial
  | .quoted mark span, ⟨hquote, hspan⟩ => exact ⟨hquote, quotedSpan?_append hspan more⟩
  | .plain c, ⟨hc, _⟩ =>
    refine ⟨hc, fun hquote => ?_⟩
    rw [hwhole] at hquote
    cases hquote

/-- Behind whole atoms a text is read afresh. -/
theorem atoms_append {cs : List Char} (h : ∀ a ∈ atoms cs, a.IsWhole) (rest : List Char) :
    atoms (cs ++ rest) = atoms cs ++ atoms rest := by
  have hlexed : ∀ {as : List Atom}, Lexed as → (∀ a ∈ as, a.IsWhole) →
      atoms (as.flatMap Atom.chars ++ rest) = as ++ atoms rest := by
    intro as hlexed hwhole
    induction as with
    | nil => rfl
    | cons a as ih =>
      rw [List.forall_mem_cons] at hwhole
      rw [List.flatMap_cons, List.append_assoc,
        atoms_chars_append (hlexed.1.of_isWhole hwhole.1 _), ih hlexed.2 hwhole.2, List.cons_append]
  rw [← hlexed (lexed_atoms cs) h, flatMap_chars_atoms]

theorem isQuote_of_isPunctuation {c : Char} (h : Scope.isPunctuation c = true) :
    isQuote c = false := by
  refine Bool.eq_false_iff.2 fun hquote => ?_
  unfold Scope.isPunctuation Scope.ofPunctuation? at h
  split at h
  · cases hquote
  · cases hquote
  · cases hquote
  · cases h

theorem atoms_delimiter {c : Char} (hc : Scope.isPunctuation c = true) (rest : List Char) :
    atoms (c :: rest) = .plain c :: atoms rest := by
  have hfits : (Atom.plain c).Fits rest := by
    refine ⟨?_, fun hquote => ?_⟩
    · rintro rfl
      cases hc
    · rw [isQuote_of_isPunctuation hc] at hquote
      cases hquote
  exact atoms_chars_append hfits

/-- Every parenthesis that opens is closed. -/
def Paired : List Atom → Prop
  | [] => True
  | a :: as => (a = .plain '(' → closes 0 as = true) ∧ Paired as

/-- What is closed at a level is closed at each level further out, whatever follows. -/
theorem closes_mono {j k : Nat} (hle : j ≤ k) {as : List Atom} (h : closes k as = true)
    (bs : List Atom) : closes j (as ++ bs) = true := by
  induction as generalizing j k with
  | nil => cases h
  | cons a as ih =>
    cases a with
    | escaped next => exact ih hle h
    | quoted mark span => exact ih hle h
    | plain c =>
      simp only [List.cons_append, closes] at h ⊢
      by_cases hopen : c = '('
      · rw [if_pos hopen] at h ⊢
        exact ih (Nat.succ_le_succ hle) h
      · rw [if_neg hopen] at h ⊢
        by_cases hclose : c = ')'
        · rw [if_pos hclose] at h ⊢
          cases j with
          | zero => rfl
          | succ j =>
            obtain ⟨k, rfl⟩ : ∃ i, k = i + 1 := ⟨k - 1, by omega⟩
            exact ih (Nat.le_of_succ_le_succ hle) h
        · rw [if_neg hclose] at h ⊢
          exact ih hle h

/-- A parenthesis that is closed stays closed, whatever follows. -/
theorem closes_append {k : Nat} {as : List Atom} (h : closes k as = true) (bs : List Atom) :
    closes k (as ++ bs) = true := closes_mono (Nat.le_refl k) h bs

theorem Paired.append {as bs : List Atom} (has : Paired as) (hbs : Paired bs) :
    Paired (as ++ bs) := by
  induction as with
  | nil => exact hbs
  | cons a as ih => exact ⟨fun ha => closes_append (has.1 ha) bs, ih has.2⟩

theorem prependText_append_delimiter (cs : List Char) (ts us : List Token) (c : Char) :
    prependText cs (ts ++ .delimiter c :: us) = prependText cs ts ++ .delimiter c :: us := by
  rcases prependText_cases cs ts with ⟨ds, rest, rfl, htext⟩ | ⟨hnot, htext⟩
  · rw [htext]
    rfl
  · rw [htext]
    refine prependText_of_not_text ?_ cs
    cases ts with
    | nil => rfl
    | cons t ts => exact hnot

/-- What is closed at a deeper level is closed at this one. -/
theorem closes_of_le {j k : Nat} (hle : j ≤ k) {as : List Atom} (h : closes k as = true) :
    closes j as = true := by simpa using closes_mono hle h []

/-- Every parenthesis that opens is closed exactly if it is also closed in front of the given
atoms. -/
def ClosedAlike (bs : List Atom) : List Atom → Prop
  | [] => True
  | a :: as => (a = .plain '(' → closes 0 (as ++ bs) = closes 0 as) ∧ ClosedAlike bs as

theorem Paired.closedAlike {as : List Atom} (h : Paired as) (bs : List Atom) :
    ClosedAlike bs as := by
  induction as with
  | nil => trivial
  | cons a as ih =>
    refine ⟨fun ha => ?_, ih h.2⟩
    rw [h.1 ha, closes_append (h.1 ha)]

/-- Atoms that close nothing make no difference to what stands before them. -/
theorem closedAlike_of_closes {bs : List Atom} (h : ∀ k, closes k bs = false) (as : List Atom) :
    ClosedAlike bs as := by
  induction as with
  | nil => trivial
  | cons a as ih =>
    refine ⟨fun _ => ?_, ih⟩
    have hsame : closes 0 (as ++ bs) = closes 0 (as ++ []) := closes_append_congr h as 0
    rwa [List.append_nil] at hsame

/-- Behind atoms whose parentheses are closed by themselves or not at all, what follows is gathered
afresh. Here `f` is what this does to the tokens of the atoms, which close the `depth` parentheses
that are open before them. -/
theorem gather_append_of {f : List Token → List Token} {bs : List Atom}
    (hnil : gather 0 bs = f []) (hcons : ∀ t ts, t.isText = false → f (t :: ts) = t :: f ts)
    (hprepend : ∀ cs ts, prependText cs (f ts) = f (prependText cs ts))
    {depth : Nat} {as : List Atom} (has : ClosedAlike bs as)
    (hdepth : ∀ k, depth = k + 1 → closes k as = true) :
    gather depth (as ++ bs) = f (gather depth as) := by
  induction as generalizing depth with
  | nil =>
    cases depth with
    | zero => exact hnil
    | succ depth => cases hdepth depth rfl
  | cons a as ih =>
    cases a with
    | quoted mark span =>
      rw [List.cons_append, gather, gather, ih has.2 hdepth, hcons _ _ rfl]
    | escaped next => rw [List.cons_append, gather, gather, ih has.2 hdepth, hprepend]
    | plain e =>
      rw [List.cons_append, gather, gather]
      by_cases hopen : e = '(' ∧ closes 0 as = true
      · obtain ⟨rfl, hcloses⟩ := hopen
        have hdeeper : ∀ k, depth + 1 = k + 1 → closes k as = true := by
          rintro k ⟨⟩
          cases depth with
          | zero => exact hcloses
          | succ depth => exact hdepth depth rfl
        rw [if_pos ⟨rfl, (has.1 rfl).trans hcloses⟩, if_pos ⟨rfl, hcloses⟩, ih has.2 hdeeper,
          hprepend]
      · have hopen' : ¬(e = '(' ∧ closes 0 (as ++ bs) = true) := by
          rintro ⟨rfl, hcloses⟩
          exact hopen ⟨rfl, (has.1 rfl).symm.trans hcloses⟩
        rw [if_neg hopen', if_neg hopen]
        by_cases hclose : e = ')' ∧ 0 < depth
        · have hshallower : ∀ k, depth - 1 = k + 1 → closes k as = true := by
            intro k hk
            have := hdepth (k + 1) (by omega)
            simpa [closes, hclose.1] using this
          rw [if_pos hclose, if_pos hclose, ih has.2 hshallower, hprepend]
        · have hsame : ∀ k, depth = k + 1 → closes k as = true := by
            intro k hk
            have he : e ≠ ')' := fun he => hclose ⟨he, by omega⟩
            have hcloses := hdepth k hk
            simp only [closes, he, if_false] at hcloses
            split at hcloses
            · exact closes_of_le (Nat.le_succ _) hcloses
            · exact hcloses
          rw [if_neg hclose, if_neg hclose, ih has.2 hsame]
          split
          · rw [hcons _ _ rfl]
          · exact hprepend _ _

/-- A delimiter behind a text stands for itself if what follows closes none of the parentheses that
stay open in the text. -/
theorem tokenize_append_of {cs : List Char} (hwhole : ∀ a ∈ atoms cs, a.IsWhole) {c : Char}
    (hc : Scope.isPunctuation c = true) {rest : List Char}
    (hclosed : ClosedAlike (.plain c :: atoms rest) (atoms cs)) :
    tokenize (cs ++ c :: rest) = tokenize cs ++ .delimiter c :: tokenize rest := by
  rw [tokenize, atoms_append hwhole, atoms_delimiter hc]
  exact gather_append_of (f := (· ++ .delimiter c :: tokenize rest)) (gather_delimiter hc _)
    (fun _ _ _ => rfl) (fun cs ts => prependText_append_delimiter cs ts _ c) hclosed (by simp)

/-- Behind a text that leaves nothing open, a delimiter stands for itself. -/
theorem tokenize_append {cs : List Char} (hwhole : ∀ a ∈ atoms cs, a.IsWhole)
    (hpaired : Paired (atoms cs)) {c : Char} (hc : Scope.isPunctuation c = true)
    (rest : List Char) :
    tokenize (cs ++ c :: rest) = tokenize cs ++ .delimiter c :: tokenize rest :=
  tokenize_append_of hwhole hc (hpaired.closedAlike _)

/-! ## Segments and paths -/

/-- One segment of a path: nothing in it stays open, no delimiter of it counts, and there is nothing
to respell in it. -/
structure IsSegment (cs : List Char) : Prop where
  ne_nil : cs ≠ []
  whole : ∀ a ∈ atoms cs, a.IsWhole
  paired : Paired (atoms cs)
  unbracketed : (atoms cs).IsChain NotBracketed
  settled : Settled true (tokenize cs)
  undelimited : ∀ c, .delimiter c ∉ tokenize cs

/-- Segments of some kind with delimiters between them. -/
inductive PathOf (Segment : List Char → Prop) : List Char → Prop
  | segment {cs : List Char} : Segment cs → PathOf Segment cs
  | member {owner name : List Char} {c : Char} : PathOf Segment owner →
    Scope.isPunctuation c = true → Segment name → PathOf Segment (owner ++ c :: name)

theorem PathOf.mono {S T : List Char → Prop} (h : ∀ cs, S cs → T cs) {cs : List Char}
    (hcs : PathOf S cs) : PathOf T cs := by
  induction hcs with
  | segment hcs => exact .segment (h _ hcs)
  | member _ hc hname ih => exact .member ih hc (h _ hname)

/-- A longname of segments with delimiters between them. -/
abbrev IsPath : List Char → Prop := PathOf IsSegment

/-- Where tokens are settled up to a delimiter and behind it, they are settled. -/
theorem Settled.append_delimiter {starts : Bool} {ts us : List Token} (hts : Settled starts ts)
    (c : Char) (hus : Settled true us) : Settled starts (ts ++ .delimiter c :: us) := by
  induction ts generalizing starts with
  | nil => exact ⟨nofun, hus.mono⟩
  | cons t ts ih => exact ⟨hts.1, ih hts.2⟩

/-- A delimiter separates what stands on its sides. -/
theorem isChain_append_delimiter {as bs : List Atom} (has : as.IsChain NotBracketed)
    (hbs : bs.IsChain NotBracketed) {c : Char} (hc : Scope.isPunctuation c = true) :
    (as ++ .plain c :: bs).IsChain NotBracketed := by
  refine List.isChain_append.2 ⟨has, hbs.cons ?_, ?_⟩
  · rintro b - ⟨hopen, -⟩
    cases hopen
    cases hc
  · rintro a - b hb ⟨-, mark, span, rfl⟩
    cases hb

/-- Tokens are cut nowhere exactly if no delimiter stands between two of them. -/
theorem lastSplit_cons_eq_none_iff (t : Token) (ts : List Token) :
    lastSplit (t :: ts) = none ↔ ∀ c, .delimiter c ∉ ts.dropLast := by
  induction ts generalizing t with
  | nil => simp [lastSplit]
  | cons u us ih =>
    have hrest : lastSplit (t :: u :: us) = none ↔
        lastSplit (u :: us) = none ∧ ∀ c, u = .delimiter c → us = [] := by
      rw [lastSplit.eq_def]
      cases hcut : lastSplit (u :: us) with
      | some cut => simp [hcut]
      | none => cases u <;> simp [hcut]
    rw [hrest, ih]
    cases us with
    | nil => simp
    | cons v vs =>
      simp only [List.dropLast_cons_cons, List.mem_cons, not_or, reduceCtorEq, imp_false]
      constructor
      · rintro ⟨hlater, hnot⟩ c
        exact ⟨fun heq => hnot c heq.symm, hlater c⟩
      · exact fun h => ⟨fun c => (h c).2, fun c heq => (h c).1 heq.symm⟩

/-- The last delimiter with tokens on both sides is one with no delimiter between later tokens. -/
theorem lastSplit_append_of {ts us : List Token} (hts : ts ≠ []) (hus : us ≠ [])
    (hlast : ∀ d, .delimiter d ∉ us.dropLast) (c : Char) :
    lastSplit (ts ++ .delimiter c :: us) = some (ts, c, us) := by
  have hnone : lastSplit (.delimiter c :: us) = none := (lastSplit_cons_eq_none_iff _ us).2 hlast
  induction ts with
  | nil => exact absurd rfl hts
  | cons t ts ih =>
    cases ts with
    | nil =>
      rw [List.singleton_append, lastSplit.eq_def]
      simp [hnone, hus]
    | cons u ts =>
      rw [List.cons_append, lastSplit.eq_def]
      simp only [ih (by simp)]

/-- How tokens stand around the delimiter at which they are cut. -/
theorem eq_append_of_lastSplit {ts before after : List Token} {c : Char}
    (h : lastSplit ts = some (before, c, after)) :
    ts = before ++ .delimiter c :: after ∧ before ≠ [] ∧ after ≠ [] ∧
      ∀ d, .delimiter d ∉ after.dropLast := by
  fun_induction lastSplit ts generalizing before after c with
  | case1 => cases h
  | case2 token rest b d a hrest ih =>
    cases h
    obtain ⟨rfl, -, hafter, hlast⟩ := ih hrest
    exact ⟨rfl, by simp, hafter, hlast⟩
  | case3 => cases h
  | case4 token d a hempty hnone =>
    cases h
    refine ⟨rfl, by simp, by simpa using hempty, ?_⟩
    exact (lastSplit_cons_eq_none_iff _ _).1 hnone
  | case5 => cases h

/-- The last delimiter with tokens on both sides is one that has no delimiter behind it. -/
theorem lastSplit_append {ts us : List Token} (hts : ts ≠ []) (hus : us ≠ [])
    (hundelimited : ∀ c, .delimiter c ∉ us) (c : Char) :
    lastSplit (ts ++ .delimiter c :: us) = some (ts, c, us) :=
  lastSplit_append_of hts hus (fun d hmem => hundelimited d (List.dropLast_subset us hmem)) c

theorem tokenize_ne_nil {cs : List Char} (h : cs ≠ []) : tokenize cs ≠ [] := by
  intro hnil
  rw [← spell_tokenize cs, hnil] at h
  exact h rfl

namespace PathOf

variable {owner name : List Char} {c : Char}

theorem ne_nil {cs : List Char} (h : IsPath cs) : cs ≠ [] := by
  cases h with
  | segment h => exact h.ne_nil
  | member => simp

theorem whole {cs : List Char} (h : IsPath cs) : ∀ a ∈ atoms cs, a.IsWhole := by
  induction h with
  | segment h => exact h.whole
  | member _ hc hname ih =>
    rw [atoms_append ih, atoms_delimiter hc]
    simp only [List.forall_mem_append, List.forall_mem_cons]
    exact ⟨ih, isQuote_of_isPunctuation hc, hname.whole⟩

theorem paired {cs : List Char} (h : IsPath cs) : Paired (atoms cs) := by
  induction h with
  | segment h => exact h.paired
  | member howner hc hname ih =>
    rw [atoms_append howner.whole, atoms_delimiter hc]
    refine ih.append ⟨fun hopen => ?_, hname.paired⟩
    cases hopen
    cases hc

theorem tokenize_member (howner : IsPath owner) (hc : Scope.isPunctuation c = true)
    (rest : List Char) :
    tokenize (owner ++ c :: rest) = tokenize owner ++ .delimiter c :: tokenize rest :=
  tokenize_append howner.whole howner.paired hc rest

/-- No quoted name of a path stands in brackets. -/
theorem unbracketed {cs : List Char} (h : IsPath cs) : (atoms cs).IsChain NotBracketed := by
  induction h with
  | segment h => exact h.unbracketed
  | member howner hc hname ih =>
    rw [atoms_append howner.whole, atoms_delimiter hc]
    exact isChain_append_delimiter ih hname.unbracketed hc

/-- No segment of a path is a `prototype`. -/
theorem settled {cs : List Char} (h : IsPath cs) : Settled true (tokenize cs) := by
  induction h with
  | segment h => exact h.settled
  | member howner hc hname ih =>
    rw [howner.tokenize_member hc]
    exact ih.append_delimiter _ hname.settled

/-- A path is in its normal spelling. -/
theorem normalChars_eq {cs : List Char} (h : IsPath cs) : normalChars cs = cs :=
  normalChars_of_settled h.unbracketed h.settled

theorem instancePathChars_eq {cs : List Char} (h : IsPath cs) : instancePathChars cs = cs :=
  (normal_of_settled h.unbracketed h.settled).2

/-- A member below a path is split into the path and the member's name. -/
theorem split_member (howner : IsPath owner) {scope : Scope}
    (hc : Scope.ofPunctuation? c = some scope) (hname : IsSegment name) :
    split (String.ofList (owner ++ c :: name)) =
      ofParts (owner ++ c :: name) owner scope name := by
  have hpunctuation : Scope.isPunctuation c = true := by simp [Scope.isPunctuation, hc]
  have hnormal := (howner.member hpunctuation hname).normalChars_eq
  have hsplit : lastSplit (tokenize (owner ++ c :: name)) =
      some (tokenize owner, c, tokenize name) := by
    rw [howner.tokenize_member hpunctuation]
    exact lastSplit_append (tokenize_ne_nil howner.ne_nil) (tokenize_ne_nil hname.ne_nil)
      hname.undelimited c
  unfold split
  simp only [String.toList_ofList, hnormal, hsplit, spell_tokenize, hc, Option.getD_some]

end PathOf

/-- A segment is split into no owner and itself. -/
theorem IsSegment.split_eq {cs : List Char} (h : IsSegment cs) :
    split (String.ofList cs) = ofParts cs [] .global cs := by
  have hnormal := (PathOf.segment h).normalChars_eq
  have hnone : lastSplit (tokenize cs) = none := by
    refine Option.eq_none_iff_forall_ne_some.2 ?_
    rintro ⟨before, d, after⟩ hsome
    exact h.undelimited d (mem_of_lastSplit hsome)
  unfold split
  simp only [String.toList_ofList, hnormal, hnone]

/-! ## What makes a segment -/

theorem whole_of_filler {cs : List Char} (h : ∀ c ∈ cs, isFiller c = true) :
    ∀ a ∈ atoms cs, a.IsWhole := by
  rw [atoms_of_filler h]
  intro a ha
  obtain ⟨c, hc, rfl⟩ := List.mem_map.1 ha
  exact (isFiller_iff.1 (h c hc)).1

theorem paired_of_filler {cs : List Char} (h : ∀ c ∈ cs, isFiller c = true) :
    Paired (atoms cs) := by
  rw [atoms_of_filler h]
  induction cs with
  | nil => trivial
  | cons c cs ih =>
    rw [List.forall_mem_cons] at h
    refine ⟨fun hopen => ?_, ih h.2⟩
    cases hopen
    cases h.1

theorem isChain_of_filler {cs : List Char} (h : ∀ c ∈ cs, isFiller c = true) :
    (atoms cs).IsChain NotBracketed := by
  refine isChain_atoms ?_
  rintro ⟨q, hquote, hinfix⟩
  have hmem : q ∈ cs := hinfix.subset (by simp)
  simp [(isFiller_iff.1 (h q hmem)).1] at hquote

/-- A segment that holds nothing but text. -/
def IsPlain (cs : List Char) : Prop :=
  cs ≠ [] ∧ (∀ c ∈ cs, isTextual c = true) ∧ cs ≠ prototypeName

instance : DecidablePred IsPlain := fun cs =>
  decidable_of_iff (cs ≠ [] ∧ cs.all isTextual = true ∧ cs ≠ prototypeName) <| by
    rw [List.all_eq_true, IsPlain]

theorem IsPlain.isFiller {cs : List Char} (h : IsPlain cs) : ∀ c ∈ cs, isFiller c = true :=
  fun c hc => (isTextual_iff.1 (h.2.1 c hc)).1

theorem IsPlain.isSegment {cs : List Char} (h : IsPlain cs) : IsSegment cs := by
  obtain ⟨hne, hchars, hprototype⟩ := h
  have hfiller := IsPlain.isFiller ⟨hne, hchars, hprototype⟩
  have htokens := tokenize_textual hne hchars
  refine ⟨hne, whole_of_filler hfiller, paired_of_filler hfiller, isChain_of_filler hfiller, ?_, ?_⟩
  · rw [htokens]
    exact ⟨fun _ htext => hprototype (Token.text.inj htext), trivial⟩
  · rw [htokens]
    simp

theorem IsIdentifier.isPlain {s : String} (h : IsIdentifier s) : IsPlain s.toList := by
  obtain ⟨hne, hchars, hprototype⟩ := h
  refine ⟨fun hnil => hne (String.toList_eq_nil_iff.1 hnil),
    fun c hc => isTextual_of_isIdentifierChar (hchars c hc), fun hchars => hprototype ?_⟩
  rw [← String.toList_inj, hchars]
  rfl

/-- A text between two marks that it does not hold itself. -/
def quotedName (mark : Char) (inner : List Char) : List Char := mark :: (inner ++ [mark])

/-- What can stand between two marks: some text in which neither the mark nor a backslash occurs. -/
def CanBeQuoted (mark : Char) (inner : List Char) : Prop :=
  isQuote mark = true ∧ inner ≠ [] ∧ mark ∉ inner ∧ '\\' ∉ inner

instance (mark : Char) (inner : List Char) : Decidable (CanBeQuoted mark inner) :=
  inferInstanceAs (Decidable (_ ∧ _ ∧ _ ∧ _))

section Quoted

variable {mark : Char} {inner : List Char} (h : CanBeQuoted mark inner)
include h

theorem quotedSpan?_of_canBeQuoted :
    quotedSpan? mark (inner ++ [mark]) = some (inner ++ [mark], []) := by
  obtain ⟨hquote, hne, hmark, hbackslash⟩ := h
  have hsplit : splitAfterMark mark (inner ++ [mark]) = some (inner ++ [mark], []) := by
    clear hne
    induction inner with
    | nil => simp [splitAfterMark_cons (ne_backslash_of_isQuote hquote)]
    | cons c cs ih =>
      simp only [List.mem_cons, not_or] at hmark hbackslash
      rw [List.cons_append, splitAfterMark_cons (Ne.symm hbackslash.1), if_neg (Ne.symm hmark.1),
        ih hmark.2 hbackslash.2]
      rfl
  have hhead : (inner ++ [mark]).head? ≠ some mark := by
    cases inner with
    | nil => exact absurd rfl hne
    | cons c cs =>
      simp only [List.mem_cons, not_or] at hmark
      simpa using Ne.symm hmark.1
  rw [quotedSpan?, if_neg hhead, hsplit]

theorem atoms_quotedName : atoms (quotedName mark inner) = [.quoted mark (inner ++ [mark])] := by
  have hfits : (Atom.quoted mark (inner ++ [mark])).Fits [] := by
    refine ⟨h.1, ?_⟩
    rw [List.append_nil]
    exact quotedSpan?_of_canBeQuoted h
  have hatoms := atoms_chars_append hfits
  rw [List.append_nil] at hatoms
  rw [atoms] at hatoms
  exact hatoms

theorem tokenize_quotedName :
    tokenize (quotedName mark inner) = [.quoted (quotedName mark inner)] := by
  rw [tokenize, atoms_quotedName h]
  rfl

/-- A quoted name is a segment. -/
theorem isSegment_quotedName : IsSegment (quotedName mark inner) := by
  refine ⟨by simp [quotedName], ?_, ?_, ?_, ?_, ?_⟩
  · rw [atoms_quotedName h]
    simp [Atom.IsWhole]
  · rw [atoms_quotedName h]
    exact ⟨nofun, trivial⟩
  · rw [atoms_quotedName h]
    exact .singleton _
  · rw [tokenize_quotedName h]
    exact ⟨nofun, trivial⟩
  · rw [tokenize_quotedName h]
    simp

/-- A quoted name has no variation. -/
theorem splitVariationChars_quotedName :
    splitVariationChars (quotedName mark inner) = (quotedName mark inner, none) := by
  unfold splitVariationChars
  rw [tokenize_quotedName h]
  split
  · rename_i rest hrest
    have hmem : (')', true) ∈ ((')', true) :: rest) := List.mem_cons_self
    rw [← hrest] at hmem
    simp [Token.marked] at hmem
  · rfl

end Quoted

/-! ## Members of instances -/

/-- Where no segment is a `prototype`, tokens are written as they are up to a dot. -/
theorem instancePaths_append_dot {pending : Option (List Char)} {ts : List Token}
    (h : Settled pending.isSome ts) (us : List Token) :
    instancePaths pending (ts ++ .delimiter '.' :: us) =
      pending.getD [] ++ (spell ts ++ instancePaths (some ['.']) us) := by
  induction ts generalizing pending with
  | nil =>
    rw [List.nil_append, instancePaths.eq_def]
    simp
  | cons t ts ih =>
    have hnot : ¬(t = .text prototypeName ∧ pending.isSome = true) := fun ht => h.1 ht.2 ht.1
    rw [List.cons_append, instancePaths.eq_def]
    simp only [if_neg hnot]
    by_cases hdot : t = .delimiter '.'
    · rw [if_pos hdot, ih (by simpa [hdot] using h.2)]
      simp [hdot, Token.chars]
    · rw [if_neg hdot, ih (by simpa [hdot] using h.2)]
      simp

theorem tokenize_prototypeName : tokenize prototypeName = [.text prototypeName] :=
  tokenize_textual (by simp [prototypeName]) (List.all_eq_true.1 (by decide))

/-- The longname of a member of an owner's `prototype` is that of an instance member. -/
theorem PathOf.normalChars_prototype {owner name : List Char} (howner : IsPath owner)
    (hname : IsSegment name) :
    normalChars (owner ++ '.' :: (prototypeName ++ '.' :: name)) = owner ++ '#' :: name := by
  have hfiller := isFiller_of_mem_prototypeName
  have hwhole := whole_of_filler hfiller
  have htokens : tokenize (prototypeName ++ '.' :: name) =
      .text prototypeName :: .delimiter '.' :: tokenize name := by
    rw [tokenize_append hwhole (paired_of_filler hfiller) rfl, tokenize_prototypeName]
    rfl
  have hbrackets :
      (atoms (owner ++ '.' :: (prototypeName ++ '.' :: name))).IsChain NotBracketed := by
    rw [atoms_append howner.whole, atoms_delimiter rfl, atoms_append hwhole, atoms_delimiter rfl]
    refine isChain_append_delimiter howner.unbracketed ?_ rfl
    exact isChain_append_delimiter (isChain_of_filler hfiller) hname.unbracketed rfl
  have hsegment :
      instancePaths (some ['.']) (.text prototypeName :: .delimiter '.' :: tokenize name) =
        '#' :: name := by
    rw [instancePaths.eq_def]
    simp only [Option.isSome_some, and_self, if_true]
    have hrest : instancePaths (some ['#']) (tokenize name) = ['#'] ++ spell (tokenize name) :=
      instancePaths_of_settled hname.settled
    rw [hrest, spell_tokenize]
    rfl
  have hpath : ∀ us, instancePaths (some []) (tokenize owner ++ .delimiter '.' :: us) =
      [] ++ (spell (tokenize owner) ++ instancePaths (some ['.']) us) :=
    instancePaths_append_dot howner.settled
  rw [normalChars, dotBrackets_of_isChain hbrackets, flatMap_chars_atoms, instancePathChars,
    howner.tokenize_member rfl, htokens, hpath, hsegment, spell_tokenize, List.nil_append]

end Commentary.Longname
