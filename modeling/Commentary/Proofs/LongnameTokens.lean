import Commentary.Longname.Normal
import Mathlib.Data.List.Chain

/-!
# The shape of atoms and tokens

What can be read back from a longname. A list of atoms is *lexed* if every atom stands where it
would be read again, and these are exactly the lists that come from a text (`lexed_atoms`,
`atoms_of_lexed`). The tokens that atoms are gathered into come off one by one: the first token
hangs on the atoms that follow only through the parentheses that these close, and through whether
they go on with text (`gather_uncons`). So a longname can be respelled at one place and be read
again without looking at the rest of it.
-/

namespace Commentary.Longname

open Commentary.Text

/-! ## Unprotected characters -/

/-- The characters of a text that no backslash protects. -/
def bare : List Char → List Char
  | [] => []
  | '\\' :: [] => []
  | '\\' :: _ :: rest => bare rest
  | c :: rest => c :: bare rest

theorem bare_cons {c : Char} (hc : c ≠ '\\') (cs : List Char) : bare (c :: cs) = c :: bare cs := by
  rw [bare]
  all_goals simp [hc]

theorem splitAfterMark_cons {c : Char} (hc : c ≠ '\\') (q : Char) (cs : List Char) :
    splitAfterMark q (c :: cs) =
      if c = q then some ([c], cs)
      else (splitAfterMark q cs).map fun (span, after) => (c :: span, after) := by
  rw [splitAfterMark]
  all_goals simp [hc]

/-- A character that does not match as a backslash, alone or with another one behind it, is none. -/
theorem ne_backslash {c : Char} {rest : List Char} (hlast : c = '\\' → rest = [] → False)
    (hmore : ∀ d tail, c = '\\' → rest = d :: tail → False) : c ≠ '\\' := by
  intro hc
  cases rest with
  | nil => exact hlast hc rfl
  | cons d tail => exact hmore d tail hc rfl

/-- A text has an end at a mark exactly if the mark stands in it unprotected. -/
theorem splitAfterMark_eq_none_iff {q : Char} (hq : q ≠ '\\') (cs : List Char) :
    splitAfterMark q cs = none ↔ q ∉ bare cs := by
  fun_induction splitAfterMark q cs with
  | case1 => simp [bare]
  | case2 => simp [bare]
  | case3 c rest ih => simpa [bare] using ih
  | case4 rest => simp [bare_cons hq]
  | case5 c rest hlast hmore hc ih =>
    rw [Option.map_eq_none_iff, ih, bare_cons (ne_backslash hlast hmore)]
    simp [Ne.symm hc]

/-- Where a text is cut behind a mark hangs on the part up to it alone, and the part behind it
starts afresh. -/
theorem splitAfterMark_append {q : Char} {cs span after : List Char}
    (h : splitAfterMark q cs = some (span, after)) (more : List Char) :
    splitAfterMark q (span ++ more) = some (span, more) ∧
      bare (span ++ more) = bare span ++ bare more := by
  fun_induction splitAfterMark q cs generalizing span after with
  | case1 => simp at h
  | case2 => simp at h
  | case3 c rest ih =>
    obtain ⟨⟨s, a⟩, hs, heq⟩ := Option.map_eq_some_iff.1 h
    cases heq
    obtain ⟨hsplit, hbare⟩ := ih hs
    simp [splitAfterMark, bare, hsplit, hbare]
  | case4 rest hlast hmore =>
    cases h
    have hq := ne_backslash hlast hmore
    simp [splitAfterMark_cons hq, bare_cons hq, bare]
  | case5 c rest hlast hmore hc ih =>
    obtain ⟨⟨s, a⟩, hs, heq⟩ := Option.map_eq_some_iff.1 h
    cases heq
    obtain ⟨hsplit, hbare⟩ := ih hs
    have hc' := ne_backslash hlast hmore
    simp [splitAfterMark_cons hc', bare_cons hc', hc, hsplit, hbare]

/-- A quoted span ends with its mark. -/
theorem getLast?_of_splitAfterMark {q : Char} {cs span after : List Char}
    (h : splitAfterMark q cs = some (span, after)) : span.getLast? = some q := by
  fun_induction splitAfterMark q cs generalizing span after with
  | case1 => simp at h
  | case2 => simp at h
  | case3 c rest ih =>
    obtain ⟨⟨s, a⟩, hs, heq⟩ := Option.map_eq_some_iff.1 h
    cases heq
    simp [List.getLast?_cons, ih hs]
  | case4 rest =>
    cases h
    rfl
  | case5 c rest _ _ _ ih =>
    obtain ⟨⟨s, a⟩, hs, heq⟩ := Option.map_eq_some_iff.1 h
    cases heq
    simp [List.getLast?_cons, ih hs]

theorem ne_backslash_of_isQuote {q : Char} (hq : isQuote q = true) : q ≠ '\\' := by
  rintro rfl
  cases hq

/-- A mark opens nothing exactly if it stands twice or does not come again. -/
theorem quotedSpan?_eq_none_iff {q : Char} (hq : isQuote q = true) (cs : List Char) :
    quotedSpan? q cs = none ↔ cs.head? = some q ∨ q ∉ bare cs := by
  unfold quotedSpan?
  split
  · rename_i hhead
    simp [hhead]
  · rename_i hhead
    rw [splitAfterMark_eq_none_iff (ne_backslash_of_isQuote hq)]
    simp [hhead]

theorem splitAfterMark_of_quotedSpan? {q : Char} {cs span after : List Char}
    (h : quotedSpan? q cs = some (span, after)) : splitAfterMark q cs = some (span, after) := by
  unfold quotedSpan? at h
  split at h
  · cases h
  · exact h

/-- A quoted span is the same whatever follows it. -/
theorem quotedSpan?_append {q : Char} {cs span after : List Char}
    (h : quotedSpan? q cs = some (span, after)) (more : List Char) :
    quotedSpan? q (span ++ more) = some (span, more) := by
  have hsplit := splitAfterMark_of_quotedSpan? h
  have hlast := getLast?_of_splitAfterMark hsplit
  have hcs := append_of_quotedSpan? h
  cases span with
  | nil => simp at hlast
  | cons c span =>
    -- the span is not empty, so it starts like the text it was cut from
    have hhead : ¬((c :: span) ++ more).head? = some q := by
      intro hc
      unfold quotedSpan? at h
      rw [← hcs] at h
      simp at hc
      simp [hc] at h
    rw [quotedSpan?, if_neg hhead]
    exact (splitAfterMark_append hsplit more).1

/-! ## Lexed atoms -/

/-- Whether an atom is read as such when a text follows it. -/
def Atom.Fits : Atom → List Char → Prop
  | .escaped none, rest => rest = []
  | .escaped (some _), _ => True
  | .quoted mark span, rest =>
    isQuote mark = true ∧ quotedSpan? mark (span ++ rest) = some (span, rest)
  | .plain c, rest => c ≠ '\\' ∧ (isQuote c = true → quotedSpan? c rest = none)

/-- Whether each of some atoms is read as such again. -/
def Lexed : List Atom → Prop
  | [] => True
  | a :: as => a.Fits (as.flatMap Atom.chars) ∧ Lexed as

theorem Atom.chars_ne_nil (a : Atom) : a.chars ≠ [] := by
  cases a <;> simp [Atom.chars]

theorem eq_nil_of_flatMap_chars {as : List Atom} (h : as.flatMap Atom.chars = []) : as = [] := by
  cases as with
  | nil => rfl
  | cons a as => simp [a.chars_ne_nil] at h

/-- The atoms of a text are lexed. -/
theorem lexed_atoms (cs : List Char) : Lexed (atoms cs) := by
  fun_induction atoms cs with
  | case1 => trivial
  | case2 => exact ⟨rfl, trivial⟩
  | case3 c rest ih => exact ⟨trivial, ih⟩
  | case4 c rest hlast hmore hquote span after hspan ih =>
    refine ⟨⟨hquote, ?_⟩, ih⟩
    rw [flatMap_chars_atoms, append_of_quotedSpan? hspan, hspan]
  | case5 c rest hlast hmore hquote hspan ih =>
    refine ⟨⟨ne_backslash hlast hmore, fun _ => ?_⟩, ih⟩
    rw [flatMap_chars_atoms, hspan]
  | case6 c rest hlast hmore hquote ih =>
    exact ⟨⟨ne_backslash hlast hmore, fun h => absurd h hquote⟩, ih⟩

theorem atoms_chars_append {a : Atom} {rest : List Char} (h : a.Fits rest) :
    atoms (a.chars ++ rest) = a :: atoms rest := by
  match a, h with
  | .escaped none, h =>
    obtain rfl : rest = [] := h
    simp [Atom.chars, atoms]
  | .escaped (some c), _ => simp [Atom.chars, atoms]
  | .quoted mark span, h =>
    obtain ⟨hquote, hspan⟩ := h
    have hmark := ne_backslash_of_isQuote hquote
    rw [Atom.chars, List.cons_append, atoms]
    · simp [hquote]
      split
      · rename_i span' after' hspan'
        rw [hspan] at hspan'
        cases hspan'
        rfl
      · rename_i hnone
        rw [hspan] at hnone
        cases hnone
    · simp [hmark]
    · simp [hmark]
  | .plain c, h =>
    obtain ⟨hc, hspan⟩ := h
    rw [Atom.chars, List.cons_append, List.nil_append, atoms]
    · split
      · rename_i hquote
        split
        · rename_i span after hspan'
          rw [hspan hquote] at hspan'
          cases hspan'
        · rfl
      · rfl
    · simp [hc]
    · simp [hc]

/-- Lexed atoms are the atoms of what they spell. -/
theorem atoms_of_lexed {as : List Atom} (h : Lexed as) : atoms (as.flatMap Atom.chars) = as := by
  induction as with
  | nil => simp [atoms]
  | cons a as ih =>
    rw [List.flatMap_cons, atoms_chars_append h.1, ih h.2]

/-- An atom that fits protects no character of what follows it. -/
theorem Atom.Fits.bare_append {a : Atom} {rest : List Char} (h : a.Fits rest) :
    bare (a.chars ++ rest) = bare a.chars ++ bare rest := by
  match a, h with
  | .escaped none, h =>
    obtain rfl : rest = [] := h
    simp [Atom.chars, bare]
  | .escaped (some c), _ => simp [Atom.chars, bare]
  | .quoted mark span, h =>
    obtain ⟨hquote, hspan⟩ := h
    have hmark := ne_backslash_of_isQuote hquote
    have hbare := (splitAfterMark_append (splitAfterMark_of_quotedSpan? hspan) rest).2
    rw [Atom.chars, List.cons_append, bare_cons hmark, bare_cons hmark, hbare, List.cons_append]
  | .plain c, h => simp [Atom.chars, bare_cons h.1, bare]

/-- A quoted atom of a text starts and ends with its mark. -/
theorem Lexed.mark_of_mem {as : List Atom} (h : Lexed as) {mark : Char} {span : List Char}
    (hmem : .quoted mark span ∈ as) : isQuote mark = true ∧ span.getLast? = some mark := by
  induction as with
  | nil => cases hmem
  | cons a as ih =>
    rcases List.mem_cons.1 hmem with rfl | hrest
    · obtain ⟨hquote, hspan⟩ := h.1
      exact ⟨hquote, getLast?_of_splitAfterMark (splitAfterMark_of_quotedSpan? hspan)⟩
    · exact ih h.2 hrest

/-! ## Tokens -/

/-- Whether a token is text. -/
def Token.isText : Token → Bool
  | .text _ => true
  | _ => false

/-- Whether tokens go on with text. -/
def startsWithText (ts : List Token) : Bool := ts.head?.any Token.isText

theorem prependText_of_text (cs ds : List Char) (ts : List Token) :
    prependText cs (.text ds :: ts) = .text (cs ++ ds) :: ts := rfl

theorem prependText_of_not_text {ts : List Token} (h : startsWithText ts = false)
    (cs : List Char) : prependText cs ts = .text cs :: ts := by
  unfold prependText
  split
  · cases h
  · rfl

/-- Text is put in front of tokens by making it part of a text token, or one of its own. -/
theorem prependText_cases (cs : List Char) (ts : List Token) :
    (∃ ds rest, ts = .text ds :: rest ∧ prependText cs ts = .text (cs ++ ds) :: rest) ∨
      startsWithText ts = false ∧ prependText cs ts = .text cs :: ts := by
  cases h : startsWithText ts with
  | true =>
    match ts, h with
    | .text ds :: rest, _ => exact .inl ⟨ds, rest, rfl, rfl⟩
  | false => exact .inr ⟨rfl, prependText_of_not_text h cs⟩

/-- Whether a parenthesis is closed hangs on what follows some atoms only through the parentheses
that it closes. -/
theorem closes_append_congr {as bs : List Atom} (h : ∀ k, closes k as = closes k bs)
    (front : List Atom) (k : Nat) : closes k (front ++ as) = closes k (front ++ bs) := by
  induction front generalizing k with
  | nil => exact h k
  | cons a front ih =>
    cases a with
    | escaped next => exact ih k
    | quoted mark span => exact ih k
    | plain c =>
      simp only [List.cons_append, closes]
      split
      · exact ih (k + 1)
      · split
        · cases k with
          | zero => rfl
          | succ k => exact ih k
        · exact ih k

/-- How the first token comes off: it is spelled by the atoms in front, and those behind are
gathered at the depth at which these leave off. -/
structure ComesOff (depth : Nat) (as : List Atom) (t : Token) (ts : List Token) (depthAfter : Nat)
    (front back : List Atom) : Prop where
  eq_append : as = front ++ back
  chars_front : front.flatMap Atom.chars = t.chars
  gather_back : gather depthAfter back = ts
  /-- Only parentheses change the depth. -/
  depth_eq : (∀ a ∈ front, a ≠ .plain '(' ∧ a ≠ .plain ')') → depthAfter = depth
  /-- A text token holds no quoted span. -/
  not_quoted : t.isText = true → ∀ mark span, .quoted mark span ∉ front
  /-- The token comes off likewise in front of other atoms that close the same parentheses. -/
  gather_append : ∀ {other : List Atom}, (∀ k, closes k other = closes k back) →
    (t.isText = true → startsWithText (gather depthAfter other) = false) →
    gather depth (front ++ other) = t :: gather depthAfter other

/-- An atom that is put in front as text comes off with the text that follows it, or alone. -/
theorem comesOff_prependText {depth : Nat} (depth' : Nat) {a : Atom} {rest : List Atom} {t : Token}
    {ts : List Token} (hquoted : ∀ mark span, a ≠ .quoted mark span)
    (hdepth : a ≠ .plain '(' ∧ a ≠ .plain ')' → depth' = depth)
    (hgather : ∀ other, closes 0 other = closes 0 rest →
      gather depth (a :: other) = prependText a.chars (gather depth' other))
    (h : gather depth (a :: rest) = t :: ts)
    (ih : ∀ {u us}, gather depth' rest = u :: us →
      ∃ depthAfter front back, ComesOff depth' rest u us depthAfter front back) :
    ∃ depthAfter front back, ComesOff depth (a :: rest) t ts depthAfter front back := by
  rw [hgather rest rfl] at h
  rcases prependText_cases a.chars (gather depth' rest) with
    ⟨ds, us, hrest, htext⟩ | ⟨hrest, htext⟩
  -- the atom joins the text token that the rest starts with
  · rw [htext] at h
    cases h
    obtain ⟨depthAfter, front, back, hoff⟩ := ih hrest
    refine ⟨depthAfter, a :: front, back, ?_, ?_, hoff.gather_back, ?_, ?_, ?_⟩
    · rw [hoff.eq_append, List.cons_append]
    · rw [List.flatMap_cons, hoff.chars_front]
      rfl
    · intro hfront
      rw [List.forall_mem_cons] at hfront
      rw [hoff.depth_eq hfront.2, hdepth hfront.1]
    · intro _ mark span hmem
      rcases List.mem_cons.1 hmem with heq | hmem
      · exact hquoted mark span heq.symm
      · exact hoff.not_quoted rfl mark span hmem
    · intro other hcloses hother
      have hclose : closes 0 (front ++ other) = closes 0 rest := by
        rw [hoff.eq_append, closes_append_congr hcloses]
      rw [List.cons_append, hgather _ hclose, hoff.gather_append hcloses hother,
        prependText_of_text]
  -- the rest starts with no text, so the atom is a token of its own
  · rw [htext] at h
    cases h
    refine ⟨depth', [a], rest, rfl, ?_, rfl, ?_, ?_, ?_⟩
    · simp [Token.chars]
    · intro hfront
      exact hdepth (hfront a List.mem_cons_self)
    · intro _ mark span hmem
      exact hquoted mark span (List.mem_singleton.1 hmem).symm
    · intro other hcloses hother
      rw [List.singleton_append, hgather other (hcloses 0),
        prependText_of_not_text (hother rfl)]

/-- The first token of gathered atoms comes off. -/
theorem gather_uncons {depth : Nat} {as : List Atom} {t : Token} {ts : List Token}
    (h : gather depth as = t :: ts) :
    ∃ depthAfter front back, ComesOff depth as t ts depthAfter front back := by
  induction as generalizing depth t ts with
  | nil => simp [gather] at h
  | cons a rest ih =>
    cases a with
    | quoted mark span =>
      rw [gather] at h
      cases h
      refine ⟨depth, [.quoted mark span], rest, rfl, ?_, rfl, fun _ => rfl, ?_, ?_⟩
      · simp [Atom.chars, Token.chars]
      · intro htext
        cases htext
      · intro other _ _
        rw [List.singleton_append, gather]
    | escaped next =>
      refine comesOff_prependText depth ?_ (fun _ => rfl) (fun _ _ => rfl) h ih
      simp
    | plain c =>
      by_cases hopen : c = '(' ∧ closes 0 rest = true
      · refine comesOff_prependText (depth + 1) (by simp) ?_ ?_ h ih
        · simp [hopen.1]
        · intro other hcloses
          rw [gather, if_pos ⟨hopen.1, by rw [hcloses]; exact hopen.2⟩]
          rfl
      · by_cases hclose : c = ')' ∧ 0 < depth
        · refine comesOff_prependText (depth - 1) (by simp) ?_ ?_ h ih
          · simp [hclose.1]
          · intro other hcloses
            rw [gather, if_neg (by simp [hclose.1]), if_pos hclose]
            rfl
        · by_cases hdelimiter : depth = 0 ∧ Scope.isPunctuation c = true
          · rw [gather, if_neg hopen, if_neg hclose, if_pos hdelimiter] at h
            cases h
            refine ⟨depth, [.plain c], rest, rfl, ?_, rfl, fun _ => rfl, ?_, ?_⟩
            · simp [Atom.chars, Token.chars]
            · intro htext
              cases htext
            · intro other hcloses _
              rw [List.singleton_append, gather, if_neg (by rw [hcloses 0]; exact hopen),
                if_neg hclose, if_pos hdelimiter]
          · refine comesOff_prependText depth (by simp) (fun _ => rfl) ?_ h ih
            intro other hcloses
            rw [gather, if_neg (by rw [hcloses]; exact hopen), if_neg hclose, if_neg hdelimiter]
            rfl

theorem gather_delimiter {c : Char} (hc : Scope.isPunctuation c = true) (as : List Atom) :
    gather 0 (.plain c :: as) = .delimiter c :: gather 0 as := by
  have hopen : c ≠ '(' := by
    rintro rfl
    cases hc
  simp [gather, hc, hopen]

/-- A delimiter comes off at depth zero only, and leaves the depth alone. -/
theorem gather_eq_delimiter_cons {depth : Nat} {as : List Atom} {c : Char} {ts : List Token}
    (h : gather depth as = .delimiter c :: ts) :
    depth = 0 ∧ Scope.isPunctuation c = true ∧
      ∃ rest, as = .plain c :: rest ∧ gather 0 rest = ts := by
  have hnot : ∀ cs us, prependText cs us ≠ .delimiter c :: ts := by
    intro cs us heq
    rcases prependText_cases cs us with ⟨ds, rest, -, htext⟩ | ⟨-, htext⟩ <;>
      simp [htext] at heq
  cases as with
  | nil => simp [gather] at h
  | cons a rest =>
    cases a with
    | quoted mark span => simp [gather] at h
    | escaped next => exact absurd h (hnot _ _)
    | plain d =>
      rw [gather] at h
      split at h
      · exact absurd h (hnot _ _)
      · split at h
        · exact absurd h (hnot _ _)
        · split at h
          · rename_i hdelimiter
            obtain ⟨rfl, hpunctuation⟩ := hdelimiter
            cases h
            exact ⟨rfl, hpunctuation, rest, rfl, rfl⟩
          · exact absurd h (hnot _ _)

/-- Atoms that are not quoted and spell no backslash are plain. -/
theorem eq_map_plain {as : List Atom} {cs : List Char} (hchars : as.flatMap Atom.chars = cs)
    (hquoted : ∀ mark span, .quoted mark span ∉ as) (hbackslash : '\\' ∉ cs) :
    as = cs.map .plain := by
  induction as generalizing cs with
  | nil =>
    obtain rfl : [] = cs := hchars
    rfl
  | cons a as ih =>
    subst hchars
    cases a with
    | escaped next => simp [Atom.chars] at hbackslash
    | quoted mark span => exact absurd List.mem_cons_self (hquoted mark span)
    | plain c =>
      simp only [Atom.chars, List.flatMap_cons, List.singleton_append, List.mem_cons,
        not_or] at hbackslash
      have hrest := ih rfl (fun mark span hmem => hquoted mark span (List.mem_cons_of_mem _ hmem))
        hbackslash.2
      rw [List.flatMap_cons, Atom.chars, List.singleton_append, List.map_cons, ← hrest]

/-- A `prototype` token comes off as it is written, and leaves the depth alone. -/
theorem gather_eq_prototype_cons {depth : Nat} {as : List Atom} {ts : List Token}
    (h : gather depth as = .text prototypeName :: ts) :
    ∃ rest, as = prototypeName.map .plain ++ rest ∧ gather depth rest = ts := by
  obtain ⟨depthAfter, front, back, hoff⟩ := gather_uncons h
  have hfront : front = prototypeName.map .plain :=
    eq_map_plain hoff.chars_front (hoff.not_quoted rfl) (by decide)
  have hdepth : depthAfter = depth := by
    refine hoff.depth_eq ?_
    rw [hfront]
    decide
  refine ⟨back, ?_, ?_⟩
  · rw [← hfront]
    exact hoff.eq_append
  · rw [← hdepth]
    exact hoff.gather_back

/-! ## What stands beside text -/

theorem mem_prependText {cs : List Char} {ts : List Token} {t : Token}
    (h : t ∈ prependText cs ts) : t.isText = true ∨ t ∈ ts := by
  rcases prependText_cases cs ts with ⟨ds, rest, rfl, htext⟩ | ⟨-, htext⟩
  · rw [htext] at h
    rcases List.mem_cons.1 h with rfl | h
    · exact .inl rfl
    · exact .inr (List.mem_cons_of_mem _ h)
  · rw [htext] at h
    rcases List.mem_cons.1 h with rfl | h
    · exact .inl rfl
    · exact .inr h

/-- What a token can be when atoms are gathered: any text, a delimiter, or a quoted atom. -/
def Token.Among (as : List Atom) : Token → Prop
  | .text _ => True
  | .delimiter c => Scope.isPunctuation c = true
  | .quoted cs => ∃ mark span, cs = mark :: span ∧ .quoted mark span ∈ as

theorem Token.among_of_isText {t : Token} (h : t.isText = true) (as : List Atom) : t.Among as := by
  cases t with
  | text cs => trivial
  | quoted cs => cases h
  | delimiter c => cases h

theorem Token.Among.cons {as : List Atom} {t : Token} (h : t.Among as) (a : Atom) :
    t.Among (a :: as) := by
  cases t with
  | text cs => trivial
  | delimiter c => exact h
  | quoted cs =>
    obtain ⟨mark, span, hcs, hmem⟩ := h
    exact ⟨mark, span, hcs, List.mem_cons_of_mem _ hmem⟩

theorem among_of_mem_gather {depth : Nat} {as : List Atom} {t : Token} (h : t ∈ gather depth as) :
    t.Among as := by
  have htext : ∀ {cs : List Char} {ts : List Token} {a : Atom} {rest : List Atom},
      t ∈ prependText cs ts → (t ∈ ts → t.Among rest) → t.Among (a :: rest) := by
    intro cs ts a rest hmem ih
    rcases mem_prependText hmem with htext | hmem
    · exact Token.among_of_isText htext _
    · exact (ih hmem).cons a
  fun_induction gather depth as with
  | case1 => cases h
  | case2 depth mark span rest ih =>
    rcases List.mem_cons.1 h with rfl | h
    · exact ⟨mark, span, rfl, List.mem_cons_self⟩
    · exact (ih h).cons _
  | case3 depth next rest ih => exact htext h ih
  | case4 depth c rest _ ih => exact htext h ih
  | case5 depth c rest _ _ ih => exact htext h ih
  | case6 depth c rest _ _ hdelimiter ih =>
    rcases List.mem_cons.1 h with rfl | h
    · exact hdelimiter.2
    · exact (ih h).cons _
  | case7 depth c rest _ _ _ ih => exact htext h ih

/-- Two tokens of which at most one is text. -/
def Apart (t u : Token) : Prop := ¬(t.isText = true ∧ u.isText = true)

theorem isChain_prependText {ts : List Token} (h : ts.IsChain Apart) (cs : List Char) :
    (prependText cs ts).IsChain Apart := by
  rcases prependText_cases cs ts with ⟨ds, rest, rfl, htext⟩ | ⟨hnot, htext⟩
  · rw [htext]
    have himp : ∀ {u : Token}, Apart (.text ds) u → Apart (.text (cs ++ ds)) u :=
      fun hu hboth => hu ⟨rfl, hboth.2⟩
    exact h.imp_head himp
  · rw [htext]
    refine h.cons fun t ht hboth => ?_
    have : startsWithText ts = true := by
      rw [startsWithText, Option.mem_def.1 ht]
      exact hboth.2
    simp [hnot] at this

/-- Text tokens do not stand side by side. -/
theorem isChain_gather (depth : Nat) (as : List Atom) : (gather depth as).IsChain Apart := by
  fun_induction gather depth as with
  | case1 => exact .nil
  | case2 depth mark span rest ih => exact ih.cons fun t _ hboth => by cases hboth.1
  | case3 depth next rest ih => exact isChain_prependText ih _
  | case4 depth c rest _ ih => exact isChain_prependText ih _
  | case5 depth c rest _ _ ih => exact isChain_prependText ih _
  | case6 depth c rest _ _ _ ih => exact ih.cons fun t _ hboth => by cases hboth.1
  | case7 depth c rest _ _ _ ih => exact isChain_prependText ih _

/-- Behind text no text follows. -/
theorem startsWithText_of_isChain {t : Token} {ts : List Token} (h : (t :: ts).IsChain Apart)
    (ht : t.isText = true) : startsWithText ts = false := by
  cases ts with
  | nil => rfl
  | cons u us =>
    have hapart := (List.isChain_cons_cons.1 h).1
    exact Bool.eq_false_iff.2 fun hu => hapart ⟨ht, hu⟩

end Commentary.Longname
