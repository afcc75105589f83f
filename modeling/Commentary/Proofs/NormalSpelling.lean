import Commentary.Longname.Basic
import Commentary.Proofs.LongnameTokens

/-!
# The normal spelling is normal

Brackets give way to dots, and then `prototype` segments to `#`. Both passes only take plain
characters out and put delimiters in their place (`Respelled`), which leaves every other atom to be
read as before. So the atoms and the tokens of the normal spelling are known, and on these neither
pass finds anything more to do (`normalChars_spec`, `normal_of_settled`).
-/

namespace Commentary.Longname

open Commentary.Text

/-! ## Taking out plain characters -/

/-- A character that can be taken out or put in without a change to how the rest is read: it opens
no quoted span, protects nothing and is no parenthesis. -/
def isFiller (c : Char) : Bool := !isQuote c && c != '\\' && c != '(' && c != ')'

/-- The second list of atoms is the first one with runs of plain characters replaced by others. -/
inductive Respelled (Edit : List Char → List Char → Prop) : List Atom → List Atom → Prop
  | nil : Respelled Edit [] []
  | keep (a : Atom) {as bs : List Atom} : Respelled Edit as bs → Respelled Edit (a :: as) (a :: bs)
  | swap {gone new : List Char} {as bs : List Atom} : Edit gone new → Respelled Edit as bs →
    Respelled Edit (gone.map .plain ++ as) (new.map .plain ++ bs)

/-- Edits that take out at least one character, and fillers only, and put in fillers only. -/
def Harmless (Edit : List Char → List Char → Prop) : Prop :=
  ∀ gone new, Edit gone new →
    gone ≠ [] ∧ (∀ c ∈ gone, isFiller c = true) ∧ ∀ c ∈ new, isFiller c = true

theorem isFiller_iff {c : Char} :
    isFiller c = true ↔ isQuote c = false ∧ c ≠ '\\' ∧ c ≠ '(' ∧ c ≠ ')' := by
  simp [isFiller, and_assoc]

theorem flatMap_chars_map_plain (cs : List Char) : (cs.map Atom.plain).flatMap Atom.chars = cs := by
  induction cs with
  | nil => rfl
  | cons c cs ih => simp [Atom.chars, ih]

/-- Fillers stand for themselves. -/
theorem bare_filler_append {cs : List Char} (hcs : ∀ c ∈ cs, isFiller c = true) (rest : List Char) :
    bare (cs ++ rest) = cs ++ bare rest := by
  induction cs with
  | nil => rfl
  | cons c cs ih =>
    rw [List.forall_mem_cons] at hcs
    rw [List.cons_append, bare_cons (isFiller_iff.1 hcs.1).2.1, ih hcs.2, List.cons_append]

theorem closes_filler_append {cs : List Char} (hcs : ∀ c ∈ cs, isFiller c = true) (k : Nat)
    (as : List Atom) : closes k (cs.map .plain ++ as) = closes k as := by
  induction cs with
  | nil => rfl
  | cons c cs ih =>
    rw [List.forall_mem_cons] at hcs
    obtain ⟨-, -, hopen, hclose⟩ := isFiller_iff.1 hcs.1
    simp only [List.map_cons, List.cons_append, closes, hopen, hclose, if_false, ih hcs.2]

theorem lexed_filler_append {cs : List Char} (hcs : ∀ c ∈ cs, isFiller c = true) {as : List Atom}
    (h : Lexed as) : Lexed (cs.map .plain ++ as) := by
  induction cs with
  | nil => exact h
  | cons c cs ih =>
    rw [List.forall_mem_cons] at hcs
    obtain ⟨hquote, hbackslash, -, -⟩ := isFiller_iff.1 hcs.1
    refine ⟨⟨hbackslash, fun hq => ?_⟩, ih hcs.2⟩
    simp [hquote] at hq

theorem Lexed.of_append {front back : List Atom} (h : Lexed (front ++ back)) : Lexed back := by
  induction front with
  | nil => exact h
  | cons a front ih => exact ih h.2

namespace Respelled

variable {Edit : List Char → List Char → Prop} {as bs : List Atom}

theorem refl (as : List Atom) : Respelled Edit as as := by
  induction as with
  | nil => exact .nil
  | cons a as ih => exact ih.keep a

theorem append_left (h : Respelled Edit as bs) (front : List Atom) :
    Respelled Edit (front ++ as) (front ++ bs) := by
  induction front with
  | nil => exact h
  | cons a front ih => exact ih.keep a

/-- Respelling closes the same parentheses. -/
theorem closes_eq (hEdit : Harmless Edit) (h : Respelled Edit as bs) (k : Nat) :
    closes k bs = closes k as := by
  induction h generalizing k with
  | nil => rfl
  | keep a _ ih => exact closes_append_congr ih [a] k
  | swap hedit _ ih =>
    obtain ⟨-, hgone, hnew⟩ := hEdit _ _ hedit
    rw [closes_filler_append hgone, closes_filler_append hnew, ih]

/-- Nothing is respelled as nothing. -/
theorem eq_nil (hEdit : Harmless Edit) (h : Respelled Edit [] bs) : bs = [] := by
  generalize has : ([] : List Atom) = as at h
  cases h with
  | nil => rfl
  | keep a _ => cases has
  | @swap gone new as bs hedit _ =>
    obtain ⟨hne, -, -⟩ := hEdit _ _ hedit
    cases gone with
    | nil => exact absurd rfl hne
    | cons c gone => cases has

/-- Respelling leaves the same quotation marks unprotected. -/
theorem mem_bare_iff (hEdit : Harmless Edit) (h : Respelled Edit as bs) (hlexed : Lexed as)
    (hlexed' : Lexed bs) {q : Char} (hq : isQuote q = true) :
    q ∈ bare (bs.flatMap Atom.chars) ↔ q ∈ bare (as.flatMap Atom.chars) := by
  induction h with
  | nil => exact Iff.rfl
  | keep a _ ih =>
    simp only [List.flatMap_cons, hlexed.1.bare_append, hlexed'.1.bare_append, List.mem_append,
      ih hlexed.2 hlexed'.2]
  | swap hedit _ ih =>
    obtain ⟨-, hgone, hnew⟩ := hEdit _ _ hedit
    have hnot : ∀ {cs : List Char}, (∀ c ∈ cs, isFiller c = true) → q ∉ cs := by
      intro cs hcs hmem
      simp [(isFiller_iff.1 (hcs q hmem)).1] at hq
    simp only [List.flatMap_append, flatMap_chars_map_plain, bare_filler_append hgone,
      bare_filler_append hnew, List.mem_append, hnot hgone, hnot hnew, false_or,
      ih hlexed.of_append hlexed'.of_append]

/-- What starts with a quotation mark still does when it is respelled. -/
theorem head?_chars (hEdit : Harmless Edit) (h : Respelled Edit as bs) {q : Char}
    (hq : isQuote q = true) (hhead : (as.flatMap Atom.chars).head? = some q) :
    (bs.flatMap Atom.chars).head? = some q := by
  cases h with
  | nil => exact hhead
  | keep a _ =>
    rw [List.flatMap_cons, List.head?_append_of_ne_nil _ a.chars_ne_nil] at hhead ⊢
    exact hhead
  | @swap gone new as bs hedit _ =>
    obtain ⟨hne, hgone, -⟩ := hEdit _ _ hedit
    rw [List.flatMap_append, flatMap_chars_map_plain, List.head?_append_of_ne_nil _ hne] at hhead
    have hfiller := hgone q (List.mem_of_mem_head? hhead)
    simp [(isFiller_iff.1 hfiller).1] at hq

/-- What is lexed can be respelled: every atom that is kept is read as before. -/
theorem lexed (hEdit : Harmless Edit) (h : Respelled Edit as bs) (hlexed : Lexed as) :
    Lexed bs := by
  induction h with
  | nil => trivial
  | @keep a as bs hrest ih =>
    obtain ⟨hfits, hlexed⟩ := hlexed
    refine ⟨?_, ih hlexed⟩
    match a, hfits with
    | .escaped none, hfits =>
      obtain rfl := eq_nil_of_flatMap_chars hfits
      rw [hrest.eq_nil hEdit]
      exact hfits
    | .escaped (some c), _ => trivial
    | .quoted mark span, ⟨hquote, hspan⟩ => exact ⟨hquote, quotedSpan?_append hspan _⟩
    | .plain c, ⟨hc, hspan⟩ =>
      refine ⟨hc, fun hquote => ?_⟩
      -- a mark that opens nothing stands twice or does not come again, and either stays so
      rcases (quotedSpan?_eq_none_iff hquote _).1 (hspan hquote) with hhead | hbare
      · exact (quotedSpan?_eq_none_iff hquote _).2 (.inl (hrest.head?_chars hEdit hquote hhead))
      · refine (quotedSpan?_eq_none_iff hquote _).2 (.inr ?_)
        rwa [hrest.mem_bare_iff hEdit hlexed (ih hlexed) hquote]
  | swap hedit _ ih =>
    obtain ⟨-, -, hnew⟩ := hEdit _ _ hedit
    exact lexed_filler_append hnew (ih hlexed.of_append)

end Respelled

/-! ## Brackets -/

/-- Two atoms that are no bracketed quoted name. -/
def NotBracketed (a b : Atom) : Prop := ¬(a = .plain '[' ∧ ∃ mark span, b = .quoted mark span)

/-- The atoms of what `dotBrackets` writes. -/
def dotAtoms (last : Option Char) : List Atom → List Atom
  | .plain '[' :: .quoted mark span :: .plain ']' :: rest =>
    (bracketDelimiter last).map .plain ++
      .quoted mark span :: dotAtoms (mark :: span).getLast? rest
  | .plain '[' :: .quoted mark span :: rest =>
    (bracketDelimiter last).map .plain ++
      .quoted mark span :: dotAtoms (mark :: span).getLast? rest
  | atom :: rest => atom :: dotAtoms atom.chars.getLast? rest
  | [] => []

/-- What is done to brackets: an opening one gives way to a dot or to nothing, a closing one to
nothing. -/
inductive DotEdit : List Char → List Char → Prop
  | opening (last : Option Char) : DotEdit ['['] (bracketDelimiter last)
  | closing : DotEdit [']'] []

theorem harmless_dotEdit : Harmless DotEdit := by
  rintro gone new (last | -)
  · refine ⟨by simp, by simp [isFiller, isQuote], ?_⟩
    unfold bracketDelimiter
    split <;> simp [isFiller, isQuote]
  · simp [isFiller, isQuote]

theorem chars_dotAtoms (last : Option Char) (as : List Atom) :
    (dotAtoms last as).flatMap Atom.chars = dotBrackets last as := by
  fun_induction dotAtoms last as with
  | case1 last mark span rest ih =>
    simp [dotBrackets, flatMap_chars_map_plain, Atom.chars, ih]
  | case2 last mark span rest hclosed ih =>
    rw [dotBrackets.eq_2 _ _ _ _ hclosed, ← ih]
    simp [flatMap_chars_map_plain, Atom.chars]
  | case3 last atom rest hclosed hopen ih =>
    rw [dotBrackets.eq_3 _ _ _ hclosed hopen, ← ih, List.flatMap_cons]
  | case4 => rfl

theorem respelled_dotAtoms (last : Option Char) (as : List Atom) :
    Respelled DotEdit as (dotAtoms last as) := by
  fun_induction dotAtoms last as with
  | case1 last mark span rest ih =>
    exact .swap (.opening last) (.keep _ (.swap .closing ih))
  | case2 last mark span rest _ ih => exact .swap (.opening last) (.keep _ ih)
  | case3 last atom rest _ _ ih => exact .keep _ ih
  | case4 => exact .nil

/-- Where no quoted name stands in brackets, there is nothing to respell. -/
theorem dotBrackets_of_isChain {as : List Atom} (h : as.IsChain NotBracketed)
    (last : Option Char) : dotBrackets last as = as.flatMap Atom.chars := by
  fun_induction dotBrackets last as with
  | case1 last mark span rest ih =>
    exact absurd ⟨rfl, mark, span, rfl⟩ (List.isChain_cons_cons.1 h).1
  | case2 last mark span rest _ ih =>
    exact absurd ⟨rfl, mark, span, rfl⟩ (List.isChain_cons_cons.1 h).1
  | case3 last atom rest _ _ ih => rw [ih h.tail, List.flatMap_cons]
  | case4 => rfl

/-- The first atom stays, unless it is the bracket of a quoted name. -/
theorem head?_dotAtoms (last : Option Char) (as : List Atom) :
    (dotAtoms last as).head? = as.head? ∨
      ∃ name, (dotAtoms last as).head? =
        ((bracketDelimiter last).map Atom.plain ++ [name]).head? := by
  fun_cases dotAtoms last as with
  | case1 mark span rest =>
    refine .inr ⟨.quoted mark span, ?_⟩
    rw [List.head?_append, List.head?_append]
    rfl
  | case2 mark span rest =>
    refine .inr ⟨.quoted mark span, ?_⟩
    rw [List.head?_append, List.head?_append]
    rfl
  | case3 atom rest => exact .inl rfl
  | case4 => exact .inl rfl

/-- No quoted name is left in brackets. -/
theorem isChain_dotAtoms (last : Option Char) (as : List Atom) :
    (dotAtoms last as).IsChain NotBracketed := by
  have hname : ∀ (last : Option Char) (mark : Char) (span : List Char) {bs : List Atom},
      bs.IsChain NotBracketed →
        List.IsChain NotBracketed
          ((bracketDelimiter last).map .plain ++ .quoted mark span :: bs) := by
    intro last mark span bs hbs
    have hquoted : List.IsChain NotBracketed (.quoted mark span :: bs) :=
      hbs.cons fun _ _ hboth => by cases hboth.1
    unfold bracketDelimiter
    split
    · exact hquoted
    · have hdot : NotBracketed (.plain '.') (.quoted mark span) := fun hboth => by cases hboth.1
      exact List.isChain_cons_cons.2 ⟨hdot, hquoted⟩
  fun_induction dotAtoms last as with
  | case1 last mark span rest ih => exact hname last mark span ih
  | case2 last mark span rest _ ih => exact hname last mark span ih
  | case3 last atom rest _ hopen ih =>
    refine ih.cons ?_
    rintro b hb ⟨rfl, mark, span, rfl⟩
    -- a bracket in front makes the dot necessary, so no quoted name can come up behind it
    rcases head?_dotAtoms (some '[') rest with hsame | ⟨name, hdot⟩
    · rw [Option.mem_def, Atom.chars, List.getLast?_singleton, hsame] at hb
      obtain ⟨tail, rfl⟩ := List.head?_eq_some_iff.1 hb
      exact hopen mark span tail rfl rfl
    · rw [Option.mem_def, Atom.chars, List.getLast?_singleton, hdot] at hb
      simp [bracketDelimiter, Scope.isPunctuation, Scope.ofPunctuation?] at hb
  | case4 => exact .nil

/-! ## Prototype segments -/

/-- The tokens of what `instancePaths` writes. -/
def instanceTokens (pending : Option (List Char)) : List Token → List Token
  | [] => (pending.getD []).map .delimiter
  | token :: rest =>
    if token = .text prototypeName ∧ pending.isSome then
      match rest with
      | .delimiter '.' :: rest => instanceTokens (some ['#']) rest
      | rest => .delimiter '#' :: instanceTokens none rest
    else if token = .delimiter '.' then
      (pending.getD []).map .delimiter ++ instanceTokens (some ['.']) rest
    else (pending.getD []).map .delimiter ++ (token :: instanceTokens none rest)

/-- What is done to a `prototype` segment with the delimiters around it. -/
def InstanceEdit (gone new : List Char) : Prop :=
  gone ≠ [] ∧ (∀ c ∈ gone, isFiller c = true) ∧ new = ['#']

theorem harmless_instanceEdit : Harmless InstanceEdit := by
  rintro gone new ⟨hne, hgone, rfl⟩
  exact ⟨hne, hgone, by simp [isFiller, isQuote]⟩

theorem isFiller_of_mem_prototypeName : ∀ c ∈ prototypeName, isFiller c = true := by
  simp [prototypeName, isFiller, isQuote]

theorem spell_map_delimiter (cs : List Char) : spell (cs.map .delimiter) = cs := by
  induction cs with
  | nil => rfl
  | cons c cs ih => simp [Token.chars, ih]

theorem spell_instanceTokens (pending : Option (List Char)) (ts : List Token) :
    spell (instanceTokens pending ts) = instancePaths pending ts := by
  fun_induction instanceTokens pending ts with
  | case1 pending => rw [spell_map_delimiter, instancePaths]
  | case2 pending token h rest ih =>
    rw [ih, instancePaths.eq_def pending]
    simp only [if_pos h]
  | case3 pending token h rest hdot ih =>
    rw [spell_cons, ih, instancePaths.eq_def pending]
    simp only [if_pos h]
    rfl
  | case4 pending rest h ih =>
    rw [spell_append, spell_map_delimiter, ih, instancePaths.eq_def pending]
    simp only [if_neg h, if_true]
  | case5 pending token rest hprototype hdot ih =>
    rw [spell_append, spell_map_delimiter, spell_cons, ih, instancePaths.eq_def pending]
    simp only [if_neg hprototype, if_neg hdot]

/-- No segment is a `prototype`, where `starts` says whether one starts with the first token. -/
def Settled (starts : Bool) : List Token → Prop
  | [] => True
  | token :: rest =>
    (starts = true → token ≠ .text prototypeName) ∧ Settled (token = .delimiter '.') rest

/-- Where no segment is a `prototype`, there is nothing to respell. -/
theorem instancePaths_of_settled {pending : Option (List Char)} {ts : List Token}
    (h : Settled pending.isSome ts) : instancePaths pending ts = pending.getD [] ++ spell ts := by
  fun_induction instancePaths pending ts with
  | case1 pending => simp
  | case2 pending token hprototype rest ih => exact absurd hprototype.1 (h.1 hprototype.2)
  | case3 pending token hprototype rest _ ih => exact absurd hprototype.1 (h.1 hprototype.2)
  | case4 pending rest _ ih =>
    rw [ih (by simpa using h.2), spell_cons]
    rfl
  | case5 pending token rest _ hdot ih =>
    rw [ih (by simpa [hdot] using h.2), spell_cons]
    rfl

theorem Settled.mono {starts : Bool} {ts : List Token} (h : Settled true ts) :
    Settled starts ts := by
  cases ts with
  | nil => trivial
  | cons token rest => exact ⟨fun _ => h.1 rfl, h.2⟩

/-- No segment is left that is a `prototype`. -/
theorem settled_instanceTokens (pending : Option (List Char)) (ts : List Token) :
    Settled pending.isSome (instanceTokens pending ts) := by
  -- delimiters in front settle nothing and unsettle nothing
  have hpending : ∀ {starts : Bool} (cs : List Char) {us : List Token}, Settled true us →
      Settled starts (cs.map .delimiter ++ us) := by
    intro starts cs us hus
    induction cs generalizing starts with
    | nil => exact hus.mono
    | cons c cs ih => exact ⟨nofun, ih⟩
  fun_induction instanceTokens pending ts with
  | case1 pending =>
    have hnil : Settled true [] := trivial
    simpa using hpending (pending.getD []) hnil
  | case2 pending token h rest ih => exact ih.mono
  | case3 pending token h rest _ ih => exact ⟨nofun, ih⟩
  | case4 pending rest _ ih => exact hpending _ ih
  | case5 pending token rest hprototype hdot ih =>
    have hrest : Settled (token = .delimiter '.') (instanceTokens none rest) := by
      simpa [hdot] using ih
    cases pending with
    | none => exact ⟨nofun, hrest⟩
    | some cs => exact hpending cs ⟨fun _ htoken => hprototype ⟨htoken, rfl⟩, hrest⟩

/-- A delimiter that is held back is written, or another one in its place. -/
theorem startsWithText_instanceTokens_some (c : Char) (ts : List Token) :
    startsWithText (instanceTokens (some [c]) ts) = false := by
  generalize hpending : some [c] = pending
  fun_induction instanceTokens pending ts generalizing c with
  | case1 pending =>
    subst hpending
    rfl
  | case2 pending token h rest ih => exact ih '#' rfl
  | case3 pending token h rest _ ih => rfl
  | case4 pending rest _ ih =>
    subst hpending
    rfl
  | case5 pending token rest _ _ ih =>
    subst hpending
    rfl

/-- Nothing new starts with text. -/
theorem startsWithText_instanceTokens_none {ts : List Token} (h : startsWithText ts = false) :
    startsWithText (instanceTokens none ts) = false := by
  cases ts with
  | nil => rfl
  | cons token rest =>
    rw [instanceTokens.eq_def]
    simp only [Option.isSome_none, Bool.false_eq_true, and_false, if_false, Option.getD_none,
      List.map_nil, List.nil_append]
    split
    · exact startsWithText_instanceTokens_some '.' rest
    · exact h

/-- What stands in the text (`gone`) where a delimiter is held back. -/
inductive Pending : Option (List Char) → List Char → Prop
  | none : Pending none []
  | start : Pending (some []) []
  | dot : Pending (some ['.']) ['.']
  | segment {gone : List Char} : gone ≠ [] → (∀ c ∈ gone, isFiller c = true) →
    Pending (some ['#']) gone

namespace Pending

variable {pending : Option (List Char)} {gone : List Char}

theorem isFiller (h : Pending pending gone) : ∀ c ∈ gone, isFiller c = true := by
  cases h with
  | none => simp
  | start => simp
  | dot => simp [Longname.isFiller, isQuote]
  | segment _ hgone => exact hgone

/-- What is held back is written. -/
theorem write (h : Pending pending gone) {as bs : List Atom}
    (hrest : Respelled InstanceEdit as bs) :
    Respelled InstanceEdit (gone.map .plain ++ as) ((pending.getD []).map .plain ++ bs) := by
  cases h with
  | none => exact hrest
  | start => exact hrest
  | dot => exact hrest.keep _
  | segment hne hgone => exact .swap ⟨hne, hgone, rfl⟩ hrest

theorem gather_write (h : Pending pending gone) {depth : Nat}
    (hdepth : pending.isSome = true → depth = 0) (as : List Atom) :
    gather depth ((pending.getD []).map .plain ++ as) =
      (pending.getD []).map .delimiter ++ gather depth as := by
  cases h with
  | none => rfl
  | start => rfl
  | dot =>
    rw [hdepth rfl]
    exact gather_delimiter rfl as
  | segment =>
    rw [hdepth rfl]
    exact gather_delimiter rfl as

end Pending

/-- The tokens that `prototype` segments leave are read off a respelling of the atoms. -/
theorem exists_respelled {pending : Option (List Char)} {gone : List Char} {ts : List Token}
    {depth : Nat} {as : List Atom} (hpending : Pending pending gone)
    (hdepth : pending.isSome = true → depth = 0) (h : gather depth as = ts) :
    ∃ bs, Respelled InstanceEdit (gone.map .plain ++ as) bs ∧
      gather depth bs = instanceTokens pending ts := by
  fun_induction instanceTokens pending ts generalizing gone depth as with
  | case1 pending =>
    have has : as = [] := by
      refine eq_nil_of_flatMap_chars ?_
      rw [← spell_gather depth, h, spell_nil]
    subst has
    refine ⟨_, hpending.write (.refl []), ?_⟩
    rw [hpending.gather_write hdepth, h, List.append_nil]
  | case2 pending token htoken rest ih =>
    obtain ⟨rfl, hsome⟩ := htoken
    obtain rfl := hdepth hsome
    obtain ⟨back, rfl, hback⟩ := gather_eq_prototype_cons h
    obtain ⟨-, -, as, rfl, hrest⟩ := gather_eq_delimiter_cons hback
    -- the segment goes, with the dots on both its sides
    have hgone : Pending (some ['#']) (gone ++ prototypeName ++ ['.']) := by
      refine .segment (by simp) ?_
      simp only [List.forall_mem_append]
      exact ⟨⟨hpending.isFiller, isFiller_of_mem_prototypeName⟩, by simp [isFiller, isQuote]⟩
    obtain ⟨bs, hbs, htokens⟩ := ih hgone (fun _ => rfl) hrest
    refine ⟨bs, ?_, htokens⟩
    simpa using hbs
  | case3 pending token htoken rest _ ih =>
    obtain ⟨rfl, hsome⟩ := htoken
    obtain rfl := hdepth hsome
    obtain ⟨as, rfl, hrest⟩ := gather_eq_prototype_cons h
    obtain ⟨bs, hbs, htokens⟩ := ih .none nofun hrest
    have hgone : Pending (some ['#']) (gone ++ prototypeName) := by
      refine .segment (by simp [prototypeName]) ?_
      simp only [List.forall_mem_append]
      exact ⟨hpending.isFiller, isFiller_of_mem_prototypeName⟩
    refine ⟨.plain '#' :: bs, ?_, ?_⟩
    · simpa using hgone.write hbs
    · rw [gather_delimiter rfl, htokens]
  | case4 pending rest _ ih =>
    obtain ⟨rfl, -, as, rfl, hrest⟩ := gather_eq_delimiter_cons h
    obtain ⟨bs, hbs, htokens⟩ := ih .dot (fun _ => rfl) hrest
    refine ⟨_, hpending.write hbs, ?_⟩
    rw [hpending.gather_write hdepth, htokens]
  | case5 pending token rest _ _ ih =>
    obtain ⟨depthAfter, front, back, hoff⟩ := gather_uncons h
    obtain ⟨bs, hbs, htokens⟩ := ih .none nofun hoff.gather_back
    have hfront : Respelled InstanceEdit as (front ++ bs) := by
      rw [hoff.eq_append]
      exact hbs.append_left front
    refine ⟨_, hpending.write hfront, ?_⟩
    · rw [hpending.gather_write hdepth, hoff.gather_append, htokens]
      · exact hbs.closes_eq harmless_instanceEdit
      · intro htext
        rw [htokens]
        refine startsWithText_instanceTokens_none (startsWithText_of_isChain ?_ htext)
        rw [← h]
        exact isChain_gather depth as

/-! ## The normal spelling -/

/-- Plain characters in front bring up no bracketed quoted name, if they do not end in a bracket. -/
theorem isChain_plain_append {cs : List Char} (hlast : cs.getLast? ≠ some '[') {as : List Atom}
    (has : as.IsChain NotBracketed) : (cs.map Atom.plain ++ as).IsChain NotBracketed := by
  have hplain : (cs.map Atom.plain).IsChain NotBracketed := by
    refine (List.isChain_map Atom.plain).2 (List.Pairwise.isChain (List.pairwise_of_forall ?_))
    rintro c d ⟨-, mark, span, hquoted⟩
    cases hquoted
  refine List.isChain_append.2 ⟨hplain, has, ?_⟩
  rintro a ha b - ⟨rfl, -⟩
  rw [List.getLast?_map, Option.mem_def, Option.map_eq_some_iff] at ha
  obtain ⟨c, hc, hbracket⟩ := ha
  cases hbracket
  exact hlast hc

/-- Edits that put in something, and nothing that ends in a bracket, bring up no bracketed quoted
name. -/
theorem Respelled.isChain {Edit : List Char → List Char → Prop} {as bs : List Atom}
    (h : Respelled Edit as bs)
    (hedit : ∀ gone new, Edit gone new → new ≠ [] ∧ new.getLast? ≠ some '[')
    (hchain : as.IsChain NotBracketed) : bs.IsChain NotBracketed := by
  induction h with
  | nil => exact .nil
  | @keep a as bs hrest ih =>
    refine (ih hchain.tail).cons ?_
    rintro b hb ⟨rfl, mark, span, rfl⟩
    -- a quoted name that comes first was first before
    have hfirst : as.head? = some (.quoted mark span) := by
      cases hrest with
      | nil => exact hb
      | keep => exact hb
      | @swap gone new as bs hswap =>
        obtain ⟨c, new, rfl⟩ := List.exists_cons_of_ne_nil (hedit _ _ hswap).1
        cases hb
    exact hchain.rel_head? hfirst ⟨rfl, mark, span, rfl⟩
  | swap hswap _ ih =>
    exact isChain_plain_append (hedit _ _ hswap).2 (ih hchain.right_of_append)

/-- The atoms of a normal spelling hold no bracketed quoted name, and its tokens no `prototype`
segment. -/
theorem normalChars_spec (cs : List Char) :
    (atoms (normalChars cs)).IsChain NotBracketed ∧ Settled true (tokenize (normalChars cs)) := by
  have hlexed : Lexed (dotAtoms none (atoms cs)) :=
    (respelled_dotAtoms none _).lexed harmless_dotEdit (lexed_atoms cs)
  have hdotted : atoms (dotBrackets none (atoms cs)) = dotAtoms none (atoms cs) := by
    rw [← chars_dotAtoms]
    exact atoms_of_lexed hlexed
  obtain ⟨bs, hbs, htokens⟩ := exists_respelled .start (fun _ => rfl)
    (rfl : gather 0 (dotAtoms none (atoms cs)) = _)
  have hchars : bs.flatMap Atom.chars = normalChars cs := by
    rw [← spell_gather 0, htokens, spell_instanceTokens, normalChars, instancePathChars, tokenize,
      hdotted]
  have hatoms : atoms (normalChars cs) = bs := by
    rw [← hchars]
    exact atoms_of_lexed (hbs.lexed harmless_instanceEdit hlexed)
  constructor
  · rw [hatoms]
    refine hbs.isChain ?_ (isChain_dotAtoms none _)
    rintro gone new ⟨-, -, rfl⟩
    decide
  · rw [tokenize, hatoms, htokens]
    exact settled_instanceTokens (some []) _

/-- A text without bracketed quoted names and `prototype` segments is in its normal spelling. -/
theorem normal_of_settled {cs : List Char} (hchain : (atoms cs).IsChain NotBracketed)
    (hsettled : Settled true (tokenize cs)) :
    dotBrackets none (atoms cs) = cs ∧ instancePathChars cs = cs := by
  constructor
  · rw [dotBrackets_of_isChain hchain, flatMap_chars_atoms]
  · have hpaths : instancePaths (some []) (tokenize cs) = [] ++ spell (tokenize cs) :=
      instancePaths_of_settled hsettled
    rw [instancePathChars, hpaths, spell_tokenize, List.nil_append]

theorem normalChars_of_settled {cs : List Char} (hchain : (atoms cs).IsChain NotBracketed)
    (hsettled : Settled true (tokenize cs)) : normalChars cs = cs := by
  obtain ⟨hbrackets, hpaths⟩ := normal_of_settled hchain hsettled
  rw [normalChars, hbrackets, hpaths]

/-- Splitting keeps the normal spelling whole. -/
theorem full_split (longname : String) : (split longname).full = normalize longname := by
  unfold split
  simp only
  split <;> rfl

/-- Splitting what has been split gives the same parts. -/
theorem split_full (s : String) : split (split s).full = split s := by
  obtain ⟨hchain, hsettled⟩ := normalChars_spec s.toList
  rw [full_split, normalize]
  unfold split
  rw [String.toList_ofList, normalChars_of_settled hchain hsettled]

/-- The normal spelling is a fixed point: neither brackets nor `prototype` segments are left to
respell in it, and split again it has the same parts. -/
theorem split_full_split (longname : String) :
    split (split longname).full = split longname ∧
      dotBrackets none (atoms (split longname).full.toList) = (split longname).full.toList ∧
        instancePath (split longname).full = (split longname).full := by
  obtain ⟨hchain, hsettled⟩ := normalChars_spec longname.toList
  obtain ⟨hbrackets, hpaths⟩ := normal_of_settled hchain hsettled
  rw [full_split, normalize, instancePath, String.toList_ofList, hpaths]
  refine ⟨?_, hbrackets, rfl⟩
  unfold split
  rw [String.toList_ofList, normalChars_of_settled hchain hsettled]

end Commentary.Longname
