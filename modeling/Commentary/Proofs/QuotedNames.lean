import Commentary.Proofs.MemberPaths

/-!
# Quoted names stay whole

What stands between quotation marks is one segment, whatever delimiters, brackets and parentheses
are in it. Below an owner without quotation marks and backslashes a quoted name is always the name
that is split off, and in brackets it is the same static member (`split_quotedName`).

The owner need not be a path. It may be full of parentheses and brackets that stay open, but a
quoted name closes no parenthesis (`closes_quotedName`), so a delimiter in front of it counts, and
no bracket of the owner stands right in front of a quotation mark.
-/

namespace Commentary.Longname

open Commentary.Text

/-! ## Text without quotation marks -/

/-- A text with no quotation mark and no backslash in it. -/
def IsUnquoted (cs : List Char) : Prop := ∀ c ∈ cs, isQuote c = false ∧ c ≠ '\\'

instance : DecidablePred IsUnquoted := fun cs => List.decidableBAll _ cs

namespace IsUnquoted

variable {cs : List Char} (h : IsUnquoted cs)
include h

theorem atoms_eq : atoms cs = cs.map .plain := by
  refine eq_map_plain (flatMap_chars_atoms cs) (fun mark span hmem => ?_) fun hmem =>
    (h _ hmem).2 rfl
  have hmark : mark ∈ cs := by
    rw [← flatMap_chars_atoms cs]
    exact List.mem_flatMap.2 ⟨_, hmem, List.mem_cons_self⟩
  have hquote := ((lexed_atoms cs).mark_of_mem hmem).1
  rw [(h mark hmark).1] at hquote
  cases hquote

theorem whole : ∀ a ∈ atoms cs, a.IsWhole := by
  rw [h.atoms_eq]
  intro a ha
  obtain ⟨c, hc, rfl⟩ := List.mem_map.1 ha
  exact (h c hc).1

theorem unbracketed : (atoms cs).IsChain NotBracketed := by
  apply isChain_atoms
  rintro ⟨q, hquote, hinfix⟩
  have hmem : q ∈ cs := hinfix.subset (by simp)
  rw [(h q hmem).1] at hquote
  cases hquote

end IsUnquoted

/-! ## Behind a delimiter -/

section Below

variable {owner inner : List Char} {mark c : Char}

/-- A delimiter and a quoted name close no parenthesis. -/
theorem closes_quotedName (h : CanBeQuoted mark inner) (hc : Scope.isPunctuation c = true)
    (k : Nat) : closes k (.plain c :: atoms (quotedName mark inner)) = false := by
  have hopen : c ≠ '(' := by
    rintro rfl
    cases hc
  have hclose : c ≠ ')' := by
    rintro rfl
    cases hc
  rw [atoms_quotedName h]
  simp [closes, hopen, hclose]

theorem tokenize_below (howner : IsUnquoted owner) (h : CanBeQuoted mark inner)
    (hc : Scope.isPunctuation c = true) :
    tokenize (owner ++ c :: quotedName mark inner) =
      tokenize owner ++ .delimiter c :: [.quoted (quotedName mark inner)] := by
  rw [tokenize_append_of howner.whole hc (closedAlike_of_closes (closes_quotedName h hc) _),
    tokenize_quotedName h]

/-- There is nothing to respell in a quoted name and in what stands before it. -/
theorem normalChars_below (howner : IsUnquoted owner) (hword : ¬HasWord prototypeName owner)
    (h : CanBeQuoted mark inner) (hc : Scope.isPunctuation c = true) :
    dotBrackets none (atoms (owner ++ c :: quotedName mark inner)) =
        owner ++ c :: quotedName mark inner ∧
      normalChars (owner ++ c :: quotedName mark inner) = owner ++ c :: quotedName mark inner := by
  have hchain : (atoms (owner ++ c :: quotedName mark inner)).IsChain NotBracketed := by
    rw [atoms_append howner.whole, atoms_delimiter hc]
    exact isChain_append_delimiter howner.unbracketed (isSegment_quotedName h).unbracketed hc
  have hsettled : Settled true (tokenize (owner ++ c :: quotedName mark inner)) := by
    rw [tokenize_below howner h hc]
    refine Settled.append_delimiter (settled_of_not_mem fun hmem => ?_) c ⟨nofun, trivial⟩
    exact hword (hasWord_of_mem_tokenize hmem)
  exact ⟨(normal_of_settled hchain hsettled).1, normalChars_of_settled hchain hsettled⟩

/-- A quoted name is split from whatever stands before the delimiter. -/
theorem split_below_quotedName (hne : owner ≠ []) (howner : IsUnquoted owner)
    (hword : ¬HasWord prototypeName owner) (h : CanBeQuoted mark inner) {scope : Scope}
    (hc : Scope.ofPunctuation? c = some scope) :
    split (String.ofList (owner ++ c :: quotedName mark inner)) =
      { full := String.ofList (owner ++ c :: quotedName mark inner)
        memberof := String.ofList owner
        scope
        name := String.ofList (quotedName mark inner)
        variation := none } := by
  have hpunctuation : Scope.isPunctuation c = true := by simp [Scope.isPunctuation, hc]
  have hnormal := (normalChars_below howner hword h hpunctuation).2
  have hsplit : lastSplit (tokenize (owner ++ c :: quotedName mark inner)) =
      some (tokenize owner, c, [.quoted (quotedName mark inner)]) := by
    rw [tokenize_below howner h hpunctuation]
    exact lastSplit_append (tokenize_ne_nil hne) (by simp) (by simp) c
  have hname : spell [.quoted (quotedName mark inner)] = quotedName mark inner := by
    simp [Token.chars]
  unfold split
  simp only [String.toList_ofList, hnormal, hsplit, spell_tokenize, hc, Option.getD_some, hname]
  simp only [ofParts, splitVariationChars_quotedName h, Option.map_none]

end Below

/-! ## In brackets -/

/-- An atom in front of which no quoted name stands is written as it is. -/
theorem dotBrackets_cons {as : List Atom} (h : ∀ mark span, as.head? ≠ some (.quoted mark span))
    (last : Option Char) (a : Atom) :
    dotBrackets last (a :: as) = a.chars ++ dotBrackets a.chars.getLast? as := by
  rw [dotBrackets]
  · rintro mark span rest - rfl
    exact h mark span rfl
  · rintro mark span rest - rfl
    exact h mark span rfl

/-- Plain text in front of a plain character is written as it is. -/
theorem dotBrackets_map_plain_append (cs : List Char) (last : Option Char) (c : Char)
    (as : List Atom) :
    dotBrackets last (cs.map .plain ++ .plain c :: as) =
      cs ++ dotBrackets (cs.getLast?.or last) (.plain c :: as) := by
  induction cs generalizing last with
  | nil => rfl
  | cons d cs ih =>
    have hnext : ∀ mark span,
        (cs.map Atom.plain ++ .plain c :: as).head? ≠ some (.quoted mark span) := by
      intro mark span
      cases cs <;> simp
    rw [List.map_cons, List.cons_append, dotBrackets_cons hnext, ih]
    cases cs <;> simp [Atom.chars, List.getLast?_cons]

/-- A quoted name in brackets is respelled behind a dot. -/
theorem dotBrackets_bracketed {owner inner : List Char} {mark : Char}
    (howner : IsUnquoted owner) (hends : owner.getLast?.any Scope.isPunctuation = false)
    (h : CanBeQuoted mark inner) :
    dotBrackets none (atoms (owner ++ '[' :: (quotedName mark inner ++ [']']))) =
      owner ++ '.' :: quotedName mark inner := by
  have hopening : atoms ('[' :: (quotedName mark inner ++ [']'])) =
      .plain '[' :: atoms (quotedName mark inner ++ [']']) :=
    atoms_chars_append (a := .plain '[') ⟨by decide, nofun⟩
  have hclosing : atoms [']'] = [.plain ']'] := by
    have hunquoted : IsUnquoted [']'] := by decide
    exact hunquoted.atoms_eq
  have hlast : owner.getLast?.or none = owner.getLast? := by simp
  have hdelimiter : bracketDelimiter owner.getLast? = ['.'] := by
    rw [bracketDelimiter, hends]
    rfl
  rw [atoms_append howner.whole, howner.atoms_eq, hopening,
    atoms_append (isSegment_quotedName h).whole, atoms_quotedName h, hclosing,
    dotBrackets_map_plain_append, hlast]
  rw [List.singleton_append, dotBrackets, hdelimiter, dotBrackets]
  simp [quotedName]

/-! ## Quoted names as strings -/

/-- A quoted name is split off whole, without a variation, from any owner that has no quotation
marks, backslashes and `prototype` in it. In brackets behind an owner that does not end in a
delimiter it is the static member of that name. -/
theorem split_quotedName {owner : String} (hne : owner ≠ "") (howner : IsUnquoted owner.toList)
    (hword : ¬HasWord prototypeName owner.toList) {mark : Char} {inner : List Char}
    (h : CanBeQuoted mark inner) :
    let quoted := String.ofList (quotedName mark inner)
    (∀ scope : Scope, scope ≠ .global →
      split (owner ++ scope.punctuation ++ quoted) =
        { full := owner ++ scope.punctuation ++ quoted
          memberof := owner
          scope
          name := quoted
          variation := none }) ∧
      (hasTrailingScope owner = false →
        split (owner ++ "[" ++ quoted ++ "]") = split (owner ++ "." ++ quoted)) := by
  intro quoted
  have hne' : owner.toList ≠ [] := fun hnil => hne (String.toList_eq_nil_iff.1 hnil)
  constructor
  · intro scope hscope
    obtain ⟨c, hscope, hc⟩ := exists_delimiter hscope
    have hsplit := split_below_quotedName hne' howner hword h hscope
    have hfull : owner ++ scope.punctuation ++ quoted =
        String.ofList (owner.toList ++ c :: quotedName mark inner) := by
      apply String.toList_inj.1
      simp [hc, quoted]
    rw [hfull, hsplit, String.ofList_toList]
  · intro hends
    have hbracketed : (owner ++ "[" ++ quoted ++ "]").toList =
        owner.toList ++ '[' :: (quotedName mark inner ++ [']']) := by
      simp [quoted]
    have hdotted : (owner ++ "." ++ quoted).toList =
        owner.toList ++ '.' :: quotedName mark inner := by
      simp [quoted]
    have hnormal : normalChars (owner ++ "[" ++ quoted ++ "]").toList =
        normalChars (owner ++ "." ++ quoted).toList := by
      rw [hbracketed, hdotted, normalChars, normalChars, dotBrackets_bracketed howner hends h,
        (normalChars_below howner hword h rfl).1]
    unfold split
    rw [hnormal]

/-- An owner with a parenthesis and a bracket that stay open. -/
def openOwner : String := "Soße(klein.[Topf"

/-- Below it, a name with brackets, parentheses, delimiters and the other mark in it stays whole. -/
theorem split_quotedName_openOwner :
    openOwner ≠ "" ∧ IsUnquoted openOwner.toList ∧ ¬HasWord prototypeName openOwner.toList ∧
      CanBeQuoted '\'' "[\"a.b)#(c".toList ∧ hasTrailingScope openOwner = false ∧
      split (openOwner ++ "~" ++ "'[\"a.b)#(c'") =
        { full := openOwner ++ "~" ++ "'[\"a.b)#(c'"
          memberof := openOwner
          scope := .inner
          name := "'[\"a.b)#(c'"
          variation := none } ∧
      split (openOwner ++ "[" ++ "'[\"a.b)#(c'" ++ "]") =
        split (openOwner ++ "." ++ "'[\"a.b)#(c'") := by
  have hne : openOwner ≠ "" := by decide
  have hunquoted : IsUnquoted openOwner.toList := by decide
  have hword : ¬HasWord prototypeName openOwner.toList := by
    rintro ⟨before, after, htext, -, -⟩
    have hmem : 'y' ∈ openOwner.toList := by
      rw [htext]
      simp [prototypeName]
    revert hmem
    decide
  have hquoted : CanBeQuoted '\'' "[\"a.b)#(c".toList := by decide
  obtain ⟨hbelow, hbrackets⟩ := split_quotedName hne hunquoted hword hquoted
  exact ⟨hne, hunquoted, hword, hquoted, by decide, hbelow .inner (by decide),
    hbrackets (by decide)⟩

end Commentary.Longname
