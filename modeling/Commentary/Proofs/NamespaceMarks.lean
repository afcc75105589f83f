import Commentary.Proofs.VariedNames

/-!
# Namespaces in front of the name

The mark of a namespace is written into the middle of a longname, and the longname is then read
again from its first character. Quotation marks and parentheses of the owner may stay open up to
the name and beyond it, so the owner is not read on its own. But the mark goes behind a delimiter,
and a delimiter is read alone whatever surrounds it. Writing the mark there is a harmless respelling
(`MarkEdit`): the tokens in front stay what they are, and the mark joins the text of those behind
(`exists_respelled_mark`). So the longname is cut where it was cut before (`split_join_marked`), and
its variation is where it was (`splitVariationChars_marked`).

A longname without an owner has no delimiter for the mark to go behind. If it starts with one, the
mark in front becomes an owner.
-/

namespace Commentary.Longname

open Commentary.Text

/-! ## Words of a namespace -/

/-- A word that can name a namespace: letters, at least one. -/
def IsNamespaceWord (word : String) : Prop := word ≠ "" ∧ ∀ c ∈ word.toList, c.isAlpha = true

instance : DecidablePred IsNamespaceWord := fun word =>
  decidable_of_iff (word ≠ "" ∧ word.toList.all Char.isAlpha = true) <| by
    rw [List.all_eq_true, IsNamespaceWord]

/-- A name that starts with the mark of a namespace. -/
def HasMark (name : String) : Prop :=
  ∃ word rest, IsNamespaceWord word ∧ name = word ++ ":" ++ rest

/-- A name with a namespace: a mark with some text behind it. -/
def CarriesNamespace (name : String) : Prop :=
  ∃ word text, IsNamespaceWord word ∧ text ≠ "" ∧ name = word ++ ":" ++ text

theorem CarriesNamespace.hasMark {name : String} (h : CarriesNamespace name) : HasMark name := by
  obtain ⟨word, text, hword, -, hname⟩ := h
  exact ⟨word, text, hword, hname⟩

theorem isTextual_of_isAlpha {c : Char} (h : c.isAlpha = true) : isTextual c = true := by
  refine isTextual_of_isIdentifierChar ?_
  have hascii : c.val < 128 := by
    unfold Char.isAlpha Char.isUpper Char.isLower at h
    simp only [Bool.or_eq_true, Bool.and_eq_true, decide_eq_true_eq, UInt32.le_iff_toNat_le] at h
    rw [UInt32.lt_iff_toNat_lt]
    simp at h ⊢
    omega
  simp [isIdentifierChar, isNameChar, hascii, Char.isAlphanum, h]

theorem IsNamespaceWord.isTextual {word : String} (h : IsNamespaceWord word) :
    ∀ c ∈ word.toList, isTextual c = true := fun c hc => isTextual_of_isAlpha (h.2 c hc)

theorem toList_mark (word name : String) :
    (word ++ ":" ++ name).toList = markChars word ++ name.toList := by
  simp [markChars]

/-- What follows a mark is what stands behind some letters and a colon. -/
theorem afterNamespace?_eq_some_iff {name rest : List Char} :
    afterNamespace? name = some rest ↔
      ∃ word, IsNamespaceWord word ∧ name = markChars word ++ rest := by
  unfold afterNamespace?
  rw [List.span_eq_takeWhile_dropWhile]
  constructor
  · intro h
    split at h
    · rename_i c word rest' hspan
      cases h
      obtain ⟨htake, hdrop⟩ := Prod.mk.inj hspan
      refine ⟨String.ofList (c :: word), ⟨?_, fun d hd => ?_⟩, ?_⟩
      · simp
      · rw [String.toList_ofList, ← htake] at hd
        exact List.all_eq_true.1 List.all_takeWhile d hd
      · rw [markChars, String.toList_ofList, ← htake, List.append_assoc, List.singleton_append,
          ← hdrop, List.takeWhile_append_dropWhile]
    · cases h
  · rintro ⟨word, ⟨hne, hword⟩, rfl⟩
    have htake : (markChars word ++ rest).takeWhile Char.isAlpha = word.toList := by
      rw [markChars, List.append_assoc, List.takeWhile_append_of_pos hword, List.singleton_append,
        List.takeWhile_cons_of_neg (by decide), List.append_nil]
    have hdrop : (markChars word ++ rest).dropWhile Char.isAlpha = ':' :: rest := by
      rw [markChars, List.append_assoc, List.dropWhile_append_of_pos hword, List.singleton_append,
        List.dropWhile_cons_of_neg (by decide)]
    rw [htake, hdrop]
    cases hchars : word.toList with
    | nil => exact absurd (String.toList_eq_nil_iff.1 hchars) hne
    | cons c cs => rfl

theorem CarriesNamespace.of_isNamespaced {name : String} (h : isNamespaced name = true) :
    CarriesNamespace name := by
  unfold isNamespaced at h
  split at h
  · rename_i rest hrest
    obtain ⟨word, hword, hname⟩ := afterNamespace?_eq_some_iff.1 hrest
    refine ⟨word, String.ofList rest, hword, ?_, ?_⟩
    · intro hempty
      simp at hempty
      simp [hempty] at h
    · apply String.toList_inj.1
      rw [toList_mark, String.toList_ofList, hname]
  · cases h

/-- Namespaces are recognised in names on one line. -/
theorem isNamespaced_iff {name : String} (hline : '\n' ∉ name.toList) :
    isNamespaced name = true ↔ CarriesNamespace name := by
  refine ⟨CarriesNamespace.of_isNamespaced, ?_⟩
  rintro ⟨word, text, hword, htext, rfl⟩
  have hafter : afterNamespace? (word ++ ":" ++ text).toList = some text.toList :=
    afterNamespace?_eq_some_iff.2 ⟨word, hword, toList_mark word text⟩
  have hline' : '\n' ∉ text.toList := fun hmem => hline (by simp [hmem])
  rw [isNamespaced, hafter]
  simp [htext, hline']

/-! ## The mark behind a delimiter -/

/-- What is done to a longname with an owner: the mark is written behind a delimiter. -/
inductive MarkEdit (word : String) : List Char → List Char → Prop
  | behind {c : Char} : Scope.isPunctuation c = true → MarkEdit word [c] (c :: markChars word)

theorem isFiller_of_isPunctuation {c : Char} (h : Scope.isPunctuation c = true) :
    isFiller c = true := by
  unfold Scope.isPunctuation Scope.ofPunctuation? at h
  split at h
  · rfl
  · rfl
  · rfl
  · cases h

theorem settled_append_delimiter_iff {starts : Bool} {ts us : List Token} {c : Char} :
    Settled starts (ts ++ .delimiter c :: us) ↔ Settled starts ts ∧ Settled (c = '.') us := by
  induction ts generalizing starts with
  | nil => simp [Settled]
  | cons t ts ih => simp [Settled, ih, and_assoc]

/-- What tokens start with does not hang on what stands behind a delimiter. -/
theorem startsWithText_append_delimiter (before after after' : List Token) (c : Char) :
    startsWithText (before ++ .delimiter c :: after') =
      startsWithText (before ++ .delimiter c :: after) := by
  cases before <;> rfl

section Marked

variable {word : String} (hword : ∀ c ∈ word.toList, isTextual c = true)
include hword

theorem harmless_markEdit : Harmless (MarkEdit word) := by
  rintro gone new ⟨hc⟩
  have hfiller := isFiller_of_isPunctuation hc
  refine ⟨by simp, by simpa using hfiller, ?_⟩
  rw [List.forall_mem_cons]
  exact ⟨hfiller, isFiller_of_mem_markChars hword⟩

/-- With the mark behind one of its delimiters, a text is read as before, and the mark joins what
follows the delimiter. -/
theorem exists_respelled_mark {before after : List Token} {c : Char} {depth : Nat} {as : List Atom}
    (h : gather depth as = before ++ .delimiter c :: after) :
    ∃ bs, Respelled (MarkEdit word) as bs ∧
      gather depth bs = before ++ .delimiter c :: prependText (markChars word) after := by
  induction before generalizing depth as with
  | nil =>
    obtain ⟨rfl, hc, rest, rfl, hrest⟩ := gather_eq_delimiter_cons h
    refine ⟨(c :: markChars word).map .plain ++ rest, .swap (MarkEdit.behind hc) (.refl rest), ?_⟩
    rw [List.map_cons, List.cons_append, gather_delimiter hc, gather_marked hword, hrest]
    rfl
  | cons t before ih =>
    obtain ⟨depthAfter, front, back, hoff⟩ := gather_uncons h
    obtain ⟨bs, hbs, htokens⟩ := ih hoff.gather_back
    refine ⟨front ++ bs, ?_, ?_⟩
    · rw [hoff.eq_append]
      exact hbs.append_left front
    · rw [hoff.gather_append, htokens]
      · rfl
      · exact hbs.closes_eq (harmless_markEdit hword)
      · intro htext
        -- no text stood behind this token, and the mark does not stand there either
        have hchain : (t :: (before ++ .delimiter c :: after)).IsChain Apart := by
          rw [← List.cons_append, ← h]
          exact isChain_gather depth as
        rw [htokens, startsWithText_append_delimiter before after]
        exact startsWithText_of_isChain hchain htext

/-- Text without bracketed names and `prototype` segments stays so with the mark behind one of its
delimiters, and is read as before but for the mark. -/
theorem normal_mark {cs : List Char} (hchain : (atoms cs).IsChain NotBracketed)
    (hsettled : Settled true (tokenize cs)) {before after : List Token} {c : Char}
    (h : tokenize cs = before ++ .delimiter c :: after) :
    normalChars (spell before ++ c :: (markChars word ++ spell after)) =
        spell before ++ c :: (markChars word ++ spell after) ∧
      tokenize (spell before ++ c :: (markChars word ++ spell after)) =
        before ++ .delimiter c :: prependText (markChars word) after := by
  obtain ⟨bs, hbs, htokens⟩ := exists_respelled_mark hword h
  have hchars : bs.flatMap Atom.chars = spell before ++ c :: (markChars word ++ spell after) := by
    rw [← spell_gather 0, htokens]
    simp [Token.chars]
  have hatoms : atoms (spell before ++ c :: (markChars word ++ spell after)) = bs := by
    rw [← hchars]
    exact atoms_of_lexed (hbs.lexed (harmless_markEdit hword) (lexed_atoms cs))
  have htokenize : tokenize (spell before ++ c :: (markChars word ++ spell after)) =
      before ++ .delimiter c :: prependText (markChars word) after := by
    rw [tokenize, hatoms, htokens]
  refine ⟨normalChars_of_settled ?_ ?_, htokenize⟩
  · rw [hatoms]
    refine hbs.isChain ?_ hchain
    rintro gone new ⟨-⟩
    exact ⟨List.cons_ne_nil _ _, by simp [markChars, List.getLast?_cons]⟩
  · rw [h, settled_append_delimiter_iff] at hsettled
    rw [htokenize]
    exact hsettled.1.append_delimiter c (hsettled.2.marked word)

/-- The mark in front of a text. -/
theorem normal_mark_front {cs : List Char} (hchain : (atoms cs).IsChain NotBracketed)
    (hsettled : Settled true (tokenize cs)) :
    normalChars (markChars word ++ cs) = markChars word ++ cs := by
  refine normalChars_of_settled ?_ ?_
  · rw [atoms_marked hword]
    exact isChain_marked word hchain
  · rw [tokenize_marked hword]
    exact hsettled.marked word

end Marked

/-! ## Where a marked longname is cut -/

/-- Behind the delimiter where tokens are cut, the mark leaves the cut where it is. -/
theorem lastSplit_mark (word : String) {ts before after : List Token} {c : Char}
    (h : lastSplit ts = some (before, c, after)) :
    lastSplit (before ++ .delimiter c :: prependText (markChars word) after) =
      some (before, c, prependText (markChars word) after) := by
  obtain ⟨-, hbefore, hafter, hlast⟩ := eq_append_of_lastSplit h
  rcases prependText_cases (markChars word) after with ⟨ds, rest, rfl, htext⟩ | ⟨-, htext⟩
  · rw [htext]
    refine lastSplit_append_of hbefore (by simp) (fun d hmem => hlast d ?_) c
    cases rest with
    | nil => simp at hmem
    | cons t ts => simpa using hmem
  · rw [htext]
    refine lastSplit_append_of hbefore (by simp) (fun d hmem => hlast d ?_) c
    rw [List.dropLast_cons_of_ne_nil hafter] at hmem
    simpa using hmem

/-- In front of tokens that are cut nowhere, the mark brings up no cut unless a delimiter is
first. -/
theorem lastSplit_mark_front (word : String) {ts : List Token} (h : lastSplit ts = none)
    (hlead : ∀ c rest, ts ≠ .delimiter c :: rest) :
    lastSplit (prependText (markChars word) ts) = none := by
  cases ts with
  | nil => rfl
  | cons t ts =>
    rw [lastSplit_cons_eq_none_iff] at h
    cases t with
    | text ds => exact (lastSplit_cons_eq_none_iff _ _).2 h
    | quoted ds =>
      refine (lastSplit_cons_eq_none_iff _ _).2 fun c hmem => h c ?_
      cases ts with
      | nil => simp at hmem
      | cons u us => simpa using hmem
    | delimiter c => exact absurd rfl (hlead c ts)

@[simp]
theorem memberof_ofParts (full memberof : List Char) (scope : Scope) (segment : List Char) :
    (ofParts full memberof scope segment).memberof = String.ofList memberof := rfl

@[simp]
theorem scope_ofParts (full memberof : List Char) (scope : Scope) (segment : List Char) :
    (ofParts full memberof scope segment).scope = scope := rfl

/-- A longname is cut at a delimiter, or it has no owner. -/
theorem split_cases (longname : String) :
    (∃ before c after scope,
      lastSplit (tokenize (normalChars longname.toList)) = some (before, c, after) ∧
        Scope.ofPunctuation? c = some scope ∧
        split longname =
          ofParts (normalChars longname.toList) (spell before) scope (spell after)) ∨
      lastSplit (tokenize (normalChars longname.toList)) = none ∧
        split longname =
          ofParts (normalChars longname.toList) [] .global (normalChars longname.toList) := by
  unfold split
  simp only
  split
  · rename_i before c after hcut
    have hc : Scope.isPunctuation c = true := among_of_mem_gather (mem_of_lastSplit hcut)
    obtain ⟨scope, hscope⟩ := Option.isSome_iff_exists.1 hc
    refine .inl ⟨before, c, after, scope, hcut, hscope, ?_⟩
    rw [hscope, Option.getD_some]
  · rename_i hcut
    exact .inr ⟨hcut, rfl⟩

/-- The parts with the mark of a namespace in front of the name. -/
def withMark (parts : Longname) (word : String) : Longname :=
  { parts with name := word ++ ":" ++ parts.name }

theorem applyNamespace_eq (longname ns : String) :
    applyNamespace longname ns =
      if isNamespaced (split longname).name = true then (split longname).full
      else ((split longname).withMark ns).join := rfl

/-- A name with its variation is what it was split from. -/
theorem toList_name_ofParts (full memberof : List Char) (scope : Scope) (segment : List Char) :
    (ofParts full memberof scope segment).name.toList ++
        (variationSuffix (ofParts full memberof scope segment).variation).toList = segment := by
  have happend := splitVariationChars_append segment
  simpa only [ofParts, String.toList_ofList, toList_variationSuffix] using happend

theorem join_withMark_ofParts (word : String) (full memberof : List Char) (scope : Scope)
    (segment : List Char) :
    ((ofParts full memberof scope segment).withMark word).join =
      String.ofList (memberof ++ (scope.punctuation.toList ++ (markChars word ++ segment))) := by
  have hsegment := toList_name_ofParts full memberof scope segment
  apply String.toList_inj.1
  simp only [join, withMark, String.toList_append, memberof_ofParts, scope_ofParts,
    String.toList_ofList, List.append_assoc, hsegment]
  simp [markChars]

/-- A name starts with a delimiter exactly if it does with its variation. -/
theorem head?_splitVariationChars (segment : List Char) :
    (splitVariationChars segment).1.head?.any Scope.isPunctuation =
      segment.head?.any Scope.isPunctuation := by
  have happend := splitVariationChars_append segment
  rcases hsplit : splitVariationChars segment with ⟨_ | ⟨c, name⟩, _ | variation⟩
  · rw [hsplit] at happend
    rw [← happend]
    rfl
  · rw [hsplit] at happend
    rw [← happend]
    rfl
  · rw [hsplit] at happend
    rw [← happend]
    rfl
  · rw [hsplit] at happend
    rw [← happend]
    rfl

section Cut

variable {longname word : String} (hword : ∀ c ∈ word.toList, isTextual c = true)
include hword

/-- A longname with the mark in front of its name is cut where it was cut without. The name of one
without an owner must not start with a delimiter. -/
theorem split_join_withMark
    (hlead : (split longname).scope = .global → hasLeadingScope (split longname).name = false) :
    split ((split longname).withMark word).join =
      ofParts ((split longname).withMark word).join.toList (split longname).memberof.toList
        (split longname).scope
        (markChars word ++
          ((split longname).name.toList ++
            (variationSuffix (split longname).variation).toList)) := by
  obtain ⟨hchain, hsettled⟩ := normalChars_spec longname.toList
  generalize hfull : normalChars longname.toList = full at hchain hsettled
  rcases split_cases longname with ⟨before, c, after, scope, hcut, hscope, heq⟩ | ⟨hcut, heq⟩
  · rw [hfull] at hcut heq
    obtain ⟨hnormal, htokens⟩ :=
      normal_mark hword hchain hsettled (eq_append_of_lastSplit hcut).1
    rw [heq, toList_name_ofParts, join_withMark_ofParts, punctuation_of_ofPunctuation? hscope,
      List.singleton_append, split]
    simp only [String.toList_ofList, hnormal, htokens, lastSplit_mark word hcut, hscope,
      Option.getD_some, spell_prependText, memberof_ofParts, scope_ofParts]
  · rw [hfull] at hcut heq
    have hnormal := normal_mark_front hword hchain hsettled
    have hfirst : ∀ d rest, tokenize full ≠ .delimiter d :: rest := by
      intro d rest htokens
      have hd : Scope.isPunctuation d = true :=
        among_of_mem_gather (htokens ▸ List.mem_cons_self : Token.delimiter d ∈ tokenize full)
      have hhead : full.head? = some d := by
        rw [← spell_tokenize full, htokens]
        rfl
      rw [heq] at hlead
      have hnone := hlead rfl
      simp [hasLeadingScope, ofParts, head?_splitVariationChars, hhead, hd] at hnone
    have hcut' : lastSplit (tokenize (markChars word ++ full)) = none := by
      rw [tokenize_marked hword]
      exact lastSplit_mark_front word hcut hfirst
    rw [heq, toList_name_ofParts, join_withMark_ofParts]
    have hglobal : ([] : List Char) ++ (Scope.global.punctuation.toList ++
        (markChars word ++ full)) = markChars word ++ full := by simp [Scope.punctuation]
    rw [hglobal, split]
    simp only [String.toList_ofList, hnormal, hcut', memberof_ofParts, scope_ofParts]

end Cut

/-! ## The variation behind a marked name -/

/-- Marked characters end in a variation: text in parentheses, with something in front. -/
structure Varies (ms front content : List (Char × Bool)) : Prop where
  eq_append : ms = front ++ ('(', true) :: (content ++ [(')', true)])
  front_ne_nil : front ≠ []
  content_ne_nil : content ≠ []
  closed : ∀ m ∈ content, isTextChar '(' m = false ∧ isTextChar ')' m = false

/-- A name that ends in a variation is split in front of it. -/
theorem Varies.splitVariationChars_eq {name : List Char} {front content : List (Char × Bool)}
    (h : Varies ((tokenize name).flatMap Token.marked) front content) :
    splitVariationChars name = (front.map Prod.fst, some (content.map Prod.fst)) := by
  have hreverse : ((tokenize name).flatMap Token.marked).reverse =
      (')', true) :: (content.reverse ++ ('(', true) :: front.reverse) := by
    rw [h.eq_append]
    simp
  have hinside : ∀ m ∈ content.reverse, (!(isTextChar '(' m || isTextChar ')' m)) = true := by
    intro m hm
    obtain ⟨hopen, hclose⟩ := h.closed m (List.mem_reverse.1 hm)
    rw [hopen, hclose]
    rfl
  have hspan : (content.reverse ++ ('(', true) :: front.reverse).span
      (fun m => !(isTextChar '(' m || isTextChar ')' m)) =
        (content.reverse, ('(', true) :: front.reverse) := by
    rw [List.span_eq_takeWhile_dropWhile, List.takeWhile_append_of_pos hinside,
      List.dropWhile_append_of_pos hinside]
    simp [isTextChar]
  unfold splitVariationChars
  rw [hreverse]
  simp only [hspan]
  simp [h.front_ne_nil, h.content_ne_nil]

/-- A name that ends in no variation stays whole. -/
theorem splitVariationChars_eq_self {name : List Char}
    (h : ∀ front content, ¬Varies ((tokenize name).flatMap Token.marked) front content) :
    splitVariationChars name = (name, none) := by
  unfold splitVariationChars
  split
  · rename_i rest hrest
    split
    · rename_i content mark front hspan
      split
      · rfl
      · rename_i hempty
        rw [List.span_eq_takeWhile_dropWhile] at hspan
        obtain ⟨hcontent, hfront⟩ := Prod.mk.inj hspan
        have hsplit : content ++ ('(', mark) :: front = rest := by
          rw [← hcontent, ← hfront, List.takeWhile_append_dropWhile]
        -- the span ends at a parenthesis in plain text
        have hmark : mark = true := by
          have hstop := List.head?_dropWhile_not
            (fun m => !(isTextChar '(' m || isTextChar ')' m)) rest
          rw [hfront] at hstop
          simpa [isTextChar] using hstop
        refine absurd ⟨?_, ?_, ?_, fun m hm => ?_⟩ (h front.reverse content.reverse)
        · rw [← List.reverse_reverse ((tokenize name).flatMap Token.marked), hrest, ← hsplit, hmark]
          simp
        · simpa using fun hnil => hempty (by simp [hnil])
        · simpa using fun hnil => hempty (by simp [hnil])
        · rw [List.mem_reverse, ← hcontent] at hm
          have hin := List.all_eq_true.1 List.all_takeWhile m hm
          simpa using hin
    · rfl
  · rfl

theorem flatMap_marked_prependText (cs : List Char) (ts : List Token) :
    (prependText cs ts).flatMap Token.marked =
      cs.map (fun c => (c, true)) ++ ts.flatMap Token.marked := by
  rcases prependText_cases cs ts with ⟨ds, rest, rfl, htext⟩ | ⟨-, htext⟩ <;>
    simp [htext, Token.marked]

/-- The mark leaves the variation of a name where it is. The name must not start with a
parenthesis, because with the mark in front that may open a variation. -/
theorem splitVariationChars_marked {word : String} (hword : ∀ c ∈ word.toList, isTextual c = true)
    {segment : List Char}
    (hopen : (splitVariationChars segment).1.head? ≠ some '(') :
    splitVariationChars (markChars word ++ segment) =
      (markChars word ++ (splitVariationChars segment).1, (splitVariationChars segment).2) := by
  have hmarked : (tokenize (markChars word ++ segment)).flatMap Token.marked =
      (markChars word).map (fun c => (c, true)) ++ (tokenize segment).flatMap Token.marked := by
    rw [tokenize_marked hword, flatMap_marked_prependText]
  by_cases hvaries : ∃ front content, Varies ((tokenize segment).flatMap Token.marked) front content
  · obtain ⟨front, content, h⟩ := hvaries
    have hmore : Varies ((tokenize (markChars word ++ segment)).flatMap Token.marked)
        ((markChars word).map (fun c => (c, true)) ++ front) content := by
      refine ⟨?_, by simp [h.front_ne_nil], h.content_ne_nil, h.closed⟩
      rw [hmarked, h.eq_append, List.append_assoc]
    rw [hmore.splitVariationChars_eq, h.splitVariationChars_eq]
    simp [Function.comp_def]
  · simp only [not_exists] at hvaries
    have hself := splitVariationChars_eq_self hvaries
    rw [hself] at hopen ⊢
    refine splitVariationChars_eq_self fun front content h => ?_
    -- what stands in front of the variation ends in the name, at its start, or in the mark
    have hsegment : ((tokenize segment).flatMap Token.marked).map Prod.fst = segment := by
      rw [map_fst_flatMap_marked, spell_tokenize]
    have heq := h.eq_append
    rw [hmarked] at heq
    rcases List.append_eq_append_iff.1 heq with ⟨more, hfront, hrest⟩ | ⟨more, hmark, hrest⟩
    · cases more with
      | nil =>
        rw [hrest] at hsegment
        exact hopen (by rw [← hsegment]; rfl)
      | cons m more => exact hvaries _ _ ⟨hrest, by simp, h.content_ne_nil, h.closed⟩
    · cases more with
      | nil =>
        rw [List.nil_append] at hrest
        rw [← hrest] at hsegment
        exact hopen (by rw [← hsegment]; rfl)
      | cons m more =>
        obtain ⟨rfl, -⟩ := List.cons.inj hrest
        have hmem : ('(', true) ∈ (markChars word).map fun c => (c, true) := by
          rw [hmark]
          simp
        obtain ⟨c, hc, heq⟩ := List.mem_map.1 hmem
        obtain rfl : c = '(' := congrArg Prod.fst heq
        have := isTextual_of_mem_markChars hword _ hc
        cases this

/-! ## Namespaces -/

section Apply

variable {longname ns : String}

/-- Where a longname carries no namespace, the mark changes its name and nothing else. -/
theorem split_join_withMark_eq (hword : ∀ c ∈ ns.toList, isTextual c = true)
    (hlead : hasLeadingScope (split longname).name = false)
    (hopen : (split longname).name.toList.head? ≠ some '(') :
    split ((split longname).withMark ns).join =
      { split longname with
        full := ((split longname).withMark ns).join
        name := ns ++ ":" ++ (split longname).name } := by
  obtain ⟨full, memberof, scope, segment, hsplit⟩ : ∃ full memberof scope segment,
      split longname = ofParts full memberof scope segment := by
    rcases split_cases longname with ⟨_, _, _, _, -, -, heq⟩ | ⟨-, heq⟩
    · exact ⟨_, _, _, _, heq⟩
    · exact ⟨_, _, _, _, heq⟩
  have hname : (split longname).name.toList = (splitVariationChars segment).1 := by
    rw [hsplit]
    simp [ofParts]
  rw [hname] at hopen
  rw [split_join_withMark hword fun _ => hlead, hsplit, toList_name_ofParts, ofParts,
    splitVariationChars_marked hword hopen]
  have hmark : String.ofList (markChars ns ++ (splitVariationChars segment).1) =
      ns ++ ":" ++ String.ofList (splitVariationChars segment).1 := by
    apply String.toList_inj.1
    rw [toList_mark, String.toList_ofList, String.toList_ofList]
  simp only [hmark, ofParts, String.ofList_toList]

/-- A namespace changes the name of a longname and nothing else, and a name that carries one stays
as it is. So the second time it changes nothing. -/
theorem split_applyNamespace (hns : IsNamespaceWord ns) (hname : (split longname).name ≠ "")
    (hline : '\n' ∉ (split longname).name.toList)
    (hlead : hasLeadingScope (split longname).name = false)
    (hopen : (split longname).name.toList.head? ≠ some '(') :
    (CarriesNamespace (split longname).name →
      split (applyNamespace longname ns) = split longname) ∧
    (¬CarriesNamespace (split longname).name →
      split (applyNamespace longname ns) =
        { split longname with
          full := applyNamespace longname ns
          name := ns ++ ":" ++ (split longname).name }) ∧
    applyNamespace (applyNamespace longname ns) ns = applyNamespace longname ns := by
  have hcarries : isNamespaced (split longname).name = true ↔
      CarriesNamespace (split longname).name := isNamespaced_iff hline
  by_cases hdone : isNamespaced (split longname).name = true
  · have happly : applyNamespace longname ns = (split longname).full := by
      rw [applyNamespace_eq, if_pos hdone]
    have hsplit : split (applyNamespace longname ns) = split longname := by
      rw [happly, split_full]
    refine ⟨fun _ => hsplit, fun hnot => absurd (hcarries.1 hdone) hnot, ?_⟩
    rw [applyNamespace_eq (applyNamespace longname ns), hsplit, if_pos hdone, happly]
  · have happly : applyNamespace longname ns = ((split longname).withMark ns).join := by
      rw [applyNamespace_eq, if_neg hdone]
    have hsplit : split (applyNamespace longname ns) =
        { split longname with
          full := applyNamespace longname ns
          name := ns ++ ":" ++ (split longname).name } := by
      rw [happly]
      exact split_join_withMark_eq hns.isTextual hlead hopen
    refine ⟨fun hyes => absurd (hcarries.2 hyes) hdone, fun _ => hsplit, ?_⟩
    -- the mark is there now, so that the name carries a namespace
    have hmarked : isNamespaced (ns ++ ":" ++ (split longname).name) = true := by
      refine (isNamespaced_iff ?_).2 ⟨ns, (split longname).name, hns, hname, rfl⟩
      have hletters : '\n' ∉ ns.toList := fun hmem => by cases hns.2 _ hmem
      rw [toList_mark, List.mem_append, not_or]
      exact ⟨by simpa [markChars] using hletters, hline⟩
    rw [applyNamespace_eq (applyNamespace longname ns), hsplit, if_pos hmarked]

end Apply

/-- A longname whose owner leaves a parenthesis and a quotation mark open. -/
def untidyOwner : String := "Soße(klein.[\"Topf#eat(sip)"

theorem split_untidyOwner :
    split untidyOwner =
      { full := untidyOwner, memberof := "Soße(klein.[\"Topf", scope := .instance, name := "eat",
        variation := some "sip" } := by
  decide +kernel

/-- The mark goes behind the delimiter of such a longname, and the rest of it is read as before. -/
theorem split_applyNamespace_untidyOwner :
    IsNamespaceWord "event" ∧ (split untidyOwner).name ≠ "" ∧
      '\n' ∉ (split untidyOwner).name.toList ∧
      hasLeadingScope (split untidyOwner).name = false ∧
      (split untidyOwner).name.toList.head? ≠ some '(' ∧
      ¬CarriesNamespace (split untidyOwner).name ∧
      split (applyNamespace untidyOwner "event") =
        { full := applyNamespace untidyOwner "event", memberof := "Soße(klein.[\"Topf",
          scope := .instance, name := "event:eat", variation := some "sip" } ∧
      applyNamespace (applyNamespace untidyOwner "event") "event" =
        applyNamespace untidyOwner "event" := by
  have hword : IsNamespaceWord "event" := by decide
  have hname : (split untidyOwner).name ≠ "" := by
    rw [split_untidyOwner]
    decide
  have hline : '\n' ∉ (split untidyOwner).name.toList := by
    rw [split_untidyOwner]
    decide
  have hlead : hasLeadingScope (split untidyOwner).name = false := by
    rw [split_untidyOwner]
    decide
  have hopen : (split untidyOwner).name.toList.head? ≠ some '(' := by
    rw [split_untidyOwner]
    decide
  have hplain : ¬CarriesNamespace (split untidyOwner).name := by
    rw [← isNamespaced_iff hline, split_untidyOwner]
    decide
  obtain ⟨-, hmarked, htwice⟩ := split_applyNamespace hword hname hline hlead hopen
  have hsplit := hmarked hplain
  rw [split_untidyOwner] at hsplit
  exact ⟨hword, hname, hline, hlead, hopen, hplain, hsplit, htwice⟩

end Commentary.Longname
