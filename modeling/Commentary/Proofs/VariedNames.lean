import Commentary.Proofs.MemberPaths

/-!
# Names with a variation

A path with a variation behind it is read as the path and the variation. This module follows the
parentheses of the variation through the tokens: they end up in the last text token
(`tokenize_varied`), so the last segment with the variation is a segment still
(`IsSegment.varied`), and stripping finds the parenthesis that opens the variation
(`stripVariation_varied`). A segment also stays one with the mark of a namespace in front
(`IsSegment.marked`).
-/

namespace Commentary.Longname

open Commentary.Text

/-! ## Text at the end of tokens -/

/-- Puts text behind tokens, joining it to a text token there. -/
def appendText (cs : List Char) : List Token → List Token
  | [] => [.text cs]
  | [.text ds] => [.text (ds ++ cs)]
  | t :: ts => t :: appendText cs ts

theorem appendText_of_not_text (cs : List Char) {t : Token} (ht : t.isText = false)
    (ts : List Token) : appendText cs (t :: ts) = t :: appendText cs ts := by
  cases t with
  | text ds => cases ht
  | quoted ds => rfl
  | delimiter c => rfl

theorem appendText_cons_cons (cs : List Char) (t u : Token) (ts : List Token) :
    appendText cs (t :: u :: ts) = t :: appendText cs (u :: ts) := by
  cases t <;> rfl

theorem prependText_appendText (cs ds : List Char) (ts : List Token) :
    prependText cs (appendText ds ts) = appendText ds (prependText cs ts) := by
  match ts with
  | [] => rfl
  | [.text es] => simp [appendText, prependText]
  | [.quoted es] => rfl
  | [.delimiter c] => rfl
  | .text es :: u :: us => simp [appendText_cons_cons, prependText_of_text]
  | .quoted es :: u :: us => rfl
  | .delimiter c :: u :: us => rfl

/-- Text at the end adds no delimiter. -/
theorem mem_of_delimiter_mem_appendText {cs : List Char} {ts : List Token} {c : Char}
    (h : .delimiter c ∈ appendText cs ts) : .delimiter c ∈ ts := by
  fun_induction appendText cs ts with
  | case1 => simp at h
  | case2 ds => simp at h
  | case3 t ts _ ih =>
    rcases List.mem_cons.1 h with rfl | h
    · exact List.mem_cons_self
    · exact List.mem_cons_of_mem _ (ih h)

/-- Text at the end counts as text. -/
theorem flatMap_marked_appendText (cs : List Char) (ts : List Token) :
    (appendText cs ts).flatMap Token.marked =
      ts.flatMap Token.marked ++ cs.map fun c => (c, true) := by
  fun_induction appendText cs ts with
  | case1 => simp [Token.marked]
  | case2 ds => simp [Token.marked]
  | case3 t ts _ ih => simp [ih]

/-- Text with a parenthesis makes no segment a `prototype`. -/
theorem Settled.appendText {cs : List Char} (hcs : '(' ∈ cs) {starts : Bool} {ts : List Token}
    (h : Settled starts ts) : Settled starts (appendText cs ts) := by
  have hne : ∀ ds : List Char, Token.text (ds ++ cs) ≠ .text prototypeName := by
    intro ds heq
    have hmem : '(' ∈ prototypeName := by
      rw [← Token.text.inj heq]
      exact List.mem_append_right _ hcs
    simp [prototypeName] at hmem
  fun_induction Longname.appendText cs ts generalizing starts with
  | case1 => exact ⟨fun _ => hne [], trivial⟩
  | case2 ds => exact ⟨fun _ => hne ds, trivial⟩
  | case3 t ts _ ih => exact ⟨h.1, ih h.2⟩

/-! ## Variations -/

section Varied

variable {cs v : List Char}

/-- A variation is read character by character. -/
theorem atoms_variation (hv : ∀ c ∈ v, isFiller c = true) :
    atoms (variationChars (some v)) = (variationChars (some v)).map .plain := by
  have hlexed : Lexed (.plain '(' :: (v.map .plain ++ [.plain ')'])) := by
    refine ⟨⟨by decide, fun hquote => by cases hquote⟩, lexed_filler_append hv ?_⟩
    exact ⟨⟨by decide, fun hquote => by cases hquote⟩, trivial⟩
  have hmap : (variationChars (some v)).map Atom.plain =
      .plain '(' :: (v.map .plain ++ [.plain ')']) := by simp [variationChars]
  rw [← hmap] at hlexed
  rw [← atoms_of_lexed hlexed, flatMap_chars_map_plain]

/-- The parenthesis that opens a variation is closed at its end. -/
theorem closes_variation (hv : ∀ c ∈ v, isFiller c = true) :
    closes 0 ((v ++ [')']).map .plain) = true := by
  rw [List.map_append, closes_filler_append hv]
  rfl

theorem gather_variation (hv : ∀ c ∈ v, isFiller c = true) :
    gather 0 (atoms (variationChars (some v))) = [.text (variationChars (some v))] := by
  have hinside : gather 1 ((v ++ [')']).map .plain) = [.text (v ++ [')'])] := by
    induction v with
    | nil => rfl
    | cons c v ih =>
      rw [List.forall_mem_cons] at hv
      obtain ⟨-, -, hopen, hclose⟩ := isFiller_iff.1 hv.1
      rw [List.cons_append, List.map_cons, gather, if_neg fun h => hopen h.1,
        if_neg fun h => hclose h.1, if_neg fun h => Nat.one_ne_zero h.1, ih hv.2]
      rfl
  rw [atoms_variation hv, variationChars, List.map_cons, gather,
    if_pos ⟨rfl, closes_variation hv⟩, hinside]
  rfl

/-- A variation that is read apart from the text in front, and closes no parenthesis of it, goes to
the last text token. -/
theorem tokenize_variation (hv : ∀ c ∈ v, isFiller c = true)
    (happend : atoms (cs ++ variationChars (some v)) =
      atoms cs ++ atoms (variationChars (some v)))
    (hclosed : ClosedAlike (atoms (variationChars (some v))) (atoms cs)) :
    tokenize (cs ++ variationChars (some v)) =
      appendText (variationChars (some v)) (tokenize cs) := by
  rw [tokenize, happend]
  exact gather_append_of (f := appendText (variationChars (some v))) (gather_variation hv)
    (fun _ ts ht => appendText_of_not_text _ ht ts)
    (fun ds ts => prependText_appendText ds _ ts) hclosed (by simp)

/-- So does one behind a text that leaves nothing open. -/
theorem tokenize_varied (hwhole : ∀ a ∈ atoms cs, a.IsWhole) (hpaired : Paired (atoms cs))
    (hv : ∀ c ∈ v, isFiller c = true) :
    tokenize (cs ++ variationChars (some v)) =
      appendText (variationChars (some v)) (tokenize cs) :=
  tokenize_variation hv (atoms_append hwhole _) (hpaired.closedAlike _)

theorem whole_variation (hv : ∀ c ∈ v, isFiller c = true) :
    ∀ a ∈ atoms (variationChars (some v)), a.IsWhole := by
  rw [atoms_variation hv]
  intro a ha
  obtain ⟨c, hc, rfl⟩ := List.mem_map.1 ha
  simp only [variationChars, List.mem_cons, List.mem_append, List.not_mem_nil, or_false] at hc
  rcases hc with rfl | hc | rfl
  · rfl
  · exact (isFiller_iff.1 (hv c hc)).1
  · rfl

theorem paired_variation (hv : ∀ c ∈ v, isFiller c = true) :
    Paired (atoms (variationChars (some v))) := by
  have hinside : Paired (v.map .plain) := by
    rw [← atoms_of_filler hv]
    exact paired_of_filler hv
  rw [atoms_variation hv, variationChars, List.map_cons]
  refine ⟨fun _ => closes_variation hv, ?_⟩
  rw [List.map_append]
  refine hinside.append ⟨?_, trivial⟩
  rintro ⟨⟩

/-- Plain characters put no quoted name in brackets. -/
theorem isChain_append_plain {as : List Atom} (has : as.IsChain NotBracketed) (ds : List Char) :
    (as ++ ds.map Atom.plain).IsChain NotBracketed := by
  induction ds generalizing as with
  | nil => simpa using has
  | cons d ds ih =>
    have hone : (as ++ [Atom.plain d]).IsChain NotBracketed := by
      refine List.isChain_append.2 ⟨has, .singleton _, ?_⟩
      rintro a - b hb ⟨-, mark, span, rfl⟩
      cases hb
    simpa using ih hone

/-- A segment with a variation behind it is a segment. -/
theorem IsSegment.varied (h : IsSegment cs) (hv : ∀ c ∈ v, isFiller c = true) :
    IsSegment (cs ++ variationChars (some v)) := by
  have htokens := tokenize_varied h.whole h.paired hv
  refine ⟨by simp [h.ne_nil], ?_, ?_, ?_, ?_, ?_⟩
  · rw [atoms_append h.whole, List.forall_mem_append]
    exact ⟨h.whole, whole_variation hv⟩
  · rw [atoms_append h.whole]
    exact h.paired.append (paired_variation hv)
  · rw [atoms_append h.whole, atoms_variation hv]
    exact isChain_append_plain h.unbracketed _
  · rw [htokens]
    exact h.settled.appendText (by simp [variationChars])
  · intro c hmem
    rw [htokens] at hmem
    exact h.undelimited c (mem_of_delimiter_mem_appendText hmem)

/-- The characters of a text and of its variation, each with whether it stands in plain text. -/
theorem flatMap_marked_varied (hwhole : ∀ a ∈ atoms cs, a.IsWhole) (hpaired : Paired (atoms cs))
    (hv : ∀ c ∈ v, isFiller c = true) :
    (tokenize (cs ++ variationChars (some v))).flatMap Token.marked =
      (tokenize cs).flatMap Token.marked ++
        ('(', true) :: (v.map (fun c => (c, true)) ++ [(')', true)]) := by
  rw [tokenize_varied hwhole hpaired hv, flatMap_marked_appendText]
  simp [variationChars]

/-- Stripping a variation leaves what stands before it. -/
theorem stripVariation_varied (hwhole : ∀ a ∈ atoms cs, a.IsWhole) (hpaired : Paired (atoms cs))
    (hopen : '(' ∉ cs) (hv : ∀ c ∈ v, isFiller c = true) :
    stripVariation (String.ofList (cs ++ variationChars (some v))) = String.ofList cs := by
  have hlast : (cs ++ variationChars (some v)).getLast? = some ')' := by
    simp [variationChars, List.getLast?_append, List.getLast?_cons]
  have hfst : ((tokenize cs).flatMap Token.marked).map Prod.fst = cs := by
    rw [map_fst_flatMap_marked, spell_tokenize]
  have hfront : ∀ m ∈ (tokenize cs).flatMap Token.marked, (!isTextChar '(' m) = true := by
    intro m hm
    have hmem : m.1 ∈ cs := by
      rw [← hfst]
      exact List.mem_map_of_mem hm
    have hne : m.1 ≠ '(' := fun heq => hopen (heq ▸ hmem)
    simp [isTextChar, hne]
  rw [stripVariation, String.toList_ofList, if_pos hlast, flatMap_marked_varied hwhole hpaired hv,
    List.takeWhile_append_of_pos hfront]
  simp [isTextChar, hfst]

/-- A text without an opening parenthesis has no variation. -/
theorem splitVariationChars_of_not_mem (hopen : '(' ∉ cs) :
    splitVariationChars cs = (cs, none) := by
  have happend := splitVariationChars_append cs
  rcases hsplit : splitVariationChars cs with ⟨name, _ | variation⟩
  · rw [hsplit] at happend
    simpa [variationChars] using happend
  · rw [hsplit] at happend
    refine absurd ?_ hopen
    rw [← happend]
    simp [variationChars]

end Varied

/-! ## Namespaces -/

/-- The mark of a namespace, as characters. -/
def markChars (word : String) : List Char := word.toList ++ [':']

section Marked

variable {word : String}

/-- A segment with a mark in front is no `prototype`. -/
theorem Settled.marked {starts : Bool} {ts : List Token} (h : Settled starts ts) (word : String) :
    Settled true (prependText (markChars word) ts) := by
  have hprototype : ∀ ds : List Char, Token.text (markChars word ++ ds) ≠ .text prototypeName := by
    intro ds heq
    have hmem : ':' ∈ prototypeName := by
      rw [← Token.text.inj heq]
      simp [markChars]
    simp [prototypeName] at hmem
  rcases prependText_cases (markChars word) ts with ⟨ds, rest, rfl, htext⟩ | ⟨-, htext⟩
  · rw [htext]
    exact ⟨fun _ => hprototype ds, h.2⟩
  · rw [htext]
    refine ⟨fun _ => by simpa using hprototype [], ?_⟩
    -- behind the mark no segment starts, so the token there may be anything
    cases ts with
    | nil => trivial
    | cons t ts => exact ⟨fun hstart => absurd hstart (by simp), h.2⟩

/-- A mark puts no quoted name in brackets. -/
theorem isChain_marked (word : String) {as : List Atom} (has : as.IsChain NotBracketed) :
    ((markChars word).map Atom.plain ++ as).IsChain NotBracketed :=
  isChain_plain_append (by simp [markChars]) has

variable (hword : ∀ c ∈ word.toList, isTextual c = true)
include hword

theorem isTextual_of_mem_markChars : ∀ c ∈ markChars word, isTextual c = true := by
  simp only [markChars, List.forall_mem_append, List.forall_mem_singleton]
  exact ⟨hword, rfl⟩

theorem isFiller_of_mem_markChars : ∀ c ∈ markChars word, isFiller c = true := fun c hc =>
  (isTextual_iff.1 (isTextual_of_mem_markChars hword c hc)).1

/-- The mark of a namespace is gathered into the text that follows it. -/
theorem gather_marked (as : List Atom) :
    gather 0 ((markChars word).map .plain ++ as) = prependText (markChars word) (gather 0 as) :=
  gather_textual (by simp [markChars]) (isTextual_of_mem_markChars hword) as

theorem atoms_marked (cs : List Char) :
    atoms (markChars word ++ cs) = (markChars word).map .plain ++ atoms cs := by
  have hfiller := isFiller_of_mem_markChars hword
  rw [atoms_append (whole_of_filler hfiller), atoms_of_filler hfiller]

theorem tokenize_marked (cs : List Char) :
    tokenize (markChars word ++ cs) = prependText (markChars word) (tokenize cs) := by
  rw [tokenize, atoms_marked hword, gather_marked hword]
  rfl

end Marked

/-- A segment with the mark of a namespace in front is a segment. -/
theorem IsSegment.marked {cs : List Char} (h : IsSegment cs) {word : String}
    (hword : ∀ c ∈ word.toList, isTextual c = true) : IsSegment (markChars word ++ cs) := by
  have hfiller := isFiller_of_mem_markChars hword
  have hatoms := atoms_append (whole_of_filler hfiller) cs
  refine ⟨by simp [markChars], ?_, ?_, ?_, ?_, ?_⟩
  · rw [hatoms, List.forall_mem_append]
    exact ⟨whole_of_filler hfiller, h.whole⟩
  · rw [hatoms]
    exact (paired_of_filler hfiller).append h.paired
  · rw [atoms_marked hword]
    exact isChain_marked word h.unbracketed
  · rw [tokenize_marked hword]
    exact h.settled.marked word
  · intro c hmem
    rw [tokenize_marked hword] at hmem
    rcases mem_prependText hmem with htext | hmem
    · cases htext
    · exact h.undelimited c hmem

end Commentary.Longname
