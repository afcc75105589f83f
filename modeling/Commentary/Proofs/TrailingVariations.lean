import Commentary.Proofs.NamespaceMarks
import Commentary.Proofs.QuotedNames

/-!
# Variations behind longnames

A variation that is written behind a longname goes to its last segment. This holds of any longname
in its normal spelling, also of one with a quotation or a parenthesis that stays open: a text
without quotation marks closes no quotation (`atoms_append_unquoted`), and a variation opens the
parenthesis that it closes. What comes before the last segment is read as it was
(`split_append_variation`). Only a backslash or a delimiter at the end of the longname would take
the variation with it.
-/

namespace Commentary

namespace Longname

open Commentary.Text

/-! ## Text behind what stays open -/

theorem bare_flatMap_chars {as : List Atom} (h : Lexed as) :
    bare (as.flatMap Atom.chars) = as.flatMap fun a => bare a.chars := by
  induction as with
  | nil => rfl
  | cons a as ih => rw [List.flatMap_cons, h.1.bare_append, ih h.2, List.flatMap_cons]

theorem mem_of_mem_bare {c : Char} {cs : List Char} (h : c ∈ bare cs) : c ∈ cs := by
  fun_induction bare cs with
  | case1 => exact h
  | case2 => cases h
  | case3 d rest ih => exact List.mem_cons_of_mem _ (List.mem_cons_of_mem _ (ih h))
  | case4 d rest _ _ ih =>
    rcases List.mem_cons.1 h with rfl | h
    · exact List.mem_cons_self
    · exact List.mem_cons_of_mem _ (ih h)

/-- A backslash that protects nothing is the last character. -/
theorem getLast?_of_escaped_none {as : List Atom} (h : Lexed as) (hmem : .escaped none ∈ as) :
    (as.flatMap Atom.chars).getLast? = some '\\' := by
  induction as with
  | nil => cases hmem
  | cons a as ih =>
    rcases List.mem_cons.1 hmem with rfl | hmem
    · have hnil : as.flatMap Atom.chars = [] := h.1
      rw [List.flatMap_cons, hnil]
      rfl
    · rw [List.flatMap_cons, List.getLast?_append, ih h.2 hmem, Option.some_or]

/-- A text without quotation marks and backslashes closes no quotation, so it is read afresh even
behind a quotation mark that stays open. -/
theorem atoms_append_unquoted {cs ds : List Char} (hends : cs.getLast? ≠ some '\\')
    (hds : IsUnquoted ds) : atoms (cs ++ ds) = atoms cs ++ atoms ds := by
  have hlexed : ∀ {as : List Atom}, Lexed as → .escaped none ∉ as → Lexed (as ++ atoms ds) := by
    intro as has hwhole
    induction as with
    | nil => exact lexed_atoms ds
    | cons a as ih =>
      rw [List.mem_cons, not_or] at hwhole
      have hrest := ih has.2 hwhole.2
      refine ⟨?_, hrest⟩
      show a.Fits ((as ++ atoms ds).flatMap Atom.chars)
      match a, has.1 with
      | .escaped none, _ => exact absurd rfl hwhole.1
      | .escaped (some c), _ => trivial
      | .quoted mark span, ⟨hquote, hspan⟩ => exact ⟨hquote, quotedSpan?_append hspan _⟩
      | .plain c, ⟨hc, hspan⟩ =>
        refine ⟨hc, fun hquote => (quotedSpan?_eq_none_iff hquote _).2 ?_⟩
        rcases (quotedSpan?_eq_none_iff hquote _).1 (hspan hquote) with hhead | hbare
        · left
          rw [List.flatMap_append, List.head?_append, hhead, Option.some_or]
        · right
          -- the mark does not come again in the text behind either
          have hnot : c ∉ bare ds := fun hmem => by
            have hplain := (hds c (mem_of_mem_bare hmem)).1
            rw [hquote] at hplain
            cases hplain
          rw [bare_flatMap_chars hrest, List.flatMap_append, List.mem_append, not_or,
            ← bare_flatMap_chars has.2, ← bare_flatMap_chars (lexed_atoms ds), flatMap_chars_atoms]
          exact ⟨hbare, hnot⟩
  have hwhole : .escaped none ∉ atoms cs := by
    intro hmem
    have hlast := getLast?_of_escaped_none (lexed_atoms cs) hmem
    rw [flatMap_chars_atoms] at hlast
    exact hends hlast
  have happend := atoms_of_lexed (hlexed (lexed_atoms cs) hwhole)
  rwa [List.flatMap_append, flatMap_chars_atoms, flatMap_chars_atoms] at happend

/-- Text behind tokens adds no delimiter, and only the first token is ever the first. -/
theorem appendText_cons (cs : List Char) (t : Token) (ts : List Token) :
    ∃ t' ts', appendText cs (t :: ts) = t' :: ts' ∧
      ∀ c, .delimiter c ∈ ts' → .delimiter c ∈ ts := by
  cases ts with
  | nil =>
    cases t with
    | text ds => exact ⟨_, _, rfl, fun c hmem => hmem⟩
    | quoted ds => exact ⟨_, _, rfl, fun c hmem => mem_of_delimiter_mem_appendText hmem⟩
    | delimiter d => exact ⟨_, _, rfl, fun c hmem => mem_of_delimiter_mem_appendText hmem⟩
  | cons u us =>
    exact ⟨_, _, appendText_cons_cons cs t u us, fun c hmem => mem_of_delimiter_mem_appendText hmem⟩

theorem appendText_append_delimiter (cs : List Char) (before : List Token) (c : Char)
    {after : List Token} (hafter : after ≠ []) :
    appendText cs (before ++ .delimiter c :: after) =
      before ++ .delimiter c :: appendText cs after := by
  obtain ⟨u, us, rfl⟩ := List.exists_cons_of_ne_nil hafter
  induction before with
  | nil => rfl
  | cons t before ih =>
    rw [List.cons_append, List.cons_append, ← ih]
    cases before with
    | nil => exact appendText_cons_cons cs t _ _
    | cons v vs => exact appendText_cons_cons cs t v _

theorem spell_appendText (cs : List Char) (ts : List Token) :
    spell (appendText cs ts) = spell ts ++ cs := by
  fun_induction appendText cs ts with
  | case1 => simp [Token.chars]
  | case2 ds => simp [Token.chars]
  | case3 t ts _ ih => simp [ih]

/-- Tokens hold no delimiter if none stands before the last of them and that is none. -/
theorem undelimited_of_dropLast {ts : List Token} (h : ∀ d, .delimiter d ∉ ts.dropLast)
    (hlast : ∀ front d, ts ≠ front ++ [.delimiter d]) (d : Char) : .delimiter d ∉ ts := by
  intro hmem
  rcases List.eq_nil_or_concat ts with rfl | ⟨front, t, rfl⟩
  · cases hmem
  · rw [List.concat_eq_append] at h hlast hmem
    rw [List.dropLast_concat] at h
    rcases List.mem_append.1 hmem with hmem | hmem
    · exact h d hmem
    · exact hlast front d (by rw [List.mem_singleton.1 hmem])

section Varied

variable {cs v : List Char} (hends : cs.getLast? ≠ some '\\') (hv : ∀ c ∈ v, isFiller c = true)
include hends hv

theorem atoms_append_variation :
    atoms (cs ++ variationChars (some v)) =
      atoms cs ++ (variationChars (some v)).map .plain := by
  rw [← atoms_variation hv]
  refine atoms_append_unquoted hends fun c hc => ?_
  simp only [variationChars, List.mem_cons, List.mem_append, List.not_mem_nil, or_false] at hc
  rcases hc with rfl | hc | rfl
  · decide
  · obtain ⟨hquote, hbackslash, -⟩ := isFiller_iff.1 (hv c hc)
    exact ⟨hquote, hbackslash⟩
  · decide

omit hends in
/-- A variation closes no parenthesis but its own. -/
theorem closes_variation_eq_false (k : Nat) :
    closes k (atoms (variationChars (some v))) = false := by
  rw [atoms_variation hv, variationChars, List.map_cons, List.map_append]
  have hinside : closes (k + 1) (v.map .plain ++ [')'].map .plain) = closes k [] := by
    rw [closes_filler_append hv]
    rfl
  exact hinside

/-- A variation goes to the last text token, whatever stays open before it. -/
theorem tokenize_append_variation :
    tokenize (cs ++ variationChars (some v)) =
      appendText (variationChars (some v)) (tokenize cs) := by
  refine tokenize_variation hv ?_ (closedAlike_of_closes (closes_variation_eq_false hv) _)
  rw [atoms_append_variation hends hv, atoms_variation hv]

theorem normalChars_append_variation (hnormal : normalChars cs = cs) :
    normalChars (cs ++ variationChars (some v)) = cs ++ variationChars (some v) := by
  obtain ⟨hchain, hsettled⟩ := normalChars_spec cs
  rw [hnormal] at hchain hsettled
  refine normalChars_of_settled ?_ ?_
  · rw [atoms_append_variation hends hv]
    exact isChain_append_plain hchain _
  · rw [tokenize_append_variation hends hv]
    exact hsettled.appendText (by simp [variationChars])

/-- A longname with a variation behind it is cut where it is cut without, unless it ends with a
delimiter. -/
theorem split_append_variation (hnormal : normalChars cs = cs)
    (htrailing : cs.getLast?.any Scope.isPunctuation = false) :
    ∃ full memberof scope segment,
      split (String.ofList cs) = ofParts full memberof scope segment ∧
        split (String.ofList (cs ++ variationChars (some v))) =
          ofParts (cs ++ variationChars (some v)) memberof scope
            (segment ++ variationChars (some v)) := by
  have hnormal' := normalChars_append_variation hends hv hnormal
  have htokens := tokenize_append_variation hends hv
  have hlast : ∀ front d, tokenize cs ≠ front ++ [.delimiter d] := by
    intro front d heq
    have hd : Scope.isPunctuation d = true :=
      among_of_mem_gather (show Token.delimiter d ∈ tokenize cs by simp [heq])
    have hcs : cs = spell front ++ [d] := by
      rw [← spell_tokenize cs, heq]
      simp [Token.chars]
    rw [hcs] at htrailing
    simp [hd] at htrailing
  rcases split_cases (String.ofList cs) with ⟨before, c, after, scope, hcut, hscope, heq⟩ |
    ⟨hcut, heq⟩
  · rw [String.toList_ofList, hnormal] at hcut heq
    obtain ⟨happend, hbefore, hafter, hinner⟩ := eq_append_of_lastSplit hcut
    have hundelimited : ∀ d, .delimiter d ∉ after := by
      refine undelimited_of_dropLast hinner fun front d heq => ?_
      refine hlast (before ++ .delimiter c :: front) d ?_
      rw [happend, heq]
      simp
    have hcut' : lastSplit (tokenize (cs ++ variationChars (some v))) =
        some (before, c, appendText (variationChars (some v)) after) := by
      rw [htokens, happend, appendText_append_delimiter _ _ _ hafter]
      refine lastSplit_append hbefore ?_ ?_ c
      · obtain ⟨t, ts, rfl⟩ := List.exists_cons_of_ne_nil hafter
        obtain ⟨t', ts', heq, -⟩ := appendText_cons (variationChars (some v)) t ts
        simp [heq]
      · exact fun d hmem => hundelimited d (mem_of_delimiter_mem_appendText hmem)
    refine ⟨_, _, _, _, heq, ?_⟩
    unfold split
    simp only [String.toList_ofList, hnormal', hcut', hscope, Option.getD_some, spell_appendText]
  · rw [String.toList_ofList, hnormal] at hcut heq
    have hcut' : lastSplit (tokenize (cs ++ variationChars (some v))) = none := by
      rw [htokens]
      cases htokenize : tokenize cs with
      | nil => rfl
      | cons t ts =>
        rw [htokenize, lastSplit_cons_eq_none_iff] at hcut
        have hundelimited : ∀ d, .delimiter d ∉ ts := by
          refine undelimited_of_dropLast hcut fun front d heq => ?_
          exact hlast (t :: front) d (by rw [htokenize, heq, List.cons_append])
        obtain ⟨t', ts', heq, hmem⟩ := appendText_cons (variationChars (some v)) t ts
        rw [heq, lastSplit_cons_eq_none_iff]
        exact fun d hd => hundelimited d (hmem d (List.dropLast_subset ts' hd))
    refine ⟨_, _, _, _, heq, ?_⟩
    unfold split
    simp only [String.toList_ofList, hnormal', hcut']

end Varied

end Longname

end Commentary
