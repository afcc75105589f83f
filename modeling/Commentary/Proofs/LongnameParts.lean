import Commentary.Proofs.NormalSpelling
import Mathlib.Data.List.Basic
import Mathlib.Data.List.TakeDrop

/-!
# The parts of a longname make it up

Splitting a longname loses nothing: the owner, the delimiter of the scope, the name and the
variation spell the normal form of the longname they were split from (`join_ofParts`). The normal
form is the longname itself unless it holds the word `prototype` or an opening bracket in front of a
quotation mark (`normalChars_eq_self`).
-/

namespace Commentary.Longname

open Commentary.Text

/-! ## Variations -/

/-- The variation as it is written behind a name, as characters. -/
def variationChars : Option (List Char) → List Char
  | some variation => '(' :: (variation ++ [')'])
  | none => []

theorem map_fst_marked (t : Token) : t.marked.map Prod.fst = t.chars := by
  cases t <;> simp [Token.marked, Token.chars, Function.comp_def]

theorem map_fst_flatMap_marked (ts : List Token) :
    (ts.flatMap Token.marked).map Prod.fst = spell ts := by
  rw [List.map_flatMap, spell]
  simp only [map_fst_marked]

/-- A name and its variation make up what they were split from. -/
theorem splitVariationChars_append (name : List Char) :
    (splitVariationChars name).1 ++ variationChars (splitVariationChars name).2 = name := by
  unfold splitVariationChars
  split
  · rename_i rest hrest
    split
    · rename_i content mark front hspan
      split
      · simp [variationChars]
      · have hmarked : ((tokenize name).flatMap Token.marked).map Prod.fst = name := by
          rw [map_fst_flatMap_marked, spell_tokenize]
        rw [List.span_eq_takeWhile_dropWhile] at hspan
        obtain ⟨hcontent, hfront⟩ := Prod.mk.inj hspan
        have hsplit : content ++ ('(', mark) :: front = rest := by
          rw [← hcontent, ← hfront, List.takeWhile_append_dropWhile]
        have hname := congrArg (fun ms => (ms.map Prod.fst).reverse) hrest
        simp only [List.map_reverse, List.reverse_reverse, hmarked, ← hsplit] at hname
        rw [hname]
        simp [variationChars]
    · simp [variationChars]
  · simp [variationChars]

/-! ## Joining -/

theorem toList_variationSuffix (variation : Option (List Char)) :
    (variationSuffix (variation.map String.ofList)).toList = variationChars variation := by
  cases variation <;> simp [variationSuffix, variationChars]

/-- Owner, delimiter and name make up a longname, whatever of the name is its variation. -/
theorem join_ofParts (full memberof : List Char) (scope : Scope) (name : List Char) :
    (ofParts full memberof scope name).join =
      String.ofList (memberof ++ (scope.punctuation.toList ++ name)) := by
  have hname := splitVariationChars_append name
  apply String.toList_inj.1
  simp only [ofParts, join, String.toList_append, String.toList_ofList, toList_variationSuffix,
    List.append_assoc, hname]

@[simp]
theorem full_ofParts (full memberof : List Char) (scope : Scope) (name : List Char) :
    (ofParts full memberof scope name).full = String.ofList full := rfl

/-- A delimiter writes its scope. -/
theorem punctuation_of_ofPunctuation? {c : Char} {scope : Scope}
    (h : Scope.ofPunctuation? c = some scope) : scope.punctuation.toList = [c] := by
  unfold Scope.ofPunctuation? at h
  split at h <;> cases h <;> rfl

/-- The delimiter of a scope that members can have. -/
theorem exists_delimiter {scope : Scope} (hscope : scope ≠ .global) :
    ∃ c, Scope.ofPunctuation? c = some scope ∧ scope.punctuation.toList = [c] := by
  cases scope with
  | global => exact absurd rfl hscope
  | static => exact ⟨'.', rfl, rfl⟩
  | inner => exact ⟨'~', rfl, rfl⟩
  | «instance» => exact ⟨'#', rfl, rfl⟩

/-- The delimiter at which tokens are cut is one of them. -/
theorem mem_of_lastSplit {ts before after : List Token} {c : Char}
    (h : lastSplit ts = some (before, c, after)) : .delimiter c ∈ ts := by
  simp [append_of_lastSplit h]

theorem split_join_eq_full (longname : String) : (split longname).join = (split longname).full := by
  unfold split
  simp only
  split
  · rename_i before c after hsplit
    have hc : Scope.isPunctuation c = true := among_of_mem_gather (mem_of_lastSplit hsplit)
    obtain ⟨scope, hscope⟩ := Option.isSome_iff_exists.1 hc
    have hspell := spell_of_lastSplit hsplit
    rw [spell_tokenize] at hspell
    rw [join_ofParts, full_ofParts, hscope, Option.getD_some, punctuation_of_ofPunctuation? hscope,
      hspell, List.singleton_append]
  · rw [join_ofParts, full_ofParts]
    rfl

/-! ## A dictated owner -/

/-- Dropping as many bytes as some characters have drops these characters. -/
theorem dropBytes_append (cs rest : List Char) :
    dropBytes (String.ofList cs).utf8ByteSize (cs ++ rest) = rest := by
  induction cs with
  | nil => simp [dropBytes]
  | cons c cs ih =>
    have hpos := c.utf8Size_pos
    have hsize : (String.ofList (c :: cs)).utf8ByteSize =
        c.utf8Size + (String.ofList cs).utf8ByteSize := by
      rw [String.ofList_cons, String.utf8ByteSize_append, String.utf8ByteSize_singleton]
    rw [List.cons_append, hsize, dropBytes.eq_3 _ _ _ (by omega), if_pos (by omega),
      Nat.add_sub_cancel_left, ih]

theorem splitUnder_join_eq_full {owner longname : String}
    (h : owner.toList <+: (normalize longname).toList) :
    (splitUnder owner longname).join = (splitUnder owner longname).full := by
  obtain ⟨rest, hrest⟩ := h
  rw [normalize, String.toList_ofList] at hrest
  have hdrop : dropBytes owner.utf8ByteSize (normalChars longname.toList) = rest := by
    rw [← hrest]
    simpa using dropBytes_append owner.toList rest
  unfold splitUnder
  simp only [hdrop]
  split
  -- the owner ends with a delimiter
  · rename_i scope hscope
    have hlast : owner.toList.getLast?.bind Scope.ofPunctuation? = some scope := by
      split at hscope
      · exact hscope
      · cases hscope
    obtain ⟨c, hc, hpunctuation⟩ := Option.bind_eq_some_iff.1 hlast
    have howner : owner.toList.dropLast ++ [c] = owner.toList :=
      List.dropLast_append_getLast? c hc
    rw [join_ofParts, full_ofParts, punctuation_of_ofPunctuation? hpunctuation, ← hrest,
      ← List.append_assoc, howner]
  · split
    · rename_i c name
      split
      -- the name starts with one
      · rename_i scope hscope
        rw [join_ofParts, full_ofParts, punctuation_of_ofPunctuation? hscope, ← hrest,
          List.singleton_append]
      · rw [join_ofParts, full_ofParts, ← hrest]
        rfl
    · rw [join_ofParts, full_ofParts, ← hrest]
      rfl

/-! ## Longnames in their normal spelling -/

/-- A character of an identifier. -/
def isIdentifierChar (c : Char) : Bool := isNameChar c || c == '_' || c == '$'

/-- A word stands in a text, and not as a part of a longer one. -/
def HasWord (word text : List Char) : Prop :=
  ∃ before after, text = before ++ (word ++ after) ∧
    (∀ c ∈ before.getLast?, isIdentifierChar c = false) ∧
      ∀ c ∈ after.head?, isIdentifierChar c = false

/-- An opening bracket stands in a text right in front of a quotation mark. -/
def HasBracketedQuote (text : List Char) : Prop :=
  ∃ q, isQuote q = true ∧ ['[', q] <:+: text

theorem isIdentifierChar_of_isPunctuation {c : Char} (h : Scope.isPunctuation c = true) :
    isIdentifierChar c = false := by
  unfold Scope.isPunctuation Scope.ofPunctuation? at h
  split at h
  · rfl
  · rfl
  · rfl
  · cases h

theorem isIdentifierChar_of_isQuote {c : Char} (h : isQuote c = true) :
    isIdentifierChar c = false := by
  simp only [isQuote, Bool.or_eq_true, beq_iff_eq] at h
  rcases h with rfl | rfl <;> rfl

/-- Beside text stands what belongs to no identifier. -/
theorem isIdentifierChar_eq_false_of_mem {cs : List Char} {t : Token} (hmem : t ∈ tokenize cs)
    (ht : t.isText = false) :
    t.chars ≠ [] ∧ (∀ c ∈ t.chars.getLast?, isIdentifierChar c = false) ∧
      ∀ c ∈ t.chars.head?, isIdentifierChar c = false := by
  have hamong := among_of_mem_gather hmem
  cases t with
  | text => cases ht
  | delimiter d =>
    have hd := isIdentifierChar_of_isPunctuation hamong
    simp [Token.chars, hd]
  | quoted qs =>
    obtain ⟨mark, span, rfl, hquoted⟩ := hamong
    obtain ⟨hquote, hlast⟩ := (lexed_atoms cs).mark_of_mem hquoted
    have hmark := isIdentifierChar_of_isQuote hquote
    simp [Token.chars, List.getLast?_cons, hlast, hmark]

/-- A text token is a word of the text. -/
theorem hasWord_of_mem_tokenize {cs word : List Char} (h : .text word ∈ tokenize cs) :
    HasWord word cs := by
  obtain ⟨before, after, hts⟩ := List.append_of_mem h
  have hchain : (before ++ .text word :: after).IsChain Apart := hts ▸ isChain_gather 0 (atoms cs)
  obtain ⟨-, hafter, hbefore⟩ := List.isChain_append.1 hchain
  refine ⟨spell before, spell after, ?_, ?_, ?_⟩
  · rw [← spell_tokenize cs, hts, spell_append, spell_cons]
    rfl
  · intro c hc
    rcases List.eq_nil_or_concat before with rfl | ⟨front, t, rfl⟩
    · cases hc
    · have ht : t.isText = false := by
        refine Bool.eq_false_iff.2 fun htext => ?_
        exact hbefore t (by simp) (.text word) (by simp) ⟨htext, rfl⟩
      have hmem : t ∈ tokenize cs := by simp [hts]
      obtain ⟨hne, hlast, -⟩ := isIdentifierChar_eq_false_of_mem hmem ht
      refine hlast c ?_
      simpa [List.getLast?_append_of_ne_nil _ hne] using hc
  · intro c hc
    cases after with
    | nil => cases hc
    | cons t back =>
      have ht : t.isText = false := by
        refine Bool.eq_false_iff.2 fun htext => ?_
        exact (List.isChain_cons_cons.1 hafter).1 ⟨rfl, htext⟩
      have hmem : t ∈ tokenize cs := by simp [hts]
      obtain ⟨hne, -, hhead⟩ := isIdentifierChar_eq_false_of_mem hmem ht
      refine hhead c ?_
      simpa [List.head?_append_of_ne_nil _ hne] using hc

/-- Without a `prototype` among the tokens, no segment is one. -/
theorem settled_of_not_mem {starts : Bool} {ts : List Token} (h : .text prototypeName ∉ ts) :
    Settled starts ts := by
  induction ts generalizing starts with
  | nil => trivial
  | cons token rest ih =>
    rw [List.mem_cons, not_or] at h
    exact ⟨fun _ heq => h.1 heq.symm, ih h.2⟩

theorem isChain_atoms {cs : List Char} (h : ¬HasBracketedQuote cs) :
    (atoms cs).IsChain NotBracketed := by
  rw [List.isChain_iff_forall_rel_of_append_cons_cons]
  rintro a b front back hatoms ⟨rfl, mark, span, rfl⟩
  obtain ⟨hquote, -⟩ : isQuote mark = true ∧ span.getLast? = some mark := by
    refine (lexed_atoms cs).mark_of_mem ?_
    simp [hatoms]
  refine h ⟨mark, hquote, front.flatMap Atom.chars, span ++ back.flatMap Atom.chars, ?_⟩
  rw [← flatMap_chars_atoms cs, hatoms]
  simp [Atom.chars]

/-- A longname without the word `prototype` and without an opening bracket in front of a quotation
mark is in its normal spelling. -/
theorem normalChars_eq_self {cs : List Char} (hword : ¬HasWord prototypeName cs)
    (hbracket : ¬HasBracketedQuote cs) : normalChars cs = cs := by
  refine normalChars_of_settled (isChain_atoms hbracket) (settled_of_not_mem ?_)
  exact fun hmem => hword (hasWord_of_mem_tokenize hmem)

/-- Splitting loses nothing: the parts of a longname spell its normal form, and this is the longname
itself if that holds neither the word `prototype` nor a quotation mark behind an opening bracket.
Nor does anything get lost when the owner is dictated, as long as the longname starts with it. -/
theorem join_split (longname : String) :
    (split longname).join = (split longname).full ∧
    (¬HasWord prototypeName longname.toList → ¬HasBracketedQuote longname.toList →
      (split longname).join = longname) ∧
    ∀ owner : String, owner.toList <+: (normalize longname).toList →
      (splitUnder owner longname).join = (splitUnder owner longname).full := by
  refine ⟨split_join_eq_full longname, fun hword hbracket => ?_, fun owner howner => ?_⟩
  · rw [split_join_eq_full, full_split, normalize, normalChars_eq_self hword hbracket,
      String.ofList_toList]
  · exact splitUnder_join_eq_full howner

/-- A longname with a quoted owner that has a dot in it, and with a variation. -/
def quotedOwner : String := "Soße.\"a.b\"#eat(sip)"

theorem join_split_quotedOwner :
    ¬HasWord prototypeName quotedOwner.toList ∧ ¬HasBracketedQuote quotedOwner.toList ∧
      (split quotedOwner).join = quotedOwner ∧
      (splitUnder "Soße." quotedOwner).join = (splitUnder "Soße." quotedOwner).full := by
  obtain ⟨-, hself, hunder⟩ := join_split quotedOwner
  have hword : ¬HasWord prototypeName quotedOwner.toList := by
    rintro ⟨before, after, htext, -, -⟩
    have hmem : 'y' ∈ quotedOwner.toList := by
      rw [htext]
      simp [prototypeName]
    revert hmem
    decide
  have hbracket : ¬HasBracketedQuote quotedOwner.toList := by
    rintro ⟨q, -, hinfix⟩
    have hmem : '[' ∈ quotedOwner.toList := hinfix.subset List.mem_cons_self
    revert hmem
    decide
  have hnormal : normalize quotedOwner = quotedOwner := by
    rw [normalize, normalChars_eq_self hword hbracket, String.ofList_toList]
  have hprefix : "Soße.".toList <+: (normalize quotedOwner).toList := by
    rw [hnormal]
    decide
  exact ⟨hword, hbracket, hself hword hbracket, hunder "Soße." hprefix⟩

/-! ## Instance members -/

/-- A word of letters, digits, `_` and `$` that is not the segment that stands for instances. -/
def IsIdentifier (s : String) : Prop :=
  s ≠ "" ∧ (∀ c ∈ s.toList, isIdentifierChar c = true) ∧ s ≠ "prototype"

instance : DecidablePred IsIdentifier := fun s =>
  decidable_of_iff (s ≠ "" ∧ s.toList.all isIdentifierChar = true ∧ s ≠ "prototype") <| by
    rw [List.all_eq_true, IsIdentifier]

theorem ne_of_isIdentifierChar {c d : Char} (hc : isIdentifierChar c = true)
    (hd : isIdentifierChar d = false) : c ≠ d := by
  rintro rfl
  simp [hc] at hd

theorem isFiller_of_isIdentifierChar {c : Char} (h : isIdentifierChar c = true) :
    isFiller c = true := by
  refine isFiller_iff.2 ⟨?_, ne_of_isIdentifierChar h rfl, ne_of_isIdentifierChar h rfl,
    ne_of_isIdentifierChar h rfl⟩
  refine Bool.eq_false_iff.2 fun hquote => ?_
  simp [isIdentifierChar_of_isQuote hquote] at h

theorem isPunctuation_of_isIdentifierChar {c : Char} (h : isIdentifierChar c = true) :
    Scope.isPunctuation c = false := by
  refine Bool.eq_false_iff.2 fun hpunctuation => ?_
  simp [isIdentifierChar_of_isPunctuation hpunctuation] at h

theorem prependText_prependText (cs ds : List Char) (ts : List Token) :
    prependText cs (prependText ds ts) = prependText (cs ++ ds) ts := by
  rcases prependText_cases ds ts with ⟨es, rest, rfl, htext⟩ | ⟨hnot, htext⟩
  · rw [htext, prependText_of_text, prependText_of_text, List.append_assoc]
  · rw [htext, prependText_of_text, prependText_of_not_text hnot]

/-- A character that is text wherever it stands. -/
def isTextual (c : Char) : Bool := isFiller c && !Scope.isPunctuation c

theorem isTextual_iff {c : Char} :
    isTextual c = true ↔ isFiller c = true ∧ Scope.isPunctuation c = false := by
  simp [isTextual]

theorem isTextual_of_isIdentifierChar {c : Char} (h : isIdentifierChar c = true) :
    isTextual c = true :=
  isTextual_iff.2 ⟨isFiller_of_isIdentifierChar h, isPunctuation_of_isIdentifierChar h⟩

/-- Characters that are text are gathered as such. -/
theorem gather_textual {cs : List Char} (hne : cs ≠ []) (hcs : ∀ c ∈ cs, isTextual c = true)
    (as : List Atom) : gather 0 (cs.map .plain ++ as) = prependText cs (gather 0 as) := by
  have hchar : ∀ {c : Char}, isTextual c = true → ∀ as : List Atom,
      gather 0 (.plain c :: as) = prependText [c] (gather 0 as) := by
    intro c hc as
    obtain ⟨hfiller, hpunctuation⟩ := isTextual_iff.1 hc
    obtain ⟨-, -, hopen, -⟩ := isFiller_iff.1 hfiller
    simp [gather, hopen, hpunctuation]
  induction cs with
  | nil => exact absurd rfl hne
  | cons c cs ih =>
    rw [List.forall_mem_cons] at hcs
    rw [List.map_cons, List.cons_append, hchar hcs.1]
    cases cs with
    | nil => rfl
    | cons d cs => rw [ih (by simp) hcs.2, prependText_prependText, List.singleton_append]

theorem atoms_of_filler {cs : List Char} (h : ∀ c ∈ cs, isFiller c = true) :
    atoms cs = cs.map .plain := by
  have hlexed : Lexed (cs.map .plain) := by
    have hnil : Lexed [] := trivial
    simpa using lexed_filler_append h hnil
  rw [← atoms_of_lexed hlexed, flatMap_chars_map_plain]

theorem tokenize_textual {cs : List Char} (hne : cs ≠ []) (hcs : ∀ c ∈ cs, isTextual c = true) :
    tokenize cs = [.text cs] := by
  have hatoms := atoms_of_filler fun c hc => (isTextual_iff.1 (hcs c hc)).1
  have hgather := gather_textual hne hcs []
  rw [List.append_nil] at hgather
  rw [tokenize, hatoms, hgather]
  rfl

/-- A name without parentheses has no variation. -/
theorem splitVariationChars_textual {cs : List Char} (hne : cs ≠ [])
    (hcs : ∀ c ∈ cs, isTextual c = true) : splitVariationChars cs = (cs, none) := by
  unfold splitVariationChars
  rw [tokenize_textual hne hcs]
  split
  · rename_i rest hrest
    -- the last character is text, and so no parenthesis
    have hlast : ')' ∈ cs := by
      have hmem : (')', true) ∈ ([Token.text cs].flatMap Token.marked).reverse := by
        rw [hrest]
        exact List.mem_cons_self
      simpa [Token.marked] using hmem
    cases hcs _ hlast
  · rfl

section Members

variable {owner name : List Char} (howner : owner ≠ []) (hname : name ≠ [])
  (howner' : ∀ c ∈ owner, isIdentifierChar c = true)
  (hname' : ∀ c ∈ name, isIdentifierChar c = true)
include hname hname'

/-- An identifier has no variation. -/
theorem splitVariationChars_identifier : splitVariationChars name = (name, none) :=
  splitVariationChars_textual hname fun c hc => isTextual_of_isIdentifierChar (hname' c hc)

include howner howner'

theorem tokenize_member :
    tokenize (owner ++ '#' :: name) = [.text owner, .delimiter '#', .text name] := by
  have hfiller : ∀ c ∈ owner ++ '#' :: name, isFiller c = true := by
    simp only [List.forall_mem_append, List.forall_mem_cons]
    exact ⟨fun c hc => isFiller_of_isIdentifierChar (howner' c hc), rfl,
      fun c hc => isFiller_of_isIdentifierChar (hname' c hc)⟩
  have htextual : ∀ {cs : List Char}, (∀ c ∈ cs, isIdentifierChar c = true) →
      ∀ c ∈ cs, isTextual c = true :=
    fun hcs c hc => isTextual_of_isIdentifierChar (hcs c hc)
  have hgather := gather_textual hname (htextual hname') []
  rw [List.append_nil] at hgather
  rw [tokenize, atoms_of_filler hfiller, List.map_append, List.map_cons,
    gather_textual howner (htextual howner'), gather_delimiter rfl, hgather]
  rfl

/-- An instance member below an identifier is in its normal spelling. -/
theorem normalChars_member (hprototype : owner ≠ prototypeName) :
    normalChars (owner ++ '#' :: name) = owner ++ '#' :: name := by
  refine normalChars_of_settled (isChain_atoms ?_) ?_
  · rintro ⟨q, -, hinfix⟩
    have hmem : '[' ∈ owner ++ '#' :: name := hinfix.subset List.mem_cons_self
    simp only [List.mem_append, List.mem_cons] at hmem
    rcases hmem with hmem | hmem | hmem
    · exact ne_of_isIdentifierChar (howner' _ hmem) rfl rfl
    · cases hmem
    · exact ne_of_isIdentifierChar (hname' _ hmem) rfl rfl
  · rw [tokenize_member howner hname howner' hname']
    refine ⟨fun _ htext => ?_, nofun, nofun, trivial⟩
    exact hprototype (Token.text.inj htext)

end Members

/-- The longname of an instance member. -/
def memberName (owner name : String) : String := owner ++ "#" ++ name

theorem toList_memberName (owner name : String) :
    (memberName owner name).toList = owner.toList ++ '#' :: name.toList := by
  simp [memberName]

/-- An instance member is split into its owner and its name. -/
theorem split_memberName {owner name : String} (howner : IsIdentifier owner)
    (hname : IsIdentifier name) :
    split (memberName owner name) =
      { full := memberName owner name, memberof := owner, scope := .instance, name,
        variation := none } := by
  have hne : ∀ {s : String}, s ≠ "" → s.toList ≠ [] := by
    intro s hs hnil
    exact hs (String.toList_eq_nil_iff.1 hnil)
  have hprototype : owner.toList ≠ prototypeName := by
    intro h
    refine howner.2.2 (String.toList_inj.1 ?_)
    rw [h]
    rfl
  have htokens := tokenize_member (hne howner.1) (hne hname.1) howner.2.1 hname.2.1
  have hnormal :=
    normalChars_member (hne howner.1) (hne hname.1) howner.2.1 hname.2.1 hprototype
  unfold split
  rw [toList_memberName, hnormal]
  simp only [htokens, lastSplit, List.isEmpty_cons, Bool.false_eq_true, if_false, Option.getD_some,
    Scope.ofPunctuation?, ofParts, spell_cons, spell_nil, Token.chars, List.append_nil,
    splitVariationChars_identifier (hne hname.1) hname.2.1, String.ofList_toList, Option.map_none]
  rw [← toList_memberName, String.ofList_toList]

/-- Owner and name can be told from the longname of an instance member. -/
theorem memberName_inj {owner name owner' name' : String} (howner : IsIdentifier owner)
    (hname : IsIdentifier name) (h : memberName owner name = memberName owner' name') :
    owner = owner' ∧ name = name' := by
  have hnot : ∀ {s : String}, IsIdentifier s → '#' ∉ s.toList := by
    intro s hs hmem
    exact ne_of_isIdentifierChar (hs.2.1 _ hmem) rfl rfl
  have hlist := congrArg String.toList h
  rw [toList_memberName, toList_memberName,
    List.append_cons_inj_of_notMem (hnot howner) (hnot hname)] at hlist
  exact ⟨String.toList_inj.1 hlist.1, String.toList_inj.1 hlist.2.2⟩

/-- No identifier is the longname of an instance member. -/
theorem IsIdentifier.ne_memberName {s : String} (h : IsIdentifier s) (owner name : String) :
    s ≠ memberName owner name := by
  rintro rfl
  have hmem : '#' ∈ (memberName owner name).toList := by
    rw [toList_memberName]
    simp
  exact ne_of_isIdentifierChar (h.2.1 _ hmem) rfl rfl

end Commentary.Longname
