import Commentary.Proofs.ResolveTwice
import Commentary.Proofs.TrailingVariations
import Mathlib.Order.Defs.Unbundled
import Mathlib.Logic.Function.Iterate

/-!
# The owners of a longname

The owner of a longname is a longname again, with an owner of its own, so the owners of a longname
form a chain. Each step of the chain respells what it is given and reads it anew. Cut at a
delimiter, though, the normal spelling of a longname is still normal, and its tokens are those that
it had in the whole (`gather_cut`, `normalChars_cut`). So behind the first step nothing is respelled
any more, and each owner stands, with a delimiter behind it, at the start of the normal spelling of
the longname itself (`below_of_mem_owners`). Since an owner's owners are owners, having an ancestor
is a strict order (`hasAncestor_strictOrder`).
-/

namespace Commentary.Longname

/-! ## Cutting at a delimiter -/

/-- A delimiter behind text stands behind the tokens to which the text was put in front. -/
theorem prependText_eq_append_delimiter {cs : List Char} {ts before after : List Token} {c : Char}
    (h : prependText cs ts = before ++ .delimiter c :: after) :
    ∃ before', ts = before' ++ .delimiter c :: after ∧ before = prependText cs before' := by
  rcases prependText_cases cs ts with ⟨ds, rest, rfl, htext⟩ | ⟨hnot, htext⟩
  · rw [htext] at h
    cases before with
    | nil => cases h
    | cons t before =>
      obtain ⟨rfl, rfl⟩ := List.cons.inj h
      exact ⟨.text ds :: before, rfl, rfl⟩
  · rw [htext] at h
    cases before with
    | nil => cases h
    | cons t before =>
      obtain ⟨rfl, rfl⟩ := List.cons.inj h
      refine ⟨before, rfl, (prependText_of_not_text ?_ cs).symm⟩
      cases before with
      | nil => rfl
      | cons u before => exact hnot

/-- Up to a delimiter, atoms are gathered into the same tokens when nothing follows them: all
parentheses that are open in front of them or open in them are closed by then. -/
theorem gather_cut {c : Char} {depth : Nat} {as : List Atom} {before after : List Token}
    (h : gather depth as = before ++ .delimiter c :: after) :
    ∃ front back, as = front ++ .plain c :: back ∧ gather depth front = before ∧
      ∀ k, depth = k + 1 → closes k front = true := by
  induction as generalizing depth before with
  | nil => simp [gather] at h
  | cons a as ih =>
    cases a with
    | quoted mark span =>
      rw [gather] at h
      cases before with
      | nil => cases h
      | cons t before =>
        obtain ⟨rfl, hrest⟩ := List.cons.inj h
        obtain ⟨front, back, rfl, rfl, hcloses⟩ := ih hrest
        exact ⟨.quoted mark span :: front, back, rfl, by rw [gather], hcloses⟩
    | escaped next =>
      rw [gather] at h
      obtain ⟨before, hrest, rfl⟩ := prependText_eq_append_delimiter h
      obtain ⟨front, back, rfl, rfl, hcloses⟩ := ih hrest
      exact ⟨.escaped next :: front, back, rfl, by rw [gather], hcloses⟩
    | plain e =>
      rw [gather] at h
      split at h
      · -- a parenthesis that is closed, and so in front of the delimiter
        rename_i hopen
        obtain ⟨rfl, hcloses⟩ := hopen
        obtain ⟨before, hrest, rfl⟩ := prependText_eq_append_delimiter h
        obtain ⟨front, back, rfl, rfl, hdeeper⟩ := ih hrest
        refine ⟨.plain '(' :: front, back, rfl, ?_, ?_⟩
        · rw [gather, if_pos ⟨rfl, closes_of_le (Nat.zero_le _) (hdeeper depth rfl)⟩]
        · rintro k rfl
          simpa [closes] using hdeeper (k + 1) rfl
      · rename_i hopen
        split at h
        · rename_i hclose
          obtain ⟨rfl, hpos⟩ := hclose
          obtain ⟨before, hrest, rfl⟩ := prependText_eq_append_delimiter h
          obtain ⟨front, back, rfl, rfl, hshallower⟩ := ih hrest
          refine ⟨.plain ')' :: front, back, rfl, ?_, ?_⟩
          · rw [gather, if_neg (by simp), if_pos ⟨rfl, hpos⟩]
          · rintro k rfl
            cases k with
            | zero => simp [closes]
            | succ k => simpa [closes] using hshallower k rfl
        · rename_i hclose
          split at h
          · rename_i hdelimiter
            obtain ⟨rfl, hpunctuation⟩ := hdelimiter
            cases before with
            | nil =>
              obtain ⟨⟨⟩, rfl⟩ := List.cons.inj h
              exact ⟨[], as, rfl, rfl, fun k hk => absurd hk (Nat.succ_ne_zero k).symm⟩
            | cons t before =>
              obtain ⟨rfl, hrest⟩ := List.cons.inj h
              obtain ⟨front, back, rfl, rfl, -⟩ := ih hrest
              exact ⟨.plain e :: front, back, rfl, gather_delimiter hpunctuation front, fun k hk =>
                absurd hk (Nat.succ_ne_zero k).symm⟩
          · rename_i hdelimiter
            obtain ⟨before, hrest, rfl⟩ := prependText_eq_append_delimiter h
            obtain ⟨front, back, rfl, rfl, hsame⟩ := ih hrest
            have hopen' : ¬(e = '(' ∧ closes 0 front = true) := fun hboth =>
              hopen ⟨hboth.1, closes_append hboth.2 _⟩
            refine ⟨.plain e :: front, back, rfl, ?_, ?_⟩
            · rw [gather, if_neg hopen', if_neg hclose, if_neg hdelimiter]
            · rintro k rfl
              have hne : e ≠ '(' := fun he => hopen' ⟨he, closes_of_le k.zero_le (hsame k rfl)⟩
              have hne' : e ≠ ')' := fun he => hclose ⟨he, k.succ_pos⟩
              simpa [closes, hne, hne'] using hsame k rfl

/-- What is lexed is lexed up to a delimiter: a quotation mark that opens nothing in front of all
that follows opens nothing in front of less. -/
theorem Lexed.cut {front back : List Atom} {c : Char} (h : Lexed (front ++ .plain c :: back)) :
    Lexed front := by
  induction front with
  | nil => trivial
  | cons a front ih =>
    have hrest : Lexed (front ++ .plain c :: back) := h.2
    have hfits : a.Fits ((front ++ .plain c :: back).flatMap Atom.chars) := h.1
    refine ⟨?_, ih hrest⟩
    match a, hfits with
    | .escaped none, hfits =>
      have hnil : (front ++ .plain c :: back).flatMap Atom.chars = [] := hfits
      simp [Atom.chars] at hnil
    | .escaped (some d), _ => trivial
    | .quoted mark span, ⟨hquote, hspan⟩ => exact ⟨hquote, quotedSpan?_append hspan _⟩
    | .plain d, ⟨hd, hspan⟩ =>
      refine ⟨hd, fun hquote => (quotedSpan?_eq_none_iff hquote _).2 ?_⟩
      rcases front with _ | ⟨b, front⟩
      · exact .inr List.not_mem_nil
      rcases (quotedSpan?_eq_none_iff hquote _).1 (hspan hquote) with hhead | hbare
      · left
        rw [List.cons_append, List.flatMap_cons,
          List.head?_append_of_ne_nil _ b.chars_ne_nil] at hhead
        rwa [List.flatMap_cons, List.head?_append_of_ne_nil _ b.chars_ne_nil]
      · right
        rw [bare_flatMap_chars hrest, List.flatMap_append] at hbare
        rw [bare_flatMap_chars (ih hrest)]
        exact fun hmem => hbare (List.mem_append_left _ hmem)

/-- Up to one of its delimiters, a text has the tokens that it has in the whole. -/
theorem tokenize_cut {cs : List Char} {before after : List Token} {c : Char}
    (h : tokenize cs = before ++ .delimiter c :: after) :
    (∃ back, atoms cs = atoms (spell before) ++ back) ∧ tokenize (spell before) = before := by
  obtain ⟨front, back, hatoms, rfl, -⟩ := gather_cut h
  have hlexed := lexed_atoms cs
  rw [hatoms] at hlexed
  have hfront : atoms (spell (gather 0 front)) = front := by
    rw [spell_gather]
    exact atoms_of_lexed hlexed.cut
  exact ⟨⟨_, by rw [hfront, hatoms]⟩, by rw [tokenize, hfront]⟩

/-- Cut at a delimiter, a normal spelling is still normal. -/
theorem normalChars_cut {cs : List Char} {before after : List Token} {c : Char}
    (h : tokenize (normalChars cs) = before ++ .delimiter c :: after) :
    normalChars (spell before) = spell before := by
  obtain ⟨hchain, hsettled⟩ := normalChars_spec cs
  obtain ⟨⟨back, hatoms⟩, htokens⟩ := tokenize_cut h
  rw [hatoms] at hchain
  rw [h, settled_append_delimiter_iff] at hsettled
  refine normalChars_of_settled hchain.left_of_append ?_
  rw [htokens]
  exact hsettled.1

/-! ## Owners -/

/-- A longname is written below an owner: the owner, a delimiter, and more. -/
def Below (owner : String) (cs : List Char) : Prop :=
  ∃ c name, Scope.isPunctuation c = true ∧ name ≠ [] ∧ cs = owner.toList ++ c :: name

/-- What is below an owner is below the owner's owner. -/
theorem Below.trans {owner middle : String} {cs : List Char} (h : Below owner middle.toList)
    (hcs : Below middle cs) : Below owner cs := by
  obtain ⟨c, name, hc, hname, heq⟩ := h
  obtain ⟨d, rest, -, -, rfl⟩ := hcs
  exact ⟨c, name ++ d :: rest, hc, by simp, by rw [heq, List.append_assoc, List.cons_append]⟩

/-- A longname in its normal spelling is written below its owner, and the owner is in its normal
spelling. -/
theorem below_memberof {longname : String} (h : (split longname).memberof ≠ "") :
    Below (split longname).memberof (normalize longname).toList ∧
      normalize (split longname).memberof = (split longname).memberof := by
  revert h
  unfold split normalize
  simp only [String.toList_ofList]
  split
  · rename_i before c after hsplit
    intro _
    obtain ⟨htokens, -, hafter, -⟩ := eq_append_of_lastSplit hsplit
    obtain ⟨t, rest, rfl⟩ := List.exists_cons_of_ne_nil hafter
    have hmem : ∀ u, u = .delimiter c ∨ u = t → u ∈ tokenize (normalChars longname.toList) := by
      rintro u (rfl | rfl) <;> simp [htokens]
    have hname : t.chars ≠ [] := chars_ne_nil_of_mem_gather 0 _ t (hmem t (.inr rfl))
    have hc : Scope.isPunctuation c = true := among_of_mem_gather (hmem _ (.inl rfl))
    refine ⟨⟨c, spell (t :: rest), hc, by simp [hname], ?_⟩, ?_⟩
    · rw [memberof_ofParts, String.toList_ofList, ← spell_of_lastSplit hsplit, spell_tokenize]
    · rw [memberof_ofParts, String.toList_ofList, normalChars_cut htokens]
  · exact fun h => absurd rfl h

/-- Each owner of a longname stands, with a delimiter behind it, at the start of its normal
spelling. -/
theorem below_of_mem_owners {owner longname : String} (h : owner ∈ owners longname) :
    Below owner (normalize longname).toList := by
  fun_induction owners longname with
  | case1 => cases h
  | case2 longname howned ih =>
    obtain ⟨hbelow, hnormal⟩ := below_memberof howned
    rcases List.mem_cons.1 h with rfl | hmem
    · exact hbelow
    · have hnear := ih hmem
      rw [hnormal] at hnear
      exact hnear.trans hbelow

/-- One step along the chain of owners: the owner of a longname, or nothing. -/
def ownerOf (longname : String) : String := (split longname).memberof

theorem ownerOf_eq_empty {longname : String} (h : longname.length ≤ 1) : ownerOf longname = "" := by
  by_contra hne
  obtain ⟨c, name, -, hname, heq⟩ := (below_memberof hne).1
  have hlength := congrArg List.length heq
  have hle := length_normalChars_le longname.toList
  have hpos := List.length_pos_iff.2 hname
  simp only [normalize, String.toList_ofList, List.length_append, List.length_cons,
    String.length_toList] at hlength hle
  omega

/-- The chain of owners ends after as many steps as the longname has characters, at the latest. -/
theorem iterate_ownerOf (longname : String) {n : Nat} (hn : longname.length ≤ n + 1) :
    ownerOf^[n + 1] longname = "" := by
  induction n generalizing longname with
  | zero => exact ownerOf_eq_empty hn
  | succ n ih =>
    rw [Function.iterate_succ_apply]
    refine ih _ ?_
    by_cases hnone : ownerOf longname = ""
    · simp [hnone]
    · have := length_memberof_split_lt longname hnone
      rw [ownerOf]
      omega

/-- The owners of a longname are what the chain comes by before it ends. -/
theorem mem_owners_iff {owner longname : String} :
    owner ∈ owners longname ↔ owner ≠ "" ∧ ∃ n, ownerOf^[n + 1] longname = owner := by
  have hempty : ∀ n, ownerOf^[n] "" = "" := fun n =>
    Function.iterate_fixed (ownerOf_eq_empty (by simp)) n
  fun_induction owners longname with
  | case1 longname hnone =>
    refine ⟨nofun, ?_⟩
    rintro ⟨hne, n, rfl⟩
    rw [Function.iterate_succ_apply, ownerOf, hnone, hempty] at hne
    exact absurd rfl hne
  | case2 longname howned ih =>
    rw [List.mem_cons]
    constructor
    · rintro (rfl | hmem)
      · exact ⟨howned, 0, rfl⟩
      · obtain ⟨hne, n, hn⟩ := ih.1 hmem
        exact ⟨hne, n + 1, hn⟩
    · rintro ⟨hne, n, hn⟩
      cases n with
      | zero => exact .inl hn.symm
      | succ n => exact .inr (ih.2 ⟨hne, n, hn⟩)

/-- The owners of an owner are owners. -/
theorem owners_trans {near far longname : String} (hnear : near ∈ owners longname)
    (hfar : far ∈ owners near) : far ∈ owners longname := by
  obtain ⟨-, n, rfl⟩ := mem_owners_iff.1 hnear
  obtain ⟨hne, m, rfl⟩ := mem_owners_iff.1 hfar
  exact mem_owners_iff.2 ⟨hne, m + 1 + n, Function.iterate_add_apply ownerOf (m + 1) (n + 1) _⟩

/-- A longname is not among its own owners: they are shorter than its normal spelling. -/
theorem not_mem_owners_self (longname : String) : longname ∉ owners longname := by
  intro hmem
  obtain ⟨c, name, -, -, heq⟩ := below_of_mem_owners hmem
  have hlength := congrArg List.length heq
  have hle := length_normalChars_le longname.toList
  simp only [normalize, String.toList_ofList, List.length_append, List.length_cons] at hlength hle
  omega

theorem hasAncestor_iff_mem_owners {parent child : String} :
    hasAncestor parent child = true ↔ parent ∈ owners child := by
  have hmem (h : parent ∈ owners child) : parent ≠ "" ∧ parent ≠ child :=
    ⟨(mem_owners_iff.1 h).1, fun heq => not_mem_owners_self child (heq ▸ h)⟩
  simp only [hasAncestor, Bool.and_eq_true, bne_iff_ne, List.contains_iff_mem]
  exact ⟨And.right, fun h => ⟨hmem h, h⟩⟩

/-- Whether a longname has an ancestor is decided by following its owners, which comes to an end
after as many steps as the longname has characters, at the latest. Having an ancestor is a strict
order, and an ancestor stands, with a delimiter and more behind it, at the start of the normal
spelling of what is below it. -/
theorem hasAncestor_strictOrder :
    (∀ child n, child.length ≤ n + 1 → ownerOf^[n + 1] child = "") ∧
    (∀ parent child, hasAncestor parent child = true ↔
      parent ≠ "" ∧ ∃ n, ownerOf^[n + 1] child = parent) ∧
    IsStrictOrder String (fun parent child => hasAncestor parent child = true) ∧
    ∀ parent child, hasAncestor parent child = true →
      Below parent (split child).full.toList := by
  refine ⟨fun child n => iterate_ownerOf child, fun parent child => ?_, ?_, ?_⟩
  · exact hasAncestor_iff_mem_owners.trans mem_owners_iff
  · simp only [hasAncestor_iff_mem_owners]
    exact
      { irrefl := not_mem_owners_self
        trans := fun _ _ _ hfar hnear => owners_trans hnear hfar }
  · intro parent child h
    rw [full_split]
    exact below_of_mem_owners (hasAncestor_iff_mem_owners.1 h)

end Commentary.Longname
