import Commentary.Proofs.TypeGrammar

/-!
# Where the tokens of a type stand

An expression is cut without loss: its tokens, with the blanks between them, make it up, and the
offset of each token is the number of bytes in front of it (`Tiles`). Only a literal that nothing
closes stops the cutting, and then all that is in front of the literal has been cut
(`isCut_lexFrom`). So all tokens of an expression are well formed (`isFormed_of_lex`).
-/

namespace Commentary.TypeExpr

open Commentary.Text

/-- Some text, which starts at a byte offset, is made up of blanks and of the texts of some tokens,
each at its offset. -/
inductive Tiles : Nat → List Char → List Lexeme → Prop
  | nil (offset : Nat) : Tiles offset [] []
  | blank {offset : Nat} {c : Char} {cs : List Char} {ts : List Lexeme} (h : isBlank c = true)
      (more : Tiles (offset + c.utf8Size) cs ts) : Tiles offset (c :: cs) ts
  | token {offset : Nat} {token : Token} {cs : List Char} {ts : List Lexeme} (h : token.IsFormed)
      (more : Tiles (offset + byteSize token.text.toList) cs ts) :
      Tiles offset (token.text.toList ++ cs) (⟨token, offset⟩ :: ts)

theorem byteSize_append (cs ds : List Char) : byteSize (cs ++ ds) = byteSize cs + byteSize ds := by
  induction cs with
  | nil => exact (Nat.zero_add _).symm
  | cons c cs ih => rw [List.cons_append, byteSize, byteSize, ih, Nat.add_assoc]

/-- A token stands where its offset says. -/
theorem Tiles.exists_append {offset : Nat} {cs : List Char} {ts : List Lexeme}
    (h : Tiles offset cs ts) {lexeme : Lexeme} (hmem : lexeme ∈ ts) :
    ∃ before after, cs = before ++ lexeme.token.text.toList ++ after ∧
      lexeme.offset = offset + byteSize before := by
  induction h with
  | nil => cases hmem
  | @blank offset c cs ts _ _ ih =>
    obtain ⟨before, after, rfl, hoffset⟩ := ih hmem
    exact ⟨c :: before, after, by simp, by rw [hoffset, byteSize, Nat.add_assoc]⟩
  | @token offset token cs ts _ _ ih =>
    rcases List.mem_cons.1 hmem with rfl | hmem
    · exact ⟨[], cs, by simp, rfl⟩
    · obtain ⟨before, after, rfl, hoffset⟩ := ih hmem
      exact ⟨token.text.toList ++ before, after, by simp, by
        rw [hoffset, byteSize_append, Nat.add_assoc]⟩

theorem Tiles.isFormed {offset : Nat} {cs : List Char} {ts : List Lexeme} (h : Tiles offset cs ts) :
    ∀ lexeme ∈ ts, lexeme.token.IsFormed := by
  induction h with
  | nil => exact nofun
  | blank _ _ ih => exact ih
  | token h _ ih => exact List.forall_mem_cons.2 ⟨h, ih⟩

/-- A text without tokens is blank. -/
theorem Tiles.all_isBlank {offset : Nat} {cs : List Char} (h : Tiles offset cs []) :
    cs.all isBlank = true := by
  generalize hts : ([] : List Lexeme) = ts at h
  induction h with
  | nil => rfl
  | blank h _ ih => rw [List.all_cons, h, ih hts, Bool.and_self]
  | token => cases hts

/-- At a byte of some text, behind tokens and blanks, a literal begins that nothing closes. -/
def OpensAt (offset : Nat) (cs : List Char) (place : Nat) : Prop :=
  ∃ before q after ts, cs = before ++ q :: after ∧ Tiles offset before ts ∧ isQuote q = true ∧
    splitAfterMark q after = none ∧ place = offset + byteSize before

/-- What cutting a text comes to: the tokens that make it up, or the place where it cannot go on. -/
def IsCut (offset : Nat) (cs : List Char) : Except Error (List Lexeme) → Prop
  | .ok ts => Tiles offset cs ts
  | .error e => e.cause = .unterminatedLiteral ∧ OpensAt offset cs e.offset

theorem IsCut.blank {offset : Nat} {c : Char} {cs : List Char} {result : Except Error (List Lexeme)}
    (hblank : isBlank c = true) (h : IsCut (offset + c.utf8Size) cs result) :
    IsCut offset (c :: cs) result := by
  rcases result with e | ts
  · obtain ⟨hcause, before, q, after, ts, rfl, htiles, hquote, hopen, hplace⟩ := h
    exact ⟨hcause, c :: before, q, after, ts, rfl, .blank hblank htiles, hquote, hopen, by
      rw [hplace, byteSize, Nat.add_assoc]⟩
  · exact Tiles.blank hblank h

theorem IsCut.token {offset : Nat} (token : Token) {text cs : List Char}
    {result : Except Error (List Lexeme)} (hformed : token.IsFormed)
    (htext : token.text.toList = text) (h : IsCut (offset + byteSize text) cs result) :
    IsCut offset (text ++ cs) (result.map (⟨token, offset⟩ :: ·)) := by
  subst htext
  rcases result with e | ts
  · obtain ⟨hcause, before, q, after, ts, rfl, htiles, hquote, hopen, hplace⟩ := h
    exact ⟨hcause, token.text.toList ++ before, q, after, ⟨token, offset⟩ :: ts, by simp,
      .token hformed htiles, hquote, hopen, by rw [hplace, byteSize_append, Nat.add_assoc]⟩
  · exact Tiles.token hformed h

theorem text_of_ofMark? {c : Char} {token : Token} (h : Token.ofMark? c = some token) :
    token.text.toList = [c] := by
  unfold Token.ofMark? at h
  split at h <;> cases h <;> rfl

/-- Cutting ends with the tokens that make up the text, or at a literal that nothing closes. -/
theorem isCut_lexFrom (offset : Nat) (cs : List Char) : IsCut offset cs (lexFrom offset cs) := by
  fun_induction lexFrom offset cs with
  | case1 offset => exact Tiles.nil offset
  | case2 offset rest ih => exact IsCut.token .ellipsis trivial rfl ih
  | case3 offset c rest hdots hblank ih => exact ih.blank hblank
  | case4 offset c rest hdots hblank hquote span after hsplit ih =>
    have hcut := IsCut.token (.literal (String.ofList (c :: span)))
      (isLiteral_of_splitAfterMark hquote hsplit) String.toList_ofList ih
    rwa [List.cons_append, append_of_splitAfterMark hsplit] at hcut
  | case5 offset c rest hdots hblank hquote hopen =>
    exact ⟨rfl, [], c, rest, [], rfl, .nil offset, hquote, hopen, rfl⟩
  | case6 offset c rest hdots hblank hquote token htoken ih =>
    exact IsCut.token token (isFormed_of_ofMark? htoken) (text_of_ofMark? htoken) ih
  | case7 offset c rest hdots hblank hquote hmark name ih =>
    have hcut := IsCut.token (.name (String.ofList name))
      (isNameText_takeName hdots hblank hquote hmark) String.toList_ofList ih
    rwa [takeName_append] at hcut

theorem tiles_of_lex {text : String} {ts : List Lexeme} (h : lex text = .ok ts) :
    Tiles 0 text.toList ts := by
  have hcut : IsCut 0 text.toList (lex text) := isCut_lexFrom 0 text.toList
  rwa [h] at hcut

theorem isFormed_of_lex {text : String} {ts : List Lexeme} (h : lex text = .ok ts) :
    ∀ lexeme ∈ ts, lexeme.token.IsFormed := (tiles_of_lex h).isFormed

end Commentary.TypeExpr
