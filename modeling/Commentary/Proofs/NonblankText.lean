import Commentary.Proofs.TagBodies

/-!
# What splitting into tags keeps

Splitting a body into tags is about characters that are not blank, its *ink*: cutting it into lines
loses none of it (`ink_lineChars`), and what is gathered from the lines is the lines in front of the
first tag, and the tags (`ink_gatherTags`). A tag is read with all its ink (`ink_spelled`). So the
ink of a body is that of its tags, unless there are lines in front of the first one.

There should be none, as a body that does not start with a tag is given one. But whether it does is
asked twice, and not in the same words: the tag is put in front of a body without an at sign, and a
line starts a tag if a character that is not blank stands behind the sign. A body whose at sign
stands alone is between the two, and `ink_tags_iff` says that it is the only one that loses text.
-/

namespace Commentary.Comment

open Commentary.Text Commentary.Tag

/-! ## Ink -/

/-- The characters of a text that are not blank. -/
def ink (cs : List Char) : List Char := cs.filter (!isBlank ·)

@[simp]
theorem ink_append (cs ds : List Char) : ink (cs ++ ds) = ink cs ++ ink ds := List.filter_append ..

theorem ink_eq_nil {cs : List Char} (h : ∀ c ∈ cs, isBlank c = true) : ink cs = [] := by
  simpa [ink] using h

theorem ink_cons_of_blank {c : Char} (hc : isBlank c = true) (cs : List Char) :
    ink (c :: cs) = ink cs :=
  List.filter_cons_of_neg (by simp [hc])

theorem ink_at (cs : List Char) : ink ('@' :: cs) = '@' :: ink cs := rfl

theorem ink_reverse_dropCarriageReturn (line : List Char) :
    ink (dropCarriageReturn line).reverse = ink line.reverse := by
  unfold dropCarriageReturn
  split
  · have hreturn : ink ['\r'] = [] := ink_eq_nil (List.forall_mem_singleton.2 (by decide))
    rw [List.reverse_cons, ink_append, hreturn, List.append_nil]
  · rfl

theorem ink_linesFrom (read cs : List Char) :
    (linesFrom read cs).flatMap ink = ink (read.reverse ++ cs) := by
  induction cs generalizing read with
  | nil =>
    rw [linesFrom, List.append_nil]
    split
    · rename_i hread
      rw [List.isEmpty_iff.1 hread]
      rfl
    · simp
  | cons c cs ih =>
    rw [linesFrom]
    split
    · rename_i hc
      rw [List.flatMap_cons, ih, ink_reverse_dropCarriageReturn, hc, ink_append read.reverse,
        ink_cons_of_blank (by decide)]
      rfl
    · rw [ih, List.reverse_cons, List.append_assoc]
      rfl

/-- Cutting a text into lines loses blanks only. -/
theorem ink_lineChars (cs : List Char) : (lineChars cs).flatMap ink = ink cs :=
  ink_linesFrom [] cs

theorem ink_takeWhile_dropWhile (p : List Char → Bool) (cs : List Char) :
    ((lineChars cs).takeWhile p).flatMap ink ++ ((lineChars cs).dropWhile p).flatMap ink =
      ink cs := by
  rw [← List.flatMap_append, List.takeWhile_append_dropWhile, ink_lineChars]

theorem ink_joinTag (line : List Char) (more : List (List Char)) :
    ink (joinTag line more) = ink line ++ more.flatMap ink := by
  have hfeed (l : List Char) : ink ('\n' :: l) = ink l := ink_cons_of_blank (by decide) l
  rw [joinTag, ink_append]
  refine congrArg (ink line ++ ·) ?_
  induction more with
  | nil => rfl
  | cons next more ih => rw [List.flatMap_cons, List.flatMap_cons, ink_append, hfeed, ih]

theorem ink_joinLines (ls : List (List Char)) : ink (joinLines ls) = ls.flatMap ink := by
  cases ls with
  | nil => rfl
  | cons line more => rw [joinLines_cons, ink_joinTag, List.flatMap_cons]

/-! ## Gathering and reading -/

theorem ink_of_tagStart? {line first : List Char} (h : tagStart? line = some first) :
    ink line = '@' :: ink first := by
  have hline : ink line = ink (trimStartChars line) := by
    have hfront : ink (line.takeWhile isBlank) = [] :=
      ink_eq_nil (List.all_eq_true.1 List.all_takeWhile)
    conv_lhs => rw [← List.takeWhile_append_dropWhile (p := isBlank) (l := line)]
    rw [ink_append, hfront]
    rfl
  rw [hline]
  unfold tagStart? at h
  split at h
  · rename_i c rest htrim
    split at h
    · cases h
    · cases h
      rw [htrim, ink_at]
  · cases h

/-- Gathering loses nothing: what stands in front of the first tag is there beside the tags. -/
theorem ink_gatherTags (ls : List (List Char)) :
    (gatherTags ls).1.flatMap ink ++ (gatherTags ls).2.flatMap ('@' :: ink ·) = ls.flatMap ink := by
  induction ls with
  | nil => rfl
  | cons line rest ih =>
    rw [gatherTags, List.flatMap_cons, ← ih]
    rcases hstart : tagStart? line with _ | first
    · simp
    · simp [ink_of_tagStart? hstart, ink_joinTag]

/-- What stands in front of the first tag are the lines up to the one that starts it. -/
theorem gatherTags_fst (ls : List (List Char)) :
    (gatherTags ls).1 = ls.takeWhile fun line => !(tagStart? line).isSome := by
  induction ls with
  | nil => rfl
  | cons line rest ih =>
    rw [gatherTags]
    rcases hstart : tagStart? line with _ | first
    · rw [List.takeWhile_cons_of_pos (by simp [hstart]), ← ih]
    · rw [List.takeWhile_cons_of_neg (by simp [hstart])]

/-- A tag as it is spelled: an at sign, the title and the text. -/
def spelled (tag : WrittenTag) : List Char :=
  '@' :: (tag.title.toList ++ (tag.text.getD "").toList)

/-- A tag is read with all its ink. -/
theorem ink_spelled (tag : List Char) : ink (spelled (readTag tag)) = '@' :: ink tag := by
  have hsplit : tag = (splitAtBlank tag).1 ++ (splitAtBlank tag).2 := by
    rw [splitAtBlank, List.span_eq_takeWhile_dropWhile, List.takeWhile_append_dropWhile]
  have htext : ink ((readTag tag).text.getD "").toList = ink (splitAtBlank tag).2 := by
    simp only [readTag]
    split
    · rename_i hblank
      rw [ink_eq_nil (List.all_eq_true.1 hblank)]
      rfl
    · rw [Option.getD_some, String.toList_ofList]
  have htitle : (readTag tag).title.toList = (splitAtBlank tag).1 := String.toList_ofList
  rw [spelled, ink_at, ink_append, htext, htitle, ← ink_append, ← hsplit]

/-! ## Where a body starts -/

/-- A body whose first character is an at sign with no title behind it. -/
def StartsBare (body : List Char) : Prop :=
  body.head? = some '@' ∧ ∀ c ∈ body.tail.head?, isBlank c = true

instance : DecidablePred StartsBare := fun body =>
  inferInstanceAs (Decidable (body.head? = some '@' ∧ ∀ c ∈ body.tail.head?, isBlank c = true))

/-- The first line of a text is how the text starts. -/
theorem isPrefix_of_head?_linesFrom (read cs : List Char) :
    ∀ line ∈ (linesFrom read cs).head?, line <+: read.reverse ++ cs := by
  induction cs generalizing read with
  | nil =>
    intro line hline
    rw [linesFrom] at hline
    split at hline
    · cases hline
    · cases hline
      exact List.prefix_append ..
  | cons c cs ih =>
    intro line hline
    rw [linesFrom] at hline
    split at hline
    · cases hline
      unfold dropCarriageReturn
      split
      · rw [List.reverse_cons, List.append_assoc]
        exact List.prefix_append ..
      · exact List.prefix_append ..
    · have hfront := ih (c :: read) line hline
      rwa [List.reverse_cons, List.append_assoc] at hfront

/-- A line goes on at least as long as nothing ends it. -/
theorem exists_linesFrom_eq {c : Char} (hc : c ≠ '\r') (front start cs : List Char) :
    ∃ more lines, linesFrom (front ++ c :: start) cs =
      ((c :: start).reverse ++ more) :: lines := by
  induction cs generalizing front with
  | nil =>
    refine ⟨front.reverse, [], ?_⟩
    rw [linesFrom, if_neg (by simp), List.reverse_append]
  | cons d cs ih =>
    rw [linesFrom]
    split
    · have hdrop : ∃ more, (dropCarriageReturn (front ++ c :: start)).reverse =
          (c :: start).reverse ++ more := by
        unfold dropCarriageReturn
        split
        · rename_i line hline
          cases front with
          | nil => exact absurd (List.cons.inj hline).1 hc
          | cons e front =>
            rw [← (List.cons.inj hline).2]
            exact ⟨front.reverse, List.reverse_append⟩
        · rw [List.reverse_append]
          exact ⟨_, rfl⟩
      obtain ⟨more, hmore⟩ := hdrop
      rw [hmore]
      exact ⟨more, _, rfl⟩
    · exact ih (d :: front)

/-- A text that starts with a tag has its title in the first line. -/
theorem exists_tagStart?_of_titled {c : Char} (hc : isBlank c = false) (cs : List Char) :
    ∃ line lines, lineChars ('@' :: c :: cs) = line :: lines ∧ (tagStart? line).isSome := by
  have hreturn : c ≠ '\r' := by
    rintro rfl
    cases hc
  have hfeed : c ≠ '\n' := by
    rintro rfl
    cases hc
  obtain ⟨more, lines, hlines⟩ := exists_linesFrom_eq hreturn [] ['@'] cs
  refine ⟨'@' :: c :: more, lines, ?_, startsTag_iff.1 ⟨[], c, more, rfl, by simp, hc⟩⟩
  rw [lineChars, linesFrom, if_neg (by decide), linesFrom, if_neg hfeed]
  exact hlines

/-- The first line of a bare body starts no tag. -/
theorem StartsBare.exists_line {body : List Char} (h : StartsBare body) :
    ∃ line lines, lineChars body = line :: lines ∧ '@' ∈ line ∧ tagStart? line = none := by
  obtain ⟨rest, rfl⟩ := List.head?_eq_some_iff.1 h.1
  obtain ⟨more, lines, hlines⟩ := exists_linesFrom_eq (show '@' ≠ '\r' by decide) [] [] rest
  have hcut : lineChars ('@' :: rest) = ('@' :: more) :: lines := by
    rw [lineChars, linesFrom, if_neg (by decide)]
    exact hlines
  refine ⟨'@' :: more, lines, hcut, List.mem_cons_self, tagStart?_eq_none ?_⟩
  have hfront : '@' :: more <+: '@' :: rest := by
    refine isPrefix_of_head?_linesFrom [] _ _ ?_
    rw [← lineChars, hcut]
    rfl
  have hmore : more <+: rest := (List.cons_prefix_cons.1 hfront).2
  -- a title would have to begin with the blank behind the sign
  rintro ⟨blanks, c, title, hline, hblanks, hc⟩
  cases blanks with
  | nil =>
    obtain rfl : more = c :: title := (List.cons.inj hline).2
    obtain ⟨behind, rfl⟩ := hmore
    rw [h.2 c rfl] at hc
    cases hc
  | cons b blanks =>
    have hb := hblanks b List.mem_cons_self
    rw [← (List.cons.inj hline).1] at hb
    cases hb

/-! ## Whole comments -/

/-- What is put in front of a body that starts with no at sign: the tag of a description. -/
def impliedTitle (body : List Char) : List Char :=
  if body = [] ∨ body.head? = some '@' then [] else "@description".toList

/-- The ink of all tags of a comment, as they are spelled. -/
def tagInk (comment : String) : List Char := ink ((tags comment).flatMap spelled)

theorem ink_flatMap {α : Type} (f : α → List Char) (items : List α) :
    ink (items.flatMap f) = items.flatMap fun item => ink (f item) := by
  induction items with
  | nil => rfl
  | cons item items ih => rw [List.flatMap_cons, List.flatMap_cons, ink_append, ih]

/-- The ink of the tags of a body is what is gathered of it. -/
theorem ink_tagsOfBody {body : List Char} (hne : body ≠ []) :
    ink ((tagsOfBody body).flatMap spelled) =
      (gatherTags (lineChars (withDescriptionTag body))).2.flatMap ('@' :: ink ·) := by
  rw [tagsOfBody, if_neg (by simpa using hne), ink_flatMap, List.flatMap_map]
  simp only [ink_spelled]

theorem ink_tagsOfBody_of_titled {body : List Char} (hne : body ≠ []) {c : Char}
    (hc : isBlank c = false) {rest : List Char} (h : withDescriptionTag body = '@' :: c :: rest) :
    ink ((tagsOfBody body).flatMap spelled) = ink (withDescriptionTag body) := by
  obtain ⟨line, lines, hlines, hstart⟩ := exists_tagStart?_of_titled hc rest
  have hgather := ink_gatherTags (lineChars (withDescriptionTag body))
  rw [gatherTags_fst, h, hlines, List.takeWhile_cons_of_neg (by simp [hstart]), ← hlines, ← h,
    ink_lineChars] at hgather
  rw [ink_tagsOfBody hne]
  exact hgather

theorem ink_tagsOfBody_of_not_startsBare {body : List Char} (htrimmed : IsTrimmed body)
    (hbare : ¬StartsBare body) :
    ink ((tagsOfBody body).flatMap spelled) = impliedTitle body ++ ink body := by
  rcases body with _ | ⟨c, rest⟩
  · rfl
  have hhead : trimStartChars (c :: rest) = c :: rest := trimStartChars_eq_self htrimmed.head
  by_cases hc : c = '@'
  · subst hc
    have himplied : impliedTitle ('@' :: rest) = [] := if_pos (.inr rfl)
    have hwith : withDescriptionTag ('@' :: rest) = '@' :: rest := by
      rw [withDescriptionTag, hhead]
      exact if_pos rfl
    -- the sign is not bare, so a title stands behind it
    have htitle : ∃ d ∈ rest.head?, isBlank d = false := by
      by_contra hnone
      refine hbare ⟨rfl, fun d hd => ?_⟩
      by_contra hblank
      exact hnone ⟨d, hd, Bool.not_eq_true _ ▸ hblank⟩
    obtain ⟨d, hd, hblank⟩ := htitle
    obtain ⟨text, rfl⟩ := List.head?_eq_some_iff.1 hd
    rw [ink_tagsOfBody_of_titled (List.cons_ne_nil _ _) hblank hwith, hwith, himplied,
      List.nil_append]
  · have hhead? : (c :: rest).head? ≠ some '@' := fun h => hc (Option.some.inj h)
    have himplied : impliedTitle (c :: rest) = ink "@description ".toList := by
      rw [impliedTitle, if_neg (by simp [hc])]
      decide
    have hwith : withDescriptionTag (c :: rest) = "@description ".toList ++ c :: rest := by
      rw [withDescriptionTag, hhead, if_neg hhead?]
    rw [ink_tagsOfBody_of_titled (List.cons_ne_nil _ _) (by decide : isBlank 'd' = false) hwith,
      hwith, himplied, ink_append]

theorem ink_tagsOfBody_of_startsBare {body : List Char} (h : StartsBare body) :
    ink ((tagsOfBody body).flatMap spelled) =
      ink (joinLines ((lineChars body).dropWhile fun line => !decide (StartsTag line))) := by
  obtain ⟨rest, rfl⟩ := List.head?_eq_some_iff.1 h.1
  have hwith : withDescriptionTag ('@' :: rest) = '@' :: rest := by
    rw [withDescriptionTag, trimStartChars_eq_self (by simp [show isBlank '@' = false by decide])]
    exact if_pos rfl
  have hstart (line : List Char) : (!decide (StartsTag line)) = !(tagStart? line).isSome := by
    congr 1
    exact Bool.eq_iff_iff.2 (decide_eq_true_iff.trans startsTag_iff)
  have hgather := ink_gatherTags (lineChars ('@' :: rest))
  rw [gatherTags_fst, ink_lineChars,
    ← ink_takeWhile_dropWhile (fun line => !(tagStart? line).isSome)] at hgather
  rw [ink_tagsOfBody (List.cons_ne_nil _ _), hwith, ink_joinLines]
  simp only [hstart]
  exact List.append_cancel_left hgather

/-- The sign of a bare body is not in the lines from the first tag on. -/
theorem StartsBare.ink_ne {body : List Char} (h : StartsBare body) :
    ink (joinLines ((lineChars body).dropWhile fun line => !decide (StartsTag line))) ≠
      ink body := by
  obtain ⟨line, lines, hlines, hat, hnone⟩ := h.exists_line
  have hstart : ¬StartsTag line := fun hstart => by
    rw [startsTag_iff, hnone] at hstart
    cases hstart
  intro heq
  have hcut := ink_takeWhile_dropWhile (fun line => !decide (StartsTag line)) body
  rw [← ink_joinLines (List.dropWhile ..), heq, List.append_left_eq_self, hlines,
    List.takeWhile_cons_of_pos (by simp [hstart]), List.flatMap_cons] at hcut
  have hink : '@' ∉ ink line := by
    rw [(List.append_eq_nil_iff.1 hcut).1]
    exact List.not_mem_nil
  exact hink (List.mem_filter.2 ⟨hat, by decide⟩)

/-- Splitting a comment into tags keeps all its characters that are not blank, in order, unless its
body starts with a bare at sign: the tags as they are spelled hold them, with the tag of a
description in front if the body starts with no at sign. Behind a bare sign they are lost up to the
first line that starts a tag, and the sign is lost with them. -/
theorem ink_tags_iff (comment : String) :
    let body := bodyChars comment.toList
    (tagInk comment = impliedTitle body ++ ink body ↔ ¬StartsBare body) ∧
      tagInk comment = if StartsBare body
        then ink (joinLines ((lineChars body).dropWhile fun line => !decide (StartsTag line)))
        else impliedTitle body ++ ink body := by
  intro body
  have hall : ¬StartsBare body → tagInk comment = impliedTitle body ++ ink body :=
    ink_tagsOfBody_of_not_startsBare (isTrimmed_trimChars _)
  refine ⟨⟨fun hkept hbare => ?_, hall⟩, ?_⟩
  · have himplied : impliedTitle body = [] := if_pos (.inr hbare.1)
    rw [himplied, List.nil_append, tagInk, tags, ink_tagsOfBody_of_startsBare hbare] at hkept
    exact hbare.ink_ne hkept
  · split
    · rename_i hbare
      exact ink_tagsOfBody_of_startsBare hbare
    · rename_i htitled
      exact hall htitled

/-- A sign on its own takes the words behind it along: this comment has a body and no tags. -/
theorem tagInk_bare_sign :
    let comment := "/** @ salt */"
    let body := bodyChars comment.toList
    body = "@ salt".toList ∧ tags comment = [] ∧
      tagInk comment ≠ impliedTitle body ++ ink body := by
  decide

end Commentary.Comment
