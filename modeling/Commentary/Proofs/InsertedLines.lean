import Commentary.Proofs.ScannedComments

/-!
# Lines put into a source

A scan does not look at what stands around a mark that opens a comment. A line of code that is put
into a source between two comments therefore leaves the comments alone exactly if no comment opens
in it (`texts_inserted`). A mark in a string opens one like any other, and the comment goes on to
the next mark that closes one, so a pattern such as `src/**` swallows the documentation behind it
(`texts_inserted_glob`). The braces of such a line are counted with more care: those in strings and
behind two slashes are left out.
-/

namespace Commentary.Script

open Commentary.Text Comment

/-- The texts of the comments that a scan gives. -/
def texts (path source : String) : List String := (scan path source).map Doclet.Source.comment

/-- The texts of the comments in some characters. -/
def textsIn (cs : List Char) : List String := (commentsFrom 1 cs).map DocComment.text

/-- A line is put into a source between two lines, and no comment is open there. -/
structure Inserted (line : List Char) (before after : List (List Char)) (source longer : String) :
    Prop where
  lines_source : lineChars source.toList = before ++ after
  lines_longer : lineChars longer.toList = before ++ line :: after
  outside : (Scan.lines {} 1 before).opened = none

/-! ## Line by line -/

namespace Scan

theorem lines_append (scan : Scan) (number : Nat) (before after : List (List Char)) :
    scan.lines number (before ++ after) =
      (scan.lines number before).lines (number + before.length) after := by
  induction before generalizing scan number with
  | nil => rfl
  | cons line before ih =>
    rw [List.cons_append, lines, ih, lines, List.length_cons, Nat.add_assoc, Nat.add_comm 1]

/-- From outside of comments on, a scan gives the comments of what follows. -/
theorem given_lines_of_outside {scan : Scan} (hopened : scan.opened = none) (number : Nat)
    {ls : List (List Char)} (hls : ∀ line ∈ ls, '\n' ∉ line) :
    (scan.lines number ls).given = scan.given ++ commentsFrom number (joinLines ls) := by
  rcases ls with _ | ⟨line, more⟩
  · rw [joinLines, commentsFrom_of_none rfl, List.append_nil]
    rfl
  · rw [List.forall_mem_cons] at hls
    rw [joinLines_cons, lines, Scan.line, hopened]
    exact (gives hls.2).1 scan number line hls.1 hopened

end Scan

/-- Where a text begins does not matter to the texts of its comments. -/
theorem map_text_commentsFrom (number : Nat) (cs : List Char) :
    (commentsFrom number cs).map DocComment.text = textsIn cs := by
  unfold textsIn
  generalize 1 = number'
  fun_induction commentsFrom number cs generalizing number' with
  | case1 number cs hnone => rw [commentsFrom_of_none hnone, List.map_nil]
  | case2 number cs code body hcode hnone => rw [commentsFrom_of_some hcode, hnone]
  | case3 number cs code body hcode closed rest hclosed ih =>
    rw [commentsFrom_of_some hcode, hclosed, List.map_cons, List.map_cons, ih]

theorem texts_eq (path source : String) :
    texts path source = (Scan.lines {} 1 (lineChars source.toList)).given.map DocComment.text := by
  rw [texts, scan, List.map_map, ← Scan.map_fst_finish, List.map_map]
  rfl

/-- What stands on the lines of a text behind some place outside of comments is scanned on its
own. -/
theorem texts_of_lines {path source : String} {before after : List (List Char)}
    (hlines : lineChars source.toList = before ++ after)
    (houtside : (Scan.lines {} 1 before).opened = none) :
    texts path source = textsIn (joinLines before) ++ textsIn (joinLines after) := by
  have hall : ∀ line ∈ before ++ after, '\n' ∉ line := by
    rw [← hlines]
    exact lineFeed_not_mem_linesFrom List.not_mem_nil _
  rw [List.forall_mem_append] at hall
  rw [texts_eq, hlines, Scan.lines_append, Scan.given_lines_of_outside houtside _ hall.2,
    Scan.given_lines hall.1, List.map_append, map_text_commentsFrom, map_text_commentsFrom]

/-! ## From the line on -/

section Behind

variable {line code tail : List Char} {after : List (List Char)}

theorem joinLines_suffix (after : List (List Char)) : joinLines after <:+ behindLine after := by
  rcases after with _ | ⟨next, more⟩
  · exact List.suffix_refl []
  · rw [behindLine_cons, joinLines_cons]
    exact List.suffix_cons '\n' (next ++ behindLine more)

/-- A line in which no comment opens adds nothing to what follows it. -/
theorem textsIn_line (hopens : Nowhere Opens line) (hline : '\n' ∉ line) :
    textsIn (line ++ behindLine after) = textsIn (joinLines after) := by
  have hsplit := splitAtOpening_eq_none_iff.2 hopens
  rcases after with _ | ⟨next, more⟩
  · have hnone : splitAtOpening (line ++ behindLine []) = none := by
      simpa [behindLine] using hsplit
    rw [textsIn, textsIn, joinLines, commentsFrom_of_none hnone, commentsFrom_of_none rfl]
  · rw [textsIn, commentsFrom_line hsplit hline, map_text_commentsFrom, joinLines_cons]
    rfl

/-- A comment that opens in a line goes on up to the first mark behind it that closes one. -/
theorem textsIn_opening (hopens : SplitsAt Opens line code ('/' :: '*' :: '*' :: tail)) :
    textsIn (line ++ behindLine after) =
      match splitAfterClose (tail ++ behindLine after) with
      | none => []
      | some (closed, rest) => String.ofList ('/' :: '*' :: '*' :: closed) :: textsIn rest := by
  have hsplit : splitAtOpening (line ++ behindLine after) =
      some (code, '/' :: '*' :: '*' :: (tail ++ behindLine after)) := by
    rw [splitAtOpening_append, splitAtOpening_eq_some_iff.2 hopens]
    rfl
  rw [textsIn, commentsFrom_of_some hsplit, splitComment_opening]
  rcases splitAfterClose (tail ++ behindLine after) with _ | ⟨closed, rest⟩
  · rfl
  · simp only [Option.map_some, List.map_cons, map_text_commentsFrom]

/-- Without a mark that closes one there are no comments. -/
theorem textsIn_of_nowhere {cs : List Char} (hcloses : Nowhere Closes cs) : textsIn cs = [] := by
  rcases hsplit : splitAtOpening cs with _ | ⟨code, body⟩
  · rw [textsIn, commentsFrom_of_none hsplit, List.map_nil]
  · obtain ⟨tail, rfl, -⟩ := (splitAtOpening_eq_some_iff.1 hsplit).holds
    have hsuffix : tail <:+ cs :=
      ⟨code ++ ['/', '*', '*'], by simpa using append_of_splitAtOpening hsplit⟩
    have hnone : splitAfterClose tail = none :=
      splitAfterClose_eq_none_iff.2 fun rest hrest => hcloses rest (hrest.trans hsuffix)
    rw [textsIn, commentsFrom_of_some hsplit, splitComment_opening, hnone]
    rfl

/-- In front of a mark that closes one, a line in which a comment opens gives a comment. -/
theorem textsIn_opening_ne_nil (hopens : SplitsAt Opens line code ('/' :: '*' :: '*' :: tail)) :
    textsIn (line ++ behindLine [['*', '/']]) ≠ [] := by
  rw [textsIn_opening hopens, splitAfterClose_append]
  rcases splitAfterClose tail with _ | ⟨closed, rest⟩
  · exact List.cons_ne_nil _ _
  · exact List.cons_ne_nil _ _

end Behind

/-! ## The whole source -/

namespace Inserted

variable {line : List Char} {before after : List (List Char)} {source longer : String}

theorem texts_source (h : Inserted line before after source longer) (path : String) :
    texts path source = textsIn (joinLines before) ++ textsIn (joinLines after) :=
  texts_of_lines h.lines_source h.outside

theorem texts_longer (h : Inserted line before after source longer) (path : String) :
    texts path longer = textsIn (joinLines before) ++ textsIn (line ++ behindLine after) := by
  rw [texts_of_lines h.lines_longer h.outside, joinLines_cons]
  rfl

end Inserted

/-- Each line can be put in front of a line that closes a comment. -/
theorem inserted_closing {line : List Char} (hline : '\n' ∉ line) :
    Inserted line [] [['*', '/']] "*/" (String.ofList (line ++ ['\r', '\n', '*', '/'])) where
  lines_source := rfl
  lines_longer := by
    rw [String.toList_ofList, lineChars, linesFrom_append hline]
    simp [linesFrom, dropCarriageReturn]
  outside := rfl

/-- A line can be put anywhere between comments, into any source, without any change to their texts
exactly if no comment opens in it. Where one opens, it ends with the first mark that closes one
behind it, be it that of a comment that was there before; only if there is none are the comments
left alone. -/
theorem texts_inserted (path : String) (line : List Char) (hline : '\n' ∉ line) :
    ((∀ before after source longer, Inserted line before after source longer →
        texts path longer = texts path source) ↔ Nowhere Opens line) ∧
    ∀ before after source longer, Inserted line before after source longer →
      ∀ code tail, SplitsAt Opens line code ('/' :: '*' :: '*' :: tail) →
        (Nowhere Closes (tail ++ behindLine after) → texts path longer = texts path source) ∧
        ∀ inside rest, SplitsAt Closes (tail ++ behindLine after) inside ('*' :: '/' :: rest) →
          texts path longer = textsIn (joinLines before) ++
            String.ofList ('/' :: '*' :: '*' :: (inside ++ ['*', '/'])) :: textsIn rest := by
  refine ⟨⟨fun hsame => ?_, fun hopens before after source longer h => ?_⟩, ?_⟩
  · have hinserted := inserted_closing hline
    have htexts := hsame _ _ _ _ hinserted
    have hnone : textsIn (joinLines [['*', '/']]) = [] := by
      rw [textsIn, commentsFrom_of_none rfl, List.map_nil]
    rw [hinserted.texts_source, hinserted.texts_longer, hnone, List.append_cancel_left_eq] at htexts
    rcases hsplit : splitAtOpening line with _ | ⟨code, body⟩
    · exact splitAtOpening_eq_none_iff.1 hsplit
    · have hopens := splitAtOpening_eq_some_iff.1 hsplit
      obtain ⟨tail, rfl, -⟩ := hopens.holds
      exact absurd htexts (textsIn_opening_ne_nil hopens)
  · rw [h.texts_longer, h.texts_source, textsIn_line hopens hline]
  · intro before after source longer h code tail hopens
    refine ⟨fun hcloses => ?_, fun inside rest hcloses => ?_⟩
    · have hafter : textsIn (joinLines after) = [] := textsIn_of_nowhere fun rest hrest =>
        hcloses rest (hrest.trans ((joinLines_suffix after).trans (List.suffix_append tail _)))
      rw [h.texts_longer, h.texts_source, textsIn_opening hopens,
        splitAfterClose_eq_none_iff.2 hcloses, hafter]
    · rw [h.texts_longer, textsIn_opening hopens, splitAfterClose_of_splitsAt hcloses]

/-- A mark that closes a comment does no harm in a string. -/
theorem texts_inserted_closing :
    '\n' ∉ "var end = \"*/\";".toList ∧
      ∀ before after source longer, Inserted "var end = \"*/\";".toList before after source longer →
        texts "lib/soup.js" longer = texts "lib/soup.js" source := by
  have hline : '\n' ∉ "var end = \"*/\";".toList := by decide
  have hopens : Nowhere Opens "var end = \"*/\";".toList :=
    splitAtOpening_eq_none_iff.1 (by decide)
  exact ⟨hline, (texts_inserted "lib/soup.js" _ hline).1.2 hopens⟩

/-! ## Marks in strings -/

/-- Every mark `/**` of a line stands in a string that is closed on the line, or behind two
slashes. -/
inductive HidesMarks : List Char → Prop
  | nil : HidesMarks []
  | slashes (cs : List Char) : HidesMarks ('/' :: '/' :: cs)
  | string {quote : Char} {cs span rest : List Char} (hquote : quote ∈ ['"', '\'', '\x60'])
    (hspan : splitAfterMark quote cs = some (span, rest)) (hrest : HidesMarks rest) :
    HidesMarks (quote :: cs)
  | unclosed {quote : Char} {cs : List Char} (hquote : quote ∈ ['"', '\'', '\x60'])
    (hspan : splitAfterMark quote cs = none) (hmarks : ¬"/**".toList <:+: cs) :
    HidesMarks (quote :: cs)
  | code {c : Char} {cs : List Char} (hquote : c ∉ ['"', '\'', '\x60'])
    (hmark : ¬"/**".toList <+: c :: cs) (hrest : HidesMarks cs) : HidesMarks (c :: cs)

/-- Code without quotation marks and slashes hides the marks behind it, if they are hidden. -/
theorem HidesMarks.behind {cs : List Char} (h : HidesMarks cs) (code : List Char)
    (hcode : code.all (fun c => decide (c ∉ ['/', '"', '\'', '\x60'])) = true) :
    HidesMarks (code ++ cs) := by
  induction code with
  | nil => exact h
  | cons c code ih =>
    rw [List.all_cons, Bool.and_eq_true, decide_eq_true_iff, List.mem_cons, not_or] at hcode
    obtain ⟨⟨hslash, hquote⟩, hrest⟩ := hcode
    refine .code hquote ?_ (ih hrest)
    rintro ⟨rest, heq⟩
    exact hslash (List.cons.inj heq).1.symm

/-- A pattern in a string swallows the comment behind it. -/
theorem texts_inserted_glob :
    let line := "var all = \"src/**\";".toList
    let after := ["/** Heats. */".toList, "function heat() \x7b\x7d".toList]
    let source := "/** Heats. */\nfunction heat() \x7b\x7d\n"
    let longer := "var all = \"src/**\";\n/** Heats. */\nfunction heat() \x7b\x7d\n"
    HidesMarks line ∧ Inserted line [] after source longer ∧
      texts "lib/soup.js" source = ["/** Heats. */"] ∧
      texts "lib/soup.js" longer = ["/**\";\n/** Heats. */"] := by
  intro line after source longer
  have hline : HidesMarks line := by
    have hstring : HidesMarks "\"src/**\";".toList :=
      .string (by decide) rfl (HidesMarks.nil.behind [';'] rfl)
    exact hstring.behind "var all = ".toList (by decide)
  have hinserted : Inserted line [] after source longer :=
    ⟨by decide +kernel, by decide +kernel, rfl⟩
  exact ⟨hline, hinserted, by decide +kernel, by decide +kernel⟩

end Commentary.Script
