import Commentary.Comment
import Mathlib.Data.List.Basic
import Mathlib.Data.List.TakeDrop

/-!
# Comments as they are laid out

A comment is laid out line by line: an opening, the lines of its tags behind a margin, a line with
`@also` between two groups of tags, and a closing. Reading it gives the groups back, each as a part
of its own, with the tags in order and with their text as it was laid out (`tags_layout`).

The layout is taken off from the outside in. Cutting at the marks leaves a part for each group
(`splitAlso_layout`); a part loses its opening, closing and margin, and what is trimmed from its
ends are the lines that held these (`bodyChars_part`); the lines that remain are gathered into tags
(`gatherTags_groupLines`).
-/

namespace Commentary.Comment

open Commentary.Text

/-! ## The layout -/

/-- A tag to be laid out: its title, what follows it on the first line, and further lines. -/
structure TagLayout where
  title : List Char
  first : List Char
  more : List (List Char)
deriving DecidableEq, Repr

namespace TagLayout

/-- What stands behind the title on the first line. -/
def behindTitle (t : TagLayout) : List Char := if t.first.isEmpty then [] else ' ' :: t.first

/-- The lines of a tag. -/
def lines (t : TagLayout) : List (List Char) := ('@' :: (t.title ++ t.behindTitle)) :: t.more

/-- The tag that is read from these lines: all behind the title is its text, unless it is blank. -/
def written (t : TagLayout) : WrittenTag :=
  let text := joinLines (t.behindTitle :: t.more)
  { title := String.ofList t.title
    text := if text.all isBlank then none else some (String.ofList text) }

end TagLayout

/-- The lines of a group of tags. -/
def groupLines (group : List TagLayout) : List (List Char) := group.flatMap TagLayout.lines

/-- The mark between two groups. -/
def alsoMark : List Char := ['@', 'a', 'l', 's', 'o']

/-- The lines of all groups, with the mark between two of them. -/
def allLines (groups : List (List TagLayout)) : List (List Char) :=
  [alsoMark].intercalate (groups.map groupLines)

/-- What stands in front of each line. -/
def margin : List Char := [' ', '*', ' ']

/-- The comment of some groups of tags. -/
def layout (groups : List (List TagLayout)) : String :=
  String.ofList <| joinLines <|
    ['/', '*', '*'] :: ((allLines groups).map (margin ++ ·) ++ [[' ', '*', '/']])

/-! ## What can be laid out -/

/-- A line without the characters that end lines. -/
def IsLine (line : List Char) : Prop := '\n' ∉ line ∧ '\r' ∉ line

instance : DecidablePred IsLine := fun line =>
  inferInstanceAs (Decidable ('\n' ∉ line ∧ '\r' ∉ line))

/-- A line that starts a tag: blanks, an at sign, and a character that is not blank. -/
def StartsTag (line : List Char) : Prop :=
  ∃ blanks c rest, line = blanks ++ '@' :: c :: rest ∧ (∀ b ∈ blanks, isBlank b = true) ∧
    isBlank c = false

/-- A line whose last character is not blank. -/
def EndsInText (line : List Char) : Prop := ∃ c, line.getLast? = some c ∧ isBlank c = false

/-- A tag whose title is one word and whose further lines start no tags. -/
structure TagLayout.IsProper (t : TagLayout) : Prop where
  title_ne_nil : t.title ≠ []
  title_word : ∀ c ∈ t.title, isBlank c = false
  isLine_first : IsLine t.first
  isLine_more : ∀ line ∈ t.more, IsLine line
  not_startsTag : ∀ line ∈ t.more, ¬StartsTag line

/-- A group of proper tags, at least one, whose last line ends in text and that does not hold the
mark between groups. -/
structure IsProperGroup (group : List TagLayout) : Prop where
  ne_nil : group ≠ []
  tags : ∀ t ∈ group, t.IsProper
  endsInText : ∀ line ∈ (groupLines group).getLast?, EndsInText line
  not_alsoMark : ∀ line ∈ groupLines group, ¬alsoMark <:+: line

/-- A group of proper tags, at least one, whose last line ends in text. The mark between groups may
stand in its lines. -/
structure IsTagGroup (group : List TagLayout) : Prop where
  ne_nil : group ≠ []
  tags : ∀ t ∈ group, t.IsProper
  endsInText : ∀ line ∈ (groupLines group).getLast?, EndsInText line

theorem IsProperGroup.isTagGroup {group : List TagLayout} (h : IsProperGroup group) :
    IsTagGroup group :=
  ⟨h.ne_nil, h.tags, h.endsInText⟩

/-! ## Lines -/

theorem joinLines_cons (line : List Char) (more : List (List Char)) :
    joinLines (line :: more) = joinTag line more := by
  induction more generalizing line with
  | nil => simp [joinLines, joinTag]
  | cons next more ih =>
    have hstep : joinLines (line :: next :: more) = line ++ '\n' :: joinLines (next :: more) := by
      simp [joinLines, List.intercalate]
    rw [hstep, ih next]
    simp [joinTag]

theorem joinTag_cons (line next : List Char) (more : List (List Char)) :
    joinTag line (next :: more) = line ++ '\n' :: joinTag next more := by
  simp [joinTag]

theorem linesFrom_append {line : List Char} (h : '\n' ∉ line) (read rest : List Char) :
    linesFrom read (line ++ rest) = linesFrom (line.reverse ++ read) rest := by
  induction line generalizing read with
  | nil => rfl
  | cons c line ih =>
    rw [List.mem_cons, not_or] at h
    rw [List.cons_append, linesFrom, if_neg (Ne.symm h.1), ih h.2]
    simp

/-- A line ends at the first line feed. -/
theorem lineChars_append {line : List Char} (h : IsLine line) (rest : List Char) :
    lineChars (line ++ '\n' :: rest) = line :: lineChars rest := by
  have hreturn : dropCarriageReturn line.reverse = line.reverse := by
    unfold dropCarriageReturn
    split
    · rename_i front hfront
      have hmem : '\r' ∈ line.reverse := by
        rw [hfront]
        exact List.mem_cons_self
      exact absurd (List.mem_reverse.1 hmem) h.2
    · rfl
  rw [lineChars, linesFrom_append h.1, List.append_nil, linesFrom, if_pos rfl, hreturn,
    List.reverse_reverse, lineChars]

theorem lineChars_line {line : List Char} (h : IsLine line) (hne : line ≠ []) :
    lineChars line = [line] := by
  have happend := linesFrom_append h.1 [] []
  rw [List.append_nil, List.append_nil] at happend
  rw [lineChars, happend, linesFrom]
  simp [hne]

/-- Lines that are joined are cut again, as long as the last one is not empty. -/
theorem lineChars_joinTag {line : List Char} {more : List (List Char)}
    (h : ∀ l ∈ line :: more, IsLine l) (hlast : (line :: more).getLast? ≠ some []) :
    lineChars (joinTag line more) = line :: more := by
  induction more generalizing line with
  | nil =>
    have hne : line ≠ [] := by simpa using hlast
    simpa [joinTag] using lineChars_line (h line List.mem_cons_self) hne
  | cons next more ih =>
    rw [List.forall_mem_cons] at h
    rw [List.getLast?_cons_cons] at hlast
    rw [joinTag_cons, lineChars_append h.1, ih h.2 hlast]

/-! ## Trimming -/

theorem trimChars_of_blank_ends {front text back : List Char}
    (hfront : ∀ c ∈ front, isBlank c = true) (hback : ∀ c ∈ back, isBlank c = true)
    (hhead : ∀ c ∈ text.head?, isBlank c = false) (hlast : EndsInText text) :
    trimChars (front ++ (text ++ back)) = text := by
  obtain ⟨last, hlast, hblank⟩ := hlast
  obtain ⟨start, rfl⟩ := List.getLast?_eq_some_iff.1 hlast
  have hstart : trimStartChars (front ++ (start ++ [last] ++ back)) = start ++ [last] ++ back := by
    rw [trimStartChars, List.dropWhile_append_of_pos hfront]
    cases start with
    | nil => simp [hblank]
    | cons c start =>
      have hc : isBlank c = false := hhead c rfl
      simp [hc]
  have hreverse : (start ++ [last] ++ back).reverse = back.reverse ++ last :: start.reverse := by
    simp
  rw [trimChars, hstart, trimEndChars, hreverse,
    List.dropWhile_append_of_pos (by simpa using hback),
    List.dropWhile_cons_of_neg (by simp [hblank])]
  simp

/-! ## Cutting at the marks -/

theorem splitAlsoFrom_cons {c : Char} (hc : c ≠ '@') (part rest : List Char) :
    splitAlsoFrom part (c :: rest) = splitAlsoFrom (c :: part) rest := by
  have hnone : afterAlso? (c :: rest) = none := by
    unfold afterAlso?
    split
    · rename_i heq
      exact absurd (List.cons.inj heq).1 hc
    · rfl
  rw [splitAlsoFrom]
  split
  · rename_i found
    rw [hnone] at found
    cases found
  · rfl

theorem alsoMark_prefix_of_afterAlso? {cs rest : List Char} (h : afterAlso? cs = some rest) :
    alsoMark <+: cs := by
  unfold afterAlso? at h
  split at h
  · exact ⟨_, rfl⟩
  · cases h

/-- A line without the mark belongs to one part, if what follows it cannot complete a mark. -/
theorem splitAlsoFrom_append {line rest : List Char} (hline : ¬alsoMark <:+: line)
    (hrest : ∀ c ∈ rest.head?, c ∉ alsoMark) (part : List Char) :
    splitAlsoFrom part (line ++ rest) = splitAlsoFrom (line.reverse ++ part) rest := by
  induction line generalizing part with
  | nil => rfl
  | cons c line ih =>
    have htail : ¬alsoMark <:+: line := fun h => hline (h.trans (List.suffix_cons c line).isInfix)
    have hnone : afterAlso? (c :: line ++ rest) = none := by
      refine Option.eq_none_iff_forall_ne_some.2 fun found hfound => ?_
      have hmark := alsoMark_prefix_of_afterAlso? hfound
      rcases List.prefix_or_prefix_of_prefix hmark (List.prefix_append (c :: line) rest) with
        hin | ⟨more, hmore⟩
      · exact hline hin.isInfix
      -- the line is the start of a mark, so what follows would have to go on with it
      · rw [← hmore, List.prefix_append_right_inj] at hmark
        obtain ⟨after, rfl⟩ := hmark
        cases more with
        | nil =>
          rw [List.append_nil] at hmore
          exact hline (hmore ▸ List.infix_rfl)
        | cons d more =>
          refine hrest d rfl ?_
          rw [← hmore]
          simp
    rw [List.cons_append, splitAlsoFrom]
    split
    · rename_i found
      rw [← List.cons_append, hnone] at found
      cases found
    · simp [ih htail]

/-- A mark ends a part, if no word goes on behind it. -/
theorem splitAlsoFrom_alsoMark {rest : List Char} (hrest : ∀ c ∈ rest.head?, isWordChar c = false)
    (part : List Char) :
    splitAlsoFrom part (alsoMark ++ rest) = part.reverse :: splitAlsoFrom [] rest := by
  have hafter : afterAlso? (alsoMark ++ rest) = some rest := by
    cases rest with
    | nil => rfl
    | cons c rest => simp [alsoMark, afterAlso?, hrest c rfl]
  rw [splitAlsoFrom]
  split
  · rename_i found hfound
    rw [hafter] at hfound
    cases hfound
    rfl
  · rename_i hnone
    rw [hafter] at hnone
    cases hnone

theorem splitAlsoFrom_nil (part : List Char) : splitAlsoFrom part [] = [part.reverse] := by
  rw [splitAlsoFrom]
  rfl

/-- Lines behind their margins, each starting anew. -/
def block (ls : List (List Char)) : List Char := ls.flatMap fun line => '\n' :: (margin ++ line)

theorem block_append (ls ms : List (List Char)) : block (ls ++ ms) = block ls ++ block ms :=
  List.flatMap_append

theorem layout_eq (groups : List (List TagLayout)) :
    layout groups = String.ofList
      (['/', '*', '*'] ++ (block (allLines groups) ++ ['\n', ' ', '*', '/'])) := by
  rw [layout, joinLines_cons, joinTag, List.flatMap_append, List.flatMap_map]
  rfl

/-- A block without marks belongs to one part. -/
theorem splitAlsoFrom_block {ls : List (List Char)} (hls : ∀ line ∈ ls, ¬alsoMark <:+: line)
    {rest : List Char} (hrest : rest.head? = some '\n') (part : List Char) :
    splitAlsoFrom part (block ls ++ rest) = splitAlsoFrom ((block ls).reverse ++ part) rest := by
  induction ls generalizing part with
  | nil => rfl
  | cons line ls ih =>
    rw [List.forall_mem_cons] at hls
    have hnext : ∀ c ∈ (block ls ++ rest).head?, c ∉ alsoMark := by
      cases ls <;> simp [block, hrest, alsoMark]
    have hblock : block (line :: ls) = '\n' :: (margin ++ line) ++ block ls := rfl
    rw [hblock]
    simp only [margin, List.cons_append, List.nil_append, List.append_assoc]
    rw [splitAlsoFrom_cons (by decide), splitAlsoFrom_cons (by decide),
      splitAlsoFrom_cons (by decide), splitAlsoFrom_cons (by decide),
      splitAlsoFrom_append hls.1 hnext, ih hls.2]
    simp

/-- The parts into which the lines of some groups are cut, where `opening` stands in front of the
first. -/
def parts (opening : List Char) : List (List TagLayout) → List (List Char)
  | [] => []
  | [group] => [opening ++ (block (groupLines group) ++ ['\n', ' ', '*', '/'])]
  | group :: next :: groups =>
    (opening ++ (block (groupLines group) ++ '\n' :: margin)) :: parts [] (next :: groups)

theorem splitAlsoFrom_allLines {group : List TagLayout} {groups : List (List TagLayout)}
    (h : ∀ g ∈ group :: groups, ∀ line ∈ groupLines g, ¬alsoMark <:+: line) (part : List Char) :
    splitAlsoFrom part (block (allLines (group :: groups)) ++ ['\n', ' ', '*', '/']) =
      parts part.reverse (group :: groups) := by
  induction groups generalizing group part with
  | nil =>
    have hlines : allLines [group] = groupLines group := by simp [allLines]
    rw [hlines, splitAlsoFrom_block (h group List.mem_cons_self) rfl,
      splitAlsoFrom_cons (by decide), splitAlsoFrom_cons (by decide),
      splitAlsoFrom_cons (by decide), splitAlsoFrom_cons (by decide), splitAlsoFrom_nil]
    simp [parts]
  | cons next groups ih =>
    rw [List.forall_mem_cons] at h
    have hlines : allLines (group :: next :: groups) =
        groupLines group ++ alsoMark :: allLines (next :: groups) := by
      simp [allLines, List.intercalate]
    have hblock : block (alsoMark :: allLines (next :: groups)) =
        '\n' :: ' ' :: '*' :: ' ' :: (alsoMark ++ block (allLines (next :: groups))) := by
      simp [block, margin]
    -- a line of the next group starts right behind the mark, or the comment is closed there
    have hnext : ∀ c ∈ (block (allLines (next :: groups)) ++ ['\n', ' ', '*', '/']).head?,
        isWordChar c = false := by
      cases allLines (next :: groups) with
      | nil => simp [block, isWordChar]
      | cons line ls => simp [block, isWordChar]
    rw [hlines, block_append, hblock, List.append_assoc,
      splitAlsoFrom_block h.1 (by simp)]
    simp only [List.cons_append, List.append_assoc]
    rw [splitAlsoFrom_cons (by decide), splitAlsoFrom_cons (by decide),
      splitAlsoFrom_cons (by decide), splitAlsoFrom_cons (by decide),
      splitAlsoFrom_alsoMark hnext, ih h.2]
    simp [parts, margin]

/-! ## Taking off the wrapping -/

theorem getLast?_joinTag {line : List Char} {more : List (List Char)} {last : List Char}
    (h : (line :: more).getLast? = some last) (hne : last ≠ []) :
    (joinTag line more).getLast? = last.getLast? := by
  induction more generalizing line with
  | nil =>
    obtain rfl : line = last := by simpa using h
    simp [joinTag]
  | cons next more ih =>
    rw [List.getLast?_cons_cons] at h
    have hnext : joinTag next more ≠ [] := by
      intro hnil
      have hlast := ih h
      rw [hnil] at hlast
      exact hne (List.getLast?_eq_none_iff.1 hlast.symm)
    rw [joinTag_cons, List.getLast?_append_of_ne_nil _ (by simp), List.getLast?_cons,
      ← ih h, List.getLast?_eq_some_getLast hnext]
    rfl

theorem endsInText_joinLines {ls : List (List Char)} (hne : ls ≠ [])
    (h : ∀ l ∈ ls.getLast?, EndsInText l) : EndsInText (joinLines ls) := by
  obtain ⟨line, more, rfl⟩ := List.exists_cons_of_ne_nil hne
  have hlast := List.getLast?_eq_some_getLast hne
  obtain ⟨c, hc, hblank⟩ := h _ hlast
  have hlastne : (line :: more).getLast hne ≠ [] := by
    intro hnil
    rw [hnil] at hc
    cases hc
  refine ⟨c, ?_, hblank⟩
  rw [joinLines_cons, getLast?_joinTag hlast hlastne, hc]

theorem dropMargin_margin (line : List Char) : dropMargin (margin ++ line) = line := by
  simp [dropMargin, margin]

/-- What is left of a part without opening and closing: its lines, of which the first starts with an
at sign. A last line `rest` of blanks behind its margin goes. -/
theorem trimChars_block {ls : List (List Char)} {rest : List Char} (hlines : ∀ l ∈ ls, IsLine l)
    (hhead : (joinLines ls).head? = some '@') (hlast : ∀ l ∈ ls.getLast?, EndsInText l)
    (hrest : IsLine rest) (hne : rest ≠ []) (hblank : ∀ c ∈ dropMargin rest, isBlank c = true) :
    trimChars (joinLines ((lineChars (block ls ++ '\n' :: rest)).map dropMargin)) =
      joinLines ls := by
  have hblock : block ls ++ '\n' :: rest = joinTag [] (ls.map (margin ++ ·) ++ [rest]) := by
    rw [joinTag, List.flatMap_append, List.flatMap_map]
    simp [block]
  have hcut : lineChars (block ls ++ '\n' :: rest) = [] :: (ls.map (margin ++ ·) ++ [rest]) := by
    rw [hblock]
    refine lineChars_joinTag ?_ ?_
    · intro l hl
      rcases List.mem_cons.1 hl with rfl | hl
      · simp [IsLine]
      rcases List.mem_append.1 hl with hl | hl
      · obtain ⟨m, hm, rfl⟩ := List.mem_map.1 hl
        simpa [IsLine, margin] using hlines m hm
      · rwa [List.mem_singleton.1 hl]
    · rw [List.getLast?_cons, List.getLast?_append]
      simpa using hne
  have hmap : (ls.map (margin ++ ·)).map dropMargin = ls := by
    simp [Function.comp_def, dropMargin_margin]
  -- the first line and the last one are blank by now, and the trimming takes them off
  have hjoin : joinLines ([] :: (ls ++ [dropMargin rest])) =
      ['\n'] ++ (joinLines ls ++ '\n' :: dropMargin rest) := by
    obtain ⟨line, more, rfl⟩ : ∃ line more, ls = line :: more := by
      cases ls with
      | nil => cases hhead
      | cons line more => exact ⟨line, more, rfl⟩
    rw [joinLines_cons, joinLines_cons, joinTag, joinTag, List.flatMap_append]
    simp
  have hnil : dropMargin [] = [] := rfl
  rw [hcut, List.map_cons, List.map_append, hmap, List.map_singleton, hnil, hjoin]
  refine trimChars_of_blank_ends (List.all_eq_true.1 (by decide)) ?_ ?_
    (endsInText_joinLines ?_ hlast)
  · rw [List.forall_mem_cons]
    exact ⟨by decide, hblank⟩
  · simp [hhead, show isBlank '@' = false by decide]
  · rintro rfl
    cases hhead

/-- What can stand in front of the first line of a part. -/
def IsOpening (opening : List Char) : Prop := opening = ['/', '*', '*'] ∨ opening = []

theorem dropOpening_append {opening : List Char} (h : IsOpening opening) (rest : List Char) :
    dropOpening (opening ++ '\n' :: rest) = '\n' :: rest := by
  rcases h with rfl | rfl <;> simp [dropOpening]

theorem dropClosing_append (cs : List Char) :
    dropClosing (cs ++ ['\n', ' ', '*', '/']) = cs ++ ['\n', ' '] := by
  simp [dropClosing]

theorem dropClosing_margin (cs : List Char) :
    dropClosing (cs ++ '\n' :: margin) = cs ++ '\n' :: margin := by
  simp [dropClosing, margin]

/-! ## Gathering tags -/

theorem startsTag_iff {line : List Char} : StartsTag line ↔ (tagStart? line).isSome = true := by
  constructor
  · rintro ⟨blanks, c, rest, rfl, hblanks, hc⟩
    have htrim : trimStartChars (blanks ++ '@' :: c :: rest) = '@' :: c :: rest := by
      rw [trimStartChars, List.dropWhile_append_of_pos hblanks]
      rfl
    simp [tagStart?, htrim, hc]
  · intro h
    unfold tagStart? at h
    split at h
    · rename_i c rest hline
      refine ⟨line.takeWhile isBlank, c, rest, ?_, List.all_eq_true.1 List.all_takeWhile, ?_⟩
      · rw [← hline, trimStartChars, List.takeWhile_append_dropWhile]
      · refine Bool.eq_false_iff.2 fun hc => ?_
        simp [hc] at h
    · cases h

instance : DecidablePred StartsTag := fun _ => decidable_of_iff _ startsTag_iff.symm

theorem tagStart?_eq_none {line : List Char} (h : ¬StartsTag line) : tagStart? line = none :=
  Option.not_isSome_iff_eq_none.1 fun hsome => h (startsTag_iff.2 hsome)

theorem splitAtBlank_append {word rest : List Char} (hword : ∀ c ∈ word, isBlank c = false)
    (hrest : ∀ c ∈ rest.head?, isBlank c = true) : splitAtBlank (word ++ rest) = (word, rest) := by
  have hpos : ∀ c ∈ word, (!isBlank c) = true := by simpa using hword
  rw [splitAtBlank, List.span_eq_takeWhile_dropWhile, List.takeWhile_append_of_pos hpos,
    List.dropWhile_append_of_pos hpos]
  cases rest with
  | nil => simp
  | cons c rest => simp [hrest c rfl]

theorem gatherTags_append {more : List (List Char)} (h : ∀ line ∈ more, ¬StartsTag line)
    (rest : List (List Char)) :
    gatherTags (more ++ rest) = (more ++ (gatherTags rest).1, (gatherTags rest).2) := by
  induction more with
  | nil => rfl
  | cons line more ih =>
    rw [List.forall_mem_cons] at h
    rw [List.cons_append, gatherTags, ih h.2, tagStart?_eq_none h.1]
    rfl

namespace TagLayout

variable {t : TagLayout}

/-- The text of a tag from its title on. -/
def fromTitle (t : TagLayout) : List Char := joinTag (t.title ++ t.behindTitle) t.more

theorem IsProper.isLine (h : t.IsProper) : ∀ line ∈ t.lines, IsLine line := by
  have hword : ∀ {c : Char}, isBlank c = true → c ∉ t.title := by
    intro c hblank hmem
    simp [h.title_word c hmem] at hblank
  have hfirst := h.isLine_first
  rw [lines, List.forall_mem_cons]
  refine ⟨?_, h.isLine_more⟩
  unfold behindTitle
  split
  · simp [IsLine, hword (show isBlank '\n' = true by decide),
      hword (show isBlank '\r' = true by decide)]
  · simpa [IsLine, hword (show isBlank '\n' = true by decide),
      hword (show isBlank '\r' = true by decide)] using hfirst

theorem IsProper.tagStart? (h : t.IsProper) :
    tagStart? ('@' :: (t.title ++ t.behindTitle)) = some (t.title ++ t.behindTitle) := by
  obtain ⟨c, title, htitle⟩ := List.exists_cons_of_ne_nil h.title_ne_nil
  have hc : isBlank c = false := h.title_word c (by simp [htitle])
  have hat : isBlank '@' = false := by decide
  simp [Comment.tagStart?, trimStartChars, hat, htitle, hc]

/-- A tag is read up to the first blank as its title, and from there on as its text. -/
theorem IsProper.readTag (h : t.IsProper) : readTag t.fromTitle = t.written := by
  have htext : t.fromTitle = t.title ++ joinLines (t.behindTitle :: t.more) := by
    rw [joinLines_cons, fromTitle, joinTag, joinTag, List.append_assoc]
  have hspan : splitAtBlank t.fromTitle = (t.title, joinLines (t.behindTitle :: t.more)) := by
    rw [htext]
    refine splitAtBlank_append h.title_word ?_
    rw [joinLines_cons, joinTag, behindTitle]
    cases t.first with
    | nil => cases t.more <;> simp [show isBlank '\n' = true by decide]
    | cons c first => simp [show isBlank ' ' = true by decide]
  simp only [Comment.readTag, hspan, written]

end TagLayout

/-- The lines of proper tags are gathered into these tags, and no line stands in front of them. -/
theorem gatherTags_groupLines {group : List TagLayout} (h : ∀ t ∈ group, t.IsProper) :
    gatherTags (groupLines group) = ([], group.map TagLayout.fromTitle) := by
  induction group with
  | nil => rfl
  | cons t group ih =>
    rw [List.forall_mem_cons] at h
    have hlines : groupLines (t :: group) =
        ('@' :: (t.title ++ t.behindTitle)) :: (t.more ++ groupLines group) := rfl
    rw [hlines, gatherTags, gatherTags_append h.1.not_startsTag, ih h.2, h.1.tagStart?]
    simp [TagLayout.fromTitle]

namespace IsTagGroup

variable {group : List TagLayout}

theorem isLine (h : IsTagGroup group) : ∀ line ∈ groupLines group, IsLine line := by
  intro line hline
  obtain ⟨t, ht, hmem⟩ := List.mem_flatMap.1 hline
  exact (h.tags t ht).isLine line hmem

theorem head?_joinLines (h : IsTagGroup group) :
    (joinLines (groupLines group)).head? = some '@' := by
  obtain ⟨t, more, rfl⟩ := List.exists_cons_of_ne_nil h.ne_nil
  rw [show groupLines (t :: more) = t.lines ++ groupLines more from rfl, TagLayout.lines,
    List.cons_append, joinLines_cons]
  rfl

/-- The tags of the body that the lines of a group make up. -/
theorem tagsOfBody (h : IsTagGroup group) :
    tagsOfBody (joinLines (groupLines group)) = group.map TagLayout.written := by
  have hhead := h.head?_joinLines
  have hne : groupLines group ≠ [] := by
    intro hnil
    rw [hnil] at hhead
    cases hhead
  have hlines : lineChars (joinLines (groupLines group)) = groupLines group := by
    obtain ⟨line, more, hgroup⟩ := List.exists_cons_of_ne_nil hne
    rw [hgroup, joinLines_cons]
    refine lineChars_joinTag ?_ fun hlast => ?_
    · rw [← hgroup]
      exact h.isLine
    · rw [← hgroup] at hlast
      obtain ⟨c, hc, -⟩ := h.endsInText [] hlast
      cases hc
  have htagged : withDescriptionTag (joinLines (groupLines group)) =
      joinLines (groupLines group) := by
    obtain ⟨rest, hrest⟩ := List.head?_eq_some_iff.1 hhead
    rw [withDescriptionTag, if_pos]
    simp [hrest, trimStartChars, show isBlank '@' = false by decide]
  have hnotEmpty : (joinLines (groupLines group)).isEmpty = false := by
    obtain ⟨rest, hrest⟩ := List.head?_eq_some_iff.1 hhead
    rw [hrest]
    rfl
  rw [Comment.tagsOfBody, hnotEmpty, htagged, hlines, gatherTags_groupLines h.tags]
  simp only [Bool.false_eq_true, if_false, List.map_map]
  exact List.map_congr_left fun t ht => (h.tags t ht).readTag

/-- The body of a part, whether it is closed by the end of the comment or cut off at a mark. -/
theorem bodyChars_part (h : IsTagGroup group) {opening : List Char}
    (hopening : IsOpening opening) :
    bodyChars (opening ++ (block (groupLines group) ++ ['\n', ' ', '*', '/'])) =
        joinLines (groupLines group) ∧
      bodyChars (opening ++ (block (groupLines group) ++ '\n' :: margin)) =
        joinLines (groupLines group) := by
  have hblock : ∃ rest, block (groupLines group) = '\n' :: rest := by
    obtain ⟨t, more, rfl⟩ := List.exists_cons_of_ne_nil h.ne_nil
    exact ⟨_, rfl⟩
  obtain ⟨rest, hrest⟩ := hblock
  have hopen : ∀ ending, dropOpening (opening ++ (block (groupLines group) ++ ending)) =
      block (groupLines group) ++ ending := by
    intro ending
    rw [hrest]
    exact dropOpening_append hopening _
  rw [bodyChars, bodyChars, hopen, hopen, dropClosing_append, dropClosing_margin]
  exact ⟨trimChars_block h.isLine h.head?_joinLines h.endsInText (by decide) (by decide)
      (List.all_eq_true.1 (by decide)),
    trimChars_block h.isLine h.head?_joinLines h.endsInText (by decide) (by decide)
      (List.all_eq_true.1 (by decide))⟩

end IsTagGroup

/-! ## Reading a layout back -/

theorem splitAlso_layout {groups : List (List TagLayout)} (hne : groups ≠ [])
    (h : ∀ group ∈ groups, IsProperGroup group) :
    splitAlso (layout groups) = (parts ['/', '*', '*'] groups).map String.ofList := by
  obtain ⟨group, more, rfl⟩ := List.exists_cons_of_ne_nil hne
  have hmarks : ∀ g ∈ group :: more, ∀ line ∈ groupLines g, ¬alsoMark <:+: line :=
    fun g hg => (h g hg).not_alsoMark
  rw [splitAlso, layout_eq, String.toList_ofList]
  simp only [List.cons_append, List.nil_append]
  rw [splitAlsoFrom_cons (by decide), splitAlsoFrom_cons (by decide),
    splitAlsoFrom_cons (by decide), splitAlsoFrom_allLines hmarks]
  rfl

theorem tags_parts {opening : List Char} (hopening : IsOpening opening)
    {groups : List (List TagLayout)} (h : ∀ group ∈ groups, IsProperGroup group) :
    (parts opening groups).map (fun part => tagsOfBody (bodyChars part)) =
      groups.map (·.map TagLayout.written) := by
  fun_induction parts opening groups with
  | case1 => rfl
  | case2 opening group =>
    have hgroup := (h group List.mem_cons_self).isTagGroup
    simp only [List.map_cons, List.map_nil, (hgroup.bodyChars_part hopening).1, hgroup.tagsOfBody]
  | case3 opening group next groups ih =>
    rw [List.forall_mem_cons] at h
    have hgroup := h.1.isTagGroup
    rw [List.map_cons, List.map_cons, (hgroup.bodyChars_part hopening).2, hgroup.tagsOfBody,
      ih (.inr rfl) h.2]

/-- A comment of one group is not cut at marks: its tags are those of the group, whatever the lines
of these hold. -/
theorem tags_layout_group {group : List TagLayout} (h : IsTagGroup group) :
    tags (layout [group]) = group.map TagLayout.written := by
  have hlines : allLines [group] = groupLines group := by simp [allLines]
  rw [tags, layout_eq, String.toList_ofList, hlines, (h.bodyChars_part (.inl rfl)).1, h.tagsOfBody]

/-- Reading a comment back that was laid out from groups of tags: there is a part for each group,
and its tags are those of the group, in order and with their text as it was laid out. -/
theorem tags_layout (groups : List (List TagLayout)) (hne : groups ≠ [])
    (h : ∀ group ∈ groups, IsProperGroup group) :
    (splitAlso (layout groups)).map tags = groups.map (·.map TagLayout.written) := by
  have hparts := tags_parts (.inl rfl) h
  rw [splitAlso_layout hne h, List.map_map, ← hparts]
  refine List.map_congr_left fun part _ => ?_
  simp [tags]

/-- Two groups: an indented example with an empty line and a line that starts like a margin, then a
bare tag, and a group of one tag. -/
def sampleGroups : List (List TagLayout) :=
  [[{ title := "example".toList, first := [],
      more := ["  soup.heat(3);".toList, [], " * @ 3 degrees".toList] },
    { title := "instance".toList, first := [], more := [] }],
   [{ title := "param".toList, first := "{number} sips".toList, more := [] }]]

theorem tags_layout_sampleGroups :
    (sampleGroups ≠ [] ∧ ∀ group ∈ sampleGroups, IsProperGroup group) ∧
      (splitAlso (layout sampleGroups)).map tags =
        sampleGroups.map (·.map TagLayout.written) := by
  have hword {title : List Char} (h : title.all (!isBlank ·) = true) :
      ∀ c ∈ title, isBlank c = false := by
    simpa using h
  have hproper : ∀ group ∈ sampleGroups, IsProperGroup group := by
    simp only [sampleGroups, List.forall_mem_cons]
    refine ⟨⟨by decide, ?_, ?_, by decide +kernel⟩, ⟨by decide, ?_, ?_, by decide +kernel⟩, nofun⟩
    · simp only [List.forall_mem_cons]
      exact ⟨⟨by decide, hword (by decide), by decide, by decide, by decide⟩,
        ⟨by decide, hword (by decide), by decide, by decide, by decide⟩, nofun⟩
    · rintro line hline
      obtain rfl := Option.some.inj hline
      exact ⟨'e', by decide, by decide⟩
    · simp only [List.forall_mem_cons]
      exact ⟨⟨by decide, hword (by decide), by decide, by decide, by decide⟩, nofun⟩
    · rintro line hline
      obtain rfl := Option.some.inj hline
      exact ⟨'s', by decide, by decide⟩
  exact ⟨⟨by decide, hproper⟩, tags_layout sampleGroups (by decide) hproper⟩

end Commentary.Comment
