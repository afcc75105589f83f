import Commentary.Proofs.CommentLayout
import Commentary.Proofs.TagLedgers

/-!
# Code in examples

Code is written into a comment line by line, behind the margin and an indent, and it comes out of
the comment as it was (`ofSource_exampleCode`). On the way the comment loses its margin, the lines
of the code are gathered into the text of one tag (`tags_exampleLayout`), and this text loses the
line feed in front of it and the indent (`dropIndent_trimLineBreaks`). The indent that goes is that
of the first line with text. As the code itself is not indented there, it is the indent that was
put in front of every line, and what a line has beyond it stays.
-/

namespace Commentary

open Commentary.Text Comment

namespace Tag

/-! ## Taking off line breaks and indent -/

theorem isBlank_of_isLineBreak {c : Char} (h : isLineBreak c = true) : isBlank c = true := by
  simp only [isLineBreak, Bool.or_eq_true, beq_iff_eq] at h
  rcases h with (rfl | rfl) | rfl
  · decide
  · decide
  · decide

theorem isLineBreak_of_isBlank {c : Char} (h : isBlank c = false) : isLineBreak c = false :=
  Bool.eq_false_iff.2 fun hbreak => by simp [isBlank_of_isLineBreak hbreak] at h

/-- The line feed in front of a text goes, if the text itself neither starts nor ends with a line
break. -/
theorem trimLineBreaks_lineFeed {text : List Char}
    (hhead : ∀ c ∈ text.head?, isLineBreak c = false)
    (hlast : ∀ c ∈ text.getLast?, isLineBreak c = false) :
    trimLineBreaks ('\n' :: text) = text := by
  have hfront : ('\n' :: text).dropWhile isLineBreak = text := by
    rw [List.dropWhile_cons_of_pos (by decide)]
    cases text with
    | nil => rfl
    | cons c text => exact List.dropWhile_cons_of_neg (by simp [hhead c rfl])
  have hback : text.reverse.dropWhile isLineBreak = text.reverse := by
    rcases hreverse : text.reverse with _ | ⟨c, rest⟩
    · rfl
    · have hc : c ∈ text.getLast? := by
        rw [← List.head?_reverse, hreverse]
        rfl
      exact List.dropWhile_cons_of_neg (by simp [hlast c hc])
  rw [trimLineBreaks, hfront, hback, List.reverse_reverse]

/-- An indent is spaces and tabs. -/
def IsIndent (indent : List Char) : Prop := ∀ c ∈ indent, c = ' ' ∨ c = '\t'

instance : DecidablePred IsIndent := fun indent =>
  List.decidableBAll _ indent

/-- Lines of code as they can stand in a comment: the first one starts and the last one ends with a
character that is not blank, and none of them starts a tag. -/
structure IsCode (code : List (List Char)) : Prop where
  ne_nil : code ≠ []
  isLine : ∀ line ∈ code, IsLine line
  not_startsTag : ∀ line ∈ code, ¬StartsTag line
  startsInText : ∀ line ∈ code.head?, ∃ c, line.head? = some c ∧ isBlank c = false
  endsInText : ∀ line ∈ code.getLast?, EndsInText line

section Indented

variable {indent : List Char} {code : List (List Char)} (hindent : IsIndent indent)
include hindent

theorem IsIndent.isBlank {c : Char} (hc : c ∈ indent) : isBlank c = true := by
  rcases hindent c hc with rfl | rfl
  · decide
  · decide

/-- An indent in front of a line that is not blank is what stands in front of its text. -/
theorem indentOf_cons {line : List Char} {c : Char} (hhead : line.head? = some c)
    (hc : Text.isBlank c = false) (more : List (List Char)) :
    indentOf ((indent ++ line) :: more) = indent := by
  obtain ⟨rest, rfl⟩ := List.head?_eq_some_iff.1 hhead
  have hfind : ((indent ++ c :: rest) :: more).find? (!·.all Text.isBlank) =
      some (indent ++ c :: rest) := List.find?_cons_of_pos (by simp [hc])
  have hspace : (c == ' ' || c == '\t') = false := by
    refine Bool.eq_false_iff.2 fun h => ?_
    rcases Bool.or_eq_true_iff.1 h with h | h
    · rw [eq_of_beq h] at hc
      cases hc
    · rw [eq_of_beq h] at hc
      cases hc
  simp only [indentOf, hfind]
  rw [List.takeWhile_append_of_pos (by simpa [IsIndent] using hindent),
    List.takeWhile_cons_of_neg (by simp [hspace]), List.append_nil]

theorem IsIndent.isLine_append {line : List Char} (hline : IsLine line) :
    IsLine (indent ++ line) := by
  have hfeed : '\n' ∉ indent := fun h => by simpa using hindent '\n' h
  have hreturn : '\r' ∉ indent := fun h => by simpa using hindent '\r' h
  simpa [IsLine, hfeed, hreturn] using hline

theorem IsIndent.startsTag_append_iff {line : List Char} :
    StartsTag (indent ++ line) ↔ StartsTag line := by
  rw [startsTag_iff, startsTag_iff, tagStart?, tagStart?, trimStartChars,
    List.dropWhile_append_of_pos fun c hc => hindent.isBlank hc, ← trimStartChars]

omit hindent in
theorem IsCode.endsInText_indented (hcode : IsCode code) :
    ∀ line ∈ (code.map (indent ++ ·)).getLast?, EndsInText line := by
  intro line hline
  rw [List.getLast?_map] at hline
  obtain ⟨last, hlast, rfl⟩ := Option.map_eq_some_iff.1 hline
  obtain ⟨c, hc, hblank⟩ := hcode.endsInText last hlast
  refine ⟨c, ?_, hblank⟩
  rw [List.getLast?_append, hc, Option.some_or]

/-- Indented lines of code lose their indent and nothing else. -/
theorem dropIndent_indented (hcode : IsCode code) :
    dropIndent (joinLines (code.map (indent ++ ·))) = joinLines code := by
  obtain ⟨line, more, rfl⟩ := List.exists_cons_of_ne_nil hcode.ne_nil
  obtain ⟨c, hc, hblank⟩ := hcode.startsInText line rfl
  have hcut : lineChars (joinLines ((line :: more).map (indent ++ ·))) =
      (line :: more).map (indent ++ ·) := by
    rw [List.map_cons, joinLines_cons]
    refine lineChars_joinTag ?_ ?_
    · rw [← List.map_cons, List.forall_mem_map]
      exact fun l hl => hindent.isLine_append (hcode.isLine l hl)
    · intro hnil
      obtain ⟨d, hd, -⟩ := hcode.endsInText_indented [] hnil
      cases hd
  have hindentOf : indentOf ((line :: more).map (indent ++ ·)) = indent :=
    indentOf_cons hindent hc hblank _
  rw [dropIndent, hcut]
  simp only [hindentOf]
  split
  · rename_i hnil
    rw [List.isEmpty_iff.1 hnil]
    simp
  · have hdrop : (fun line => (indent.isPrefixOf? line).getD line) ∘ (indent ++ ·) = id := by
      funext line
      have hfront : indent.isPrefixOf? (indent ++ line) = some line :=
        List.isPrefixOf?_eq_some_iff_append_eq.2 rfl
      simp [hfront]
    rw [List.map_map, hdrop, List.map_id]
    rfl

/-- What a tag with an indented text keeps of it. -/
theorem dropIndent_trimLineBreaks (hcode : IsCode code) :
    dropIndent (trimLineBreaks ('\n' :: joinLines (code.map (indent ++ ·)))) = joinLines code := by
  have htrim : trimLineBreaks ('\n' :: joinLines (code.map (indent ++ ·))) =
      joinLines (code.map (indent ++ ·)) := by
    refine trimLineBreaks_lineFeed ?_ ?_
    · obtain ⟨line, more, rfl⟩ := List.exists_cons_of_ne_nil hcode.ne_nil
      obtain ⟨c, hc, hblank⟩ := hcode.startsInText line rfl
      obtain ⟨rest, rfl⟩ := List.head?_eq_some_iff.1 hc
      rw [List.map_cons, joinLines_cons, joinTag, List.append_assoc]
      cases indent with
      | nil => simpa using isLineBreak_of_isBlank hblank
      | cons d indent =>
        rcases hindent d List.mem_cons_self with rfl | rfl
        · simp [isLineBreak]
        · simp [isLineBreak]
    · obtain ⟨c, hc, hblank⟩ := endsInText_joinLines (by simpa using hcode.ne_nil)
        hcode.endsInText_indented
      intro d hd
      rw [hc] at hd
      cases hd
      exact isLineBreak_of_isBlank hblank
  rw [htrim, dropIndent_indented hindent hcode]

end Indented

end Tag

namespace Doclet

open Dictionary Tag

/-! ## Examples in comments -/

/-- A comment with an example: each line of code behind the margin and an indent. -/
def exampleComment (indent : String) (code : List String) : String :=
  unlines (["/**", " * @example"] ++ code.map (" * " ++ indent ++ ·) ++ [" */"])

/-- The tag of that comment, as it is laid out. -/
def exampleLayout (indent : List Char) (code : List (List Char)) : TagLayout :=
  { title := "example".toList, first := [], more := code.map (indent ++ ·) }

theorem groupLines_exampleLayout (indent : List Char) (code : List (List Char)) :
    groupLines [exampleLayout indent code] = "@example".toList :: code.map (indent ++ ·) := by
  rw [groupLines, List.flatMap_cons, List.flatMap_nil, List.append_nil]
  rfl

theorem exampleComment_eq (indent : String) (code : List String) :
    exampleComment indent code =
      layout [[exampleLayout indent.toList (code.map String.toList)]] := by
  have hlines : allLines [[exampleLayout indent.toList (code.map String.toList)]] =
      "@example".toList :: (code.map String.toList).map (indent.toList ++ ·) := by
    rw [← groupLines_exampleLayout]
    simp [allLines]
  have hmargin (line : String) :
      (" * " ++ indent ++ line).toList = margin ++ (indent.toList ++ line.toList) := by
    rw [String.toList_append, String.toList_append, List.append_assoc]
    rfl
  rw [← String.toList_inj, exampleComment, layout, String.toList_ofList, hlines, unlines,
    String.toList_intercalate]
  refine congrArg (List.intercalate ['\n']) ?_
  simp only [List.map_append, List.map_cons, List.map_nil, List.map_map, Function.comp_def,
    hmargin, List.cons_append, List.nil_append]
  rfl

/-- The tag whose text is an example. -/
def exampleTag : TagDefinition :=
  { title := "example", keepsBlanks := true, dropsIndent := true, requiresValue := true
    effect := some (.collect .examples) }

theorem leads_exampleTag : standard.Leads exampleTag :=
  leads_standard (by decide) (by decide) (by decide +kernel) (by decide +kernel)

section Example

variable {indent : List Char} {code : List (List Char)} (hindent : IsIndent indent)
  (hcode : IsCode code)
include hindent hcode

theorem isTagGroup_exampleLayout : IsTagGroup [exampleLayout indent code] where
  ne_nil := by simp
  tags := by
    intro t ht
    rw [List.mem_singleton.1 ht]
    have hne : "example".toList ≠ [] := by decide
    have hword : ∀ c ∈ "example".toList, isBlank c = false := fun c hc => by
      have hall : "example".toList.all (!isBlank ·) = true := by decide
      simpa using List.all_eq_true.1 hall c hc
    refine ⟨hne, hword, ⟨List.not_mem_nil, List.not_mem_nil⟩, ?_, ?_⟩
    · exact List.forall_mem_map.2 fun line hline => hindent.isLine_append (hcode.isLine line hline)
    · refine List.forall_mem_map.2 fun line hline hstarts => ?_
      exact hcode.not_startsTag line hline (hindent.startsTag_append_iff.1 hstarts)
  endsInText := by
    obtain ⟨line, more, rfl⟩ := List.exists_cons_of_ne_nil hcode.ne_nil
    rw [groupLines_exampleLayout, List.map_cons, List.getLast?_cons_cons]
    exact hcode.endsInText_indented

/-- The tag that is read from the comment. -/
theorem tags_exampleLayout :
    Comment.tags (layout [[exampleLayout indent code]]) =
      [⟨"example", some (String.ofList ('\n' :: joinLines (code.map (indent ++ ·))))⟩] := by
  have htext : joinLines ([] :: code.map (indent ++ ·)) =
      '\n' :: joinLines (code.map (indent ++ ·)) := by
    obtain ⟨line, more, rfl⟩ := List.exists_cons_of_ne_nil hcode.ne_nil
    rw [List.map_cons, joinLines_cons, joinLines_cons, joinTag_cons, List.nil_append]
  have hnot : ('\n' :: joinLines (code.map (indent ++ ·))).all isBlank = false := by
    have hends : ∀ last ∈ (code.map (indent ++ ·)).getLast?, EndsInText last :=
      hcode.endsInText_indented
    obtain ⟨c, hc, hblank⟩ := endsInText_joinLines (by simpa using hcode.ne_nil) hends
    exact List.all_eq_false.2
      ⟨c, List.mem_cons_of_mem _ (List.mem_of_getLast? hc), by simp [hblank]⟩
  have hwritten : (exampleLayout indent code).written =
      { title := String.ofList "example".toList
        text := if (joinLines ([] :: code.map (indent ++ ·))).all isBlank then none
          else some (String.ofList (joinLines ([] :: code.map (indent ++ ·)))) } := rfl
  rw [tags_layout_group (isTagGroup_exampleLayout hindent hcode), List.map_cons, List.map_nil,
    hwritten, htext, hnot, String.ofList_toList]
  rfl

/-- The tag is built with the code as its text, as it stood before it was indented. -/
theorem build_example {origin : Origin} (hunnamed : origin.code.name = none) :
    ∃ problems, Tag.build standard origin "example"
        (some (String.ofList ('\n' :: joinLines (code.map (indent ++ ·))))) =
      { writtenTitle := "example", title := "example", text := String.ofList (joinLines code)
        value := some (.text (String.ofList (joinLines code))), problems } := by
  have hleads := leads_exampleTag
  have hlookUp : standard.lookUp (standard.normalize (Text.trim "example")) = some exampleTag := by
    rw [show Text.trim "example" = "example" from hleads.trim_title,
      show standard.normalize "example" = "example" from hleads.normalize_title]
    exact hleads.lookUp_title
  have htrim : trimText (some exampleTag) origin
      (String.ofList ('\n' :: joinLines (code.map (indent ++ ·)))) =
        String.ofList (joinLines code) := by
    have hkept := dropIndent_trimLineBreaks hindent hcode
    have hblanks : (some exampleTag).any (·.keepsBlanks) = true := rfl
    have hindents : (some exampleTag).any (·.dropsIndent) = true := rfl
    simp only [trimText, String.toList_ofList]
    rw [if_neg (by simp [hunnamed]), if_pos hblanks, if_pos hindents, hkept]
  have hne : String.ofList (joinLines code) ≠ "" := by
    obtain ⟨c, hc, -⟩ := endsInText_joinLines hcode.ne_nil hcode.endsInText
    intro hempty
    rw [← String.toList_inj, String.toList_ofList] at hempty
    rw [hempty] at hc
    cases hc
  obtain ⟨problems, hchecked⟩ := checked_eq standard (some exampleTag) origin.location
    { writtenTitle := "example", title := "example", text := String.ofList (joinLines code),
      value := some (.text (String.ofList (joinLines code))) }
  refine ⟨problems, ?_⟩
  rw [build_of_untyped hlookUp rfl rfl, ← hchecked]
  simp only [Option.getD_some, shapedText, htrim, hne, if_false]
  rw [show Text.trim "example" = "example" from hleads.trim_title,
    show standard.normalize "example" = "example" from hleads.normalize_title]
  rfl

/-- The tag adds the code to the examples, as it stood before it was indented. -/
theorem value_addTag_example {d : Doclet} (hunnamed : d.origin.code.name = none) :
    (addTag standard "example"
      (some (String.ofList ('\n' :: joinLines (code.map (indent ++ ·))))) d).value =
      { d with examples := d.examples ++ [String.ofList (joinLines code)] } := by
  obtain ⟨problems, hbuild⟩ := build_example hindent hcode hunnamed
  refine (value_addTag hbuild leads_exampleTag.lookUp_title).trans ?_
  simp [exampleTag, applyEffect, applyInternal, Tag.valueText?, collect]

end Example

/-- Code in an example is kept as it is: whatever it is indented by, and whatever stands in its
lines behind their own indent, the doclet has it for its only example. -/
theorem ofSource_exampleCode {indent : String} {code : List String}
    (hindent : IsIndent indent.toList) (hcode : IsCode (code.map String.toList)) :
    (ofSource standard { comment := exampleComment indent code }).value.examples =
      [unlines code] := by
  have htags : Source.written { comment := exampleComment indent code } =
      [⟨"example", some (String.ofList
        ('\n' :: joinLines ((code.map String.toList).map (indent.toList ++ ·))))⟩] := by
    rw [Source.written, List.isEmpty_nil, if_pos rfl, exampleComment_eq]
    exact tags_exampleLayout hindent hcode
  have hlines : String.ofList (joinLines (code.map String.toList)) = unlines code := by
    rw [← String.toList_inj, String.toList_ofList, unlines, String.toList_intercalate]
    rfl
  have hexamples (d : Doclet) : d.examples = d.said.examples := rfl
  rw [hexamples, said_ofSource, ← hexamples, htags, unfinished, List.foldl_cons, List.foldl_nil,
    value_addTag_example hindent hcode rfl, hlines]
  rfl

/-- Code with a relative indent, an empty line, marks that mean something elsewhere in comments, and
a line that starts like a margin. -/
def stirring : List String :=
  ["if (soup.isHot())", "    soup.stir(); // @also */", "", " * @ rest", "soup.serve();"]

/-- The code comes out of a comment in which it is indented by a tab and a space. -/
theorem ofSource_exampleCode_stirring :
    (IsIndent "\t ".toList ∧ IsCode (stirring.map String.toList)) ∧
      exampleComment "\t " stirring =
        "/**\n * @example\n * \t if (soup.isHot())\n * \t     soup.stir(); // @also */\n" ++
          " * \t \n * \t  * @ rest\n * \t soup.serve();\n */" ∧
      (ofSource standard { comment := exampleComment "\t " stirring }).value.examples =
        ["if (soup.isHot())\n    soup.stir(); // @also */\n\n * @ rest\nsoup.serve();"] := by
  have hindent : IsIndent "\t ".toList := by decide
  have hcode : IsCode (stirring.map String.toList) := by
    refine ⟨by decide, by decide, by decide, ?_, ?_⟩
    · rintro line hline
      obtain rfl := Option.some.inj hline
      exact ⟨'i', by decide, by decide⟩
    · rintro line hline
      obtain rfl := Option.some.inj hline
      exact ⟨';', by decide, by decide⟩
  have htext : unlines stirring =
      "if (soup.isHot())\n    soup.stir(); // @also */\n\n * @ rest\nsoup.serve();" := by decide
  refine ⟨⟨hindent, hcode⟩, by decide, ?_⟩
  rw [ofSource_exampleCode hindent hcode, htext]

end Doclet

end Commentary
