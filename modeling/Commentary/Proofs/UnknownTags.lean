import Commentary.Proofs.TagLedgers

/-!
# Tags that are not defined

A doclet keeps the tags of its comment that the dictionary does not define, in order, each with its
title and its text (`tags_ofSource`). The text is trimmed, but one that is the name of the code,
with blanks at its ends, is quoted.

Some tags hand on others, which are added to the doclet as if they were written. They must be
defined too, or they are kept like any tag that is not. With the large set of tags they all are
(`handsOnDefined_of_jsdoc`).
-/

namespace Commentary

namespace WrittenTag

/-- What is kept of a written tag if the dictionary does not define it, where its text is shown in
some way. -/
def keptAs? (dictionary : Dictionary) (shown : String → String) (tag : WrittenTag) :
    Option KeptTag :=
  let writtenTitle := Text.trim tag.title
  let title := dictionary.normalize writtenTitle
  let text := shown (tag.text.getD "")
  if (dictionary.lookUp title).isSome then none
  else some { writtenTitle, title, text, value := if text = "" then none else some (.text text) }

end WrittenTag

namespace Tag

/-- A tag that is not defined has its text for its value. Of an empty text there is none. -/
theorem build_of_undefined {dictionary : Dictionary} {title : String}
    (hlookUp : dictionary.lookUp (dictionary.normalize (Text.trim title)) = none) (origin : Origin)
    (text : Option String) :
    ∃ problems, build dictionary origin title text =
      { writtenTitle := Text.trim title
        title := dictionary.normalize (Text.trim title)
        text := plainText origin (text.getD "")
        value := if plainText origin (text.getD "") = "" then none
          else some (.text (plainText origin (text.getD "")))
        problems } := by
  have htrim : trimText none origin (text.getD "") = plainText origin (text.getD "") := rfl
  simp only [build, hlookUp, htrim, String.isEmpty_iff]
  by_cases hempty : plainText origin (text.getD "") = ""
  · simp only [hempty, if_true]
    exact checked_eq dictionary none origin.location _
  · simp only [hempty, if_false]
    exact checked_eq dictionary none origin.location _

end Tag

namespace Doclet

open Dictionary Tag

theorem kept?_built (dictionary : Dictionary) (origin : Origin) (tag : WrittenTag) :
    kept? dictionary (tag.built dictionary origin) =
      tag.keptAs? dictionary (plainText origin) := by
  rw [kept?, WrittenTag.built, title_build]
  simp only [WrittenTag.keptAs?]
  rcases hlookUp : dictionary.lookUp (dictionary.normalize (Text.trim tag.title)) with
    _ | definition
  · obtain ⟨problems, hbuild⟩ := build_of_undefined hlookUp origin tag.text
    rw [hbuild]
    rfl
  · rfl

/-- The tags that the tags of a comment hand on are defined, as each of them finds the doclet. -/
def HandsOnDefined (dictionary : Dictionary) (source : Source) : Prop :=
  ∀ before tag after, source.written = before ++ tag :: after → ∀ definition effect,
    dictionary.lookUp (dictionary.normalize (Text.trim tag.title)) = some definition →
    definition.effect = some effect →
    ∀ title ∈ effect.handsOn (unfinished dictionary source.comment before source.origin).kind,
      (dictionary.lookUp title).isSome = true

/-- The large set defines all that its own tags and those of the other set hand on. -/
theorem handsOnDefined_of_jsdoc {config : Config} (h : "jsdoc" ∈ config.tagSets)
    (source : Source) : HandsOnDefined (ofConfig config).value source :=
  fun _ _ _ _ _ _ _ _ _ htitle => isSome_lookUp_handedOn h (mem_handedOnTitles htitle)

/-- A doclet keeps the tags of its comment that the dictionary does not define and no others, if
what its tags hand on is defined: in order, with their titles as they were written and as they are
led to, and with their texts without the blanks at the ends. Where a text is the name of the code
behind the comment, blanks included, the blanks stay and the text is quoted. -/
theorem tags_ofSource (config : Config) (source : Source)
    (h : HandsOnDefined (ofConfig config).value source) :
    (ofSource (ofConfig config).value source).value.tags =
      source.written.filterMap
        (WrittenTag.keptAs? (ofConfig config).value (plainText source.origin)) := by
  have hledger (d : Doclet) : d.tags = d.ledger.tags := rfl
  have hkept : kept? (ofConfig config).value ∘
      WrittenTag.built (ofConfig config).value source.origin =
        WrittenTag.keptAs? (ofConfig config).value (plainText source.origin) :=
    funext (kept?_built _ _)
  rw [hledger, ledger_ofSource, ← hkept]
  refine view_unfinished _ Ledger.tags _ rfl (Ledger.tags_add _) _ _ _ ?_
  intro before tag after hwritten definition effect hlookUp heffect
  exact tags_unseen (fun _ => mem_handedOnTitles)
    (h before tag after hwritten definition effect hlookUp heffect)

/-- A tag that is not defined, with a text that is the name of the code behind it. -/
def spacedName : Source :=
  { comment := "/** @custom  spaced  */", origin := { code := { name := some "  spaced" } } }

theorem normalize_custom : standard.normalize "custom" = "custom" := by
  have hsynonym :
      (standardTags.reverse.find? fun tag => decide ("custom" ∈ tag.synonyms)) = none := by
    decide +kernel
  rw [normalize_standard (by decide), hsynonym]
  rfl

theorem lookUp_custom : standard.lookUp "custom" = none := by
  rw [lookUp_standard normalize_custom]
  decide +kernel

theorem tags_ofSource_spacedName :
    HandsOnDefined standard spacedName ∧ (ofSource standard spacedName).value.tags =
      [⟨"custom", "custom", "\"  spaced\"", some (.text "\"  spaced\"")⟩] := by
  have hdefined : HandsOnDefined standard spacedName :=
    handsOnDefined_of_jsdoc (by simp) spacedName
  have htags : (ofSource standard spacedName).value.tags =
      spacedName.written.filterMap (WrittenTag.keptAs? standard (plainText spacedName.origin)) :=
    tags_ofSource {} spacedName hdefined
  have hwritten : spacedName.written = [⟨"custom", some "  spaced"⟩] := by decide
  have htrim : Text.trim "custom" = "custom" := by decide
  have hquoted : plainText spacedName.origin "  spaced" = "\"  spaced\"" := by decide
  have hne : "\"  spaced\"" ≠ "" := by decide
  refine ⟨hdefined, htags.trans ?_⟩
  rw [hwritten, List.filterMap_cons_some, List.filterMap_nil]
  simp only [WrittenTag.keptAs?, htrim, normalize_custom, lookUp_custom, Option.getD_some, hquoted,
    if_neg hne]
  rfl

/-- A tag of the small set that hands on one that is not in it. -/
def lentName : Source := { comment := "/** @lends Foo\n * @custom x */" }

/-- Texts are not always trimmed, and there can be more tags than were written. -/
theorem tags_not_trimmed :
    let dictionary := (ofConfig { tagSets := ["closure"] }).value
    (ofSource dictionary spacedName).value.tags ≠
        spacedName.written.filterMap (WrittenTag.keptAs? dictionary Text.trim) ∧
      (ofSource dictionary lentName).value.tags ≠
        lentName.written.filterMap (WrittenTag.keptAs? dictionary Text.trim) := by
  decide +kernel

end Doclet

end Commentary
