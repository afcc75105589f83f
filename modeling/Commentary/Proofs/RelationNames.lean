import Commentary.Proofs.Dependencies
import Commentary.Proofs.TagBodies
import Commentary.Proofs.TagLedgers
import Mathlib.Data.List.TakeWhile

/-!
# What a symbol says that it builds on

The tags of a comment say one after the other what the symbol builds on, each with the first word of
its text (`related_ofSource`). A text that is not empty is not blank either, whether it is trimmed,
quoted or taken out of its braces (`eq_empty_of_blank_shapedText`). So the word is one, unless the
text has come to be empty after all: braces around nothing are a type, the type stands for the whole
text, and it is empty. The check that the tag has a value is made on the text that is left and notes
that there is none, but the word is taken from the text all the same.
-/

namespace Commentary

open Commentary.Text

/-! ## Words -/

theorem Tag.IsTrimmed.eq_nil {cs : List Char} (h : Tag.IsTrimmed cs)
    (hblank : ∀ c ∈ cs, isBlank c = true) : cs = [] := by
  rcases cs with _ | ⟨c, cs⟩
  · rfl
  · have hhead := h.head c rfl
    rw [hblank c List.mem_cons_self] at hhead
    cases hhead

theorem firstWord_blank_free (text : String) :
    ∀ c ∈ (firstWord text).toList, isBlank c = false := by
  rw [firstWord, String.toList_ofList, splitAtBlank, List.span_eq_takeWhile_dropWhile]
  intro c hc
  simpa using List.mem_takeWhile_imp hc

/-- A text has a first word unless it is blank. -/
theorem firstWord_eq_empty_iff {text : String} :
    firstWord text = "" ↔ ∀ c ∈ text.toList, isBlank c = true := by
  have hword : firstWord text = "" ↔ (splitAtBlank (trimStartChars text.toList)).1 = [] := by
    rw [firstWord, ← String.toList_eq_nil_iff, String.toList_ofList]
  rw [hword, splitAtBlank, List.span_eq_takeWhile_dropWhile]
  constructor
  · intro hnil
    rcases htrim : trimStartChars text.toList with _ | ⟨c, rest⟩
    · exact List.dropWhile_eq_nil_iff.1 htrim
    · have hc := Tag.isBlank_head?_trimStartChars text.toList c (by rw [htrim]; rfl)
      rw [htrim, List.takeWhile_cons_of_pos (by simp [hc])] at hnil
      cases hnil
  · intro hblank
    rw [trimStartChars, List.dropWhile_eq_nil_iff.2 hblank]
    rfl

namespace Tag

/-! ## Types without blanks around them -/

theorem isTrimmed_leadingType? {cs type rest : List Char}
    (h : leadingType? cs = some (type, rest)) : IsTrimmed type := by
  unfold leadingType? at h
  split at h
  · obtain ⟨⟨read, after⟩, -, hread⟩ := Option.map_eq_some_iff.1 h
    cases hread
    exact isTrimmed_trimChars read
  · cases h

theorem isTrimmed_inlineTypeHere? {cs type rest : List Char}
    (h : inlineTypeHere? cs = some (type, rest)) : IsTrimmed type := by
  unfold inlineTypeHere? at h
  split at h
  · cases h
  · split at h
    · split at h
      · cases h
        exact isTrimmed_trimChars _
      · cases h
    · cases h

theorem isTrimmed_inlineType? {cs type rest : List Char}
    (h : inlineType? cs = some (type, rest)) : IsTrimmed type := by
  induction cs generalizing rest with
  | nil => cases h
  | cons c cs ih =>
    rw [inlineType?] at h
    split at h
    · rename_i found hhere
      cases h
      exact isTrimmed_inlineTypeHere? hhere
    · obtain ⟨⟨inner, text⟩, hinner, hpair⟩ := Option.map_eq_some_iff.1 h
      cases hpair
      exact ih hinner

theorem isTrimmed_splitType {cs type : List Char} (h : (splitType cs).1 = some type) :
    IsTrimmed type := by
  unfold splitType at h
  simp only at h
  split at h
  · rename_i hinline
    cases h
    exact isTrimmed_inlineType? hinline
  · split at h
    · rename_i hleading
      cases h
      exact isTrimmed_leadingType? hleading
    · cases h

/-- The type of a body has no blanks at its ends. -/
theorem isTrimmed_typeExpression {text type : String}
    (h : (Body.split text false true).typeExpression = some type) : IsTrimmed type.toList := by
  simp only [Body.split, if_true, Bool.false_eq_true, if_false] at h
  obtain ⟨cs, hcs, rfl⟩ := Option.map_eq_some_iff.1 h
  rw [String.toList_ofList]
  exact isTrimmed_splitType hcs

/-! ## Texts that are not blank -/

/-- Trimming leaves nothing of a blank text, and what is quoted is not blank. -/
theorem eq_empty_of_blank_plainText {origin : Origin} {text : String}
    (h : ∀ c ∈ (plainText origin text).toList, isBlank c = true) : plainText origin text = "" := by
  unfold plainText at h ⊢
  split
  · rename_i hquoted
    rw [if_pos hquoted] at h
    have hmark := h '"' (by simp)
    cases hmark
  · rename_i hplain
    rw [if_neg hplain, Text.trim, String.toList_ofList] at h
    rw [Text.trim, IsTrimmed.eq_nil (isTrimmed_trimChars _) h]

theorem eq_empty_of_blank_bracesOptional {text : String}
    (htext : (∀ c ∈ text.toList, isBlank c = true) → text = "")
    (h : ∀ c ∈ (TextShape.bracesOptional.apply text).toList, isBlank c = true) :
    TextShape.bracesOptional.apply text = "" := by
  rw [TextShape.apply] at h ⊢
  rcases htype : (Body.split text false true).typeExpression with _ | type
  · rw [htype, Option.getD_none] at h
    exact htext h
  · rw [htype, Option.getD_some] at h
    exact String.toList_eq_nil_iff.1 ((isTrimmed_typeExpression htype).eq_nil h)

/-! ## Tags without a value -/

/-- A tag is noted to have no value, though it must have one. -/
def LacksValue (origin : Origin) (tag : Tag) : Prop :=
  Problem.tag tag.writtenTitle .requiresValue origin.location ∈ tag.problems

theorem lacksValue_checked_iff (dictionary : Dictionary) {definition : TagDefinition}
    (hrequires : definition.requiresValue = true) (origin : Origin) {tag : Tag}
    (hproblems : tag.problems = []) :
    LacksValue origin (tag.checked dictionary (some definition) origin.location) ↔
      tag.text = "" := by
  have hissue : tag.issue? dictionary (some definition) = some .requiresValue ↔ tag.text = "" := by
    by_cases hempty : tag.text = ""
    · simp [issue?, hrequires, hempty]
    · simp only [issue?, hrequires, Bool.true_and, String.isEmpty_iff, hempty, if_false, iff_false]
      split
      · simp
      · split
        · simp
        · simp
  rw [LacksValue, ← hissue, checked]
  rcases tag.issue? dictionary (some definition) with _ | issue
  · simp [hproblems]
  · simp [hproblems, eq_comm]

/-- The type of a text stands in braces, and there is nothing in them. -/
def EmptyBraces (text : String) : Prop := (Body.split text false true).typeExpression = some ""

instance : DecidablePred EmptyBraces := fun text =>
  inferInstanceAs (Decidable ((Body.split text false true).typeExpression = some ""))

end Tag

/-- What the tags have in common that relate symbols: their text is their value, and they need one.
-/
structure IsRelating (definition : TagDefinition) : Prop where
  untyped : definition.typed = false
  unnamed : definition.named = false
  keepsBlanks : definition.keepsBlanks = false
  requiresValue : definition.requiresValue = true
  reshape : definition.reshape = none ∨ definition.reshape = some .bracesOptional

theorem isRelating_of_mem_shippedTags {definition : TagDefinition}
    (h : definition ∈ Dictionary.shippedTags) {relation : Relation}
    (heffect : definition.effect = some (.relate relation)) : IsRelating definition := by
  have hshipped : ∀ tag ∈ Dictionary.shippedTags,
      ∀ relation ∈ [Relation.augments, .mixes, .implements], tag.effect = some (.relate relation) →
        tag.typed = false ∧ tag.named = false ∧ tag.keepsBlanks = false ∧
          tag.requiresValue = true ∧ (tag.reshape = none ∨ tag.reshape = some .bracesOptional) := by
    decide +kernel
  obtain ⟨htyped, hnamed, hblanks, hrequires, hreshape⟩ :=
    hshipped definition h relation (by cases relation <;> simp) heffect
  exact ⟨htyped, hnamed, hblanks, hrequires, hreshape⟩

namespace Tag

section Relating

variable {definition : TagDefinition} {origin : Origin} {text : String}

theorem eq_empty_of_blank_shapedText (h : IsRelating definition)
    (hblank : ∀ c ∈ (shapedText definition origin text).toList, isBlank c = true) :
    shapedText definition origin text = "" := by
  simp only [shapedText, trimText_eq h.keepsBlanks] at hblank ⊢
  split
  · rfl
  · rename_i hne
    rw [if_neg hne] at hblank
    rcases h.reshape with hreshape | hreshape
    · simp only [hreshape, Option.map_none, Option.getD_none] at hblank ⊢
      exact eq_empty_of_blank_plainText hblank
    · simp only [hreshape, Option.map_some, Option.getD_some] at hblank ⊢
      exact eq_empty_of_blank_bracesOptional eq_empty_of_blank_plainText hblank

/-- A text that is there is lost if it opens and closes braces around nothing. -/
theorem shapedText_eq_empty_iff (h : IsRelating definition) (hne : plainText origin text ≠ "") :
    shapedText definition origin text = "" ↔
      definition.reshape = some .bracesOptional ∧ EmptyBraces (plainText origin text) := by
  simp only [shapedText, trimText_eq h.keepsBlanks, if_neg hne]
  rcases h.reshape with hreshape | hreshape
  · simp [hreshape, hne]
  · simp only [hreshape, Option.map_some, Option.getD_some, TextShape.apply, EmptyBraces, true_and]
    rcases (Body.split (plainText origin text) false true).typeExpression with _ | type
    · simp [hne]
    · simp

theorem valueText?_checked (dictionary : Dictionary) (definition : Option TagDefinition)
    (location : Location) (tag : Tag) :
    (tag.checked dictionary definition location).valueText? = tag.valueText? := by
  obtain ⟨problems, hchecked⟩ := checked_eq dictionary definition location tag
  rw [hchecked]
  rfl

end Relating

end Tag

namespace Doclet

open Dictionary Tag

/-! ## One tag -/

/-- Whether a tag is there to say what a symbol builds on by a relation. -/
def Relates (dictionary : Dictionary) (relation : Relation) (tag : Tag) : Prop :=
  (dictionary.lookUp tag.title).bind TagDefinition.effect = some (.relate relation)

/-- A tag that should say what the symbol builds on and has braces around nothing. It is noted to
have no value. -/
structure NamesNothing (dictionary : Dictionary) (relation : Relation) (origin : Origin)
    (tag : WrittenTag) : Prop where
  relates : Relates dictionary relation (tag.built dictionary origin)
  lacksValue : LacksValue origin (tag.built dictionary origin)
  emptyBraces : EmptyBraces (plainText origin (tag.text.getD ""))

section OneTag

variable {origin : Origin} {tag : WrittenTag}

theorem lacksValue_built_iff {dictionary : Dictionary} {definition : TagDefinition}
    (hdef : IsRelating definition)
    (hlookUp : dictionary.lookUp (dictionary.normalize (Text.trim tag.title)) = some definition) :
    LacksValue origin (tag.built dictionary origin) ↔
      shapedText definition origin (tag.text.getD "") = "" := by
  rw [WrittenTag.built, build_of_untyped hlookUp hdef.untyped hdef.unnamed]
  exact lacksValue_checked_iff _ hdef.requiresValue origin rfl

theorem valueText?_built {dictionary : Dictionary} {definition : TagDefinition}
    (hdef : IsRelating definition)
    (hlookUp : dictionary.lookUp (dictionary.normalize (Text.trim tag.title)) = some definition) :
    (tag.built dictionary origin).valueText? =
      if plainText origin (tag.text.getD "") = "" then none
      else some (shapedText definition origin (tag.text.getD "")) := by
  rw [WrittenTag.built, build_of_untyped hlookUp hdef.untyped hdef.unnamed, valueText?_checked,
    trimText_eq hdef.keepsBlanks]
  split
  · rfl
  · rfl

/-- What a tag names is nothing exactly if it has braces around nothing and was noted for it. -/
theorem related?_eq_empty_iff {config : Config} {relation : Relation} :
    related? (ofConfig config).value relation (tag.built (ofConfig config).value origin) =
      some "" ↔ NamesNothing (ofConfig config).value relation origin tag := by
  by_cases hrelates : Relates (ofConfig config).value relation
      (tag.built (ofConfig config).value origin)
  · obtain ⟨definition, hlookUp, heffect⟩ := Option.bind_eq_some_iff.1 hrelates
    rw [WrittenTag.built, title_build] at hlookUp
    have hdef := isRelating_of_mem_shippedTags (shipped_of_lookUp_ofConfig hlookUp).1 heffect
    have hnamed : related? (ofConfig config).value relation
        (tag.built (ofConfig config).value origin) =
          (tag.built (ofConfig config).value origin).valueText?.map firstWord := if_pos hrelates
    rw [hnamed, valueText?_built hdef hlookUp]
    by_cases hempty : plainText origin (tag.text.getD "") = ""
    · have hnone : ¬EmptyBraces "" := by decide
      simp only [if_pos hempty, Option.map_none, reduceCtorEq, false_iff]
      exact fun h => hnone (hempty ▸ h.emptyBraces)
    · rw [if_neg hempty, Option.map_some, Option.some.injEq, firstWord_eq_empty_iff]
      constructor
      · intro hblank
        have hshaped := eq_empty_of_blank_shapedText hdef hblank
        exact ⟨hrelates, (lacksValue_built_iff hdef hlookUp).2 hshaped,
          ((shapedText_eq_empty_iff hdef hempty).1 hshaped).2⟩
      · intro h
        rw [(lacksValue_built_iff hdef hlookUp).1 h.lacksValue]
        simp
  · have hnone : related? (ofConfig config).value relation
        (tag.built (ofConfig config).value origin) = none := if_neg hrelates
    rw [hnone]
    exact ⟨nofun, fun h => absurd h.relates hrelates⟩

end OneTag

theorem related?_blank_free {dictionary : Dictionary} {relation : Relation} {tag : Tag}
    {name : String} (h : related? dictionary relation tag = some name) :
    ∀ c ∈ name.toList, isBlank c = false := by
  unfold related? at h
  split at h
  · obtain ⟨text, -, rfl⟩ := Option.map_eq_some_iff.1 h
    exact firstWord_blank_free text
  · cases h

/-! ## Whole comments -/

/-- What the doclet of a comment builds on is what the tags say, in order. -/
theorem related_eq_filterMap (config : Config) (source : Source) (relation : Relation) :
    (ofSource (ofConfig config).value source).value.related relation =
      source.written.filterMap fun tag =>
        related? (ofConfig config).value relation
          (tag.built (ofConfig config).value source.origin) := by
  have hledger (d : Doclet) : d.related relation = d.ledger.related relation := by
    cases relation <;> rfl
  rw [hledger, ledger_ofSource]
  refine view_unfinished _ (·.related relation) _ ?_ ?_ _ _ _ ?_
  · cases relation <;> rfl
  · exact fun l tag => Ledger.related_add _ l relation tag
  · intro before tag after _ definition effect _ _
    exact related_unseen relation fun _ => mem_handedOnTitles

theorem empty_mem_related_iff {config : Config} {source : Source} {relation : Relation} :
    "" ∈ (ofSource (ofConfig config).value source).value.related relation ↔
      ∃ tag ∈ source.written,
        NamesNothing (ofConfig config).value relation source.origin tag := by
  rw [related_eq_filterMap, List.mem_filterMap]
  exact exists_congr fun tag => and_congr_right fun _ => related?_eq_empty_iff

/-- A class-like doclet that builds on what has no name breaks the graph, unless something
class-like has no name. -/
theorem not_builds_of_empty_mem {relation : Relation} {catalog : Catalog} {id : Nat} {d : Doclet}
    (hd : catalog.get? id = some d) (hclass : d.kind.any Inheritance.isClassLike = true)
    (hunnamed : ¬Inheritance.IsNode catalog "") (hmem : "" ∈ d.related relation) :
    ¬Inheritance.Builds relation catalog :=
  fun hbuilds => hunnamed (Inheritance.builds_iff.1 hbuilds id d hd hclass "" hmem)

/-- What the doclet of a comment builds on is what its tags name, in order. The names have no blanks
in them, and they are not empty but for the tags that have braces around nothing: such a tag is
noted to have no value, and is taken to name the empty text all the same. If the doclet is
class-like, this breaks the graph of any catalog that holds it, unless something class-like there
has no name. -/
theorem related_ofSource (config : Config) (source : Source) (relation : Relation) :
    let dictionary := (ofConfig config).value
    let d := (ofSource dictionary source).value
    d.related relation = source.written.filterMap (fun tag =>
        related? dictionary relation (tag.built dictionary source.origin)) ∧
      (∀ name ∈ d.related relation, ∀ c ∈ name.toList, isBlank c = false) ∧
      ("" ∈ d.related relation ↔
        ∃ tag ∈ source.written, NamesNothing dictionary relation source.origin tag) ∧
      ((∃ tag ∈ source.written, NamesNothing dictionary relation source.origin tag) →
        ∀ catalog id, catalog.get? id = some d → d.kind.any Inheritance.isClassLike = true →
          ¬Inheritance.IsNode catalog "" → ¬Inheritance.Builds relation catalog) := by
  intro dictionary d
  have hrelated : d.related relation = source.written.filterMap (fun tag =>
      related? dictionary relation (tag.built dictionary source.origin)) :=
    related_eq_filterMap config source relation
  refine ⟨hrelated, fun name hname => ?_, empty_mem_related_iff,
    fun hnothing catalog id hd hclass hunnamed => ?_⟩
  · rw [hrelated] at hname
    obtain ⟨tag, -, htag⟩ := List.mem_filterMap.1 hname
    exact related?_blank_free htag
  · exact not_builds_of_empty_mem hd hclass hunnamed (empty_mem_related_iff.2 hnothing)

/-! ## Braces around nothing -/

/-- A class that says that it builds on something and does not say on what. -/
def augmentsNothing : Source :=
  { comment := "/**\n * @class A\n * @augments \x7b\x7d\n */" }

theorem outline_augmentsNothing :
    let d := (ofSource standard augmentsNothing).value
    d.related .augments = [""] ∧ d.kind = some .class ∧ d.longname = "A" := by
  decide +kernel

/-- In a catalog that holds nothing but a class with a name, nothing class-like has no name. -/
theorem lone_class {d : Doclet} (hkind : d.kind = some .class) (hlongname : d.longname = "A") :
    (Catalog.empty.insert d).get? 0 = some d ∧ d.kind.any Inheritance.isClassLike = true ∧
      ¬Inheritance.IsNode (Catalog.empty.insert d) "" := by
  have hd : (Catalog.empty.insert d).get? 0 = some d := rfl
  refine ⟨hd, by rw [hkind]; rfl, ?_⟩
  rintro ⟨id, e, he, -, hunnamed⟩
  cases id with
  | zero =>
    rw [hd] at he
    cases he
    rw [hlongname] at hunnamed
    exact absurd hunnamed (by decide)
  | succ id => cases he

/-- The tag is noted to have no value, and the graph of the class alone cannot be built. -/
theorem augmentsNothing_breaks :
    let d := (ofSource standard augmentsNothing).value
    (∃ tag ∈ augmentsNothing.written, NamesNothing standard .augments augmentsNothing.origin tag) ∧
      d.related .augments = [""] ∧ ¬Inheritance.Builds .augments (Catalog.empty.insert d) := by
  obtain ⟨hrelated, hkind, hlongname⟩ := outline_augmentsNothing
  obtain ⟨hd, hclass, hunnamed⟩ := lone_class hkind hlongname
  have hmem : "" ∈ (ofSource standard augmentsNothing).value.related .augments :=
    hrelated ▸ List.mem_singleton_self ""
  exact ⟨empty_mem_related_iff.1 hmem, hrelated, not_builds_of_empty_mem hd hclass hunnamed hmem⟩

theorem related_ofSource_augmentsNothing :
    ¬Inheritance.Builds .augments
      (Catalog.empty.insert (ofSource standard augmentsNothing).value) := by
  obtain ⟨hrelated, hkind, hlongname⟩ := outline_augmentsNothing
  obtain ⟨hd, hclass, hunnamed⟩ := lone_class hkind hlongname
  obtain ⟨-, -, hnothing, hbreaks⟩ := related_ofSource {} augmentsNothing .augments
  have hmem : "" ∈ (ofSource standard augmentsNothing).value.related .augments :=
    hrelated ▸ List.mem_singleton_self ""
  exact hbreaks (hnothing.1 hmem) _ 0 hd hclass hunnamed

end Doclet

end Commentary
