import Commentary.Proofs.TagLookup

/-!
# Titles and synonyms

A dictionary is asked in two turns: a synonym leads to a title, and the title to a definition. Each
turn gives what was last said of the word, whatever else has been done to the dictionary
(`Dictionary.lookUp_after`), and the first turn is taken even if the word has been defined since.

So a tag that has just been defined is found under its title unless the title is a synonym of
another one, from whatever time. The tags of the set that a configuration lists first are found
unless a set behind it, which is loaded before it, has such a synonym
(`Dictionary.lookUp_title_iff`).
-/

namespace Commentary

/-- Something that is done to a dictionary. -/
inductive Dictionary.Step where
  | define (definition : TagDefinition)
  | defineSynonym (title synonym : String)

/-- What a dictionary starts from. -/
inductive Dictionary.Origin where
  | empty
  | ofConfig (config : Config)

namespace Dictionary

/-! ## The last answer -/

namespace Step

/-- The title to which a step lets a word lead. -/
def titleOf? (word : String) : Step → Option String
  | .define definition =>
    if word ∈ definition.synonyms.map Text.lower then some (Text.lower definition.title) else none
  | .defineSynonym title synonym =>
    if Text.lower synonym = word then some (Text.lower title) else none

/-- What a step defines under a title. -/
def definitionOf? (title : String) : Step → Option TagDefinition
  | .define definition => if Text.lower definition.title = title then some definition else none
  | .defineSynonym .. => none

end Step

/-- What the last of some steps answers that has an answer. -/
def latest? {β : Type} (answer : Step → Option β) (steps : List Step) : Option β :=
  steps.reverse.findSome? answer

section Latest

variable {β : Type} {answer : Step → Option β} {steps : List Step} {b : β}

theorem latest?_append (answer : Step → Option β) (steps steps' : List Step) :
    latest? answer (steps ++ steps') = (latest? answer steps').or (latest? answer steps) := by
  rw [latest?, List.reverse_append, List.findSome?_append, latest?, latest?]

theorem latest?_singleton (answer : Step → Option β) (step : Step) :
    latest? answer [step] = answer step :=
  List.findSome?_singleton

theorem exists_of_latest?_eq_some (h : latest? answer steps = some b) :
    ∃ step ∈ steps, answer step = some b := by
  obtain ⟨step, hstep, hanswer⟩ := List.exists_of_findSome?_eq_some h
  exact ⟨step, List.mem_reverse.1 hstep, hanswer⟩

theorem latest?_eq_none_iff :
    latest? answer steps = none ↔ ∀ step ∈ steps, answer step = none := by
  simp [latest?, List.findSome?_eq_none_iff]

end Latest

/-! ## Doing something to a dictionary -/

/-- The dictionary after a step. -/
def perform (dictionary : Dictionary) : Step → Dictionary
  | .define definition => dictionary.define definition
  | .defineSynonym title synonym => dictionary.defineSynonym title synonym

/-- The dictionary to which nothing has been done yet. -/
def Origin.dictionary : Origin → Dictionary
  | .empty => .empty
  | .ofConfig config => (Dictionary.ofConfig config).value

/-- What a configuration defines: its sets, the last one first, and the tags that every run has. -/
def configTags (config : Config) : List TagDefinition :=
  config.tagSets.reverse.flatMap setTags ++ TagSet.internal

/-- The steps by which that dictionary has been made. -/
def Origin.steps : Origin → List Step
  | .empty => []
  | .ofConfig config => (configTags config).map .define

/-- The dictionary after some steps. -/
def after (origin : Origin) (steps : List Step) : Dictionary :=
  steps.foldl perform origin.dictionary

/-- All that has been done to the dictionary after some steps. -/
def history (origin : Origin) (steps : List Step) : List Step := origin.steps ++ steps

theorem find?_synonyms_perform (word : String) (dictionary : Dictionary) (step : Step) :
    (dictionary.perform step).synonyms.find? word =
      (step.titleOf? word).or (dictionary.synonyms.find? word) := by
  cases step with
  | define definition =>
    refine (find?_synonyms_foldl_defineSynonym definition.title definition.synonyms dictionary
      word).trans ?_
    by_cases hword : word ∈ definition.synonyms.map Text.lower
    · rw [if_pos hword, Step.titleOf?, if_pos hword, Option.some_or]
    · rw [if_neg hword, Step.titleOf?, if_neg hword, Option.none_or]
  | defineSynonym title synonym =>
    rw [perform, defineSynonym, Table.find?_insert, Step.titleOf?]
    by_cases hword : Text.lower synonym = word <;> simp [hword]

theorem find?_definitions_perform (title : String) (dictionary : Dictionary) (step : Step) :
    (dictionary.perform step).definitions.find? title =
      (step.definitionOf? title).or (dictionary.definitions.find? title) := by
  cases step with
  | define definition =>
    rw [perform, define, Table.find?_insert, definitions_foldl_defineSynonym, Step.definitionOf?]
    by_cases htitle : Text.lower definition.title = title <;> simp [htitle]
  | defineSynonym => rfl

/-- What each step replaces by its answer, if it has one, is the last answer in the end. -/
theorem view_foldl_perform {β : Type} (view : Dictionary → Option β) {answer : Step → Option β}
    (hstep : ∀ dictionary step,
      view (perform dictionary step) = (answer step).or (view dictionary))
    (steps : List Step) (dictionary : Dictionary) :
    view (steps.foldl perform dictionary) = (latest? answer steps).or (view dictionary) := by
  induction steps generalizing dictionary with
  | nil => rfl
  | cons step steps ih =>
    rw [List.foldl_cons, ih, hstep, ← Option.or_assoc, ← latest?_singleton answer step,
      ← latest?_append, List.singleton_append]

/-- A dictionary is made by its history from one that holds nothing. -/
theorem after_eq (origin : Origin) (steps : List Step) :
    ∃ unknownTags, after origin steps =
      (history origin steps).foldl perform { unknownTags := unknownTags } := by
  cases origin with
  | empty => exact ⟨_, rfl⟩
  | ofConfig config =>
    refine ⟨config.unknownTags, ?_⟩
    rw [after, Origin.dictionary, value_ofConfig, history, Origin.steps, List.foldl_append,
      List.foldl_map]
    rfl

/-- A word leads to the title that it was last given, or else to itself, and that title to what was
last defined under it. -/
theorem lookUp_after (origin : Origin) (steps : List Step) (word : String) :
    (after origin steps).lookUp word =
      latest? (Step.definitionOf?
        ((latest? (Step.titleOf? (Text.lower word)) (history origin steps)).getD (Text.lower word)))
        (history origin steps) := by
  obtain ⟨unknownTags, hafter⟩ := after_eq origin steps
  rw [hafter, lookUp, normalize,
    view_foldl_perform (·.definitions.find? _) (find?_definitions_perform _),
    view_foldl_perform (·.synonyms.find? _) (find?_synonyms_perform _),
    Table.find?_empty, Table.find?_empty, Option.or_none, Option.or_none]

/-! ## Tags under their own titles -/

theorem mem_of_latest?_eq_some {title : String} {tags : List TagDefinition} {tag : TagDefinition}
    (h : latest? (Step.definitionOf? title) (tags.map .define) = some tag) : tag ∈ tags := by
  obtain ⟨step, hstep, hanswer⟩ := exists_of_latest?_eq_some h
  obtain ⟨other, hother, rfl⟩ := List.mem_map.1 hstep
  rw [Step.definitionOf?, Option.ite_none_right_eq_some, Option.some.injEq] at hanswer
  exact hanswer.2 ▸ hother

theorem lower_title_of_latest? {title : String} {steps : List Step} {tag : TagDefinition}
    (h : latest? (Step.definitionOf? title) steps = some tag) : Text.lower tag.title = title := by
  obtain ⟨step, -, hstep⟩ := exists_of_latest?_eq_some h
  cases step with
  | define definition =>
    rw [Step.definitionOf?, Option.ite_none_right_eq_some] at hstep
    obtain ⟨htitle, hsame⟩ := hstep
    rwa [← Option.some.inj hsame]
  | defineSynonym => cases hstep

/-- What was last defined under a title is found under it unless the title leads elsewhere. -/
theorem lookUp_after_title_iff {origin : Origin} {steps : List Step} {tag : TagDefinition}
    (h : latest? (Step.definitionOf? (Text.lower tag.title)) (history origin steps) = some tag) :
    (after origin steps).lookUp tag.title = some tag ↔
      ∀ title, latest? (Step.titleOf? (Text.lower tag.title)) (history origin steps) = some title →
        title = Text.lower tag.title := by
  rw [lookUp_after]
  rcases latest? (Step.titleOf? (Text.lower tag.title)) (history origin steps) with _ | title
  · simpa using h
  · constructor
    · rintro hfound _ ⟨⟩
      exact (lower_title_of_latest? hfound).symm
    · intro hsame
      rw [Option.getD_some, hsame title rfl, h]

theorem latest?_definitionOf?_concat (steps : List Step) (tag : TagDefinition) :
    latest? (Step.definitionOf? (Text.lower tag.title)) (steps ++ [.define tag]) = some tag := by
  rw [latest?_append, latest?_singleton, Step.definitionOf?, if_pos rfl, Option.some_or]

/-! ## The sets of a configuration -/

/-- The tags that every run has change no tag of a set that has the same title. -/
theorem eq_of_title_eq (name : String) :
    ∀ tag ∈ setTags name, ∀ other ∈ setTags name ++ TagSet.internal,
      other.title = tag.title → other = tag := by
  unfold setTags TagSet.ofName?
  split
  · decide +kernel
  · decide +kernel
  · exact fun _ h => by cases h

/-- In a set, and with the tags that every run has, no synonym is the title of a tag of the set. -/
theorem title_ne_synonym (name : String) :
    ∀ other ∈ setTags name ++ TagSet.internal, ∀ synonym ∈ other.synonyms,
      ∀ tag ∈ setTags name, tag.title ≠ synonym := by
  unfold setTags TagSet.ofName?
  split
  · decide +kernel
  · decide +kernel
  · exact fun _ _ _ _ _ h => by cases h

/-- No tag that comes with the program has its title for a synonym. -/
theorem title_notMem_synonyms : ∀ tag ∈ shippedTags, tag.title ∉ tag.synonyms := by
  decide +kernel

section FirstSet

variable {config : Config} {name : String} {rest : List String} {tag : TagDefinition}

theorem configTags_of_cons (hsets : config.tagSets = name :: rest) :
    configTags config = rest.reverse.flatMap setTags ++ (setTags name ++ TagSet.internal) := by
  rw [configTags, hsets, List.reverse_cons, List.flatMap_append, List.flatMap_singleton,
    List.append_assoc]

theorem mem_shippedTags_of_mem_setTags (htag : tag ∈ setTags name) : tag ∈ shippedTags :=
  @mem_shippedTags { tagSets := [name] } tag (List.mem_append_left _ (by simpa using htag))

/-- The tags of the first set are defined last. -/
theorem latest?_definitionOf?_configTags (hsets : config.tagSets = name :: rest)
    (htag : tag ∈ setTags name) :
    latest? (Step.definitionOf? (Text.lower tag.title)) ((configTags config).map .define) =
      some tag := by
  have hlower := (lower_shippedTags tag (mem_shippedTags_of_mem_setTags htag)).1
  have hlast : latest? (Step.definitionOf? (Text.lower tag.title))
      ((setTags name ++ TagSet.internal).map .define) = some tag := by
    cases hlatest : latest? (Step.definitionOf? (Text.lower tag.title))
        ((setTags name ++ TagSet.internal).map .define) with
    | none =>
      -- the tag itself is defined under its title
      have hnone := latest?_eq_none_iff.1 hlatest (.define tag)
        (List.mem_map_of_mem (List.mem_append_left _ htag))
      simp [Step.definitionOf?] at hnone
    | some other =>
      have hmem := mem_of_latest?_eq_some hlatest
      have hshipped : other ∈ shippedTags := by
        rcases List.mem_append.1 hmem with hset | hinternal
        · exact mem_shippedTags_of_mem_setTags hset
        · exact @mem_shippedTags {} other (List.mem_append_right _ hinternal)
      have htitle : other.title = tag.title := by
        rw [← (lower_shippedTags other hshipped).1, lower_title_of_latest? hlatest, hlower]
      rw [eq_of_title_eq name tag htag other hmem htitle]
  rw [configTags_of_cons hsets, List.map_append, latest?_append, hlast, Option.some_or]

/-- In a configuration a word leads to the title of a tag that has it for a synonym. -/
theorem exists_of_latest?_titleOf? {word title : String}
    (h : latest? (Step.titleOf? word) ((configTags config).map .define) = some title) :
    ∃ tag ∈ configTags config, word ∈ tag.synonyms ∧ title = tag.title := by
  obtain ⟨step, hstep, hanswer⟩ := exists_of_latest?_eq_some h
  obtain ⟨tag, htag, rfl⟩ := List.mem_map.1 hstep
  obtain ⟨htitle, hsynonyms⟩ := lower_shippedTags tag (mem_shippedTags htag)
  rw [Step.titleOf?, Option.ite_none_right_eq_some, Option.some.injEq, hsynonyms, htitle] at hanswer
  exact ⟨tag, htag, hanswer.1, hanswer.2.symm⟩

/-- A title of the first set leads elsewhere exactly if a set behind it has it for a synonym. -/
theorem titleOf?_configTags_iff (hsets : config.tagSets = name :: rest)
    (htag : tag ∈ setTags name) :
    (∀ title, latest? (Step.titleOf? (Text.lower tag.title)) ((configTags config).map .define) =
        some title → title = Text.lower tag.title) ↔
      ∀ set ∈ rest, ∀ other ∈ setTags set, tag.title ∉ other.synonyms := by
  rw [(lower_shippedTags tag (mem_shippedTags_of_mem_setTags htag)).1]
  constructor
  · intro hsame set hset other hother hsynonym
    have hmem : other ∈ configTags config := by
      rw [configTags_of_cons hsets]
      exact List.mem_append_left _ (List.mem_flatMap.2 ⟨set, List.mem_reverse.2 hset, hother⟩)
    cases hlatest : latest? (Step.titleOf? tag.title) ((configTags config).map .define) with
    | none =>
      have hnone := latest?_eq_none_iff.1 hlatest (.define other) (List.mem_map_of_mem hmem)
      rw [Step.titleOf?, (lower_shippedTags other (mem_shippedTags hmem)).2,
        if_pos hsynonym] at hnone
      cases hnone
    | some title =>
      obtain ⟨another, hanother, hsynonym, rfl⟩ := exists_of_latest?_titleOf? hlatest
      have htitle : another.title = tag.title := hsame _ hlatest
      exact title_notMem_synonyms another (mem_shippedTags hanother) (htitle ▸ hsynonym)
  · intro hnone title hlatest
    obtain ⟨other, hother, hsynonym, -⟩ := exists_of_latest?_titleOf? hlatest
    rw [configTags_of_cons hsets] at hother
    rcases List.mem_append.1 hother with hrest | hfirst
    · obtain ⟨set, hset, hmem⟩ := List.mem_flatMap.1 hrest
      exact absurd hsynonym (hnone set (List.mem_reverse.1 hset) other hmem)
    · exact absurd rfl (title_ne_synonym name other hfirst tag.title hsynonym tag htag)

/-- A tag of the first set is found under its title unless a set behind it has it for a synonym. -/
theorem lookUp_ofConfig_title_iff (hsets : config.tagSets = name :: rest)
    (htag : tag ∈ setTags name) :
    (ofConfig config).value.lookUp tag.title = some tag ↔
      ∀ set ∈ rest, ∀ other ∈ setTags set, tag.title ∉ other.synonyms := by
  have hhistory : history (.ofConfig config) [] = (configTags config).map .define :=
    List.append_nil _
  rw [← titleOf?_configTags_iff hsets htag, ← hhistory]
  refine @lookUp_after_title_iff (.ofConfig config) [] tag ?_
  rw [hhistory]
  exact latest?_definitionOf?_configTags hsets htag

end FirstSet

/-- A tag that has been defined is found under its title exactly if the title, when all that has
been done to the dictionary is gone through, was not last made a synonym of another one. A tag of
the set that a configuration lists first is found exactly if no set behind it has the title for a
synonym. -/
theorem lookUp_title_iff (origin : Origin) (steps : List Step) (tag : TagDefinition) :
    (((after origin steps).define tag).lookUp tag.title = some tag ↔
        ∀ title, latest? (Step.titleOf? (Text.lower tag.title))
          (history origin (steps ++ [.define tag])) = some title → title = Text.lower tag.title) ∧
      ∀ (config : Config) (name : String) (rest : List String), config.tagSets = name :: rest →
        tag ∈ setTags name →
          ((ofConfig config).value.lookUp tag.title = some tag ↔
            ∀ set ∈ rest, ∀ other ∈ setTags set, tag.title ∉ other.synonyms) := by
  refine ⟨?_, fun config name rest hsets htag => lookUp_ofConfig_title_iff hsets htag⟩
  have hdefine : (after origin steps).define tag = after origin (steps ++ [.define tag]) := by
    rw [after, after, List.foldl_append]
    rfl
  rw [hdefine]
  refine lookUp_after_title_iff ?_
  rw [history, ← List.append_assoc]
  exact latest?_definitionOf?_concat _ tag

/-- The tag of a constant in the set `jsdoc`. -/
def constantTag : TagDefinition :=
  { title := "constant", typed := true, named := true, effect := some (.typedKindByName .constant),
    synonyms := ["const"] }

/-- The tag of a constant in the set `closure`. -/
def constTag : TagDefinition := constantTag.renamed "const"

/-- By default the set `closure` comes second, and has no synonyms. A synonym that is made to lead
to itself does no harm any more. -/
theorem lookUp_title_constant :
    (({} : Config).tagSets = ["jsdoc", "closure"] ∧ constantTag ∈ setTags "jsdoc" ∧
        (ofConfig {}).value.lookUp "constant" = some constantTag) ∧
      ((after .empty [.define constantTag, .defineSynonym "const" "const"]).define
        constTag).lookUp "const" = some constTag := by
  have hmem : constantTag ∈ setTags "jsdoc" := by decide +kernel
  refine ⟨⟨rfl, hmem, ?_⟩, ?_⟩
  · refine ((lookUp_title_iff .empty [] constantTag).2 {} "jsdoc" ["closure"] rfl hmem).2 ?_
    decide +kernel
  · refine (lookUp_title_iff .empty _ constTag).1.2 fun title htitle => ?_
    have hself : latest? (Step.titleOf? (Text.lower "const"))
        (history .empty [.define constantTag, .defineSynonym "const" "const",
          .define constTag]) = some (Text.lower "const") := by
      decide +kernel
    exact Option.some.inj (htitle.symm.trans hself)

/-- If the set `closure` comes first, its tag `const` is not found, because the set `jsdoc` has the
title for a synonym. Nor is a tag found that is defined under a synonym, but the other one. -/
theorem lookUp_title_const :
    (constTag ∈ setTags "closure" ∧
        (ofConfig { tagSets := ["closure", "jsdoc"] }).value.lookUp "const" ≠ some constTag) ∧
      ((after .empty [.define constantTag]).define constTag).lookUp "const" = some constantTag ∧
      constantTag ≠ constTag := by
  have hconst : constTag ∈ setTags "closure" := by decide +kernel
  have hconstant : constantTag ∈ setTags "jsdoc" := by decide +kernel
  refine ⟨⟨hconst, fun hfound => ?_⟩, by decide +kernel, by decide⟩
  have hnone := (@lookUp_ofConfig_title_iff { tagSets := ["closure", "jsdoc"] } _ _ _ rfl
    hconst).1 hfound
  exact hnone "jsdoc" (by simp) constantTag hconstant (by decide)

end Dictionary

end Commentary
