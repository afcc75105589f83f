import Commentary.Doclet.Effect
import Mathlib.Data.List.Find

/-!
# What a dictionary finds

A dictionary is made by defining tags one after the other, so a title leads to the tag that was
defined last under it (`find?_definitions_defineAll`). Of the tags that come with the program only
three are namespaces, whatever a configuration loads (`isNamespace_ofConfig`). For the dictionary of
the default settings this gives the tags by which a symbol is named and placed, and what each of
them does to a doclet.
-/

namespace Commentary

namespace Dictionary

/-! ## Defining -/

theorem definitions_foldl_defineSynonym (title : String) (synonyms : List String)
    (dictionary : Dictionary) :
    (synonyms.foldl (·.defineSynonym title ·) dictionary).definitions = dictionary.definitions := by
  induction synonyms generalizing dictionary with
  | nil => rfl
  | cons s synonyms ih => exact ih (dictionary.defineSynonym title s)

theorem find?_synonyms_foldl_defineSynonym (title : String) (synonyms : List String)
    (dictionary : Dictionary) (key : String) :
    (synonyms.foldl (·.defineSynonym title ·) dictionary).synonyms.find? key =
      if key ∈ synonyms.map Text.lower then some (Text.lower title)
      else dictionary.synonyms.find? key := by
  induction synonyms generalizing dictionary with
  | nil => simp
  | cons s synonyms ih =>
    rw [List.foldl_cons, ih, defineSynonym, Table.find?_insert]
    by_cases hrest : key ∈ synonyms.map Text.lower
    · simp [hrest]
    · by_cases hs : Text.lower s = key
      · simp [hs]
      · simp [hs, Ne.symm hs]

/-- A title leads to the tag that was defined last under it. -/
theorem find?_definitions_defineAll (dictionary : Dictionary) (tags : List TagDefinition)
    (key : String) :
    (dictionary.defineAll tags).definitions.find? key =
      (tags.reverse.find? (Text.lower ·.title == key)).or (dictionary.definitions.find? key) := by
  induction tags generalizing dictionary with
  | nil => rfl
  | cons tag tags ih =>
    have hdefine : (dictionary.define tag).definitions.find? key =
        if Text.lower tag.title = key then some tag else dictionary.definitions.find? key := by
      rw [define, Table.find?_insert, definitions_foldl_defineSynonym]
    have hcons : dictionary.defineAll (tag :: tags) = (dictionary.define tag).defineAll tags := rfl
    rw [hcons, ih, hdefine, List.reverse_cons, List.find?_append, Option.or_assoc]
    refine congrArg (Option.or _) ?_
    by_cases htitle : Text.lower tag.title = key <;> simp [htitle]

/-- A synonym leads to the title of the tag that was defined last with it. -/
theorem find?_synonyms_defineAll (dictionary : Dictionary) (tags : List TagDefinition)
    (key : String) :
    (dictionary.defineAll tags).synonyms.find? key =
      ((tags.reverse.find? fun tag => decide (key ∈ tag.synonyms.map Text.lower)).map
        (Text.lower ·.title)).or (dictionary.synonyms.find? key) := by
  induction tags generalizing dictionary with
  | nil => rfl
  | cons tag tags ih =>
    have hdefine : (dictionary.define tag).synonyms.find? key =
        if key ∈ tag.synonyms.map Text.lower then some (Text.lower tag.title)
        else dictionary.synonyms.find? key :=
      find?_synonyms_foldl_defineSynonym tag.title tag.synonyms dictionary key
    have hcons : dictionary.defineAll (tag :: tags) = (dictionary.define tag).defineAll tags := rfl
    rw [hcons, ih, hdefine, List.reverse_cons, List.find?_append, Option.map_or, Option.or_assoc]
    refine congrArg (Option.or _) ?_
    by_cases hsynonym : key ∈ tag.synonyms.map Text.lower
    · rw [if_pos hsynonym, List.find?_cons_of_pos (by simpa using hsynonym)]
      rfl
    · rw [if_neg hsynonym, List.find?_cons_of_neg (by simpa using hsynonym)]
      rfl

/-- A namespace comes from a tag that is one. -/
theorem exists_of_mem_namespaces_defineAll {dictionary : Dictionary} {tags : List TagDefinition}
    {word : String} (h : word ∈ (dictionary.defineAll tags).namespaces) :
    word ∈ dictionary.namespaces ∨
      ∃ tag ∈ tags, tag.isNamespace = true ∧ Text.lower tag.title = word := by
  induction tags generalizing dictionary with
  | nil => exact .inl h
  | cons tag tags ih =>
    have hcons : dictionary.defineAll (tag :: tags) = (dictionary.define tag).defineAll tags := rfl
    rw [hcons] at h
    rcases ih h with hdefine | ⟨other, hother, hspace⟩
    · simp only [define] at hdefine
      split at hdefine
      · rename_i hspace
        rcases List.mem_cons.1 hdefine with rfl | hmem
        · exact .inr ⟨tag, by simp, hspace, rfl⟩
        · exact .inl (List.mem_filter.1 hmem).1
      · exact .inl (List.mem_filter.1 hdefine).1
    · exact .inr ⟨other, List.mem_cons_of_mem _ hother, hspace⟩

/-! ## Configurations -/

/-- The tags that the set of a name has; none if there is no such set. -/
def setTags (name : String) : List TagDefinition := (TagSet.ofName? name).getD []

theorem value_loadSet (dictionary : Dictionary) (name : String) :
    (dictionary.loadSet name).value = dictionary.defineAll (setTags name) := by
  unfold loadSet setTags
  split
  · rename_i tags htags
    rw [htags]
    rfl
  · rename_i htags
    rw [htags]
    rfl

/-- The dictionary of a configuration is made by defining the tags of its sets, the last set first,
and then the tags that every run has. -/
theorem value_ofConfig (config : Config) :
    (ofConfig config).value =
      ({ unknownTags := config.unknownTags } : Dictionary).defineAll
        (config.tagSets.reverse.flatMap setTags ++ TagSet.internal) := by
  rw [ofConfig, Noted.value_bind, Noted.value_pure, Noted.value_foldlM]
  generalize ({ unknownTags := config.unknownTags } : Dictionary) = dictionary
  induction config.tagSets.reverse generalizing dictionary with
  | nil => rfl
  | cons name names ih =>
    rw [List.foldl_cons, ih, value_loadSet, List.flatMap_cons, List.append_assoc]
    simp only [defineAll, List.foldl_append]

/-- The kinds whose longnames carry them as a namespace. -/
def namespaceWords : List String := ["event", "external", "module"]

/-- All tags that come with the program. -/
def shippedTags : List TagDefinition := TagSet.jsdoc ++ TagSet.closure ++ TagSet.internal

/-- Titles and synonyms are written in small letters. -/
theorem lower_shippedTags : ∀ tag ∈ shippedTags,
    Text.lower tag.title = tag.title ∧ tag.synonyms.map Text.lower = tag.synonyms := by
  decide +kernel

theorem lower_title_of_isNamespace {tag : TagDefinition} (h : tag ∈ shippedTags)
    (hspace : tag.isNamespace = true) :
    Text.lower tag.title ∈ namespaceWords := by
  have hwords : ∀ tag ∈ shippedTags, tag.isNamespace = true → tag.title ∈ namespaceWords := by
    decide +kernel
  rw [(lower_shippedTags tag h).1]
  exact hwords tag h hspace

/-- A configuration defines none but the tags that come with the program. -/
theorem mem_shippedTags {config : Config} {tag : TagDefinition}
    (h : tag ∈ config.tagSets.reverse.flatMap setTags ++ TagSet.internal) :
    tag ∈ shippedTags := by
  rcases List.mem_append.1 h with hset | hinternal
  · obtain ⟨name, -, hmem⟩ := List.mem_flatMap.1 hset
    unfold setTags TagSet.ofName? at hmem
    split at hmem
    · simp [shippedTags, show tag ∈ TagSet.jsdoc from hmem]
    · simp [shippedTags, show tag ∈ TagSet.closure from hmem]
    · cases hmem
  · simp [shippedTags, hinternal]

/-- Defines a tag whose title and synonyms are in small letters. -/
def defineLower (dictionary : Dictionary) (tag : TagDefinition) : Dictionary :=
  let others := dictionary.namespaces.filter (· != tag.title)
  { dictionary with
    definitions := dictionary.definitions.insert tag.title tag
    synonyms := tag.synonyms.foldl (·.insert · tag.title) dictionary.synonyms
    namespaces := if tag.isNamespace then tag.title :: others else others }

theorem foldl_defineSynonym_lower {title : String} {synonyms : List String}
    (htitle : Text.lower title = title) (hsynonyms : synonyms.map Text.lower = synonyms)
    (dictionary : Dictionary) :
    synonyms.foldl (·.defineSynonym title ·) dictionary =
      { dictionary with synonyms := synonyms.foldl (·.insert · title) dictionary.synonyms } := by
  induction synonyms generalizing dictionary with
  | nil => rfl
  | cons s synonyms ih =>
    obtain ⟨hs, hrest⟩ := List.cons.inj hsynonyms
    rw [List.foldl_cons, ih hrest, defineSynonym, hs, htitle, List.foldl_cons]

theorem define_lower {tag : TagDefinition} (htitle : Text.lower tag.title = tag.title)
    (hsynonyms : tag.synonyms.map Text.lower = tag.synonyms) (dictionary : Dictionary) :
    dictionary.define tag = dictionary.defineLower tag := by
  rw [define, htitle, foldl_defineSynonym_lower htitle hsynonyms]
  rfl

theorem foldl_defineLower {tags : List TagDefinition} (h : ∀ tag ∈ tags, tag ∈ shippedTags)
    (dictionary : Dictionary) :
    tags.foldl defineLower dictionary = dictionary.defineAll tags := by
  induction tags generalizing dictionary with
  | nil => rfl
  | cons tag tags ih =>
    obtain ⟨htag, hrest⟩ := List.forall_mem_cons.1 h
    obtain ⟨htitle, hsynonyms⟩ := lower_shippedTags tag htag
    rw [List.foldl_cons, ih hrest, ← define_lower htitle hsynonyms]
    rfl

/-- The dictionary of a configuration, made without looking for capital letters again: in this form
it is evaluated fast. -/
theorem value_ofConfig_lower (config : Config) :
    (ofConfig config).value =
      (config.tagSets.reverse.flatMap setTags ++ TagSet.internal).foldl defineLower
        { unknownTags := config.unknownTags } := by
  rw [value_ofConfig, foldl_defineLower fun _ => mem_shippedTags]

/-- Whatever a configuration loads, only events, externals and modules have namespaces. -/
theorem isNamespace_ofConfig {config : Config} {word : String}
    (h : (ofConfig config).value.isNamespace word = true) : word ∈ namespaceWords := by
  rw [isNamespace, List.contains_iff_mem, value_ofConfig] at h
  rcases exists_of_mem_namespaces_defineAll h with hnil | ⟨tag, htag, hspace, rfl⟩
  · cases hnil
  · exact lower_title_of_isNamespace (mem_shippedTags htag) hspace

/-- What a title leads to is a tag that comes with the program. -/
theorem shipped_of_lookUp_ofConfig {config : Config} {title : String} {tag : TagDefinition}
    (h : (ofConfig config).value.lookUp title = some tag) :
    tag ∈ shippedTags ∧ tag.title = (ofConfig config).value.normalize title := by
  rw [lookUp, value_ofConfig, find?_definitions_defineAll, ← value_ofConfig] at h
  rcases Option.or_eq_some_iff.1 h with hfound | ⟨-, hnone⟩
  · have htitle := List.find?_some hfound
    have hshipped := mem_shippedTags (List.mem_reverse.1 (List.mem_of_find?_eq_some hfound))
    rw [(lower_shippedTags tag hshipped).1] at htitle
    exact ⟨hshipped, eq_of_beq htitle⟩
  · cases hnone

/-- A title is defined if a tag of one of the sets has it. -/
theorem isSome_lookUp_ofConfig {config : Config} {title : String} {tag : TagDefinition}
    (h : tag ∈ config.tagSets.reverse.flatMap setTags ++ TagSet.internal)
    (htitle : tag.title = (ofConfig config).value.normalize title) :
    ((ofConfig config).value.lookUp title).isSome = true := by
  have hfound : ((config.tagSets.reverse.flatMap setTags ++ TagSet.internal).reverse.find?
      (Text.lower ·.title == tag.title)).isSome = true :=
    List.find?_isSome.2 ⟨tag, List.mem_reverse.2 h,
      beq_iff_eq.2 (lower_shippedTags tag (mem_shippedTags h)).1⟩
  rw [lookUp, ← htitle, value_ofConfig, find?_definitions_defineAll, Option.isSome_or, hfound,
    Bool.true_or]

/-- A title in small letters stands for itself if no tag has it for a synonym. -/
theorem normalize_ofConfig {config : Config} {title : String} (hlower : Text.lower title = title)
    (hsynonym : ∀ tag ∈ shippedTags, title ∉ tag.synonyms) :
    (ofConfig config).value.normalize title = title := by
  have hnone : (config.tagSets.reverse.flatMap setTags ++ TagSet.internal).reverse.find?
      (fun tag => decide (title ∈ tag.synonyms.map Text.lower)) = none :=
    List.find?_eq_none.2 fun tag htag => by
      have hshipped := mem_shippedTags (List.mem_reverse.1 htag)
      rw [(lower_shippedTags tag hshipped).2, decide_eq_true_iff]
      exact hsynonym tag hshipped
  rw [normalize, hlower, value_ofConfig, find?_synonyms_defineAll, hnone]
  rfl

/-! ## The default settings -/

/-- The dictionary of the default settings. -/
def standard : Dictionary := (ofConfig {}).value

/-- The tags of the default settings, in the order in which they are defined. -/
def standardTags : List TagDefinition := TagSet.closure ++ TagSet.jsdoc ++ TagSet.internal

theorem standard_eq : standard = ({} : Dictionary).defineAll standardTags :=
  value_ofConfig {}

theorem lower_standardTags : ∀ tag ∈ standardTags,
    Text.lower tag.title = tag.title ∧ tag.synonyms.map Text.lower = tag.synonyms := by
  intro tag htag
  refine lower_shippedTags tag ?_
  simp only [standardTags, shippedTags, List.mem_append] at htag ⊢
  exact htag.imp_left Or.symm

/-- The title that a title in small letters stands for. -/
theorem normalize_standard {title : String} (htitle : Text.lower title = title) :
    standard.normalize title =
      ((standardTags.reverse.find? fun tag => decide (title ∈ tag.synonyms)).map
        TagDefinition.title).getD title := by
  have hfind :
      standardTags.reverse.find? (fun tag => decide (title ∈ tag.synonyms.map Text.lower)) =
        standardTags.reverse.find? fun tag => decide (title ∈ tag.synonyms) := by
    refine List.find?_congr fun tag htag => ?_
    rw [(lower_standardTags tag (List.mem_reverse.1 htag)).2]
  rw [normalize, htitle, standard_eq, find?_synonyms_defineAll, hfind]
  cases hfound : standardTags.reverse.find? fun tag => decide (title ∈ tag.synonyms) with
  | none => rfl
  | some tag =>
    have htag := List.mem_reverse.1 (List.mem_of_find?_eq_some hfound)
    simp [(lower_standardTags tag htag).1]

/-- The tag that a title leads to which is in small letters and no synonym. -/
theorem lookUp_standard {title : String} (hnormal : standard.normalize title = title) :
    standard.lookUp title = standardTags.reverse.find? (·.title == title) := by
  have hfind : standardTags.reverse.find? (Text.lower ·.title == title) =
      standardTags.reverse.find? (·.title == title) := by
    refine List.find?_congr fun tag htag => ?_
    rw [(lower_standardTags tag (List.mem_reverse.1 htag)).1]
  rw [lookUp, hnormal, standard_eq, find?_definitions_defineAll, hfind]
  exact Option.or_none

/-- The tag that gives a name. -/
def nameTag : TagDefinition := { title := "name", requiresValue := true }

/-- The tag that gives an owner. -/
def memberofTag : TagDefinition :=
  { title := "memberof", requiresValue := true, effect := some .memberof,
    synonyms := ["memberof!"] }

/-- The tag that gives a scope. -/
def scopeTag (scope : Scope) : TagDefinition :=
  { title := scope.text, forbidsValue := true, effect := some (.scope scope) }

/-- The tag that makes a symbol global. -/
def globalTag : TagDefinition :=
  { title := "global", forbidsValue := true, effect := some .makeGlobal }

/-- The tags by which a symbol is named and placed. -/
def namingTags : List TagDefinition :=
  [nameTag, memberofTag, scopeTag .static, scopeTag .inner, scopeTag .instance, globalTag]

/-- A title, with no blanks around it, that is none but its tag's own. -/
structure Leads (dictionary : Dictionary) (tag : TagDefinition) : Prop where
  trim_title : Text.trim tag.title = tag.title
  normalize_title : dictionary.normalize tag.title = tag.title
  lookUp_title : dictionary.lookUp tag.title = some tag

/-- A title of the default settings leads to its tag if it is in small letters, has no blanks around
it, and is no synonym. -/
theorem leads_standard {tag : TagDefinition} (hlower : Text.lower tag.title = tag.title)
    (htrim : Text.trim tag.title = tag.title)
    (hsynonym :
      (standardTags.reverse.find? fun other => decide (tag.title ∈ other.synonyms)) = none)
    (htitle : standardTags.reverse.find? (·.title == tag.title) = some tag) :
    standard.Leads tag := by
  have hnormal : standard.normalize tag.title = tag.title := by
    rw [normalize_standard hlower, hsynonym]
    rfl
  refine ⟨htrim, hnormal, ?_⟩
  rw [lookUp_standard hnormal, htitle]

theorem leads_of_mem_namingTags {tag : TagDefinition} (h : tag ∈ namingTags) :
    standard.Leads tag := by
  have hfind : ∀ tag ∈ namingTags, Text.lower tag.title = tag.title ∧
      Text.trim tag.title = tag.title ∧
      (standardTags.reverse.find? fun other => decide (tag.title ∈ other.synonyms)) = none ∧
        standardTags.reverse.find? (·.title == tag.title) = some tag := by
    decide +kernel
  obtain ⟨hlower, htrim, hsynonym, htitle⟩ := hfind tag h
  exact leads_standard hlower htrim hsynonym htitle

end Dictionary

/-! ## Tags with a plain text -/

namespace Tag

variable {dictionary : Dictionary} {definition : TagDefinition}

/-- Checking a tag adds problems and nothing else. -/
theorem checked_eq (dictionary : Dictionary) (definition : Option TagDefinition)
    (location : Location) (tag : Tag) :
    ∃ problems, tag.checked dictionary definition location = { tag with problems } := by
  unfold checked
  split
  · exact ⟨_, rfl⟩
  · exact ⟨tag.problems, rfl⟩

/-- A definition by which the text of a tag is its value. -/
def TakesText (definition : TagDefinition) : Prop :=
  definition.typed = false ∧ definition.named = false ∧ definition.keepsBlanks = false ∧
    definition.reshape = none

/-- The text of a tag without the blanks at its ends. The name of the code behind the comment is
quoted instead, if it has some. -/
def plainText (origin : Origin) (text : String) : String :=
  if origin.code.name = some text ∧ Text.trim text ≠ text then "\"" ++ text ++ "\""
  else Text.trim text

theorem trimText_eq {definition : TagDefinition} (hblanks : definition.keepsBlanks = false)
    (origin : Origin) (text : String) :
    trimText (some definition) origin text = plainText origin text := by
  simp only [trimText, plainText, Option.any_some, hblanks, Bool.false_eq_true, if_false]

/-- The text of a tag as its definition keeps and reshapes it. -/
def shapedText (definition : TagDefinition) (origin : Origin) (text : String) : String :=
  let kept := trimText (some definition) origin text
  if kept = "" then "" else (definition.reshape.map (·.apply kept)).getD kept

/-- A tag whose text is its value. Of an empty text there is none. -/
theorem build_of_untyped {title : String}
    (hlookUp : dictionary.lookUp (dictionary.normalize (Text.trim title)) = some definition)
    (htyped : definition.typed = false) (hnamed : definition.named = false) (origin : Origin)
    (text : Option String) :
    build dictionary origin title text = checked dictionary (some definition) origin.location
      { writtenTitle := Text.trim title
        title := dictionary.normalize (Text.trim title)
        text := shapedText definition origin (text.getD "")
        value := if trimText (some definition) origin (text.getD "") = "" then none
          else some (.text (shapedText definition origin (text.getD ""))) } := by
  simp only [build, hlookUp, shapedText, String.isEmpty_iff]
  by_cases hempty : trimText (some definition) origin (text.getD "") = ""
  · simp only [hempty, if_true]
  · simp only [hempty, if_false, readValue, htyped, hnamed, Bool.or_self, Bool.false_eq_true]

/-- A tag with a text that is not blank. -/
theorem build_text (hleads : dictionary.Leads definition) (htakes : TakesText definition)
    (origin : Origin) {text : String} (hne : plainText origin text ≠ "") :
    ∃ problems, build dictionary origin definition.title (some text) =
      { writtenTitle := definition.title, title := definition.title, text := plainText origin text
        value := some (.text (plainText origin text)), problems } := by
  obtain ⟨htyped, hnamed, hblanks, hreshape⟩ := htakes
  have hlookUp : dictionary.lookUp (dictionary.normalize (Text.trim definition.title)) =
      some definition := by
    rw [hleads.trim_title, hleads.normalize_title, hleads.lookUp_title]
  have hshaped : shapedText definition origin text = plainText origin text := by
    simp only [shapedText, trimText_eq hblanks, hne, hreshape, if_false, Option.map_none,
      Option.getD_none]
  rw [build_of_untyped hlookUp htyped hnamed, Option.getD_some, hshaped, trimText_eq hblanks,
    if_neg hne, hleads.trim_title, hleads.normalize_title]
  exact checked_eq dictionary (some definition) origin.location _

/-- A tag without a text. -/
theorem build_none (hleads : dictionary.Leads definition) (hblanks : definition.keepsBlanks = false)
    (origin : Origin) :
    ∃ problems, build dictionary origin definition.title none =
      { writtenTitle := definition.title, title := definition.title, text := "", problems } := by
  obtain ⟨problems, hchecked⟩ := checked_eq dictionary (some definition) origin.location
    { writtenTitle := definition.title, title := definition.title, text := "" }
  refine ⟨problems, ?_⟩
  have htrim : trimText (some definition) origin "" = "" := by
    rw [trimText_eq hblanks]
    unfold plainText
    split
    · rename_i hquoted
      exact absurd rfl hquoted.2
    · rfl
  simp only [build, hleads.trim_title, hleads.normalize_title, hleads.lookUp_title,
    Option.getD_none, htrim, String.isEmpty_iff, if_true, hchecked]

end Tag

/-! ## What the tags of a member do -/

namespace Doclet

open Dictionary Tag

/-- Adding a defined tag is applying its effect, and then what every run makes of it. -/
theorem value_addTagWith {dictionary : Dictionary} {addTag : AddTag} {definition : TagDefinition}
    {title : String} {text : Option String} {d : Doclet} {tag : Tag}
    (hbuild : Tag.build dictionary d.origin title text = tag)
    (hlookUp : dictionary.lookUp tag.title = some definition) :
    (addTagWith dictionary addTag title text d).value =
      (applyInternal tag (match definition.effect with
        | some effect => (d.applyEffect addTag tag effect).value
        | none => d)).value := by
  simp only [addTagWith, hbuild, hlookUp, Noted.value_bind]
  cases definition.effect <;> rfl

theorem value_addTag {dictionary : Dictionary} {definition : TagDefinition} {title : String}
    {text : Option String} {d : Doclet} {tag : Tag}
    (hbuild : Tag.build dictionary d.origin title text = tag)
    (hlookUp : dictionary.lookUp tag.title = some definition) :
    (addTag dictionary title text d).value =
      (applyInternal tag (match definition.effect with
        | some effect => (d.applyEffect (addNestedTag dictionary) tag effect).value
        | none => d)).value :=
  value_addTagWith hbuild hlookUp

/-- The doclet that the tags of a comment make, before it is finished. -/
def unfinished (dictionary : Dictionary) (comment : String) (tags : List WrittenTag)
    (origin : Origin) : Doclet :=
  tags.foldl (fun d tag => (addTag dictionary tag.title tag.text d).value) { comment, origin }

theorem value_ofTags (dictionary : Dictionary) (comment : String) (tags : List WrittenTag)
    (origin : Origin) :
    (ofTags dictionary comment tags origin).value =
      (unfinished dictionary comment tags origin).finish dictionary := by
  rw [ofTags, Noted.value_bind, Noted.value_foldlM, Noted.value_pure, unfinished]

/-- A name tag sets the name, also one that another tag adds. -/
theorem value_addTagWith_name (addTag : AddTag) {text : String} {d : Doclet}
    (hne : plainText d.origin text ≠ "") :
    (addTagWith standard addTag "name" (some text) d).value =
      { d with name := plainText d.origin text } := by
  have hleads : standard.Leads nameTag := leads_of_mem_namingTags (by simp [namingTags])
  obtain ⟨problems, hbuild⟩ := build_text hleads ⟨rfl, rfl, rfl, rfl⟩ d.origin hne
  exact value_addTagWith hbuild hleads.lookUp_title

theorem value_addTag_name {text : String} {d : Doclet} (hne : plainText d.origin text ≠ "") :
    (addTag standard "name" (some text) d).value = { d with name := plainText d.origin text } :=
  value_addTagWith_name _ hne

/-- An owner tag sets the owner, unless that is the owner of symbols that have none. -/
theorem value_addTag_memberof {text : String} {d : Doclet} (hne : plainText d.origin text ≠ "")
    (hglobal : plainText d.origin text ≠ Longname.globalOwner) :
    (addTag standard "memberof" (some text) d).value =
      d.setMemberof (plainText d.origin text) := by
  have hleads : standard.Leads memberofTag := leads_of_mem_namingTags (by simp [namingTags])
  obtain ⟨problems, hbuild⟩ := build_text hleads ⟨rfl, rfl, rfl, rfl⟩ d.origin hne
  have hforce : Text.asciiLower memberofTag.title ≠ "memberof!" := by decide
  have happly : (applyEffect (addNestedTag standard)
      { writtenTitle := memberofTag.title, title := memberofTag.title
        text := plainText d.origin text, value := some (.text (plainText d.origin text))
        problems } d .memberof).value = d.setMemberof (plainText d.origin text) := by
    simp only [applyEffect, applyMemberof, Tag.valueText?, if_neg hforce, if_neg hglobal,
      Noted.value_pure]
  refine (value_addTag hbuild hleads.lookUp_title).trans ?_
  rw [← happly]
  rfl

/-- A scope tag sets the scope. -/
theorem value_addTag_scope {scope : Scope} (hscope : scope ≠ .global) (d : Doclet) :
    (addTag standard scope.text none d).value = { d with scope := some scope } := by
  have hleads : standard.Leads (scopeTag scope) := by
    refine leads_of_mem_namingTags ?_
    cases scope <;> simp [namingTags] at hscope ⊢
  obtain ⟨problems, hbuild⟩ := build_none hleads rfl d.origin
  exact value_addTag hbuild hleads.lookUp_title

/-- The tag for global symbols takes away the owner. -/
theorem value_addTag_global (d : Doclet) :
    (addTag standard "global" none d).value =
      { d with scope := some .global, memberof := none } := by
  have hleads : standard.Leads globalTag := leads_of_mem_namingTags (by simp [namingTags])
  obtain ⟨problems, hbuild⟩ := build_none hleads rfl d.origin
  exact value_addTag hbuild hleads.lookUp_title

end Doclet

end Commentary
