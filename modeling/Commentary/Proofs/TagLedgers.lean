import Commentary.Proofs.TagFrames
import Mathlib.Data.List.Induction

/-!
# What the tags of a comment write down

Finishing a doclet settles what the symbol is called and leaves the rest alone (`said_finish`), so
what the doclet of a comment says is what the tags of the comment said (`said_ofSource`).

Some of this they write down one after the other: the tags that no definition is known of, and what
the symbol builds on. The tags that a tag hands on (`TagEffect.handsOn`) are all defined in the
large set, and none says what the symbol builds on (`isSome_lookUp_handedOn`, `effect_handedOn`).
Where nothing of what is handed on is seen, a list is what the tags say themselves, in order
(`view_unfinished`).
-/

namespace Commentary

namespace Doclet

/-! ## Finishing -/

section Finishing

variable (dictionary : Dictionary) (d : Doclet)

/-- What a doclet says of its symbol, but for what it is called, where it belongs and what its
parameters are called. -/
def said (d : Doclet) : Doclet :=
  { d with
    name := "", longname := "", memberof := none, scope := none, kind := none, variation := none
    params := [] }

theorem said_takeName (about : Longname) : (d.takeName about).said = d.said := by
  unfold takeName
  split
  · rfl
  · rfl

theorem said_takeOwner (about : Longname) : (d.takeOwner about).said = d.said := by
  have howned : ∀ memberof, said { d with memberof } = d.said := fun _ => rfl
  unfold takeOwner
  split
  · rfl
  · exact howned _

theorem said_takeLongname (about : Longname) : (d.takeLongname dictionary about).said = d.said := by
  unfold takeLongname
  split
  · rfl
  · rfl

theorem said_takeVariation (about : Longname) : (d.takeVariation about).said = d.said := by
  unfold takeVariation
  split
  · rfl
  · rfl

theorem said_leadingScope : d.leadingScope.said = d.said := by
  unfold leadingScope
  split
  · split
    · rfl
    · rfl
  · rfl

theorem said_settle (about : Longname) : (d.settle dictionary about).said = d.said := by
  unfold settle
  split
  · rfl
  · split
    · rfl
    · split
      · split
        · exact said_leadingScope d
        · rfl
      · rfl

theorem said_resolve : (d.resolve dictionary).said = d.said := by
  unfold resolve
  split
  · rfl
  · simp only [said_takeVariation, said_settle, said_takeLongname, said_takeOwner, said_takeName]
    rfl

theorem said_ensureLongname : (d.ensureLongname dictionary).said = d.said := by
  unfold ensureLongname
  split
  · rfl
  · rfl

theorem said_appendVariation : d.appendVariation.said = d.said := by
  unfold appendVariation
  split
  · simp only
    split
    · rfl
    · rfl
  · rfl

/-- Finishing a doclet settles names and leaves all else alone. -/
theorem said_finish : (d.finish dictionary).said = d.said := by
  have hresolved : (if d.preserveName then d else d.resolve dictionary).said = d.said := by
    split
    · rfl
    · exact said_resolve dictionary d
  calc (d.finish dictionary).said
      = (appendVariation _).said := rfl
    _ = (ensureLongname dictionary _).said := said_appendVariation _
    _ = (if d.preserveName then d else d.resolve dictionary).said := said_ensureLongname _ _
    _ = d.said := hresolved

/-- The tags of a comment: those that come with it, or else those that are written in it. -/
def Source.written (source : Source) : List WrittenTag :=
  if source.tags.isEmpty then Comment.tags source.comment else source.tags

/-- What the doclet of a comment says is what the tags of the comment said. -/
theorem said_ofSource (source : Source) :
    (ofSource dictionary source).value.said =
      (unfinished dictionary source.comment source.written source.origin).said := by
  rw [ofSource, value_ofTags, said_finish]
  rfl

end Finishing

end Doclet

/-- The tag that a dictionary makes of a written one. -/
def WrittenTag.built (dictionary : Dictionary) (origin : Origin) (tag : WrittenTag) : Tag :=
  Tag.build dictionary origin tag.title tag.text

/-! ## What tags hand on -/

namespace Dictionary

variable {config : Config} {title : String}

/-- All titles that tags hand on. -/
def handedOnTitles : List String := ["name", "alias", "undocumented", "global", "returns"]

theorem mem_handedOnTitles {effect : TagEffect} {kind : Option Kind}
    (h : title ∈ effect.handsOn kind) : title ∈ handedOnTitles := by
  revert h
  cases effect <;> simp +contextual [TagEffect.handsOn, handedOnTitles]

theorem trim_handedOn : ∀ title ∈ handedOnTitles, Text.trim title = title := by
  decide +kernel

theorem normalize_handedOn (h : title ∈ handedOnTitles) :
    (ofConfig config).value.normalize title = title := by
  have hfixed : ∀ title ∈ handedOnTitles, Text.lower title = title ∧
      ∀ tag ∈ shippedTags, title ∉ tag.synonyms := by
    decide +kernel
  exact normalize_ofConfig (hfixed title h).1 (hfixed title h).2

/-- No tag that is handed on says what the symbol builds on. -/
theorem effect_handedOn (h : title ∈ handedOnTitles) {definition : TagDefinition}
    (hlookUp : (ofConfig config).value.lookUp title = some definition) (relation : Relation) :
    definition.effect ≠ some (.relate relation) := by
  have hshipped : ∀ tag ∈ shippedTags, tag.title ∈ handedOnTitles →
      ∀ relation ∈ [Relation.augments, .mixes, .implements],
        tag.effect ≠ some (.relate relation) := by
    decide +kernel
  obtain ⟨hmem, htitle⟩ := shipped_of_lookUp_ofConfig hlookUp
  rw [normalize_handedOn h] at htitle
  exact hshipped definition hmem (htitle ▸ h) relation (by cases relation <;> simp)

/-- A dictionary with the large set defines all that is handed on. -/
theorem isSome_lookUp_handedOn (hjsdoc : "jsdoc" ∈ config.tagSets) (h : title ∈ handedOnTitles) :
    ((ofConfig config).value.lookUp title).isSome = true := by
  have hhas : ∀ title ∈ handedOnTitles, ∃ tag ∈ TagSet.jsdoc, tag.title = title := by
    decide +kernel
  obtain ⟨tag, htag, htitle⟩ := hhas title h
  refine isSome_lookUp_ofConfig (List.mem_append_left _ ?_)
    (htitle.trans (normalize_handedOn h).symm)
  exact List.mem_flatMap.2 ⟨"jsdoc", List.mem_reverse.2 hjsdoc, htag⟩

end Dictionary

namespace Doclet

open Dictionary

/-! ## Ledgers -/

/-- What the tags of a comment write down one after the other: those that no definition is known of,
and what the symbol builds on. -/
structure Ledger where
  tags : List KeptTag := []
  augments : List String := []
  mixes : List String := []
  implements : List String := []

namespace Ledger

/-- What a symbol builds on by a relation. -/
def related (l : Ledger) : Relation → List String
  | .augments => l.augments
  | .mixes => l.mixes
  | .implements => l.implements

/-- A ledger with something more that the symbol builds on. -/
def relate (l : Ledger) (name : String) : Relation → Ledger
  | .augments => { l with augments := l.augments ++ [name] }
  | .mixes => { l with mixes := l.mixes ++ [name] }
  | .implements => { l with implements := l.implements ++ [name] }

/-- A ledger with what a tag of an effect writes into it itself. -/
def apply (l : Ledger) (tag : Tag) : TagEffect → Ledger
  | .relate relation =>
    match tag.valueText? with
    | some text => l.relate (firstWord text) relation
    | none => l
  | _ => l

/-- A ledger with what a tag writes into it itself. -/
def add (dictionary : Dictionary) (l : Ledger) (tag : Tag) : Ledger :=
  match dictionary.lookUp tag.title with
  | some definition => (definition.effect.map (l.apply tag)).getD l
  | none => { l with tags := l.tags ++ [⟨tag.writtenTitle, tag.title, tag.text, tag.value⟩] }

end Ledger

/-- What is kept of a tag: all of it if it is not defined. -/
def kept? (dictionary : Dictionary) (tag : Tag) : Option KeptTag :=
  match dictionary.lookUp tag.title with
  | some _ => none
  | none => some ⟨tag.writtenTitle, tag.title, tag.text, tag.value⟩

/-- What a tag says that a symbol builds on by a relation. -/
def related? (dictionary : Dictionary) (relation : Relation) (tag : Tag) : Option String :=
  if (dictionary.lookUp tag.title).bind TagDefinition.effect = some (.relate relation) then
    tag.valueText?.map firstWord
  else none

namespace Ledger

theorem tags_apply (l : Ledger) (tag : Tag) (effect : TagEffect) :
    (l.apply tag effect).tags = l.tags := by
  unfold apply
  split
  · rename_i relation
    split
    · cases relation <;> rfl
    · rfl
  · rfl

theorem related_apply (l : Ledger) (relation : Relation) (tag : Tag) (effect : TagEffect) :
    (l.apply tag effect).related relation = l.related relation ++
      (if effect = .relate relation then tag.valueText?.map firstWord else none).toList := by
  unfold apply
  split
  · rename_i other
    cases tag.valueText? with
    | none => simp
    | some text => cases other <;> cases relation <;> first | rfl | exact (List.append_nil _).symm
  · rename_i hother
    rw [if_neg (hother relation), Option.toList_none, List.append_nil]

theorem tags_add (dictionary : Dictionary) (l : Ledger) (tag : Tag) :
    (l.add dictionary tag).tags = l.tags ++ (kept? dictionary tag).toList := by
  unfold add kept?
  split
  · rename_i definition _
    rw [Option.toList_none, List.append_nil]
    cases definition.effect with
    | none => rfl
    | some effect => exact tags_apply l tag effect
  · rfl

theorem related_add (dictionary : Dictionary) (l : Ledger) (relation : Relation) (tag : Tag) :
    (l.add dictionary tag).related relation =
      l.related relation ++ (related? dictionary relation tag).toList := by
  unfold add related?
  split
  · rename_i definition hlookUp
    rw [hlookUp, Option.bind_some]
    cases definition.effect with
    | none => exact (List.append_nil _).symm
    | some effect =>
      simp only [Option.map_some, Option.getD_some, Option.some.injEq]
      exact related_apply l relation tag effect
  · rename_i hlookUp
    rw [hlookUp]
    cases relation <;> exact (List.append_nil _).symm

end Ledger

def ledger (d : Doclet) : Ledger := ⟨d.tags, d.augments, d.mixes, d.implements⟩

/-- What is written elsewhere leaves the ledger as it is. -/
theorem Writes.ledger_eq {places : Bool} {d e : Doclet} (h : Writes places d e) :
    e.ledger = d.ledger := by
  have haugments : e.augments = d.augments := congrFun h.related .augments
  have hmixes : e.mixes = d.mixes := congrFun h.related .mixes
  have himplements : e.implements = d.implements := congrFun h.related .implements
  rw [ledger, ledger, h.tags, haugments, hmixes, himplements]

variable {α : Type} {view : Ledger → α}

/-- Adding tags of these titles leaves alone what is looked at. -/
def AddsUnseen (view : Ledger → α) (addTag : AddTag) (titles : List String) : Prop :=
  ∀ title ∈ titles, ∀ text d, view (addTag title text d).value.ledger = view d.ledger

section Effects

variable {addTag : AddTag} {tag : Tag} {d : Doclet}

/-- An effect that relates nothing leaves alone what is looked at, if the tags that it hands on
do. -/
theorem Reaches.view_eq {effect : TagEffect} {e : Doclet}
    (hadd : AddsUnseen view addTag (effect.handsOn d.kind))
    (hother : ∀ relation, effect ≠ .relate relation) (h : Reaches addTag tag effect d e) :
    view e.ledger = view d.ledger := by
  induction h with
  | start => rfl
  | write _ hwrites ih => rw [hwrites.ledger_eq, ih]
  | relate heffect => exact absurd heffect (hother _)
  | handOn _ htitle _ ih => exact (hadd _ htitle _ _).trans ih

/-- Where the tags that it adds are unseen, an effect writes down what its own tag says. -/
theorem view_applyEffect (effect : TagEffect)
    (hadd : AddsUnseen view addTag (effect.handsOn d.kind)) :
    view (applyEffect addTag tag d effect).value.ledger = view (d.ledger.apply tag effect) := by
  unfold Ledger.apply
  split
  · rename_i relation
    simp only [applyEffect, Noted.value_pure]
    cases tag.valueText? with
    | none => rfl
    | some text => cases relation <;> rfl
  · rename_i hother
    exact (reaches_applyEffect tag d effect).view_eq hadd hother

/-- Where the tags that it adds are unseen, a tag writes down what it says itself. -/
theorem view_addTagWith (view : Ledger → α) {dictionary : Dictionary} {title : String}
    (text : Option String)
    (hadd : ∀ definition effect,
      dictionary.lookUp (dictionary.normalize (Text.trim title)) = some definition →
      definition.effect = some effect → AddsUnseen view addTag (effect.handsOn d.kind)) :
    view (addTagWith dictionary addTag title text d).value.ledger =
      view (d.ledger.add dictionary (Tag.build dictionary d.origin title text)) := by
  have htitle := Tag.title_build dictionary d.origin title text
  generalize hbuild : Tag.build dictionary d.origin title text = tag at htitle
  rcases hlookUp : dictionary.lookUp tag.title with _ | definition
  · have hkept : (addTagWith dictionary addTag title text d).value.ledger =
        d.ledger.add dictionary tag := by
      simp only [addTagWith, hbuild, hlookUp, Noted.value_bind,
        (Writes.applyInternal _ _).ledger_eq, Ledger.add]
      rfl
    rw [hkept]
  · rw [value_addTagWith hbuild hlookUp, (Writes.applyInternal _ _).ledger_eq]
    simp only [Ledger.add, hlookUp]
    rw [htitle] at hlookUp
    rcases heffect : definition.effect with _ | effect
    · rfl
    · exact view_applyEffect effect (hadd definition effect hlookUp heffect)

end Effects

/-- A tag that another one adds has no more tags to add. -/
theorem ledger_addNestedTag (dictionary : Dictionary) (title : String) (text : Option String)
    (d : Doclet) :
    (addNestedTag dictionary title text d).value.ledger =
      d.ledger.add dictionary (Tag.build dictionary d.origin title text) := by
  have hadd (titles : List String) : AddsUnseen id (fun _ _ d => pure d) titles :=
    fun _ _ _ _ => rfl
  exact view_addTagWith id text fun _ _ _ _ => hadd _

theorem title_build_handedOn {config : Config} {title : String} (h : title ∈ handedOnTitles)
    (origin : Origin) (text : Option String) :
    (Tag.build (ofConfig config).value origin title text).title = title := by
  rw [Tag.title_build, trim_handedOn title h, normalize_handedOn h]

/-- Tags that are handed on are not kept if they are defined. -/
theorem tags_unseen {config : Config} {titles : List String}
    (h : ∀ title ∈ titles, title ∈ handedOnTitles)
    (hdefined : ∀ title ∈ titles, ((ofConfig config).value.lookUp title).isSome = true) :
    AddsUnseen Ledger.tags (addNestedTag (ofConfig config).value) titles := by
  intro title htitle text d
  have hkept : kept? (ofConfig config).value
      (Tag.build (ofConfig config).value d.origin title text) = none := by
    obtain ⟨definition, hlookUp⟩ := Option.isSome_iff_exists.1 (hdefined title htitle)
    simp only [kept?, title_build_handedOn (h title htitle), hlookUp]
  rw [ledger_addNestedTag, Ledger.tags_add, hkept]
  exact List.append_nil _

/-- Tags that are handed on do not say what the symbol builds on. -/
theorem related_unseen {config : Config} (relation : Relation) {titles : List String}
    (h : ∀ title ∈ titles, title ∈ handedOnTitles) :
    AddsUnseen (·.related relation) (addNestedTag (ofConfig config).value) titles := by
  intro title htitle text d
  have hother : related? (ofConfig config).value relation
      (Tag.build (ofConfig config).value d.origin title text) = none := by
    refine if_neg ?_
    rw [title_build_handedOn (h title htitle), Option.bind_eq_some_iff]
    rintro ⟨definition, hlookUp, heffect⟩
    exact effect_handedOn (h title htitle) hlookUp relation heffect
  simp only [ledger_addNestedTag, Ledger.related_add, hother]
  exact List.append_nil _

/-! ## Whole comments -/

/-- A list to which each tag adds what it says itself is what the tags say, if what they hand on is
unseen. -/
theorem view_unfinished {β : Type} (dictionary : Dictionary) (view : Ledger → List β)
    (said? : Tag → Option β) (hempty : view {} = [])
    (hsaid : ∀ l tag, view (l.add dictionary tag) = view l ++ (said? tag).toList)
    (comment : String) (tags : List WrittenTag) (origin : Origin)
    (hadd : ∀ before tag after, tags = before ++ tag :: after → ∀ definition effect,
      dictionary.lookUp (dictionary.normalize (Text.trim tag.title)) = some definition →
      definition.effect = some effect → AddsUnseen view (addNestedTag dictionary)
        (effect.handsOn (unfinished dictionary comment before origin).kind)) :
    view (unfinished dictionary comment tags origin).ledger =
      tags.filterMap fun tag => said? (tag.built dictionary origin) := by
  induction tags using List.reverseRecOn with
  | nil => exact hempty
  | append_singleton tags tag ih =>
    have hstep : unfinished dictionary comment (tags ++ [tag]) origin =
        (addTag dictionary tag.title tag.text
          (unfinished dictionary comment tags origin)).value := by
      rw [unfinished, List.foldl_append]
      rfl
    have horigin := (rooted_unfinished dictionary comment tags origin).2
    have hbefore := ih fun before next after htags => hadd before next (after ++ [tag]) <| by
      rw [htags, List.append_assoc]
      rfl
    calc view (unfinished dictionary comment (tags ++ [tag]) origin).ledger
        = view ((unfinished dictionary comment tags origin).ledger.add dictionary
            (tag.built dictionary origin)) := by
          have hview := view_addTagWith view tag.text (hadd tags tag [] rfl)
          rw [hstep, addTag, hview, horigin]
          rfl
      _ = (tags ++ [tag]).filterMap fun tag => said? (tag.built dictionary origin) := by
          rw [hsaid, hbefore, List.filterMap_append]
          rfl

theorem ledger_ofSource (dictionary : Dictionary) (source : Source) :
    (ofSource dictionary source).value.ledger =
      (unfinished dictionary source.comment source.written source.origin).ledger := by
  have hledger (d : Doclet) : d.ledger = d.said.ledger := rfl
  rw [hledger, said_ofSource]
  rfl

end Doclet

end Commentary
