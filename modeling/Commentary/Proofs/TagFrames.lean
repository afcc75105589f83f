import Commentary.Proofs.TagLookup

/-!
# What tags leave alone

The tags of a comment say what a symbol is called, but none of them sets its longname or changes
what is known of the code behind the comment (`rooted_unfinished`). And most tags say nothing of
what the symbol is called and where it belongs: a comment without *placing* tags leaves all of this
open (`Unplaced`, `unplaced_unfinished`).

Whatever the tags are that an effect adds, all that it does to a doclet is to write parts of it, to
add its borrows and relations, and to hand on the tags that its `TagEffect.handsOn` lists
(`reaches_applyEffect`). Each frame follows from this for one effect, then for one tag, and then for
all tags of a comment.
-/

namespace Commentary

/-! ## Placing tags -/

/-- Whether an effect says what a symbol is called or where it belongs: its name, an alias, an
owner, a scope, a kind or a variation. -/
def TagEffect.places : TagEffect → Bool
  | .text .aliasName => true
  | .scope _ | .makeGlobal => true
  | .kindByText _ | .typedKindByText _ | .kindByName _ | .typedKindByName _ => true
  | .asClass | .asEnum | .asExternal | .asFile | .asModule | .asTypedef => true
  | .constructs | .exports | .lends | .memberof | .variation => true
  | _ => false

/-- The tags that name and place a symbol without an effect of their own. -/
def Dictionary.internalPlacers : List String := ["name", "kind", "scope"]

/-- Whether a tag says what a symbol is called or where it belongs. -/
def WrittenTag.places (dictionary : Dictionary) (tag : WrittenTag) : Bool :=
  let title := dictionary.normalize (Text.trim tag.title)
  Dictionary.internalPlacers.contains title ||
    ((dictionary.lookUp title).bind TagDefinition.effect).any TagEffect.places

/-! ## Tags that are handed on -/

/-- The titles of the tags that an effect adds to a doclet of a kind. -/
def TagEffect.handsOn (kind : Option Kind) : TagEffect → List String
  | .kindByText _ | .typedKindByText _ | .kindByName _ | .typedKindByName _ => ["name"]
  | .asClass | .asExternal | .asFile | .asModule | .asTypedef => ["name"]
  | .constructs | .exports => ["alias"]
  | .lends => ["undocumented"]
  | .memberof => ["global"]
  | .type => if kind = some .function then ["returns"] else []
  | _ => []

/-- What does not place a symbol hands on a tag for functions alone. -/
theorem TagEffect.handsOn_eq_nil {effect : TagEffect} (h : effect.places = false) :
    effect.handsOn none = [] := by
  cases effect with
  | kindByText | typedKindByText | kindByName | typedKindByName | asClass | asExternal | asFile
  | asModule | asTypedef | constructs | exports | lends | memberof => cases h
  | _ => rfl

namespace Tag

variable (dictionary : Dictionary)

theorem title_checked (definition : Option TagDefinition) (location : Location) (tag : Tag) :
    (tag.checked dictionary definition location).title = tag.title := by
  obtain ⟨problems, hchecked⟩ := checked_eq dictionary definition location tag
  rw [hchecked]

/-- A tag has the title that the written one stands for. -/
theorem title_build (origin : Origin) (title : String) (text : Option String) :
    (build dictionary origin title text).title = dictionary.normalize (Text.trim title) := by
  unfold build
  simp only [title_checked]
  split
  · rfl
  · split
    · rfl
    · rfl

end Tag

namespace Doclet

/-! ## Names and places -/

/-- What a doclet says of how its symbol is called and where it belongs. -/
structure Naming where
  name : String := ""
  aliasName : Option String := none
  memberof : Option String := none
  scope : Option Scope := none
  kind : Option Kind := none
  variation : Option String := none
  forceMemberof : Bool := false
  preserveName : Bool := false

/-- How a doclet's symbol is called and where it belongs. -/
def naming (d : Doclet) : Naming :=
  ⟨d.name, d.aliasName, d.memberof, d.scope, d.kind, d.variation, d.forceMemberof, d.preserveName⟩

/-- A doclet that leaves open how its symbol is called and where it belongs. -/
def Unplaced (d : Doclet) : Prop := d.naming = {}

theorem Unplaced.kind_eq {d : Doclet} (h : d.Unplaced) : d.kind = none := congrArg Naming.kind h

/-! ## What is written -/

/-- The second doclet is the first with something written into it. Its longname, the code behind
it, the tags that it keeps and what it builds on stay as they are, and unless the symbol is placed,
so does what it is called and where it belongs. -/
structure Writes (places : Bool) (d e : Doclet) : Prop where
  longname : e.longname = d.longname
  origin : e.origin = d.origin
  tags : e.tags = d.tags
  related : e.related = d.related
  naming : places = false → e.naming = d.naming

namespace Writes

variable {places : Bool} (d : Doclet)

theorem refl : Writes places d d := ⟨rfl, rfl, rfl, rfl, fun _ => rfl⟩

/-- Where the symbol is placed, what it is called and where it belongs may be written. -/
theorem placing {d e : Doclet} (hlongname : e.longname = d.longname) (horigin : e.origin = d.origin)
    (htags : e.tags = d.tags) (hrelated : e.related = d.related) : Writes true d e :=
  ⟨hlongname, horigin, htags, hrelated, by simp⟩

/-- Taking over a type places nothing. -/
theorem setType (tag : Tag) : Writes places d (d.setType tag) := by
  unfold Doclet.setType
  split
  · split
    · exact ⟨rfl, rfl, rfl, rfl, fun _ => rfl⟩
    · exact refl d
  · exact refl d

theorem setFlag (field : Flag) : Writes places d (d.setFlag field) := by
  cases field <;> exact ⟨rfl, rfl, rfl, rfl, fun _ => rfl⟩

/-- Of all texts, only an alias places the symbol. -/
theorem setText (text : Option String) (field : TextField) :
    Writes (TagEffect.text field).places d (d.setText text field) := by
  cases field with
  | aliasName => exact .placing rfl rfl rfl rfl
  | classdesc | copyright | license | since | summary | version =>
    exact ⟨rfl, rfl, rfl, rfl, fun _ => rfl⟩

theorem collect (texts : List String) (field : ListField) :
    Writes places d (d.collect texts field) := by
  cases field <;> exact ⟨rfl, rfl, rfl, rfl, fun _ => rfl⟩

theorem addDetail (detail : Detail) (field : DetailField) :
    Writes places d (d.addDetail detail field) := by
  cases field <;> exact ⟨rfl, rfl, rfl, rfl, fun _ => rfl⟩

theorem addEvent (event : String) (field : EventField) :
    Writes places d (d.addEvent event field) := by
  cases field <;> exact ⟨rfl, rfl, rfl, rfl, fun _ => rfl⟩

theorem setMemberof (owner : String) : Writes true d (d.setMemberof owner) := by
  have howned (memberof : Option String) : Writes true d { d with memberof } :=
    .placing rfl rfl rfl rfl
  exact howned _

/-- The tags that every run has place the symbol by its name, its kind or its scope. -/
theorem applyInternal (tag : Tag) :
    Writes (Dictionary.internalPlacers.contains tag.title) d (applyInternal tag d).value := by
  unfold Doclet.applyInternal
  split
  · exact refl d
  · split
    · rename_i htitle
      rw [htitle]
      exact .placing rfl rfl rfl rfl
    · exact ⟨rfl, rfl, rfl, rfl, fun _ => rfl⟩
    · rename_i htitle
      rw [htitle]
      split
      · exact .placing rfl rfl rfl rfl
      · exact refl d
    · rename_i htitle
      rw [htitle]
      split
      · exact .placing rfl rfl rfl rfl
      · exact refl d
    · exact refl d

end Writes

theorem kind_setType (d : Doclet) (tag : Tag) : (d.setType tag).kind = d.kind := by
  have htype : Writes false d (d.setType tag) := Writes.setType d tag
  exact congrArg Naming.kind (htype.naming rfl)

/-! ## What an effect comes to -/

/-- What an effect of a tag can make of a doclet: it writes, it notes what the symbol builds on, and
it hands on further tags. -/
inductive Reaches (addTag : AddTag) (tag : Tag) (effect : TagEffect) (d : Doclet) : Doclet → Prop
  | start : Reaches addTag tag effect d d
  | write {e f : Doclet} (h : Reaches addTag tag effect d e) (hwrites : Writes effect.places e f) :
      Reaches addTag tag effect d f
  | relate {relation : Relation} {text : String} (heffect : effect = .relate relation)
      (htext : tag.valueText? = some text) :
      Reaches addTag tag effect d (d.relate relation (firstWord text))
  | handOn {e : Doclet} (h : Reaches addTag tag effect d e) {title : String}
      (htitle : title ∈ effect.handsOn d.kind) (text : Option String) :
      Reaches addTag tag effect d (addTag title text e).value

section Effects

variable {addTag : AddTag} {tag : Tag} {effect : TagEffect} {d e : Doclet}

theorem Reaches.setType (h : Reaches addTag tag effect d e) :
    Reaches addTag tag effect d (e.setType tag) := h.write (Writes.setType e tag)

theorem Reaches.nameBy (h : Reaches addTag tag effect d e) (hname : "name" ∈ effect.handsOn d.kind)
    (name : Option String) : Reaches addTag tag effect d (nameBy addTag name e).value := by
  cases name with
  | none => exact h
  | some name => exact h.handOn hname _

/-- A kind is what places the symbol. -/
theorem Reaches.withKind (hplaces : effect.places = true) (kind : Kind) :
    Reaches addTag tag effect d { d with kind := some kind } :=
  .write .start ⟨rfl, rfl, rfl, rfl, by simp [hplaces]⟩

theorem reaches_applyClass (tag : Tag) (d : Doclet) :
    Reaches addTag tag .asClass d (applyClass addTag tag d).value := by
  have hkind : Reaches addTag tag .asClass d { d with kind := some .class } :=
    .withKind rfl .class
  unfold applyClass
  simp only
  split
  · exact hkind.write ⟨rfl, rfl, rfl, rfl, fun _ => rfl⟩
  · exact hkind.nameBy List.mem_cons_self _

theorem reaches_applyModule (tag : Tag) (d : Doclet) :
    Reaches addTag tag .asModule d (applyModule addTag tag d).value := by
  have hnamed : Reaches addTag tag .asModule d
      (nameBy addTag (textName? tag) { d with kind := some .module }).value :=
    (Reaches.withKind rfl .module).nameBy List.mem_cons_self _
  have hfinal (e : Doclet) (h : Reaches addTag tag .asModule d e) : Reaches addTag tag .asModule d
      ({ e with name := Longname.stripNamespace e.name }.setType tag) := by
    have hname : Reaches addTag tag .asModule d
        { e with name := Longname.stripNamespace e.name } := h.write (.placing rfl rfl rfl rfl)
    exact hname.setType
  simp only [applyModule, Noted.value_bind]
  split
  · exact hfinal _ (hnamed.nameBy List.mem_cons_self _)
  · exact hfinal _ hnamed

theorem reaches_applyExternal (tag : Tag) (d : Doclet) :
    Reaches addTag tag .asExternal d (applyExternal addTag tag d).value := by
  have hkind : Reaches addTag tag .asExternal d { d with kind := some .external } :=
    .withKind rfl .external
  unfold applyExternal
  simp only
  split
  · exact hkind.setType.handOn List.mem_cons_self _
  · exact hkind.nameBy List.mem_cons_self _

theorem reaches_applyTypedef (tag : Tag) (d : Doclet) :
    Reaches addTag tag .asTypedef d (applyTypedef addTag tag d).value := by
  have hkind : Reaches addTag tag .asTypedef d { d with kind := some .typedef } :=
    .withKind rfl .typedef
  have hnamed := hkind.nameBy List.mem_cons_self (detailName? tag)
  unfold applyTypedef
  simp only
  split
  · exact hkind
  · rw [Noted.value_bind]
    split
    · exact hnamed.write ⟨rfl, rfl, rfl, rfl, fun _ => rfl⟩
    · exact hnamed.setType

theorem reaches_applyMemberof (tag : Tag) (d : Doclet) :
    Reaches addTag tag .memberof d (applyMemberof addTag tag d).value := by
  have hforced : Reaches addTag tag .memberof d
      (if Text.asciiLower tag.writtenTitle = "memberof!" then { d with forceMemberof := true }
        else d) := by
    split
    · exact .write .start (.placing rfl rfl rfl rfl)
    · exact .start
  unfold applyMemberof
  simp only
  generalize (if Text.asciiLower tag.writtenTitle = "memberof!" then
    { d with forceMemberof := true } else d) = e at hforced ⊢
  split
  · split
    · exact (hforced.handOn List.mem_cons_self none).write (.placing rfl rfl rfl rfl)
    · exact hforced.write (Writes.setMemberof e _)
  · exact hforced

/-- All that an effect does to a doclet. -/
theorem reaches_applyEffect (tag : Tag) (d : Doclet) (effect : TagEffect) :
    Reaches addTag tag effect d (applyEffect addTag tag d effect).value := by
  cases effect with
  | flag field => exact .write .start (Writes.setFlag d field)
  | text field => exact .write .start (Writes.setText d _ field)
  | collect field => exact .write .start (Writes.collect d _ field)
  | detail field => exact .write .start (Writes.addDetail d _ field)
  | event field =>
    simp only [applyEffect, Noted.value_pure]
    split
    · exact .write .start (Writes.addEvent d _ field)
    · exact .start
  | relate relation =>
    simp only [applyEffect, Noted.value_pure]
    split
    · rename_i htext
      exact .relate rfl htext
    · exact .start
  | scope | makeGlobal => exact .write .start (.placing rfl rfl rfl rfl)
  | access | grant | defaultValue | deprecated | thisType | undocumented =>
    exact .write .start ⟨rfl, rfl, rfl, rfl, fun _ => rfl⟩
  | grantTyped level =>
    have haccess : Reaches addTag tag (.grantTyped level) d { d with access := some level } :=
      .write .start ⟨rfl, rfl, rfl, rfl, fun _ => rfl⟩
    exact haccess.setType
  | kindByText kind | kindByName kind =>
    exact (Reaches.withKind rfl kind).nameBy List.mem_cons_self _
  | typedKindByText kind | typedKindByName kind =>
    exact ((Reaches.withKind rfl kind).nameBy List.mem_cons_self _).setType
  | asClass => exact reaches_applyClass tag d
  | asEnum =>
    have henum : Reaches addTag tag .asEnum d { d with kind := some .member, isEnum := true } :=
      .write .start (.placing rfl rfl rfl rfl)
    exact henum.setType
  | asExternal => exact reaches_applyExternal tag d
  | asFile =>
    exact (Reaches.start.nameBy List.mem_cons_self _).write (.placing rfl rfl rfl rfl)
  | asModule => exact reaches_applyModule tag d
  | asTypedef => exact reaches_applyTypedef tag d
  | borrows =>
    simp only [applyEffect, Noted.value_pure]
    split
    · split
      · exact .start
      · exact .write .start ⟨rfl, rfl, rfl, rfl, fun _ => rfl⟩
    · exact .start
  | constructs =>
    exact (Reaches.start.handOn List.mem_cons_self _).write (.placing rfl rfl rfl rfl)
  | exports =>
    simp only [applyEffect]
    split
    · exact (Reaches.start.handOn List.mem_cons_self _).write (.placing rfl rfl rfl rfl)
    · exact .write .start (.placing rfl rfl rfl rfl)
  | lends =>
    have halias (aliasName : Option String) :
        Reaches addTag tag .lends d { d with aliasName } :=
      .write .start (.placing rfl rfl rfl rfl)
    exact (halias _).handOn List.mem_cons_self _
  | memberof => exact reaches_applyMemberof tag d
  | requires =>
    simp only [applyEffect, Noted.value_pure]
    split
    · exact .write .start ⟨rfl, rfl, rfl, rfl, fun _ => rfl⟩
    · exact .start
  | type =>
    simp only [applyEffect]
    split
    · rename_i hfunction
      rw [kind_setType] at hfunction
      exact Reaches.start.setType.handOn (by simp [TagEffect.handsOn, hfunction]) _
    · exact Reaches.start.setType
  | variation =>
    simp only [applyEffect, Noted.value_pure]
    split
    · exact .write .start (.placing rfl rfl rfl rfl)
    · exact .start

end Effects

/-! ## Longnames and code -/

/-- The second doclet has the longname of the first and the same code behind it. -/
def Rooted (d e : Doclet) : Prop := e.longname = d.longname ∧ e.origin = d.origin

theorem Rooted.refl (d : Doclet) : Rooted d d := ⟨rfl, rfl⟩

theorem Rooted.trans {d e f : Doclet} (hde : Rooted d e) (hef : Rooted e f) : Rooted d f :=
  ⟨hef.1.trans hde.1, hef.2.trans hde.2⟩

theorem Writes.rooted {places : Bool} {d e : Doclet} (h : Writes places d e) : Rooted d e :=
  ⟨h.longname, h.origin⟩

/-- Adding tags sets no longname and leaves the code alone. -/
def AddsRooted (addTag : AddTag) : Prop :=
  ∀ title text d, Rooted d (addTag title text d).value

/-- No effect sets a longname or touches the code, as long as the tags that it adds do not. -/
theorem Reaches.rooted {addTag : AddTag} (haddTag : AddsRooted addTag) {tag : Tag}
    {effect : TagEffect} {d e : Doclet} (h : Reaches addTag tag effect d e) : Rooted d e := by
  induction h with
  | start => exact Rooted.refl d
  | write _ hwrites ih => exact ih.trans hwrites.rooted
  | @relate relation => cases relation <;> exact Rooted.refl d
  | handOn _ _ _ ih => exact ih.trans (haddTag _ _ _)

theorem addsRooted_addTagWith {addTag : AddTag} (haddTag : AddsRooted addTag)
    (dictionary : Dictionary) : AddsRooted (addTagWith dictionary addTag) := by
  intro title text d
  unfold addTagWith
  simp only [Noted.value_bind]
  split
  · split
    · exact ((reaches_applyEffect _ d _).rooted haddTag).trans (Writes.applyInternal _ _).rooted
    · exact (Writes.applyInternal d _).rooted
  · exact (Rooted.refl d).trans (Writes.applyInternal _ _).rooted

theorem addsRooted_addTag (dictionary : Dictionary) : AddsRooted (addTag dictionary) :=
  addsRooted_addTagWith (addsRooted_addTagWith (fun _ _ d => Rooted.refl d) dictionary) dictionary

/-- The tags of a comment leave the longname open, and the code as it is. -/
theorem rooted_unfinished (dictionary : Dictionary) (comment : String) (tags : List WrittenTag)
    (origin : Origin) :
    (unfinished dictionary comment tags origin).longname = "" ∧
      (unfinished dictionary comment tags origin).origin = origin :=
  List.foldlRecOn (motive := Rooted { comment, origin }) tags _ (Rooted.refl _)
    fun _ h tag _ => h.trans (addsRooted_addTag dictionary tag.title tag.text _)

/-! ## Unplaced symbols -/

namespace Unplaced

variable {d : Doclet} (h : d.Unplaced)
include h

theorem write {places : Bool} {e : Doclet} (hplaces : places = false)
    (hwrites : Writes places d e) : e.Unplaced := (hwrites.naming hplaces).trans h

/-- What does not place a symbol leaves it unplaced. The one effect among these that adds a tag does
so for functions alone. -/
theorem reach {addTag : AddTag} {tag : Tag} {effect : TagEffect} {e : Doclet}
    (heffect : effect.places = false) (hreaches : Reaches addTag tag effect d e) : e.Unplaced := by
  induction hreaches with
  | start => exact h
  | write _ hwrites ih => exact ih.write heffect hwrites
  | @relate relation => cases relation <;> exact h
  | handOn _ htitle =>
    rw [h.kind_eq, TagEffect.handsOn_eq_nil heffect] at htitle
    cases htitle

/-- A tag that places nothing leaves the symbol unplaced. -/
theorem addTag (dictionary : Dictionary) (tag : WrittenTag)
    (hplaces : tag.places dictionary = false) :
    (addTag dictionary tag.title tag.text d).value.Unplaced := by
  have htitle : (Tag.build dictionary d.origin tag.title tag.text).title =
      dictionary.normalize (Text.trim tag.title) := Tag.title_build dictionary d.origin _ _
  simp only [WrittenTag.places, Bool.or_eq_false_iff] at hplaces
  rw [← htitle] at hplaces
  obtain ⟨hinternal, heffect⟩ := hplaces
  simp only [Doclet.addTag, addTagWith, Noted.value_bind]
  split
  · rename_i definition hdefinition
    rw [hdefinition] at heffect
    split
    · rename_i effect hsome
      have hplaces : effect.places = false := by simpa [hsome] using heffect
      exact (h.reach hplaces (reaches_applyEffect _ d effect)).write hinternal
        (Writes.applyInternal _ _)
    · exact h.write hinternal (Writes.applyInternal d _)
  · have hkept : ∀ tags, Unplaced { d with tags } := fun _ => h
    exact (hkept _).write hinternal (Writes.applyInternal _ _)

end Unplaced

/-- Tags that place nothing leave the symbol unplaced. -/
theorem unplaced_unfinished (dictionary : Dictionary) (comment : String) {tags : List WrittenTag}
    (htags : ∀ tag ∈ tags, tag.places dictionary = false) (origin : Origin) :
    (unfinished dictionary comment tags origin).Unplaced :=
  List.foldlRecOn (motive := Unplaced) tags _ (Eq.refl ({} : Naming))
    fun _ h tag htag => h.addTag dictionary tag (htags tag htag)

end Doclet

end Commentary
