import Commentary.Proofs.RecursionDepth
import Commentary.Proofs.TagLedgers

/-!
# Tags that add tags

Adding a tag can add further tags, with whatever effects the dictionary has for them. An effect
hangs on no tags but those that it hands on (`applyEffect_congr`), and whatever a configuration
loads, the effects of those hand on nothing (`handsOn_handedOn`). So tags are added at two levels
at most, and adding them is a recursion that ends (`addTag_nesting`).
-/

namespace Commentary

namespace Dictionary

/-- The effects of tags that are handed on hand on nothing. -/
theorem handsOn_handedOn {config : Config} {title : String} (h : title ∈ handedOnTitles)
    {definition : TagDefinition} {effect : TagEffect}
    (hlookUp : (ofConfig config).value.lookUp title = some definition)
    (heffect : definition.effect = some effect) (kind : Option Kind) :
    effect.handsOn kind = [] := by
  have hsettles : ∀ tag ∈ shippedTags, tag.title ∈ handedOnTitles → ∀ effect ∈ tag.effect,
      effect ≠ .type ∧ effect.handsOn none = [] := by
    decide +kernel
  obtain ⟨hmem, htitle⟩ := shipped_of_lookUp_ofConfig hlookUp
  rw [normalize_handedOn h] at htitle
  obtain ⟨htype, hnone⟩ := hsettles definition hmem (htitle ▸ h) effect heffect
  -- the kind of the doclet counts for a type only
  cases effect with
  | type => exact absurd rfl htype
  | _ => exact hnone

end Dictionary

namespace Doclet

open Dictionary Recursion

/-! ## What an effect hangs on -/

section Effects

variable {addTag addTag' : AddTag}

theorem nameBy_congr (h : ∀ text d, addTag "name" text d = addTag' "name" text d)
    (name : Option String) (d : Doclet) : nameBy addTag name d = nameBy addTag' name d := by
  cases name with
  | none => rfl
  | some name => exact h _ d

/-- An effect hangs on no tags but those that it hands on. -/
theorem applyEffect_congr (tag : Tag) (d : Doclet) (effect : TagEffect)
    (h : ∀ title ∈ effect.handsOn d.kind, ∀ text d, addTag title text d = addTag' title text d) :
    applyEffect addTag tag d effect = applyEffect addTag' tag d effect := by
  cases effect with
  | kindByText | typedKindByText | kindByName | typedKindByName | asFile =>
    simp only [applyEffect, nameBy_congr (h "name" (by simp [TagEffect.handsOn]))]
  | asClass =>
    simp only [applyEffect, applyClass, nameBy_congr (h "name" (by simp [TagEffect.handsOn]))]
  | asExternal =>
    have hname := h "name" (by simp [TagEffect.handsOn])
    simp only [applyEffect, applyExternal, nameBy_congr hname, hname]
  | asModule =>
    simp only [applyEffect, applyModule, nameBy_congr (h "name" (by simp [TagEffect.handsOn]))]
  | asTypedef =>
    simp only [applyEffect, applyTypedef, nameBy_congr (h "name" (by simp [TagEffect.handsOn]))]
  | constructs | exports =>
    simp only [applyEffect, h "alias" (by simp [TagEffect.handsOn])]
  | lends => exact h "undocumented" (by simp [TagEffect.handsOn]) _ _
  | memberof =>
    simp only [applyEffect, applyMemberof, h "global" (by simp [TagEffect.handsOn])]
  | type =>
    simp only [applyEffect, kind_setType]
    split
    · rename_i hfunction
      exact h "returns" (by simp [TagEffect.handsOn, hfunction]) _ _
    · rfl
  | _ => rfl

/-- Adding a tag hangs on no tags but those that its effect hands on. -/
theorem addTagWith_congr {dictionary : Dictionary} {title : String} (text : Option String)
    (d : Doclet)
    (h : ∀ definition effect,
      dictionary.lookUp (dictionary.normalize (Text.trim title)) = some definition →
      definition.effect = some effect → ∀ handed ∈ effect.handsOn d.kind, ∀ text d,
        addTag handed text d = addTag' handed text d) :
    addTagWith dictionary addTag title text d = addTagWith dictionary addTag' title text d := by
  have htitle := Tag.title_build dictionary d.origin title text
  simp only [addTagWith]
  generalize Tag.build dictionary d.origin title text = tag at htitle
  rcases hlookUp : dictionary.lookUp tag.title with _ | definition
  · rfl
  rw [htitle] at hlookUp
  rcases heffect : definition.effect with _ | effect
  · simp only [heffect]
  · simp only [heffect, applyEffect_congr tag d effect (h definition effect hlookUp heffect)]

end Effects

/-! ## Levels -/

/-- A tag that is to be added to a doclet. -/
structure Addition where
  title : String
  text : Option String
  doclet : Doclet
deriving DecidableEq

/-- One turn of adding tags: a tag is added, given what adding further tags comes to. -/
def addTurn (dictionary : Dictionary) (add : Addition → Noted Doclet) (a : Addition) :
    Noted Doclet :=
  addTagWith dictionary (fun title text d => add ⟨title, text, d⟩) a.title a.text a.doclet

/-- How many levels of tags there can be below one. -/
def levelsBelow (a : Addition) : Nat := if a.title ∈ handedOnTitles then 0 else 1

theorem descends_addTurn (config : Config) :
    Descends (addTurn (ofConfig config).value) levelsBelow fun _ _ => True := by
  intro add add' a hadd
  refine ⟨addTagWith_congr _ _ fun definition effect hlookUp heffect title htitle text d => ?_,
    trivial⟩
  by_cases hhanded : a.title ∈ handedOnTitles
  · rw [trim_handedOn _ hhanded, normalize_handedOn hhanded] at hlookUp
    rw [handsOn_handedOn hhanded hlookUp heffect] at htitle
    cases htitle
  · have hlt : levelsBelow ⟨title, text, d⟩ < levelsBelow a := by
      rw [levelsBelow, levelsBelow, if_pos (mem_handedOnTitles htitle), if_neg hhanded]
      exact Nat.zero_lt_one
    exact (hadd _ hlt).1

/-- Whatever a configuration loads, a tag that is added by another one adds none in turn. So adding
tags ends at the second level: what would be done at a third one makes no difference. -/
theorem addTag_nesting (config : Config) :
    let dictionary := (ofConfig config).value
    (∀ a b c, Calls (fun _ _ => True) (addTurn dictionary) a b →
      ¬Calls (fun _ _ => True) (addTurn dictionary) b c) ∧
    EndsWith (addTurn dictionary) (fun _ => 2) fun a =>
      addTag dictionary a.title a.text a.doclet := by
  intro dictionary
  have hdescends : Descends (addTurn dictionary) levelsBelow fun _ _ => True :=
    descends_addTurn config
  have hlevels (a : Addition) : levelsBelow a ≤ 1 := by
    unfold levelsBelow
    split <;> omega
  constructor
  · intro a b c hab hbc
    have hb := hdescends.lt_of_calls hab
    have hc := hdescends.lt_of_calls hbc
    have ha := hlevels a
    omega
  · have hends := hdescends.endsWith
      (f := fun a => addTag dictionary a.title a.text a.doclet) fun a =>
        ⟨fun a => pure a.doclet, 2, Nat.lt_succ_of_le (hlevels a), rfl⟩
    exact ⟨hends.fixed, fun beyond n a hn =>
      hends.breaks_off beyond n a (Nat.le_trans (Nat.succ_le_succ (hlevels a)) hn)⟩

/-- There are tags that do add others: that of an owner, if the owner is that of symbols that have
none. -/
example : ∃ a b, Calls (fun _ _ => True) (addTurn standard) a b := by
  let global : Addition := ⟨"global", none, {}⟩
  let add (a : Addition) : Noted Doclet := pure a.doclet
  refine ⟨⟨"memberof", some Longname.globalOwner, {}⟩, global, add,
    Function.update add global (pure { name := "x" }), fun _ => trivial, fun _ => trivial,
    fun a ha => by rw [Function.update_of_ne ha], fun heq => ?_⟩
  have hname := congrArg (fun d => d.value.name) heq
  rw [standard, value_ofConfig_lower] at hname
  revert hname
  decide +kernel

end Doclet

end Commentary
