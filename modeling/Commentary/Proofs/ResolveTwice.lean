import Commentary.Proofs.Resolving
import Commentary.Proofs.TagLookup

/-!
# Resolving twice

Finishing a doclet is meant to be done once. This module says what a second time does. What follows
the resolving never changes anything again (`fill_fill`), and a doclet whose longname is more than
its name is not resolved again. What is left are the doclets without an owner: their longname is
their name, so the name is read once more, and the doclet holds still exactly if the name reads as
itself (`ofSource_finish_again`).
-/

namespace Commentary

namespace Longname

/-! ## Splitting gives a name -/

theorem chars_ne_nil_of_mem_prependText {cs : List Char} (hcs : cs ≠ []) {ts : List Token}
    (hts : ∀ t ∈ ts, t.chars ≠ []) : ∀ t ∈ prependText cs ts, t.chars ≠ [] := by
  rcases prependText_cases cs ts with ⟨ds, rest, rfl, htext⟩ | ⟨-, htext⟩
  · rw [htext]
    rw [List.forall_mem_cons] at hts ⊢
    exact ⟨by simp [Token.chars, hcs], hts.2⟩
  · rw [htext, List.forall_mem_cons]
    exact ⟨hcs, hts⟩

theorem chars_ne_nil_of_mem_gather (depth : Nat) (as : List Atom) :
    ∀ t ∈ gather depth as, t.chars ≠ [] := by
  fun_induction gather depth as with
  | case1 => simp
  | case2 depth mark span rest ih => exact List.forall_mem_cons.2 ⟨by simp [Token.chars], ih⟩
  | case3 depth next rest ih => exact chars_ne_nil_of_mem_prependText (by simp) ih
  | case4 depth c rest _ ih => exact chars_ne_nil_of_mem_prependText (by simp) ih
  | case5 depth c rest _ _ ih => exact chars_ne_nil_of_mem_prependText (by simp) ih
  | case6 depth c rest _ _ _ ih => exact List.forall_mem_cons.2 ⟨by simp [Token.chars], ih⟩
  | case7 depth c rest _ _ _ ih => exact chars_ne_nil_of_mem_prependText (by simp) ih

theorem instancePaths_eq_nil {pending : Option (List Char)} {ts : List Token}
    (h : instancePaths pending ts = []) : pending.getD [] = [] ∧ spell ts = [] := by
  fun_induction instancePaths pending ts with
  | case1 pending => exact ⟨h, rfl⟩
  | case2 pending token hstart rest ih => exact absurd (ih h).1 (by simp)
  | case3 pending token hstart rest _ ih => cases h
  | case4 pending rest hstart ih =>
    rw [List.append_eq_nil_iff] at h
    exact absurd (ih h.2).1 (by simp)
  | case5 pending token rest _ _ ih =>
    simp only [List.append_eq_nil_iff] at h
    obtain ⟨hpending, hchars, hrest⟩ := h
    rw [spell_cons, hchars, (ih hrest).2]
    exact ⟨hpending, rfl⟩

theorem dotBrackets_eq_nil {last : Option Char} {as : List Atom} (h : dotBrackets last as = []) :
    as = [] := by
  revert h
  fun_cases dotBrackets last as with
  | case1 => simp
  | case2 => simp
  | case3 atom rest => simp [Atom.chars_ne_nil]
  | case4 => simp

theorem instancePath_eq_nil {s : String} (h : instancePath s = "") : s = "" := by
  have hchars : instancePathChars s.toList = [] := by
    simpa [instancePath] using congrArg String.toList h
  have hspell := (instancePaths_eq_nil hchars).2
  rw [spell_tokenize] at hspell
  simpa using hspell

theorem normalChars_eq_nil {cs : List Char} (h : normalChars cs = []) : cs = [] := by
  have hspell := (instancePaths_eq_nil h).2
  rw [spell_tokenize] at hspell
  rw [← flatMap_chars_atoms cs, dotBrackets_eq_nil hspell]
  rfl

theorem splitVariationChars_eq_nil {cs : List Char} (h : (splitVariationChars cs).1 = []) :
    cs = [] := by
  revert h
  unfold splitVariationChars
  split
  · split
    · rename_i rest _ content mark front _
      split
      · exact id
      · rename_i hfront
        simp only [Bool.or_eq_true, List.isEmpty_iff, not_or] at hfront
        simp [hfront.2]
    · exact id
  · exact id

/-- What is split has a name, unless it is empty. -/
theorem name_split_eq_nil {s : String} (h : (split s).name = "") : s = "" := by
  revert h
  unfold split
  simp only
  split
  · rename_i before c after hsplit
    intro h
    have hafter : spell after = [] := by
      refine splitVariationChars_eq_nil ?_
      simpa [ofParts] using congrArg String.toList h
    obtain ⟨happend, -, hne, -⟩ := eq_append_of_lastSplit hsplit
    have hmem : ∀ t ∈ after, t ∈ tokenize (normalChars s.toList) := fun t ht => by
      rw [happend]
      simp [ht]
    obtain ⟨t, rest, rfl⟩ := List.exists_cons_of_ne_nil hne
    rw [spell_cons, List.append_eq_nil_iff] at hafter
    exact absurd hafter.1 (chars_ne_nil_of_mem_gather 0 _ t (hmem t (by simp)))
  · intro h
    have hfull : normalChars s.toList = [] := by
      refine splitVariationChars_eq_nil ?_
      simpa [ofParts] using congrArg String.toList h
    simpa using normalChars_eq_nil hfull

/-! ## Names as long as what they are split from -/

theorem length_instancePath_le (s : String) : (instancePath s).length ≤ s.length := by
  have h := length_instancePaths_le (some []) (tokenize s.toList)
  rw [spell_tokenize, String.length_toList] at h
  simpa [instancePath, instancePathChars] using h

theorem length_full_split_le (s : String) : (split s).full.length ≤ s.length := by
  have h := length_normalChars_le s.toList
  rw [String.length_toList] at h
  rw [full_split, normalize, String.length_ofList]
  exact h

theorem length_full_split (s : String) :
    (split s).full.length = (split s).memberof.length + (split s).scope.punctuation.length +
      (split s).name.length + (variationSuffix (split s).variation).length := by
  rw [← split_join_eq_full]
  simp [join]

theorem length_name_split_le (s : String) : (split s).name.length ≤ s.length := by
  have hfull := length_full_split s
  have hle := length_full_split_le s
  omega

/-- A part with a scope is shorter than the whole. -/
theorem length_name_split_lt {s : String} (h : (split s).scope ≠ .global) :
    (split s).name.length < s.length := by
  have hfull := length_full_split s
  have hle := length_full_split_le s
  have hone : (split s).scope.punctuation.length = 1 := by
    revert h
    cases (split s).scope with
    | global => exact fun h => absurd rfl h
    | static => exact fun _ => rfl
    | inner => exact fun _ => rfl
    | «instance» => exact fun _ => rfl
  omega

/-- Without a scope there is no owner. -/
theorem memberof_split_of_global {s : String} (h : (split s).scope = .global) :
    (split s).memberof = "" := by
  revert h
  unfold split
  simp only
  split
  · rename_i before c after hsplit
    have hc : Scope.isPunctuation c = true := among_of_mem_gather (mem_of_lastSplit hsplit)
    obtain ⟨scope, hscope⟩ := Option.isSome_iff_exists.1 hc
    intro h
    have hglobal : scope = .global := by simpa [ofParts, hscope] using h
    rw [hglobal] at hscope
    unfold Scope.ofPunctuation? at hscope
    split at hscope <;> cases hscope
  · exact fun _ => rfl

/-- A name as long as what it is split from is all of it. -/
theorem split_of_length_le {s : String} (h : s.length ≤ (split s).name.length) :
    (split s).scope = .global ∧ (split s).memberof = "" ∧ (split s).variation = none ∧
      (split s).full = (split s).name := by
  have hscope : (split s).scope = .global := by
    by_contra hne
    have := length_name_split_lt hne
    omega
  have howner := memberof_split_of_global hscope
  have hvariation : (split s).variation = none := by
    cases hsome : (split s).variation with
    | none => rfl
    | some variation =>
      have hfull := length_full_split s
      have hle := length_full_split_le s
      rw [hsome, variationSuffix, String.length_append, String.length_append,
        show "(".length = 1 from rfl] at hfull
      omega
  refine ⟨hscope, howner, hvariation, ?_⟩
  rw [← split_join_eq_full, join, hscope, howner, hvariation]
  simp [Scope.punctuation, variationSuffix]

/-- A text that is its own name has no `prototype` segment left to respell. -/
theorem instancePath_eq_self {s : String} (h : (split s).name = s) : instancePath s = s := by
  have hfull : normalize s = s := by
    rw [← full_split, (split_of_length_le (by rw [h])).2.2.2, h]
  obtain ⟨hchain, hsettled⟩ := normalChars_spec s.toList
  have hpaths := (normal_of_settled hchain hsettled).2
  rw [← hfull, normalize, instancePath, String.toList_ofList, hpaths]

end Longname

namespace Doclet

open Longname

variable {dictionary : Dictionary} {d e : Doclet} {about : Longname}

/-! ## Filling in -/

/-- What finishing does to a doclet whose name is resolved. -/
def fill (dictionary : Dictionary) (d : Doclet) : Doclet :=
  let d := d.ensureLongname dictionary
  let d := { d with
    memberof := d.memberof.filter (· != "")
    kind := some (d.kind.getD (Kind.ofCode d.origin.code.form)) }
  let d := d.appendVariation
  { d with params := nameParams d.params d.origin.code.paramNames }

theorem finish_eq_fill (dictionary : Dictionary) (d : Doclet) :
    d.finish dictionary = (if d.preserveName then d else d.resolve dictionary).fill dictionary :=
  rfl

/-- A longname with the variation behind it, unless it stands there. -/
def withVariation (variation : Option String) (longname : String) : String :=
  match variation with
  | some variation =>
    if variation ≠ "" ∧ longname ≠ "" ∧
        Text.endsWith ("(" ++ variation ++ ")") longname = false then
      longname ++ ("(" ++ variation ++ ")")
    else longname
  | none => longname

theorem appendVariation_eq (d : Doclet) :
    d.appendVariation = { d with longname := withVariation d.variation d.longname } := by
  rcases Option.eq_none_or_eq_some d.variation with hnone | ⟨variation, hsome⟩
  · have hlongname : withVariation d.variation d.longname = d.longname := by
      rw [hnone]
      rfl
    have hself : d.appendVariation = d := by rw [appendVariation, hnone]
    rw [hlongname, hself]
  · simp only [appendVariation, withVariation, hsome]
    rw [← hsome]
    split
    · rfl
    · rfl

theorem endsWith_append (front ending : String) :
    Text.endsWith ending (front ++ ending) = true := by
  simp [Text.endsWith]

theorem withVariation_withVariation (variation : Option String) (longname : String) :
    withVariation variation (withVariation variation longname) =
      withVariation variation longname := by
  cases variation with
  | none => rfl
  | some variation =>
    by_cases h : variation ≠ "" ∧ longname ≠ "" ∧
        Text.endsWith ("(" ++ variation ++ ")") longname = false
    · have hwith : withVariation (some variation) longname =
          longname ++ ("(" ++ variation ++ ")") := by simp only [withVariation, if_pos h]
      rw [hwith, withVariation, if_neg]
      simp [endsWith_append]
    · have hwith : withVariation (some variation) longname = longname := by
        simp only [withVariation, if_neg h]
      rw [hwith, hwith]

/-- A variation makes a longname longer or leaves it alone. -/
theorem length_withVariation (variation : Option String) (longname : String) :
    withVariation variation longname = longname ∨
      longname ≠ "" ∧ longname.length < (withVariation variation longname).length := by
  cases variation with
  | none => exact .inl rfl
  | some variation =>
    unfold withVariation
    simp only
    split
    · rename_i h
      refine .inr ⟨h.2.1, ?_⟩
      simp only [String.length_append]
      have hopen : "(".length = 1 := rfl
      omega
    · exact .inl rfl

theorem withVariation_eq_nil {variation : Option String} {longname : String}
    (h : withVariation variation longname = "") : longname = "" := by
  rcases length_withVariation variation longname with heq | ⟨-, hlt⟩
  · rw [← heq, h]
  · rw [h] at hlt
    cases hlt

/-- The longname that a name without one is given. -/
def ensuredLongname (dictionary : Dictionary) (d : Doclet) : String :=
  if d.name ≠ "" ∧ d.longname = "" then
    namespaced dictionary d.kind (stripGlobalOwner d.name)
  else d.longname

theorem fill_eq (dictionary : Dictionary) (d : Doclet) :
    d.fill dictionary =
      { d with
        longname := withVariation d.variation (ensuredLongname dictionary d)
        memberof := d.memberof.filter (· != "")
        kind := some (d.kind.getD (Kind.ofCode d.origin.code.form))
        params := nameParams d.params d.origin.code.paramNames } := by
  have hensure : d.ensureLongname dictionary =
      { d with longname := ensuredLongname dictionary d } := by
    unfold ensureLongname ensuredLongname
    split
    · rfl
    · rfl
  simp only [fill, hensure, appendVariation_eq]

@[simp]
theorem name_fill (dictionary : Dictionary) (d : Doclet) : (d.fill dictionary).name = d.name := by
  rw [fill_eq]

@[simp]
theorem variation_fill (dictionary : Dictionary) (d : Doclet) :
    (d.fill dictionary).variation = d.variation := by
  rw [fill_eq]

@[simp]
theorem longname_fill (dictionary : Dictionary) (d : Doclet) :
    (d.fill dictionary).longname = withVariation d.variation (ensuredLongname dictionary d) := by
  rw [fill_eq]

theorem nameParams_nameParams (params : List Detail) (names : List String) :
    nameParams (nameParams params names) names = nameParams params names := by
  fun_induction nameParams params names with
  | case1 param params name names ih =>
    rw [nameParams, ih]
    cases param.name <;> rfl
  | case2 params names h => rw [nameParams.eq_2 _ _ h]

/-- No kind that is read off the code is a namespace. -/
def InfersPlainKinds (dictionary : Dictionary) : Prop :=
  ∀ form, dictionary.isNamespace (Kind.ofCode form).text = false

theorem namespaced_getD (hplain : InfersPlainKinds dictionary) (kind : Option Kind)
    (form : Option String) (longname : String) :
    namespaced dictionary (some (kind.getD (Kind.ofCode form))) longname =
      namespaced dictionary kind longname := by
  cases kind with
  | none => simp [namespaced, hplain form]
  | some kind => rfl

/-- What has been filled in is not filled in again. -/
theorem fill_fill (hplain : InfersPlainKinds dictionary) (d : Doclet) :
    (d.fill dictionary).fill dictionary = d.fill dictionary := by
  have hlongname : ensuredLongname dictionary (d.fill dictionary) =
      (d.fill dictionary).longname := by
    unfold ensuredLongname
    split
    · rename_i h
      -- still without a longname, so the one that its name gives it is empty
      rw [fill_eq] at h ⊢
      obtain ⟨hname, hempty⟩ := h
      have hensured : ensuredLongname dictionary d = "" := withVariation_eq_nil hempty
      have hopen : d.longname = "" := by
        by_contra hne
        rw [ensuredLongname, if_neg (fun h => hne h.2)] at hensured
        exact hne hensured
      rw [ensuredLongname, if_pos ⟨hname, hopen⟩] at hensured
      rw [hempty]
      exact (namespaced_getD hplain _ _ _).trans hensured
    · rfl
  rw [fill_eq dictionary (d.fill dictionary), hlongname, fill_eq dictionary d]
  simp only [withVariation_withVariation, Option.filter_filter, nameParams_nameParams,
    Option.getD_some, Bool.and_self]

/-- The longname of a symbol that is named by its name alone. -/
def standing (dictionary : Dictionary) (d : Doclet) : String :=
  withVariation d.variation (namespaced dictionary d.kind (stripGlobalOwner d.name))

/-- A doclet in which all is filled in takes a longname for its name, and no more. -/
theorem fill_named (hfilled : d.fill dictionary = d) :
    fill dictionary { d with longname := namespaced dictionary d.kind (stripGlobalOwner d.name) } =
      { d with longname := standing dictionary d } := by
  have hmemberof := congrArg memberof hfilled
  have hkind := congrArg kind hfilled
  have hparams := congrArg params hfilled
  rw [fill_eq] at hmemberof hkind hparams
  rw [fill_eq]
  have hensured : ensuredLongname dictionary
      { d with longname := namespaced dictionary d.kind (stripGlobalOwner d.name) } =
        namespaced dictionary d.kind (stripGlobalOwner d.name) := by
    unfold ensuredLongname
    split
    · rfl
    · rfl
  rw [hensured]
  simp only at hmemberof hkind hparams ⊢
  rw [hmemberof, hkind, hparams]
  rfl

/-! ## Taking over the parts of a name without an owner -/

theorem takeOwner_eq (about : Longname) (d : Doclet) :
    ∃ owner, (about.memberof = "" → owner = d.memberof) ∧
      takeOwner about d = { d with memberof := owner } := by
  unfold takeOwner
  split
  · exact ⟨d.memberof, fun _ => rfl, rfl⟩
  · rename_i hne
    exact ⟨_, fun hempty => absurd hempty hne, rfl⟩

/-- Without an owner and without a scope there is nothing to settle. -/
theorem settle_unowned (hscope : d.scope ≠ some .global) (habout : about.scope = .global)
    (hunowned : d.memberof = none) : settle dictionary about d = d := by
  rw [settle, if_neg hscope, if_neg (fun h => h habout), hunowned]
  exact ite_self d

/-- A global symbol takes over a name, and is named by it alone. -/
theorem takeParts_global (hname : takeName about d = { d with name := about.name })
    (hscope : d.scope = some .global) :
    takeParts dictionary about d =
      { d with
        name := about.name
        longname := namespaced dictionary d.kind (stripGlobalOwner about.name)
        memberof := none
        variation := about.variation.or d.variation } := by
  obtain ⟨owner, -, howner⟩ := takeOwner_eq about { d with name := about.name }
  rw [takeParts, hname, howner, takeLongname_eq, settle, if_pos hscope, takeVariation_eq]
  rfl

/-- A symbol without an owner that is not global takes over a name, and a longname if its own is
open. It stays without an owner if the parts have none. -/
theorem takeParts_unowned (hname : takeName about d = { d with name := about.name })
    (hscope : d.scope ≠ some .global) (hunowned : d.memberof = none)
    (halone : about.scope = .global → about.memberof = "") :
    ∃ owner scope, (about.scope = .global → owner = none ∧ scope = d.scope) ∧
      takeParts dictionary about d =
        { d with
          name := about.name
          longname := if about.full ≠ "" ∧ (d.longname = "" ∨ d.longname = about.name) then
            namespaced dictionary d.kind (stripGlobalOwner about.full) else d.longname
          memberof := owner
          scope := scope
          variation := about.variation.or d.variation } := by
  obtain ⟨owner, hkept, howner⟩ := takeOwner_eq about { d with name := about.name }
  by_cases habout : about.scope = .global
  · have hnone : owner = none := (hkept (halone habout)).trans hunowned
    refine ⟨none, d.scope, fun _ => ⟨rfl, rfl⟩, ?_⟩
    rw [takeParts, hname, howner, takeLongname_eq, hnone, settle_unowned ?_ habout ?_,
      takeVariation_eq]
    · exact hscope
    · rfl
  · refine ⟨owner, some (if about.memberof = globalOwner then .global else about.scope),
      fun h => absurd h habout, ?_⟩
    rw [takeParts, hname, howner, takeLongname_eq, settle, if_neg hscope, if_pos habout,
      takeVariation_eq]

/-! ## Reading a name again -/

/-- What resolving reads: the name, in the function around the code if there is one. -/
def reading (d : Doclet) : String :=
  { d with name := d.plainName }.enclosedName?.getD d.plainName

theorem resolve_unowned (dictionary : Dictionary) (hunowned : d.memberof = none)
    (hforce : d.forceMemberof = false) (hopen : d.longname = "" ∨ d.longname = d.name) :
    d.resolve dictionary = takeParts dictionary (Longname.split d.reading)
      { d with
        name := d.plainName
        longname := { d with name := d.plainName }.enclosedName?.getD d.longname } :=
  resolve_eq dictionary hopen rfl (place_unowned hunowned hforce d.reading)

theorem plainName_eq_nil_iff : d.plainName = "" ↔ d.name = "" := by
  unfold plainName
  split
  · rename_i h
    exact ⟨instancePath_eq_nil, fun hempty => absurd hempty h.1⟩
  · rfl

theorem length_plainName_le (d : Doclet) : d.plainName.length ≤ d.name.length := by
  unfold plainName
  split
  · exact length_instancePath_le d.name
  · exact le_rfl

/-- A name that reads as all of itself is not respelled. -/
theorem plainName_eq_self (h : (Longname.split d.name).name = d.name) : d.plainName = d.name := by
  unfold plainName
  split
  · exact instancePath_eq_self h
  · rfl

/-- In a function a name without an owner is read below it, and elsewhere as it is. -/
theorem enclosedName?_cases (hunowned : d.memberof = none) (hname : d.name ≠ "") :
    (d.origin.code.enclosing = none ∧ { d with name := d.plainName }.enclosedName? = none) ∨
      ∃ enclosing, d.origin.code.enclosing = some enclosing ∧
        { d with name := d.plainName }.enclosedName? = some (enclosing ++ "~" ++ d.plainName) := by
  have hcond : d.plainName ≠ "" ∧ d.memberof.getD "" = "" :=
    ⟨fun h => hname (plainName_eq_nil_iff.1 h), by rw [hunowned]; rfl⟩
  have henclosed : { d with name := d.plainName }.enclosedName? =
      d.origin.code.enclosing.map (· ++ "~" ++ d.plainName) := if_pos hcond
  rw [henclosed]
  rcases Option.eq_none_or_eq_some d.origin.code.enclosing with hnone | ⟨enclosing, hsome⟩
  · exact .inl ⟨hnone, by rw [hnone]; rfl⟩
  · exact .inr ⟨enclosing, hsome, by rw [hsome]; rfl⟩

theorem reading_eq_nil (h : d.reading = "") : d.plainName = "" := by
  by_contra hne
  have hnot : ∀ enclosing : String, enclosing ++ "~" ++ d.plainName ≠ "" := by
    intro enclosing hempty
    exact hne (String.append_eq_empty_iff.1 hempty).2
  unfold reading enclosedName? at h
  split at h
  · cases henclosing : d.origin.code.enclosing with
    | none =>
      simp only [henclosing, Option.map_none, Option.getD_none] at h
      exact hne h
    | some enclosing =>
      simp only [henclosing, Option.map_some, Option.getD_some] at h
      exact hnot enclosing h
  · exact hne h

/-- The name that is read is taken over. -/
theorem takeName_reading (d : Doclet) (longname : String) :
    takeName (Longname.split d.reading) { d with name := d.plainName, longname } =
      { d with name := (Longname.split d.reading).name, longname } := by
  unfold takeName
  split
  · rename_i hempty
    rw [hempty, reading_eq_nil (name_split_eq_nil hempty)]
  · rfl

/-! ## Holding still -/

/-- Resolving leaves the doclet alone: its name is not to be resolved, there is none, or there is a
longname that is more than the name. -/
def IsSettled (d : Doclet) : Prop :=
  d.preserveName = true ∨ (d.name = "" ∧ d.scope ≠ some .global) ∨
    (d.longname ≠ "" ∧ d.longname ≠ d.name)

/-- The doclet has no owner, and its name reads as itself. -/
structure StandsAlone (dictionary : Dictionary) (d : Doclet) : Prop where
  unforced : d.forceMemberof = false
  unowned : d.memberof = none
  /-- Only a global symbol keeps out of the function around its code. -/
  unenclosed : d.scope = some .global ∨ d.origin.code.enclosing = none
  name_eq : (Longname.split d.reading).name = d.name
  variation_eq : (Longname.split d.reading).variation.or d.variation = d.variation
  longname_eq : standing dictionary d = d.longname

/-- Where nothing is read there is nothing to take over. -/
theorem resolve_nameless (hname : d.name = "") (hscope : d.scope ≠ some .global)
    (hopen : d.longname = "" ∨ d.longname = d.name) : d.resolve dictionary = d := by
  have hplain : d.plainName = d.name := by rw [plainName_eq_nil_iff.2 hname, hname]
  have henclosed : { d with name := d.plainName }.enclosedName? = none :=
    if_neg fun h => h.1 (plainName_eq_nil_iff.2 hname)
  obtain ⟨parts, hplace, hparts⟩ :
      ∃ parts, d.place d.plainName = (parts, d.scope) ∧ parts.getD default = default := by
    rw [plainName_eq_nil_iff.2 hname, place]
    split
    · exact ⟨none, if_pos rfl, rfl⟩
    · exact ⟨some (Longname.split ""), rfl, by decide +kernel⟩
  have htake : takeParts dictionary default d = d := by
    have hsettle : settle dictionary default d = d := by
      rw [settle, if_neg hscope, if_neg (fun h => h rfl), if_neg (fun h => h.1 hname)]
    exact hsettle
  rw [resolve_eq dictionary hopen henclosed hplace, hparts, Option.getD_none, hplain]
  exact htake

theorem IsSettled.finish_eq (h : d.IsSettled) (hfilled : d.fill dictionary = d) :
    d.finish dictionary = d := by
  have hresolve : (if d.preserveName then d else d.resolve dictionary) = d := by
    by_cases hpreserve : d.preserveName = true
    · rw [if_pos hpreserve]
    rw [if_neg hpreserve]
    by_cases hlongname : d.longname ≠ "" ∧ d.longname ≠ d.name
    · rw [resolve, if_pos hlongname]
    obtain ⟨hname, hscope⟩ : d.name = "" ∧ d.scope ≠ some .global := by
      rcases h with h | h | h
      · exact absurd h hpreserve
      · exact h
      · exact absurd h hlongname
    exact resolve_nameless hname hscope (by tauto)
  rw [finish_eq_fill, hresolve, hfilled]

theorem reading_of_unenclosed (henclosing : d.origin.code.enclosing = none) :
    d.reading = d.plainName := by
  rw [reading, enclosedName?_eq_none { d with name := d.plainName } henclosing, Option.getD_none]

/-- Outside of functions a name that reads as itself is read as a whole. -/
theorem split_reading (henclosing : d.origin.code.enclosing = none)
    (hname : (Longname.split d.reading).name = d.name) :
    (Longname.split d.reading).scope = .global ∧ (Longname.split d.reading).variation = none ∧
      (Longname.split d.reading).full = d.name := by
  have hlength : d.reading.length ≤ (Longname.split d.reading).name.length := by
    rw [hname, reading_of_unenclosed henclosing]
    exact length_plainName_le d
  obtain ⟨hscope, -, hvariation, hfull⟩ := split_of_length_le hlength
  exact ⟨hscope, hvariation, hfull.trans hname⟩

/-- What a doclet without an owner becomes whose name reads as itself. -/
theorem StandsAlone.resolve_eq (h : d.StandsAlone dictionary)
    (hopen : d.longname = "" ∨ d.longname = d.name) (hname : d.scope ≠ some .global → d.name ≠ "") :
    d.resolve dictionary =
      { d with longname := namespaced dictionary d.kind (stripGlobalOwner d.name) } := by
  rw [resolve_unowned dictionary h.unowned h.unforced hopen]
  by_cases hscope : d.scope = some .global
  · rw [takeParts_global (takeName_reading d _) hscope, h.name_eq]
    simp only [h.variation_eq]
    rw [← h.unowned]
  · have henclosing := h.unenclosed.resolve_left hscope
    obtain ⟨hglobal, -, hfull⟩ := split_reading henclosing h.name_eq
    have henclosed := enclosedName?_eq_none { d with name := d.plainName } henclosing
    obtain ⟨owner, scope, halone, htake⟩ := takeParts_unowned (takeName_reading d _) hscope
      h.unowned memberof_split_of_global
    rw [htake, h.name_eq, hfull]
    obtain ⟨rfl, rfl⟩ := halone hglobal
    simp only [h.variation_eq, henclosed, Option.getD_none]
    rw [if_pos ⟨hname hscope, hopen⟩, ← h.unowned]

theorem StandsAlone.finish_eq (h : d.StandsAlone dictionary) (hfilled : d.fill dictionary = d) :
    d.finish dictionary = d := by
  by_cases hsettled : d.IsSettled
  · exact hsettled.finish_eq hfilled
  simp only [IsSettled, not_or, Bool.not_eq_true] at hsettled
  obtain ⟨hpreserve, hname, hlongname⟩ := hsettled
  have hresolve := h.resolve_eq (by tauto) (by tauto)
  rw [finish_eq_fill, hpreserve, if_neg (by simp), hresolve, fill_named hfilled, h.longname_eq]

/-- The longname that filling in leaves to a doclet which is named by the name of `d` alone. -/
theorem longname_fill_named (hname : e.name = d.name) (hvariation : e.variation = d.variation)
    (hlongname : e.longname = namespaced dictionary d.kind (stripGlobalOwner d.name))
    (hkind : e.kind = d.kind) : (e.fill dictionary).longname = standing dictionary d := by
  rw [longname_fill, standing, ensuredLongname, hname, hkind, hvariation, hlongname]
  split
  · rfl
  · rfl

/-- In a function a name without an owner does not come back as it is, for its longname takes in
the function. -/
theorem longname_fill_enclosed {enclosing : String} (hopen : d.longname = "" ∨ d.longname = d.name)
    (hreading : d.reading = enclosing ++ "~" ++ d.plainName)
    (hname : (Longname.split d.reading).name = d.name)
    (hlongname : d.reading ≠ "" → d.reading ≠ (Longname.split d.reading).name →
      e.longname = d.reading) :
    (e.fill dictionary).longname ≠ d.longname := by
  have hlength : enclosing.length + 1 + d.plainName.length = d.reading.length := by
    rw [hreading, String.length_append, String.length_append]
    rfl
  have hne : d.reading ≠ "" := by
    intro hempty
    rw [hempty] at hlength
    simp at hlength
  have hwhole : d.reading ≠ (Longname.split d.reading).name := by
    -- a name that is all of what is read would hold itself and the function
    intro hwhole
    have hplain : d.plainName = d.name := by
      refine plainName_eq_self ?_
      rw [← hname, ← hwhole, ← hwhole]
    rw [hwhole, hname, hplain] at hlength
    omega
  intro hfill
  rw [longname_fill, ensuredLongname, hlongname hne hwhole, if_neg (fun h => hne h.2)] at hfill
  have hle := length_name_split_le d.reading
  rw [hname] at hle hwhole
  rcases length_withVariation e.variation d.reading with hsame | ⟨-, hlt⟩
  · rw [hsame] at hfill
    rcases hopen with hempty | hsame
    · exact hne (hfill.trans hempty)
    · exact hwhole (hfill.trans hsame)
  · rw [hfill] at hlt
    rcases hopen with hempty | hsame
    · rw [hempty] at hlt
      cases hlt
    · rw [hsame] at hlt
      omega

/-- A doclet without an owner that is resolved again holds still only if its name reads as
itself. -/
theorem standsAlone_of_finish_eq (hunowned : d.memberof = none)
    (hforce : d.forceMemberof = false) (hsettled : ¬d.IsSettled) (h : d.finish dictionary = d) :
    d.StandsAlone dictionary := by
  simp only [IsSettled, not_or, Bool.not_eq_true] at hsettled
  obtain ⟨hpreserve, hnamed, hlongname⟩ := hsettled
  have hopen : d.longname = "" ∨ d.longname = d.name := by tauto
  rw [finish_eq_fill, hpreserve, if_neg (by simp)] at h
  have hname := congrArg name h
  have hvariation := congrArg variation h
  have hlong := congrArg longname h
  rw [name_fill] at hname
  rw [variation_fill] at hvariation
  have hresolve := resolve_unowned dictionary hunowned hforce hopen
  by_cases hscope : d.scope = some .global
  · rw [takeParts_global (takeName_reading d _) hscope] at hresolve
    have hread : (Longname.split d.reading).name = d.name :=
      (congrArg name hresolve).symm.trans hname
    have hvaried := (congrArg variation hresolve).symm.trans hvariation
    refine ⟨hforce, hunowned, .inl hscope, hread, hvaried, ?_⟩
    rw [← hlong, longname_fill_named hname hvariation ?_ ?_]
    · rw [hresolve, hread]
    · rw [hresolve]
  · obtain ⟨owner, scope, -, htake⟩ := takeParts_unowned (takeName_reading d _) hscope
      hunowned memberof_split_of_global
    rw [htake] at hresolve
    have hread : (Longname.split d.reading).name = d.name :=
      (congrArg name hresolve).symm.trans hname
    have hvaried := (congrArg variation hresolve).symm.trans hvariation
    rcases enclosedName?_cases hunowned (by tauto) with
      ⟨henclosing, henclosed⟩ | ⟨enclosing, -, henclosed⟩
    · obtain ⟨-, -, hfull⟩ := split_reading henclosing hread
      refine ⟨hforce, hunowned, .inr henclosing, hread, hvaried, ?_⟩
      rw [← hlong, longname_fill_named hname hvariation ?_ ?_]
      · rw [hresolve]
        simp only [henclosed, Option.getD_none, hread, hfull]
        rw [if_pos ⟨by tauto, hopen⟩]
      · rw [hresolve]
    · have hreading : d.reading = enclosing ++ "~" ++ d.plainName := by
        rw [reading, henclosed, Option.getD_some]
      refine absurd hlong (longname_fill_enclosed hopen hreading hread fun hne hwhole => ?_)
      rw [hresolve]
      simp only [henclosed, Option.getD_some, ← hreading]
      rw [if_neg]
      rintro ⟨-, hempty | hsame⟩
      · exact hne hempty
      · exact hwhole hsame

/-! ## Doclets of comments -/

theorem infersPlainKinds_ofConfig (config : Config) :
    InfersPlainKinds (Dictionary.ofConfig config).value := by
  intro form
  rw [Bool.eq_false_iff]
  intro h
  have hword := Dictionary.isNamespace_ofConfig h
  revert hword
  unfold Kind.ofCode
  split
  · decide
  · decide
  · decide

/-- The doclet of a comment has been filled in. -/
theorem fill_ofSource (config : Config) (source : Source) :
    let dictionary := (Dictionary.ofConfig config).value
    (ofSource dictionary source).value.fill dictionary = (ofSource dictionary source).value := by
  intro dictionary
  rw [ofSource, value_ofTags, finish_eq_fill]
  exact fill_fill (infersPlainKinds_ofConfig config) _

/-- Finishing the doclet of a comment once more changes nothing if its longname is more than its
name, or if it has no owner and its name reads as itself. Without an owner these are the only two
ways to hold still. -/
theorem ofSource_finish_again (config : Config) (source : Source) :
    let dictionary := (Dictionary.ofConfig config).value
    let d := (ofSource dictionary source).value
    (d.IsSettled ∨ d.StandsAlone dictionary → d.finish dictionary = d) ∧
      (d.memberof = none → d.forceMemberof = false →
        (d.finish dictionary = d ↔ d.IsSettled ∨ d.StandsAlone dictionary)) := by
  intro dictionary d
  have hfilled : d.fill dictionary = d := fill_ofSource config source
  have hstill : d.IsSettled ∨ d.StandsAlone dictionary → d.finish dictionary = d := by
    rintro (hsettled | halone)
    · exact hsettled.finish_eq hfilled
    · exact halone.finish_eq hfilled
  refine ⟨hstill, fun hunowned hforce => ⟨fun h => ?_, hstill⟩⟩
  by_cases hsettled : d.IsSettled
  · exact .inl hsettled
  · exact .inr (standsAlone_of_finish_eq hunowned hforce hsettled h)

theorem value_ofSource (dictionary : Dictionary) (comment : String) (origin : Origin) :
    (ofSource dictionary { comment, origin }).value =
      (unfinished dictionary comment (Comment.tags comment) origin).finish dictionary := by
  simp only [ofSource, List.isEmpty_nil, if_true, value_ofTags]

/-- The doclet of a comment that makes a name global. -/
theorem value_ofSource_globalName {comment text : String} (origin : Origin)
    (htags : Comment.tags comment = [⟨"global", none⟩, ⟨"name", some text⟩])
    (hname : Tag.plainText origin text ≠ "") :
    (ofSource Dictionary.standard { comment, origin }).value =
      finish Dictionary.standard
        { comment, origin, scope := some .global, name := Tag.plainText origin text } := by
  have hglobal : (addTag Dictionary.standard "global" none { comment, origin }).value =
      { comment, origin, scope := some .global } := value_addTag_global _
  have hnamed : (addTag Dictionary.standard "name" (some text)
      { comment, origin, scope := some .global }).value =
        { comment, origin, scope := some .global, name := Tag.plainText origin text } :=
    value_addTag_name hname
  rw [value_ofSource, unfinished, htags, List.foldl_cons, List.foldl_cons, List.foldl_nil, hglobal,
    hnamed]

/-- A global symbol keeps out of the function around its code, also the second time. -/
theorem ofSource_finish_again_stir :
    let d := (ofSource Dictionary.standard
      { comment := "/**\n * @global\n * @name pot.stir\n */"
        origin := { code := { enclosing := some "cook" } } }).value
    d.memberof = none ∧ d.forceMemberof = false ∧ d.StandsAlone Dictionary.standard ∧
      d.finish Dictionary.standard = d := by
  have hd := value_ofSource_globalName { code := { enclosing := some "cook" } }
    (show Comment.tags "/**\n * @global\n * @name pot.stir\n */" =
      [⟨"global", none⟩, ⟨"name", some " pot.stir"⟩] by decide +kernel) (by decide +kernel)
  have halone : (ofSource Dictionary.standard
      { comment := "/**\n * @global\n * @name pot.stir\n */"
        origin := { code := { enclosing := some "cook" } } }).value.StandsAlone
      Dictionary.standard := by
    rw [hd]
    exact ⟨by decide +kernel, by decide +kernel, .inl (by decide +kernel), by decide +kernel,
      by decide +kernel, by decide +kernel⟩
  have hiff := (ofSource_finish_again {} _).2 halone.unowned halone.unforced
  exact ⟨halone.unowned, halone.unforced, halone, hiff.2 (.inr halone)⟩

/-- A name that is not read as itself: the last segment of `Soup#prototype` is a `prototype` segment
once it stands alone. -/
theorem finish_again_prototype :
    let d := (ofSource Dictionary.standard
      { comment := "/**\n * @global\n * @name Soup#prototype\n */" }).value
    d.finish Dictionary.standard ≠ d := by
  intro d h
  have hd := value_ofSource_globalName {}
    (show Comment.tags "/**\n * @global\n * @name Soup#prototype\n */" =
      [⟨"global", none⟩, ⟨"name", some " Soup#prototype"⟩] by decide +kernel) (by decide +kernel)
  have hname : (d.finish Dictionary.standard).name ≠ d.name := by
    simp only [d, hd]
    decide +kernel
  exact hname (congrArg name h)

end Doclet

end Commentary
