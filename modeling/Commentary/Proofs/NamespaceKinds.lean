import Commentary.Proofs.TagFrames
import Commentary.Proofs.TrailingVariations
import Commentary.Proofs.WellPlaced

/-!
# Kinds that are namespaces

The longname of an event, an external or a module carries the kind in front of its name, wherever
the longname is set by way of the kind. Resolving does that in several places: for a global symbol,
for parts that are taken over, for a name that is joined to its owner, and for a name that nothing
else gave a longname (`longname_takeParts`, `exists_ensuredLongname`). In one place it does not. A
symbol in a function is first given the name of the function and its own, as they stand, and this
longname stays (`functionName?`, `longname_of_functionName?_eq_some`).

`hasMark_ofSource` puts both together for the doclets of whole comments. That a longname has been
set by way of the kind shows in its name as long as the longname can be taken apart again
(`IsReadable`): a variation may hold delimiters of its own, and a mark in front of a delimiter is a
segment by itself.
-/

namespace Commentary

namespace Longname

open Commentary.Text

/-! ## Marked names -/

theorem hasMark_iff {name : String} :
    HasMark name ↔ ∃ word rest, IsNamespaceWord word ∧ name.toList = markChars word ++ rest := by
  constructor
  · rintro ⟨word, rest, hword, rfl⟩
    exact ⟨word, rest.toList, hword, toList_mark word rest⟩
  · rintro ⟨word, rest, hword, hname⟩
    refine ⟨word, String.ofList rest, hword, ?_⟩
    apply String.toList_inj.1
    rw [hname, toList_mark, String.toList_ofList]

/-- A name has a mark exactly if it has one with its variation. -/
theorem hasMark_ofParts_iff (full memberof : List Char) (scope : Scope) (segment : List Char) :
    HasMark (ofParts full memberof scope segment).name ↔
      ∃ word rest, IsNamespaceWord word ∧ segment = markChars word ++ rest := by
  have happend := toList_name_ofParts full memberof scope segment
  rw [hasMark_iff]
  generalize (ofParts full memberof scope segment).name.toList = name at happend ⊢
  generalize (ofParts full memberof scope segment).variation = variation at happend
  constructor
  · rintro ⟨word, rest, hword, rfl⟩
    exact ⟨word, _, hword, by rw [← happend, List.append_assoc]⟩
  · rintro ⟨word, rest, hword, rfl⟩
    refine ⟨word, ?_⟩
    rcases List.append_eq_append_iff.1 happend with ⟨more, hmark, hrest⟩ | ⟨more, hname, -⟩
    · -- what follows the name is its variation, and no mark goes on with a parenthesis
      cases more with
      | nil => exact ⟨[], hword, by simpa using hmark.symm⟩
      | cons c more =>
        obtain rfl : c = '(' := by
          cases variation with
          | none => simp [variationSuffix] at hrest
          | some v =>
            rw [toList_variationSuffix_some] at hrest
            exact (List.cons.inj hrest).1.symm
        have htextual := isTextual_of_mem_markChars hword.isTextual '(' (by simp [hmark])
        cases htextual
    · exact ⟨more, hword, hname⟩

/-- The mark of a namespace with a delimiter right behind it. -/
def StartsBare (word longname : String) : Prop :=
  ∃ c rest, Scope.isPunctuation c = true ∧ longname.toList = markChars word ++ c :: rest

/-- A longname with a namespace is in its normal spelling, and its name has a mark, unless the mark
stands in front of a delimiter. -/
theorem hasMark_applyNamespace {longname word : String} (hword : IsNamespaceWord word)
    (hbare : ¬StartsBare word (applyNamespace longname word)) :
    (split (applyNamespace longname word)).full = applyNamespace longname word ∧
      HasMark (split (applyNamespace longname word)).name := by
  rw [applyNamespace_eq] at hbare ⊢
  split at hbare
  · rename_i hdone
    rw [if_pos hdone, split_full]
    exact ⟨rfl, (CarriesNamespace.of_isNamespaced hdone).hasMark⟩
  · rename_i hdone
    rw [if_neg hdone]
    have hlead : (split longname).scope = .global →
        hasLeadingScope (split longname).name = false := by
      intro hscope
      refine Bool.eq_false_iff.2 fun hlead => hbare ?_
      obtain ⟨c, hhead, hc⟩ := (Option.any_eq_true _ _).1 hlead
      obtain ⟨rest, hname⟩ := List.head?_eq_some_iff.1 hhead
      refine ⟨c, rest ++ (variationSuffix (split longname).variation).toList, hc, ?_⟩
      simp [join, withMark, memberof_split_of_global hscope, hscope, Scope.punctuation, hname,
        markChars]
    rw [split_join_withMark hword.isTextual hlead, hasMark_ofParts_iff]
    exact ⟨String.ofList_toList, word, _, hword, rfl⟩

theorem applyNamespace_ne_empty (longname ns : String) : applyNamespace longname ns ≠ "" := by
  intro hempty
  rw [applyNamespace_eq] at hempty
  split at hempty
  · rename_i hdone
    rw [← split_join_eq_full, join] at hempty
    simp only [String.append_eq_empty_iff] at hempty
    rw [hempty.1.2] at hdone
    revert hdone
    decide
  · simp [join, withMark] at hempty

theorem normalize_ne_empty {s : String} (h : s ≠ "") : normalize s ≠ "" := by
  intro hempty
  have hchars : normalChars s.toList = [] := by
    simpa [normalize] using congrArg String.toList hempty
  exact h (String.toList_eq_nil_iff.1 (normalChars_eq_nil hchars))

/-- A mark stays where it is when a variation is written behind the longname. -/
theorem HasMark.append_variation {base v : String} (hnormal : (split base).full = base)
    (hmark : HasMark (split base).name) (hv : Fills v)
    (hends : base.toList.getLast? ≠ some '\\') (htrailing : hasTrailingScope base = false) :
    HasMark (split (base ++ variationSuffix (some v))).name := by
  have hchars : normalChars base.toList = base.toList := by
    rw [full_split, normalize] at hnormal
    rw [← String.toList_inj, String.toList_ofList] at hnormal
    exact hnormal
  obtain ⟨full, memberof, scope, segment, hsplit, hsplit'⟩ :=
    split_append_variation hends hv hchars htrailing
  have hvaried : base ++ variationSuffix (some v) =
      String.ofList (base.toList ++ variationChars (some v.toList)) := by
    apply String.toList_inj.1
    rw [String.toList_append, toList_variationSuffix_some, String.toList_ofList]
  rw [String.ofList_toList] at hsplit
  rw [hsplit, hasMark_ofParts_iff] at hmark
  rw [hvaried, hsplit', hasMark_ofParts_iff]
  obtain ⟨word, rest, hword, rfl⟩ := hmark
  exact ⟨word, _, hword, List.append_assoc _ _ _⟩

end Longname

namespace Doclet

open Longname Dictionary

variable {dictionary : Dictionary} {d : Doclet} {about : Longname}

/-! ## How a longname is set -/

/-- The name in the function around the code, for a doclet that gets its name there. -/
def functionName? (d : Doclet) : Option String :=
  if d.preserveName = true ∨ d.scope = some .global then none
  else { d with name := d.plainName }.enclosedName?

theorem kind_leadingScope (d : Doclet) : d.leadingScope.kind = d.kind := by
  unfold leadingScope
  split
  · split
    · rfl
    · rfl
  · rfl

/-- Settling sets a longname with the namespace of the kind, or leaves name and longname alone. -/
theorem settle_cases (dictionary : Dictionary) (about : Longname) (d : Doclet) :
    (∃ longname, (settle dictionary about d).longname = namespaced dictionary d.kind longname) ∧
        (d.scope = some .global ∨ d.longname = "") ∨
      d.scope ≠ some .global ∧ (settle dictionary about d).longname = d.longname ∧
        (settle dictionary about d).name = d.name := by
  unfold settle
  split
  · rename_i hscope
    exact .inl ⟨⟨_, rfl⟩, .inl hscope⟩
  · rename_i hscope
    split
    · exact .inr ⟨hscope, rfl, rfl⟩
    · split
      · rename_i hopen
        split
        · rename_i owner howner
          refine .inl ⟨⟨stripGlobalOwner
            (owner ++ (d.leadingScope.scope.getD .global).punctuation ++ d.leadingScope.name), ?_⟩,
            .inr hopen.2⟩
          rw [← kind_leadingScope d]
          rfl
        · exact .inr ⟨hscope, rfl, rfl⟩
      · exact .inr ⟨hscope, rfl, rfl⟩

/-- What a doclet has taken over before it settles. -/
theorem takeLongname_takeOwner_takeName (dictionary : Dictionary) (about : Longname) (d : Doclet) :
    let taken := takeLongname dictionary about (takeOwner about (takeName about d))
    taken.kind = d.kind ∧ taken.scope = d.scope ∧
      taken.longname = if about.full ≠ "" ∧ (d.longname = "" ∨ d.longname = taken.name) then
        namespaced dictionary d.kind (stripGlobalOwner about.full) else d.longname := by
  obtain ⟨name, hname⟩ : ∃ name, takeName about d = { d with name } := by
    unfold takeName
    split
    · exact ⟨d.name, rfl⟩
    · exact ⟨about.name, rfl⟩
  obtain ⟨owner, -, howner⟩ := takeOwner_eq about { d with name }
  rw [hname, howner, takeLongname_eq]
  exact ⟨rfl, rfl, rfl⟩

/-- Taking over the parts of a name gives a longname with the namespace of the kind if there is none
or if it is the name, and for a global symbol. Any other longname stays. -/
theorem longname_takeParts (about : Longname) (d : Doclet)
    (hmarks : ∀ longname, namespaced dictionary d.kind longname ≠ "") :
    (d.scope ≠ some .global → d.longname ≠ "" →
      d.longname ≠ (takeParts dictionary about d).name →
        (takeParts dictionary about d).longname = d.longname) ∧
    (d.scope = some .global ∨ d.longname = "" ∨
        about.full ≠ "" ∧ d.longname = (takeParts dictionary about d).name →
      (∃ longname, (takeParts dictionary about d).longname =
        namespaced dictionary d.kind longname) ∨ (takeParts dictionary about d).longname = "") := by
  obtain ⟨hkind, hscope, hlongname⟩ := takeLongname_takeOwner_takeName dictionary about d
  have htake : takeParts dictionary about d = takeVariation about (settle dictionary about
      (takeLongname dictionary about (takeOwner about (takeName about d)))) := rfl
  generalize takeLongname dictionary about (takeOwner about (takeName about d)) = taken
    at hkind hscope hlongname htake
  have hsame : (takeParts dictionary about d).longname = (settle dictionary about taken).longname ∧
      (takeParts dictionary about d).name = (settle dictionary about taken).name := by
    rw [htake, takeVariation_eq]
    exact ⟨rfl, rfl⟩
  obtain ⟨hlong, hname⟩ := hsame
  have hne : d.longname ≠ "" → taken.longname ≠ "" := by
    intro hne
    rw [hlongname]
    split
    · exact hmarks _
    · exact hne
  rw [hlong, hname, ← hkind, ← hscope]
  rcases settle_cases dictionary about taken with ⟨hset, hopen⟩ | ⟨hglobal, hkept, hnamed⟩
  · refine ⟨fun hscope hne' _ => ?_, fun _ => .inl hset⟩
    rcases hopen with hopen | hopen
    · exact absurd hopen hscope
    · exact absurd hopen (hne hne')
  · rw [hkept, hnamed]
    refine ⟨fun _ hne' hother => ?_, fun hopen => ?_⟩
    · rw [hlongname, if_neg]
      rintro ⟨-, hempty | hsame⟩
      · exact hne' hempty
      · exact hother hsame
    · rw [hlongname]
      split
      · exact .inl ⟨_, by rw [hkind]⟩
      · rename_i hnot
        rcases hopen with hopen | hopen | ⟨hfull, hsame⟩
        · exact absurd hopen hglobal
        · exact .inr hopen
        · exact absurd ⟨hfull, .inr hsame⟩ hnot

theorem kind_takeParts (dictionary : Dictionary) (about : Longname) (d : Doclet) :
    (takeParts dictionary about d).kind = d.kind := by
  have hsettle : ∀ e, (settle dictionary about e).kind = e.kind := by
    intro e
    unfold settle
    split
    · rfl
    · split
      · rfl
      · split
        · split
          · exact kind_leadingScope e
          · rfl
        · rfl
  rw [takeParts, takeVariation_eq]
  exact (hsettle _).trans (takeLongname_takeOwner_takeName dictionary about d).1

/-- Placing a name makes no doclet global. -/
theorem scope_place_iff (d : Doclet) (name : String) :
    (d.place name).2 = some .global ↔ d.scope = some .global := by
  have hunder : ∀ owner, (d.placeUnder owner name).2 = some .global ↔ d.scope = some .global := by
    intro owner
    unfold placeUnder
    split
    · exact Iff.rfl
    · split
      · exact Iff.rfl
      · split
        · cases d.scope <;> simp
        · split
          · exact Iff.rfl
          · exact Iff.rfl
  unfold place
  simp only
  split
  · exact hunder _
  · exact Iff.rfl

theorem full_splitFor (d : Doclet) (owner longname : String) :
    (d.splitFor owner longname).full = normalize longname := by
  unfold splitFor
  split
  · unfold splitUnder
    simp only
    split
    · rfl
    · split
      · split
        · rfl
        · rfl
      · rfl
  · exact full_split longname

/-- A name that is placed is not placed as nothing. -/
theorem full_place {name : String} {scope : Option Scope} (h : d.place name = (some about, scope))
    (hname : name ≠ "") : about.full ≠ "" := by
  have hsplit : ∀ owner longname, longname ≠ "" → (d.splitFor owner longname).full ≠ "" := by
    intro owner longname hne
    rw [full_splitFor]
    exact normalize_ne_empty hne
  have hjoined : ∀ front : String, front ++ name ≠ "" := fun front hempty =>
    hname (String.append_eq_empty_iff.1 hempty).2
  unfold place at h
  simp only at h
  split at h
  · unfold placeUnder at h
    rw [if_neg hname] at h
    split at h
    · cases h
      exact hsplit _ _ hname
    · split at h
      · cases h
        exact hsplit _ _ (hjoined _)
      · split at h
        · cases h
          exact hsplit _ _ (hjoined _)
        · obtain ⟨hsome, -⟩ := Prod.mk.inj h
          obtain ⟨scope, -, rfl⟩ := Option.map_eq_some_iff.1 hsome
          exact hsplit _ _ (hjoined _)
  · cases h
    rw [full_split]
    exact normalize_ne_empty hname

/-- Without parts to take over, a doclet that has a longname stays as it is. -/
theorem takeParts_default (hscope : d.scope ≠ some .global) (hlongname : d.longname ≠ "") :
    takeParts dictionary default d = d := by
  have hsettle : settle dictionary default d = d := by
    rw [settle, if_neg hscope, if_neg (fun h => h rfl), if_neg (fun h => hlongname h.2)]
  exact hsettle

/-- The longname that a name is given in the end has the namespace of the kind, if resolving has set
one or has set none. -/
theorem exists_ensuredLongname (hname : d.name ≠ "")
    (h : (∃ longname, d.longname = namespaced dictionary d.kind longname) ∨ d.longname = "") :
    ∃ longname, ensuredLongname dictionary d = namespaced dictionary d.kind longname := by
  unfold ensuredLongname
  split
  · exact ⟨_, rfl⟩
  · rename_i hopen
    rcases h with h | h
    · exact h
    · exact absurd ⟨hname, h⟩ hopen

/-- The doclet whose name is resolved, unless it is to be preserved. -/
def nameResolved (dictionary : Dictionary) (d : Doclet) : Doclet :=
  if d.preserveName then d else d.resolve dictionary

section Resolved

variable (hlongname : d.longname = "")
  (hmarks : ∀ longname, namespaced dictionary d.kind longname ≠ "")
include hlongname

/-- What resolving makes of a doclet without a longname. -/
theorem exists_nameResolved_eq (dictionary : Dictionary) (hpreserve : d.preserveName = false) :
    ∃ parts scope, (scope = some .global ↔ d.scope = some .global) ∧
      d.place d.reading = (parts, scope) ∧
      d.nameResolved dictionary = takeParts dictionary (parts.getD default)
        { d with
          name := d.plainName
          longname := { d with name := d.plainName }.enclosedName?.getD ""
          scope } := by
  obtain ⟨parts, scope, hplace⟩ : ∃ parts scope, d.place d.reading = (parts, scope) :=
    ⟨_, _, rfl⟩
  refine ⟨parts, scope, ?_, hplace, ?_⟩
  · rw [← scope_place_iff d d.reading, hplace]
  · rw [nameResolved, if_neg (by simp [hpreserve]),
      resolve_eq dictionary (.inl hlongname) rfl hplace, hlongname]

theorem kind_nameResolved (dictionary : Dictionary) :
    (d.nameResolved dictionary).kind = d.kind := by
  by_cases hpreserve : d.preserveName = true
  · rw [nameResolved, if_pos hpreserve]
  · rw [Bool.not_eq_true] at hpreserve
    obtain ⟨_, _, -, -, hresolve⟩ := exists_nameResolved_eq hlongname dictionary hpreserve
    rw [hresolve, kind_takeParts]

include hmarks

/-- A doclet that is not named in a function gets a longname with the namespace of its kind. -/
theorem exists_longname_of_functionName?_eq_none (hnone : d.functionName? = none)
    (hname : (d.nameResolved dictionary).name ≠ "") :
    ∃ longname, ensuredLongname dictionary (d.nameResolved dictionary) =
      namespaced dictionary d.kind longname := by
  by_cases hpreserve : d.preserveName = true
  · have hself : d.nameResolved dictionary = d := if_pos hpreserve
    rw [hself] at hname ⊢
    exact exists_ensuredLongname hname (.inr hlongname)
  rw [Bool.not_eq_true] at hpreserve
  obtain ⟨parts, scope, hscope, -, hresolve⟩ :=
    exists_nameResolved_eq hlongname dictionary hpreserve
  have hopen : scope = some .global ∨
      { d with name := d.plainName }.enclosedName?.getD "" = "" := by
    by_cases hglobal : d.scope = some .global
    · exact .inl (hscope.2 hglobal)
    · rw [functionName?, if_neg (by simp [hpreserve, hglobal])] at hnone
      exact .inr (by rw [hnone]; rfl)
  generalize { d with name := d.plainName }.enclosedName?.getD "" = start at hresolve hopen
  have hmarked := (longname_takeParts (parts.getD default)
    { d with name := d.plainName, longname := start, scope } hmarks).2
  rw [← hresolve] at hmarked
  have hkind := kind_nameResolved hlongname dictionary
  rw [← hkind]
  refine exists_ensuredLongname hname ?_
  rw [hkind]
  rcases hopen with hopen | hopen
  · exact hmarked (.inl hopen)
  · exact hmarked (.inr (.inl hopen))

/-- A doclet that is named in a function has for its longname what is read there, as it is written.
Only where that is the name as well, it gets the namespace of its kind. -/
theorem longname_of_functionName?_eq_some {e : String} (hsome : d.functionName? = some e)
    (hname : (d.nameResolved dictionary).name ≠ "") :
    ((d.nameResolved dictionary).name ≠ e →
      ensuredLongname dictionary (d.nameResolved dictionary) = e) ∧
    ((d.nameResolved dictionary).name = e →
      ∃ longname, ensuredLongname dictionary (d.nameResolved dictionary) =
        namespaced dictionary d.kind longname) := by
  have hboth : ¬(d.preserveName = true ∨ d.scope = some .global) := by
    intro hboth
    rw [functionName?, if_pos hboth] at hsome
    cases hsome
  rw [functionName?, if_neg hboth] at hsome
  rw [not_or, Bool.not_eq_true] at hboth
  obtain ⟨hpreserve, hglobal⟩ := hboth
  obtain ⟨parts, scope, hscope, hplace, hresolve⟩ :=
    exists_nameResolved_eq hlongname dictionary hpreserve
  rw [reading, hsome, Option.getD_some] at hplace
  rw [hsome, Option.getD_some] at hresolve
  have hlong : d.plainName.length < e.length := by
    unfold enclosedName? at hsome
    split at hsome
    · obtain ⟨enclosing, -, rfl⟩ := Option.map_eq_some_iff.1 hsome
      have hdelimiter : Scope.inner.punctuation.length = 1 := rfl
      simp only [String.length_append]
      omega
    · cases hsome
  have hne : e ≠ "" := by
    rintro rfl
    cases hlong
  obtain ⟨hkept, hmarked⟩ := longname_takeParts (parts.getD default)
    { d with name := d.plainName, longname := e, scope } hmarks
  rw [← hresolve] at hkept hmarked
  have hkind := kind_nameResolved hlongname dictionary
  refine ⟨fun hother => ?_, fun hsame => ?_⟩
  · have hlongname := hkept (fun h => hglobal (hscope.1 h)) hne (Ne.symm hother)
    rw [ensuredLongname, hlongname, if_neg fun h => hne h.2]
  · have hfull : (parts.getD default).full ≠ "" := by
      cases parts with
      | some about => exact full_place hplace hne
      | none =>
        rw [Option.getD_none, takeParts_default (fun h => hglobal (hscope.1 h)) hne] at hresolve
        rw [hresolve] at hsame
        have hequal : d.plainName = e := hsame
        rw [hequal] at hlong
        exact absurd hlong (lt_irrefl _)
    rw [← hkind]
    refine exists_ensuredLongname hname ?_
    rw [hkind]
    exact hmarked (.inr (.inr ⟨hfull, hsame.symm⟩))

end Resolved

/-! ## Namespaces of the default settings -/

theorem isNamespaceWord_of_mem {word : String} (h : word ∈ namespaceWords) :
    IsNamespaceWord word := by
  revert word
  decide

theorem isNamespace_standard : ∀ word ∈ namespaceWords, standard.isNamespace word = true := by
  decide +kernel

/-- The longname of a doclet whose kind has a namespace is marked with the kind. -/
theorem namespaced_standard {kind : Kind} (hkind : d.kind = some kind) (h : d.HasNamespace)
    (longname : String) :
    namespaced standard d.kind longname = applyNamespace longname kind.text := by
  have hword := isNamespace_standard kind.text ((hasNamespace_iff hkind).1 h)
  rw [hkind, namespaced]
  simp only [hword, if_true]

/-- A kind with a namespace is one that the tags gave. -/
theorem exists_kind_of_hasNamespace_finish (hlongname : d.longname = "")
    (h : (d.finish dictionary).HasNamespace) :
    ∃ kind, d.kind = some kind ∧ d.HasNamespace ∧ (d.finish dictionary).kind = some kind := by
  have hfinal : (d.finish dictionary).kind =
      some (d.kind.getD (Kind.ofCode (d.nameResolved dictionary).origin.code.form)) := by
    rw [← kind_nameResolved hlongname dictionary, finish_eq_fill, fill_eq]
    rfl
  rcases Option.eq_none_or_eq_some d.kind with hnone | ⟨kind, hkind⟩
  · rw [HasNamespace, hfinal, hnone, Option.getD_none] at h
    refine absurd h ?_
    unfold Kind.ofCode
    split
    · decide
    · decide
    · decide
  · rw [hkind, Option.getD_some] at hfinal
    rw [HasNamespace, hfinal, ← hkind] at h
    exact ⟨kind, hkind, h, hfinal⟩

/-- A variation is written behind a longname, or the longname stays as it is. -/
theorem withVariation_cases (variation : Option String) (longname : String) :
    withVariation variation longname = longname ∨
      ∃ v, variation = some v ∧
        withVariation variation longname = longname ++ variationSuffix (some v) := by
  cases variation with
  | none => exact .inl rfl
  | some v =>
    unfold withVariation
    simp only
    split
    · exact .inr ⟨v, rfl, rfl⟩
    · exact .inl rfl

/-- A doclet whose longname can be taken apart again. Its variation has no parentheses, quotation
marks and backslashes in it and stands behind no backslash and no delimiter, and the mark of its
kind does not stand in front of a delimiter. -/
structure IsReadable (d : Doclet) : Prop where
  variation : ∀ v front, d.variation = some v → d.longname = front ++ variationSuffix (some v) →
    Fills v ∧ front.toList.getLast? ≠ some '\\' ∧ hasTrailingScope front = false
  marks : ∀ kind, d.kind = some kind → ¬StartsBare kind.text d.longname

/-- A readable longname has a mark if a namespace has been applied to it before the variation was
written. -/
theorem IsReadable.hasMark {kind : Kind} {longname : String} (h : d.IsReadable)
    (hkind : d.kind = some kind) (hword : IsNamespaceWord kind.text)
    (hlongname : d.longname = withVariation d.variation (applyNamespace longname kind.text)) :
    HasMark (Longname.split d.longname).name := by
  have hbare := h.marks kind hkind
  rcases withVariation_cases d.variation (applyNamespace longname kind.text) with
    hsame | ⟨v, hv, hvaried⟩
  · rw [hlongname, hsame] at hbare ⊢
    exact (hasMark_applyNamespace hword hbare).2
  · rw [hvaried] at hlongname
    obtain ⟨hfills, hends, htrailing⟩ := h.variation v _ hv hlongname
    have hbare' : ¬StartsBare kind.text (applyNamespace longname kind.text) := by
      rintro ⟨c, rest, hc, hchars⟩
      refine hbare ⟨c, rest ++ (variationSuffix (some v)).toList, hc, ?_⟩
      rw [hlongname, String.toList_append, hchars, List.append_assoc, List.cons_append]
    obtain ⟨hnormal, hmark⟩ := hasMark_applyNamespace hword hbare'
    rw [hlongname]
    exact hmark.append_variation hnormal hfills hends htrailing

/-- What becomes of the namespace of an event, external or module. Named in the function around the
code, the doclet has for its longname what is read there, and no namespace is applied to it.
Everywhere else the namespace is applied before the variation is written, and the name of the
longname has a mark, as far as the longname can be taken apart. -/
theorem hasMark_ofSource (source : Source) :
    let tags := if source.tags.isEmpty then Comment.tags source.comment else source.tags
    let d := unfinished standard source.comment tags source.origin
    let r := (ofSource standard source).value
    r.HasNamespace → r.name ≠ "" →
    (∀ e, d.functionName? = some e → r.name ≠ e →
      r.longname = withVariation r.variation e) ∧
    ((∀ e, d.functionName? = some e → r.name = e) →
      (∃ kind longname, r.kind = some kind ∧
        r.longname = withVariation r.variation (applyNamespace longname kind.text)) ∧
      (r.IsReadable → HasMark (Longname.split r.longname).name)) := by
  intro tags d r hnamespace hname
  have hr : r = d.finish standard := value_ofTags _ _ _ _
  have hopen : d.longname = "" := (rooted_unfinished _ _ _ _).1
  rw [hr] at hnamespace hname ⊢
  obtain ⟨kind, hkind, hspace, hfinal⟩ := exists_kind_of_hasNamespace_finish hopen hnamespace
  have hword : IsNamespaceWord kind.text :=
    isNamespaceWord_of_mem ((hasNamespace_iff hkind).1 hspace)
  have hmarks : ∀ longname, namespaced standard d.kind longname ≠ "" := by
    intro longname
    rw [namespaced_standard hkind hspace]
    exact applyNamespace_ne_empty _ _
  have hfinish : d.finish standard = (d.nameResolved standard).fill standard :=
    finish_eq_fill standard d
  have hnamed : (d.nameResolved standard).name ≠ "" := by rwa [hfinish, name_fill] at hname
  have hlongname : (d.finish standard).longname = withVariation (d.finish standard).variation
      (ensuredLongname standard (d.nameResolved standard)) := by
    rw [hfinish, longname_fill, variation_fill]
  have hnamed' : (d.finish standard).name = (d.nameResolved standard).name := by
    rw [hfinish, name_fill]
  constructor
  · intro e hfunction hother
    rw [hnamed'] at hother
    rw [hlongname, (longname_of_functionName?_eq_some hopen hmarks hfunction hnamed).1 hother]
  · intro hfunction
    obtain ⟨longname, hset⟩ : ∃ longname, ensuredLongname standard (d.nameResolved standard) =
        namespaced standard d.kind longname := by
      cases hsome : d.functionName? with
      | none => exact exists_longname_of_functionName?_eq_none hopen hmarks hsome hnamed
      | some e =>
        refine (longname_of_functionName?_eq_some hopen hmarks hsome hnamed).2 ?_
        rw [← hnamed']
        exact hfunction e hsome
    rw [hset, namespaced_standard hkind hspace] at hlongname
    exact ⟨⟨kind, longname, hfinal, hlongname⟩,
      fun hreadable => hreadable.hasMark hfinal hword hlongname⟩

/-! ## Events -/

/-- The tag that makes a symbol an event. -/
def eventTag : TagDefinition :=
  { title := "event", isNamespace := true, effect := some (.kindByText .event) }

theorem value_nameBy {text : String} {origin : Origin} {e : Doclet} (horigin : e.origin = origin)
    (hne : Tag.plainText origin text ≠ "") :
    (nameBy (addNestedTag standard) (some text) e).value =
      { e with name := Tag.plainText origin text } := by
  subst horigin
  rw [nameBy, addNestedTag, value_addTagWith_name _ hne]

/-- An event tag sets the kind and the name. -/
theorem value_addTag_event {text : String} {d : Doclet}
    (hne : Tag.plainText d.origin (Tag.plainText d.origin text) ≠ "") :
    (addTag standard "event" (some text) d).value =
      { d with
        kind := some .event
        name := Tag.plainText d.origin (Tag.plainText d.origin text) } := by
  have hleads : standard.Leads eventTag :=
    leads_standard (by decide) (by decide) (by decide +kernel) (by decide +kernel)
  have hne' : Tag.plainText d.origin text ≠ "" := by
    intro hempty
    rw [hempty] at hne
    unfold Tag.plainText at hne
    split at hne
    · rename_i hquoted
      exact absurd rfl hquoted.2
    · exact hne rfl
  obtain ⟨problems, hbuild⟩ := Tag.build_text hleads ⟨rfl, rfl, rfl, rfl⟩ d.origin hne'
  have hvalue := value_addTag hbuild hleads.lookUp_title
  generalize htext : Tag.plainText d.origin text = name at hne hne' hvalue
  have hname : textName? ⟨eventTag.title, eventTag.title, name, some (.text name), problems⟩ =
      some name := by
    simp [textName?, Tag.valueText?, hne']
  have hinternal : ∀ e, (applyInternal
      ⟨eventTag.title, eventTag.title, name, some (.text name), problems⟩ e).value = e :=
    fun e => rfl
  rw [hinternal] at hvalue
  refine hvalue.trans ?_
  show (nameBy (addNestedTag standard) (textName? _) { d with kind := some .event }).value = _
  rw [hname, value_nameBy (e := { d with kind := some .event }) rfl hne]

/-- A comment that says only which event there is. -/
def eventSource (name : String) (enclosing : Option String) : Source :=
  { comment := "/** @event " ++ name ++ " */", origin := { code := { enclosing } } }

/-- What its tag says. -/
def eventDraft (name : String) (enclosing : Option String) : Doclet :=
  { comment := (eventSource name enclosing).comment, name, kind := some .event
    origin := (eventSource name enclosing).origin }

/-- A name that the comment of an event is read for. -/
structure IsEventName (name : String) : Prop where
  ne_empty : name ≠ ""
  tags : Comment.tags (eventSource name none).comment = [⟨"event", some (" " ++ name)⟩]
  trim_eq : Text.trim name = name
  trim_blank : Text.trim (" " ++ name) = name

theorem unfinished_eventSource {name : String} (h : IsEventName name) (enclosing : Option String) :
    unfinished standard (eventSource name enclosing).comment
        (Comment.tags (eventSource name enclosing).comment) (eventSource name enclosing).origin =
      eventDraft name enclosing := by
  have hplain : ∀ d : Doclet, d.origin = (eventSource name enclosing).origin → ∀ text,
      Tag.plainText d.origin text = Text.trim text := by
    intro d horigin text
    rw [horigin]
    exact if_neg fun h => nomatch h.1
  rw [show Comment.tags (eventSource name enclosing).comment = _ from h.tags, unfinished,
    List.foldl_cons, List.foldl_nil, value_addTag_event]
  · rw [hplain _ rfl, hplain _ rfl, h.trim_blank, h.trim_eq]
    rfl
  · rw [hplain _ rfl, hplain _ rfl, h.trim_blank, h.trim_eq]
    exact h.ne_empty

theorem value_ofSource_eventSource {name : String} (h : IsEventName name)
    (enclosing : Option String) :
    (ofSource standard (eventSource name enclosing)).value =
      (eventDraft name enclosing).finish standard := by
  have hnone : (eventSource name enclosing).tags.isEmpty = true := rfl
  rw [ofSource, hnone, if_pos rfl, value_ofTags, unfinished_eventSource h]

theorem isEventName_boil : IsEventName "boil" :=
  ⟨by decide, by decide +kernel, by decide +kernel, by decide +kernel⟩

theorem finish_boil :
    (eventDraft "boil" (some "cook")).finish standard =
      { eventDraft "boil" (some "cook") with
        longname := "cook~boil", memberof := some "cook", scope := some .inner } := by
  decide +kernel

theorem isEventName_boilHot : IsEventName "Soup#boil(hot)" :=
  ⟨by decide, by decide +kernel, by decide +kernel, by decide +kernel⟩

theorem finish_boilHot :
    (eventDraft "Soup#boil(hot)" none).finish standard =
      { eventDraft "Soup#boil(hot)" none with
        name := "boil", longname := "Soup#event:boil(hot)", memberof := some "Soup"
        scope := some .instance, variation := some "hot" } := by
  decide +kernel

/-- An event in a function has for its longname what is read there, and one with an owner and a
variation has the mark of its kind. -/
theorem hasMark_ofSource_events :
    (ofSource standard (eventSource "boil" (some "cook"))).value.longname =
        withVariation (ofSource standard (eventSource "boil" (some "cook"))).value.variation
          "cook~boil" ∧
      HasMark (Longname.split
        (ofSource standard (eventSource "Soup#boil(hot)" none)).value.longname).name := by
  have hboil := hasMark_ofSource (eventSource "boil" (some "cook"))
  have howned := hasMark_ofSource (eventSource "Soup#boil(hot)" none)
  simp only [show ∀ name enclosing, (eventSource name enclosing).tags.isEmpty = true from
    fun _ _ => rfl, if_true, unfinished_eventSource isEventName_boil,
    value_ofSource_eventSource isEventName_boil, finish_boil] at hboil ⊢
  simp only [show ∀ name enclosing, (eventSource name enclosing).tags.isEmpty = true from
    fun _ _ => rfl, if_true, unfinished_eventSource isEventName_boilHot,
    value_ofSource_eventSource isEventName_boilHot, finish_boilHot] at howned ⊢
  constructor
  · exact (hboil (by decide) (by decide)).1 "cook~boil" (by decide +kernel) (by decide)
  · refine ((howned (by decide) (by decide)).2 ?_).2 ⟨?_, ?_⟩
    · intro e he
      have hnone : (eventDraft "Soup#boil(hot)" none).functionName? = none := by decide +kernel
      rw [hnone] at he
      cases he
    · rintro v front hv hfront
      obtain rfl : "hot" = v := Option.some.inj hv
      obtain rfl : "Soup#event:boil" = front := by
        have hsame : "Soup#event:boil" ++ variationSuffix (some "hot") =
            front ++ variationSuffix (some "hot") := hfront
        exact String.append_left_inj _ |>.1 hsame
      exact ⟨by decide, by decide, by decide⟩
    · rintro kind hkind ⟨c, rest, -, hchars⟩
      obtain rfl : Kind.event = kind := Option.some.inj hkind
      exact absurd (List.cons.inj hchars).1 (by decide)

/-- An event in a function has a longname without a mark. -/
theorem not_hasMark_boil :
    (ofSource standard (eventSource "boil" (some "cook"))).value.HasNamespace ∧
      (ofSource standard (eventSource "boil" (some "cook"))).value.name = "boil" ∧
      (ofSource standard (eventSource "boil" (some "cook"))).value.longname = "cook~boil" ∧
      ¬HasMark (Longname.split
        (ofSource standard (eventSource "boil" (some "cook"))).value.longname).name := by
  have hsplit : (Longname.split "cook~boil").name = "boil" := by decide +kernel
  simp only [value_ofSource_eventSource isEventName_boil, finish_boil, hsplit]
  refine ⟨by decide, by decide, trivial, fun hmark => ?_⟩
  obtain ⟨word, rest, -, hname⟩ := hasMark_iff.1 hmark
  have hcolon : ':' ∈ "boil".toList := by simp [hname, markChars]
  revert hcolon
  decide

end Doclet

end Commentary
