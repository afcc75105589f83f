import Commentary.Borrowing
import Commentary.Proofs.ResolveTwice
import Commentary.Proofs.VariedNames

/-!
# Doclets in their places

A doclet with an owner is in its place if its longname is its owner, the delimiter of its scope, its
name and its variation. The tags can write down what a doclet is called in many ways (`written`).
If what they write splits into proper parts (`IsRegular`), finishing the doclet puts it in its place
(`IsRegular.isFiled_finish`).
-/

namespace Commentary

namespace Longname

/-! ## Proper parts -/

/-- A text without quotation marks, backslashes and parentheses. -/
def Fills (s : String) : Prop := ∀ c ∈ s.toList, isFiller c = true

instance : DecidablePred Fills := fun s =>
  decidable_of_iff (s.toList.all isFiller = true) List.all_eq_true

/-- Parts that are what they seem: a segment below a path, and no parenthesis in front of the
variation. -/
structure IsProper (parts : Longname) : Prop where
  name : IsSegment parts.name.toList
  owner : parts.scope ≠ .global → IsPath parts.memberof.toList
  unopened : '(' ∉ parts.memberof.toList ∧ '(' ∉ parts.name.toList
  variation : ∀ v, parts.variation = some v → v ≠ "" ∧ Fills v
  ownerless : ¬globalOwner.toList <:+: parts.full.toList
  unhidden : ¬".prototype".toList <:+: parts.full.toList

section Below

variable {owner segment : String} {scope : Scope}

theorem toList_below (owner segment : String) {c : Char} (hc : scope.punctuation.toList = [c]) :
    (owner ++ scope.punctuation ++ segment).toList = owner.toList ++ c :: segment.toList := by
  simp [hc]

/-- A segment below a path makes a path. -/
theorem isPath_below (howner : IsPath owner.toList) (hscope : scope ≠ .global)
    (hsegment : IsSegment segment.toList) :
    IsPath (owner ++ scope.punctuation ++ segment).toList := by
  obtain ⟨c, hc, hpunctuation⟩ := exists_delimiter hscope
  rw [toList_below owner segment hpunctuation]
  exact howner.member (by simp [Scope.isPunctuation, hc]) hsegment

/-- No delimiter is a parenthesis. -/
theorem unopened_below (howner : '(' ∉ owner.toList) (hsegment : '(' ∉ segment.toList) :
    '(' ∉ (owner ++ scope.punctuation ++ segment).toList := by
  have hpunctuation : '(' ∉ scope.punctuation.toList := by
    cases scope <;> decide
  simp only [String.toList_append, List.mem_append, not_or]
  exact ⟨⟨howner, hpunctuation⟩, hsegment⟩

/-- A segment below a path is split off it, and its variation from it. -/
theorem split_below (howner : IsPath owner.toList) (hscope : scope ≠ .global)
    (hsegment : IsSegment segment.toList) :
    ∃ name variation, name ++ variationSuffix variation = segment ∧
      split (owner ++ scope.punctuation ++ segment) =
        ⟨owner ++ scope.punctuation ++ segment, owner, scope, name, variation⟩ := by
  obtain ⟨c, hc, hpunctuation⟩ := exists_delimiter hscope
  have hsplit := howner.split_member hc hsegment
  rw [← toList_below owner segment hpunctuation, String.ofList_toList] at hsplit
  refine ⟨String.ofList (splitVariationChars segment.toList).1,
    (splitVariationChars segment.toList).2.map String.ofList, ?_, ?_⟩
  · apply String.toList_inj.1
    rw [String.toList_append, String.toList_ofList, toList_variationSuffix,
      splitVariationChars_append]
  · rw [hsplit]
    simp only [ofParts, String.ofList_toList]

end Below

theorem toList_variationSuffix_some (v : String) :
    (variationSuffix (some v)).toList = variationChars (some v.toList) := by
  simp [variationSuffix, variationChars]

/-- A segment stays one with a variation behind it. -/
theorem isSegment_append_variation {name : String} (h : IsSegment name.toList)
    {variation : Option String} (hv : ∀ v, variation = some v → Fills v) :
    IsSegment (name ++ variationSuffix variation).toList := by
  cases variation with
  | none => simpa [variationSuffix] using h
  | some v =>
    rw [String.toList_append, toList_variationSuffix_some]
    exact h.varied (hv v rfl)

/-- A path stays one with a variation behind it. -/
theorem isPath_append_variation {path : String} (h : IsPath path.toList)
    {variation : Option String} (hv : ∀ v, variation = some v → Fills v) :
    IsPath (path ++ variationSuffix variation).toList := by
  cases variation with
  | none => simpa [variationSuffix] using h
  | some v =>
    rw [String.toList_append, toList_variationSuffix_some]
    generalize path.toList = cs at h ⊢
    cases h with
    | segment h => exact .segment (h.varied (hv v rfl))
    | member howner hc hname =>
      rw [List.append_assoc, List.cons_append]
      exact howner.member hc (hname.varied (hv v rfl))

/-- The parts of a longname without the variation, joined. -/
def base (parts : Longname) : String :=
  parts.memberof ++ parts.scope.punctuation ++ parts.name

theorem full_eq_base (s : String) :
    (split s).full = (split s).base ++ variationSuffix (split s).variation :=
  (split_join_eq_full s).symm

/-- A segment without a variation is split into no owner and itself. -/
theorem split_segment {name : String} (h : IsSegment name.toList) (hopen : '(' ∉ name.toList) :
    split name = ⟨name, "", .global, name, none⟩ := by
  have hsplit := h.split_eq
  rw [String.ofList_toList] at hsplit
  rw [hsplit]
  simp only [ofParts, splitVariationChars_of_not_mem hopen, String.ofList_toList, Option.map_none]

section Proper

variable {s : String}

theorem IsProper.unopened_base {parts : Longname} (h : parts.IsProper) :
    '(' ∉ parts.base.toList := unopened_below h.unopened.1 h.unopened.2

/-- A segment in the place of the name makes a path. -/
theorem IsProper.isPath_with (h : (split s).IsProper) {segment : String}
    (hsegment : IsSegment segment.toList) :
    IsPath ((split s).memberof ++ (split s).scope.punctuation ++ segment).toList := by
  by_cases hscope : (split s).scope = .global
  · rw [memberof_split_of_global hscope, hscope]
    simpa [Scope.punctuation] using PathOf.segment hsegment
  · exact isPath_below (h.owner hscope) hscope hsegment

theorem IsProper.full_ne_nil (h : (split s).IsProper) : (split s).full ≠ "" := by
  intro hnil
  refine h.name.ne_nil ?_
  rw [full_eq_base, base] at hnil
  simp only [String.append_eq_empty_iff] at hnil
  rw [hnil.1.2]
  rfl

theorem IsProper.stripGlobalOwner_full (h : (split s).IsProper) :
    stripGlobalOwner (split s).full = (split s).full :=
  stripGlobalOwner_eq_self fun hstart => h.ownerless hstart.isInfix

/-- The name of proper parts is proper on its own. -/
theorem IsProper.split_name (h : (split s).IsProper) : (split (split s).name).IsProper := by
  have hin : (split s).name.toList <:+: (split s).full.toList := by
    rw [full_eq_base, base]
    simp only [String.toList_append]
    exact ⟨_, _, rfl⟩
  rw [split_segment h.name h.unopened.2]
  exact ⟨h.name, fun hscope => absurd rfl hscope, ⟨by simp, h.unopened.2⟩, nofun,
    fun hglobal => h.ownerless (hglobal.trans hin), fun hproto => h.unhidden (hproto.trans hin)⟩

theorem IsProper.stripGlobalOwner_name (h : (split s).IsProper) :
    stripGlobalOwner (split s).name = (split s).name := by
  have hfull := h.split_name.stripGlobalOwner_full
  rwa [split_segment h.name h.unopened.2] at hfull

end Proper

end Longname

namespace Doclet

open Longname

/-! ## What the tags write -/

/-- Nothing says where below its owner a name belongs, so that it is only joined on in the end. -/
def IsJoined (d : Doclet) (owner : String) : Prop :=
  d.scope = none ∧ ¬isBelow (instancePath owner) d.plainName = true ∧
    d.plainName ≠ instancePath owner ∧ ¬hasTrailingScope (instancePath owner) = true

/-- A name below an owner, with the delimiter of its scope unless it is there. -/
def writtenBelow (d : Doclet) (owner : String) : String :=
  let name := d.plainName
  if isBelow owner name then name
  else if name = owner then owner ++ (d.scope.getD .static).punctuation ++ name
  else if hasTrailingScope owner then owner ++ name
  else match d.scope with
    | some scope => owner ++ scope.punctuation ++ name
    | none => if hasLeadingScope name then owner ++ name else owner ++ "." ++ name

/-- The longname that name, owner and scope write, before anything of it is respelled. -/
def written (d : Doclet) : String :=
  if d.preserveName then d.name
  else match d.memberof with
    | some owner => d.writtenBelow (instancePath owner)
    | none =>
      match d.origin.code.enclosing with
      | some enclosing => enclosing ++ "~" ++ d.plainName
      | none => d.plainName

/-- The parts of what is written. -/
def parts (d : Doclet) : Longname := Longname.split d.written

/-- The names of parameters can stand in a variation. -/
def NamesFill (params : List Detail) : Prop :=
  ∀ param ∈ params, ∀ name, param.name = some name → Fills name

/-- The names under which a doclet borrows can stand in a longname. -/
def AsksForMembers (d : Doclet) : Prop :=
  ∀ borrow ∈ d.borrows,
    IsSegment (Borrowing.memberName (borrow.target.getD borrow.source)).2.toList

/-- A doclet that is about to be finished, and what is written of its longname splits into proper
parts. -/
structure IsRegular (d : Doclet) : Prop where
  unresolved : d.longname = ""
  named : d.name ≠ ""
  unborrowed : d.borrowed = false
  unforced : d.forceMemberof = false
  proper : d.parts.IsProper
  /-- An owner that is given is one that is written, and not the symbol itself. -/
  owned : ∀ owner, d.memberof = some owner → owner ≠ "" ∧ d.preserveName = false ∧
    d.scope ≠ some .global ∧ d.parts.scope ≠ .global ∧
    ¬(d.plainName = instancePath owner ∧ Text.startsWith moduleMark d.plainName = true)
  /-- Where what is written is taken as it is, there is nothing to respell in it. -/
  preserved : d.preserveName = true → d.parts.full = d.written ∧ d.parts.variation = none
  enclosed : d.origin.code.enclosing ≠ none → d.parts.full = d.written
  joined : ∀ owner, d.memberof = some owner → d.IsJoined owner →
    d.parts.full = d.written ∧ d.parts.memberof = owner ∧ d.parts.variation = none
  variation : ∀ v, d.variation = some v → v ≠ "" ∧ Fills v
  params : NamesFill d.params
  paramNames : ∀ name ∈ d.origin.code.paramNames, Fills name
  borrows : d.AsksForMembers

/-! ## Doclets in their places -/

/-- Whether the longname of a doclet carries its kind as a namespace. -/
def HasNamespace (d : Doclet) : Prop := d.kind ∈ [some Kind.event, some .external, some .module]

instance : DecidablePred HasNamespace := fun d =>
  inferInstanceAs (Decidable (d.kind ∈ [some Kind.event, some .external, some .module]))

/-- What a doclet should be called below its owner. A borrowed doclet is called by its name alone,
whatever variation it brought along. -/
def segment (d : Doclet) : String :=
  d.name ++ if d.borrowed then "" else variationSuffix d.variation

/-- A longname is a segment below an owner in the scope of the doclet, and the segment is the given
one unless the doclet carries a namespace. -/
def SitsBelow (d : Doclet) (longname own owner : String) : Prop :=
  IsPath owner.toList ∧ ∃ scope segment, d.scope = some scope ∧ scope ≠ .global ∧
    IsSegment segment.toList ∧ longname = owner ++ scope.punctuation ++ segment ∧
    (¬d.HasNamespace → segment = own)

/-- The longname of a doclet is a path, and if the doclet has an owner it sits below that. -/
structure IsPlaced (d : Doclet) : Prop where
  path : IsPath d.longname.toList
  below : ∀ owner, d.memberof = some owner → d.SitsBelow d.longname d.segment owner

/-- A doclet as it can stand in a session: in its place, and with no parenthesis in its longname but
those of its variation. -/
structure IsFiled (d : Doclet) : Prop where
  placed : d.IsPlaced
  unborrowed : d.borrowed = false
  name : d.memberof ≠ none → IsSegment d.name.toList ∧ '(' ∉ d.name.toList
  owner : ∀ owner, d.memberof = some owner → '(' ∉ owner.toList
  variation : ∀ v, d.variation = some v → Fills v
  params : NamesFill d.params
  borrows : d.AsksForMembers

variable {dictionary : Dictionary} {d : Doclet}

/-! ## Placing what is written -/

/-- An owner that is written and not only joined on places the name. -/
theorem IsRegular.place_owned (h : d.IsRegular) {owner : String} (howner : d.memberof = some owner)
    (hjoined : ¬d.IsJoined owner) :
    ∃ scope, scope ≠ some .global ∧ d.place d.plainName = (some d.parts, scope) := by
  obtain ⟨hne, hpreserve, hscope, -, hmodule⟩ := h.owned owner howner
  have hname : d.plainName ≠ "" := fun hempty => h.named (plainName_eq_nil_iff.1 hempty)
  have hwritten : d.written = d.writtenBelow (instancePath owner) := by
    rw [written, hpreserve, howner]
    rfl
  rw [Doclet.place_owned howner hne, placeUnder, if_neg hname, parts, hwritten, writtenBelow]
  simp only [splitFor_eq h.unforced]
  by_cases hbelow : isBelow (instancePath owner) d.plainName = true
  · have hother : d.plainName ≠ instancePath owner := by
      obtain ⟨-, c, rest, -, hrest⟩ := isBelow_iff.1 hbelow
      intro heq
      rw [heq] at hrest
      simpa using congrArg List.length hrest
    rw [if_pos (.inl ⟨hbelow, hother⟩), if_pos hbelow]
    exact ⟨d.scope, hscope, rfl⟩
  rw [if_neg (not_or.2 ⟨fun hand => hbelow hand.1, hmodule⟩), if_neg hbelow]
  by_cases hself : d.plainName = instancePath owner
  · rw [if_pos hself, if_pos hself]
    refine ⟨some (d.scope.getD .static), ?_, rfl⟩
    cases hsome : d.scope with
    | none => simp
    | some scope => simpa [hsome] using hscope
  rw [if_neg hself, if_neg hself]
  by_cases htrailing : hasTrailingScope (instancePath owner) = true
  · rw [if_pos htrailing, if_pos htrailing]
    exact ⟨d.scope, hscope, rfl⟩
  rw [if_neg htrailing, if_neg htrailing]
  cases hsome : d.scope with
  | none => exact absurd ⟨hsome, hbelow, hself, htrailing⟩ hjoined
  | some scope =>
    rw [hsome] at hscope
    exact ⟨some scope, hscope, rfl⟩

/-! ## Namespaces -/

theorem hasNamespace_iff {kind : Kind} (hkind : d.kind = some kind) :
    d.HasNamespace ↔ kind.text ∈ Dictionary.namespaceWords := by
  rw [HasNamespace, hkind]
  cases kind <;> decide

/-- A kind that is filled in takes no namespace away. -/
theorem hasNamespace_getD {e : Doclet} {kind : Kind} (hkind : e.kind = some (d.kind.getD kind))
    (h : d.HasNamespace) : e.HasNamespace := by
  obtain ⟨known, hknown⟩ : ∃ known, d.kind = some known := by
    rw [← Option.ne_none_iff_exists']
    intro hnone
    rw [HasNamespace, hnone] at h
    revert h
    decide
  rw [hknown, Option.getD_some] at hkind
  rwa [HasNamespace, hkind, ← hknown]

/-- A longname with given parts, and perhaps the mark of the doclet's namespace in front of the
name. -/
def Marks (d : Doclet) (parts : Longname) (longname : String) : Prop :=
  ∃ mark : String, (¬d.HasNamespace → mark = "") ∧ '(' ∉ mark.toList ∧
    IsSegment (mark ++ parts.name).toList ∧
    longname = parts.memberof ++ parts.scope.punctuation ++ (mark ++ parts.name) ++
      variationSuffix parts.variation

theorem marks_full {s : String} (hs : (Longname.split s).IsProper) (d : Doclet) :
    d.Marks (Longname.split s) (Longname.split s).full := by
  refine ⟨"", fun _ => rfl, by simp, by simpa using hs.name, ?_⟩
  rw [full_eq_base, base, String.empty_append]

/-- The namespace of a doclet's kind stands in front of the name, if it is written at all. -/
theorem marks_namespaced (config : Config) {s : String} (hs : (Longname.split s).IsProper)
    (d : Doclet) :
    d.Marks (Longname.split s)
      (namespaced (Dictionary.ofConfig config).value d.kind (Longname.split s).full) := by
  rcases Option.eq_none_or_eq_some d.kind with hnone | ⟨kind, hkind⟩
  · rw [hnone]
    exact marks_full hs d
  rw [hkind, namespaced]
  split
  · rename_i hnamespace
    have hword := Dictionary.isNamespace_ofConfig hnamespace
    rw [applyNamespace, split_full]
    split
    · exact marks_full hs d
    · have hchars : kind.text.toList.all (fun c => isTextual c && c != '(') = true := by
        revert hword
        cases kind <;> decide
      have htextual : ∀ c ∈ kind.text.toList, isTextual c = true ∧ c ≠ '(' := by
        simpa using hchars
      have hmark : (kind.text ++ ":" ++ (Longname.split s).name).toList =
          markChars kind.text ++ (Longname.split s).name.toList := by
        simp [markChars]
      refine ⟨kind.text ++ ":", fun hnot => absurd ((hasNamespace_iff hkind).2 hword) hnot, ?_, ?_,
        rfl⟩
      · simp only [String.toList_append, List.mem_append, not_or]
        exact ⟨fun hmem => (htextual _ hmem).2 rfl, by decide⟩
      · rw [hmark]
        exact hs.name.marked fun c hc => (htextual c hc).1
  · exact marks_full hs d

/-! ## Standing doclets -/

/-- The longname of a doclet that is not yet filled in: `base` without any parenthesis, perhaps with
the variation behind it. -/
structure Stands (d : Doclet) (base : String) (variation : Option String) : Prop where
  longname : d.longname = base ++ variationSuffix variation
  variation : variation = none ∨ variation = d.variation
  path : IsPath base.toList
  unopened : '(' ∉ base.toList
  name : d.memberof ≠ none → IsSegment d.name.toList ∧ '(' ∉ d.name.toList
  below : ∀ owner, d.memberof = some owner → d.SitsBelow base d.name owner

/-- A doclet that has taken over proper parts stands. -/
theorem stands_of_parts {s : String} (hs : (Longname.split s).IsProper)
    (hlongname : d.Marks (Longname.split s) d.longname)
    (hvariation : (Longname.split s).variation = none ∨
      (Longname.split s).variation = d.variation)
    (howner : ∀ owner, d.memberof = some owner → owner = (Longname.split s).memberof ∧
      d.scope = some (Longname.split s).scope ∧ (Longname.split s).scope ≠ .global ∧
      d.name = (Longname.split s).name) :
    ∃ base variation, d.Stands base variation := by
  obtain ⟨mark, hmark, hopen, hsegment, hfull⟩ := hlongname
  refine ⟨_, _, hfull, hvariation, hs.isPath_with hsegment, ?_, ?_, ?_⟩
  · have hbase := hs.unopened_base
    simp only [base, String.toList_append, List.mem_append, not_or] at hbase ⊢
    exact ⟨hbase.1, hopen, hbase.2⟩
  · intro hne
    obtain ⟨owner, hsome⟩ := Option.ne_none_iff_exists'.1 hne
    rw [(howner owner hsome).2.2.2]
    exact ⟨hs.name, hs.unopened.2⟩
  · intro owner hsome
    obtain ⟨rfl, hscope, hne, hname⟩ := howner owner hsome
    refine ⟨hs.owner hne, _, _, hscope, hne, hsegment, rfl, fun hnot => ?_⟩
    rw [hmark hnot, hname, String.empty_append]

/-! ## Resolving regular doclets -/

theorem IsRegular.parts_owner (h : d.IsRegular) (hscope : d.parts.scope ≠ .global) :
    d.parts.memberof ≠ "" ∧ ownerSpelling d.parts.memberof = d.parts.memberof := by
  have hfull : d.parts.full.toList = d.parts.memberof.toList ++
      (d.parts.scope.punctuation ++ d.parts.name ++ variationSuffix d.parts.variation).toList := by
    rw [parts, full_eq_base, base]
    simp
  have hin : d.parts.memberof.toList <:+: d.parts.full.toList := by
    rw [hfull]
    exact List.infix_append [] _ _
  have hend : ¬".prototype".toList <:+ d.parts.memberof.toList := fun hsuffix =>
    h.proper.unhidden (hsuffix.isInfix.trans hin)
  have hinside : ¬".prototype.".toList <:+: d.parts.memberof.toList := fun hinfix =>
    h.proper.unhidden (List.IsInfix.trans ⟨[], ['.'], rfl⟩ (List.IsInfix.trans hinfix hin))
  have hstrip : stripGlobalOwner d.parts.memberof = d.parts.memberof :=
    stripGlobalOwner_eq_self fun hstart => h.proper.ownerless (hstart.isInfix.trans hin)
  refine ⟨fun hnil => (h.proper.owner hscope).ne_nil (by rw [hnil]; rfl), ?_⟩
  simp only [ownerSpelling, hstrip, Text.dropEnd?_eq_none hend, Text.replaceAll_eq_self hinside]

/-- The doclet with what resolving gives it. -/
def resolved (d : Doclet) (name longname : String) (memberof : Option String)
    (scope : Option Scope) : Doclet :=
  { d with name, longname, memberof, scope, variation := d.parts.variation.or d.variation }

/-- The doclet as a member with the parts of what is written. -/
def asMember (d : Doclet) (longname : String) : Doclet :=
  d.resolved d.parts.name longname (some d.parts.memberof) (some d.parts.scope)

theorem parts_variation (d : Doclet) :
    d.parts.variation = none ∨ d.parts.variation = d.parts.variation.or d.variation := by
  cases d.parts.variation with
  | none => exact .inl rfl
  | some variation => exact .inr rfl

/-- Regular doclets stand as members. -/
theorem IsRegular.stands_asMember (h : d.IsRegular) (hscope : d.parts.scope ≠ .global)
    {longname : String} (hlongname : d.Marks d.parts longname) :
    ∃ base variation, (d.asMember longname).Stands base variation := by
  refine stands_of_parts h.proper hlongname d.parts_variation fun owner howner => ?_
  exact ⟨(Option.some.inj howner).symm, rfl, hscope, rfl⟩

/-- A name that is joined on is written behind its owner, and the delimiter that joins them and the
name are those of the parts. -/
theorem IsRegular.written_joined (h : d.IsRegular) {owner : String}
    (howner : d.memberof = some owner) (hjoined : d.IsJoined owner) :
    d.written = owner ++ (d.parts.scope.punctuation ++ d.parts.name) ∧
      d.parts.scope.punctuation ++ d.parts.name =
        if hasLeadingScope d.plainName then d.plainName else "." ++ d.plainName := by
  obtain ⟨-, hpreserve, -, hscope, -⟩ := h.owned owner howner
  obtain ⟨hfull, hmemberof, hvariation⟩ := h.joined owner howner hjoined
  obtain ⟨hnoscope, hbelow, hself, htrailing⟩ := hjoined
  have hpath : instancePath owner = owner := by
    have hpath := (h.proper.owner hscope).instancePathChars_eq
    rw [hmemberof] at hpath
    rw [instancePath, hpath, String.ofList_toList]
  rw [hpath] at hbelow hself htrailing
  have hwritten : d.written = owner ++ if hasLeadingScope d.plainName then d.plainName
      else "." ++ d.plainName := by
    rw [written, hpreserve, howner]
    simp only [Bool.false_eq_true, if_false, writtenBelow, hpath, if_neg hbelow, if_neg hself,
      if_neg htrailing, hnoscope]
    split
    · rfl
    · rw [String.append_assoc]
  have hbase : d.written = owner ++ (d.parts.scope.punctuation ++ d.parts.name) := by
    rw [← hfull, parts, full_eq_base, base, ← parts, hvariation, hmemberof]
    simp [variationSuffix, String.append_assoc]
  exact ⟨hbase, (String.append_right_inj owner).1 (hbase.symm.trans hwritten)⟩

/-- The delimiter that a joined name starts with, or else a dot, is that of its scope. -/
theorem IsRegular.leadingScope_joined (h : d.IsRegular) {owner : String}
    (howner : d.memberof = some owner) (hjoined : d.IsJoined owner) :
    leadingScope { d with name := d.plainName } =
      { d with name := d.parts.name, scope := some d.parts.scope } := by
  obtain ⟨-, -, -, hscope, -⟩ := h.owned owner howner
  obtain ⟨-, hrest⟩ := h.written_joined howner hjoined
  obtain ⟨c, hc, hpunctuation⟩ := exists_delimiter hscope
  by_cases hleading : hasLeadingScope d.plainName = true
  · rw [if_pos hleading] at hrest
    refine leadingScope_delimiter (d := { d with name := d.plainName }) ?_ hc
    rw [← hrest, String.toList_append, hpunctuation]
    rfl
  · rw [if_neg hleading] at hrest
    have hchars := congrArg String.toList hrest
    simp only [String.toList_append, hpunctuation] at hchars
    obtain ⟨hdot, hname⟩ := List.cons.inj hchars
    have hstatic : d.parts.scope = .static := by
      rw [hdot] at hc
      exact (Option.some.inj hc).symm
    rw [leadingScope_plain (d := { d with name := d.plainName }) (by simpa using hleading),
      hstatic, String.toList_inj.1 hname]

/-- A name that is joined on becomes a member of its owner. -/
theorem IsRegular.takeParts_joined (h : d.IsRegular) {owner : String}
    (howner : d.memberof = some owner) (hjoined : d.IsJoined owner) :
    takeParts dictionary default { d with name := d.plainName } =
      d.asMember (namespaced dictionary d.kind d.parts.full) := by
  obtain ⟨hfull, hmemberof, hvariation⟩ := h.joined owner howner hjoined
  have hname : d.plainName ≠ "" := fun hempty => h.named (plainName_eq_nil_iff.1 hempty)
  have hlongname : stripGlobalOwner (owner ++ d.parts.scope.punctuation ++ d.parts.name) =
      d.parts.full := by
    rw [String.append_assoc, ← (h.written_joined howner hjoined).1, ← hfull]
    exact h.proper.stripGlobalOwner_full
  rw [Doclet.takeParts_joined (d := { d with name := d.plainName }) h.unresolved hjoined.1 howner
    hname (h.leadingScope_joined howner hjoined), hlongname, asMember, resolved, hvariation,
    hmemberof, Option.none_or, ← howner]

/-- A name with an owner becomes a member. -/
theorem IsRegular.resolve_owned (h : d.IsRegular) {owner : String}
    (howner : d.memberof = some owner) :
    d.resolve dictionary = d.asMember (namespaced dictionary d.kind d.parts.full) := by
  obtain ⟨hne, -, -, hscope, -⟩ := h.owned owner howner
  have hname : d.plainName ≠ "" := fun hempty => h.named (plainName_eq_nil_iff.1 hempty)
  have henclosed : { d with name := d.plainName }.enclosedName? = none := by
    refine if_neg fun hboth => hne ?_
    simpa [howner] using hboth.2
  by_cases hjoined : d.IsJoined owner
  · have hplace : d.place (Option.getD none d.plainName) = (none, d.scope) := by
      obtain ⟨hnoscope, hbelow, hself, htrailing⟩ := hjoined
      rw [Option.getD_none, Doclet.place_owned howner hne, placeUnder, if_neg hname,
        if_neg (by tauto), if_neg hself, if_neg htrailing, hnoscope]
      rfl
    rw [resolve_eq dictionary (.inl h.unresolved) henclosed hplace]
    exact h.takeParts_joined howner hjoined
  · obtain ⟨scope, hglobal, hplace⟩ := h.place_owned howner hjoined
    obtain ⟨hmemberof, hkept⟩ := h.parts_owner hscope
    have hnamed : d.parts.name ≠ "" := fun hnil => h.proper.name.ne_nil (by rw [hnil]; rfl)
    rw [resolve_eq dictionary (.inl h.unresolved) henclosed hplace, Option.getD_some]
    exact takeParts_member h.unresolved hglobal hscope hnamed h.proper.full_ne_nil hmemberof hkept
      h.proper.stripGlobalOwner_full

/-- A name without an owner is written as it is, or in the function around the code. -/
theorem written_unowned (hpreserve : d.preserveName = false) (hunowned : d.memberof = none) :
    d.written = match d.origin.code.enclosing with
      | some enclosing => enclosing ++ "~" ++ d.plainName
      | none => d.plainName := by
  rw [written, hpreserve, hunowned]
  rfl

/-- What is read of a name without an owner is what is written. -/
theorem IsRegular.reading_eq (h : d.IsRegular) (hpreserve : d.preserveName = false)
    (hunowned : d.memberof = none) : d.reading = d.written := by
  rw [written_unowned hpreserve hunowned, reading]
  rcases enclosedName?_cases hunowned h.named with
    ⟨hnone, henclosed⟩ | ⟨enclosing, hsome, henclosed⟩
  · rw [henclosed, hnone]
    rfl
  · rw [henclosed, hsome]
    rfl

/-- The longname that resolving leaves a name without an owner: with the namespace of its kind, or
in a function without. -/
theorem IsRegular.marks_taken (config : Config) (h : d.IsRegular)
    (hpreserve : d.preserveName = false) (hunowned : d.memberof = none) {start : String}
    (hstart : { d with name := d.plainName }.enclosedName?.getD d.longname = start) :
    d.Marks d.parts (if d.parts.full ≠ "" ∧ (start = "" ∨ start = d.parts.name) then
      namespaced (Dictionary.ofConfig config).value d.kind (stripGlobalOwner d.parts.full)
      else start) := by
  have hstrip : stripGlobalOwner d.parts.full = d.parts.full := h.proper.stripGlobalOwner_full
  have hnamespaced : d.Marks d.parts
      (namespaced (Dictionary.ofConfig config).value d.kind d.parts.full) :=
    marks_namespaced config h.proper d
  rw [hstrip]
  rcases enclosedName?_cases hunowned h.named with
    ⟨-, henclosed⟩ | ⟨enclosing, hsome, henclosed⟩
  · rw [henclosed, Option.getD_none, h.unresolved] at hstart
    rw [if_pos ⟨h.proper.full_ne_nil, .inl hstart.symm⟩]
    exact hnamespaced
  · have hwritten : d.written = enclosing ++ "~" ++ d.plainName := by
      rw [written_unowned hpreserve hunowned, hsome]
    rw [henclosed, Option.getD_some, ← hwritten, ← h.enclosed (by simp [hsome])] at hstart
    rw [← hstart]
    split
    · exact hnamespaced
    · exact marks_full h.proper d

/-- Resolving makes a regular doclet without an owner stand. -/
theorem IsRegular.exists_resolve_unowned (config : Config) (h : d.IsRegular)
    (hpreserve : d.preserveName = false) (hunowned : d.memberof = none) :
    ∃ name longname memberof scope,
      d.resolve (Dictionary.ofConfig config).value = d.resolved name longname memberof scope ∧
        ∃ base variation, (d.resolved name longname memberof scope).Stands base variation := by
  have hresolve := resolve_unowned (Dictionary.ofConfig config).value hunowned h.unforced
    (.inl h.unresolved)
  generalize hstart : { d with name := d.plainName }.enclosedName?.getD d.longname = start
    at hresolve
  have htaken := h.marks_taken config hpreserve hunowned hstart
  have hname := takeName_reading d start
  rw [h.reading_eq hpreserve hunowned] at hresolve hname
  by_cases hglobal : d.scope = some .global
  · -- a global symbol is called by its name alone
    have halone := split_segment h.proper.name h.proper.unopened.2
    have hstrip : stripGlobalOwner d.parts.name = (Longname.split d.parts.name).full :=
      h.proper.stripGlobalOwner_name.trans (congrArg full halone).symm
    have hmarks := marks_namespaced config h.proper.split_name d
    rw [takeParts_global hname hglobal] at hresolve
    rw [← parts, ← hstrip] at hmarks
    exact ⟨_, _, _, _, hresolve, stands_of_parts h.proper.split_name hmarks
      (.inl (congrArg Longname.variation halone)) nofun⟩
  by_cases hscope : d.parts.scope = .global
  · obtain ⟨owner, scope, halone, htake⟩ := takeParts_unowned hname hglobal hunowned
      memberof_split_of_global
    obtain ⟨rfl, rfl⟩ := halone hscope
    rw [htake] at hresolve
    exact ⟨_, _, _, _, hresolve, stands_of_parts h.proper htaken d.parts_variation nofun⟩
  · obtain ⟨hmemberof, hkept⟩ := h.parts_owner hscope
    have hnamed : d.parts.name ≠ "" := fun hnil => h.proper.name.ne_nil (by rw [hnil]; rfl)
    have htake : takeParts (Dictionary.ofConfig config).value d.parts
        { d with name := d.plainName, longname := start } = _ :=
      takeParts_placed hglobal hscope hnamed hmemberof hkept
    exact ⟨_, _, _, _, hresolve.trans htake, h.stands_asMember hscope htaken⟩

/-- Resolving makes a regular doclet stand. -/
theorem IsRegular.exists_resolve_eq (config : Config) (h : d.IsRegular)
    (hpreserve : d.preserveName = false) :
    ∃ name longname memberof scope,
      d.resolve (Dictionary.ofConfig config).value = d.resolved name longname memberof scope ∧
        ∃ base variation, (d.resolved name longname memberof scope).Stands base variation := by
  rcases Option.eq_none_or_eq_some d.memberof with hunowned | ⟨owner, howner⟩
  · exact h.exists_resolve_unowned config hpreserve hunowned
  · obtain ⟨-, -, -, hscope, -⟩ := h.owned owner howner
    exact ⟨_, _, _, _, h.resolve_owned howner,
      h.stands_asMember hscope (marks_namespaced config h.proper d)⟩

/-! ## Filling in -/

/-- Behind a longname without parentheses there is one variation in the end. -/
theorem withVariation_base {base : String} (hne : base ≠ "") (hopen : '(' ∉ base.toList)
    {variation own : Option String} (hvariation : variation = none ∨ variation = own)
    (hown : ∀ v, own = some v → v ≠ "") :
    withVariation own (base ++ variationSuffix variation) = base ++ variationSuffix own := by
  cases own with
  | none =>
    obtain rfl := hvariation.elim id id
    rfl
  | some v =>
    have hsuffix : variationSuffix (some v) = "(" ++ v ++ ")" := rfl
    rcases hvariation with rfl | rfl
    · have hends : Text.endsWith ("(" ++ v ++ ")") base = false := by
        refine Bool.eq_false_iff.2 fun hends => hopen ?_
        rw [Text.endsWith, List.isSuffixOf_iff_suffix] at hends
        exact hends.subset (by simp)
      have hnone : base ++ variationSuffix none = base := by simp [variationSuffix]
      rw [hnone, withVariation, if_pos ⟨hown v rfl, hne, hends⟩, hsuffix]
    · rw [hsuffix, withVariation, if_neg]
      simp [endsWith_append]

theorem namesFill_nameParams {params : List Detail} {names : List String}
    (hparams : NamesFill params) (hnames : ∀ name ∈ names, Fills name) :
    NamesFill (nameParams params names) := by
  fun_induction nameParams params names with
  | case1 param params name names ih =>
    rw [NamesFill, List.forall_mem_cons] at hparams ⊢
    rw [List.forall_mem_cons] at hnames
    refine ⟨fun label hlabel => ?_, ih hparams.2 hnames.2⟩
    rcases Option.or_eq_some_iff.1 hlabel with hlabel | ⟨-, hlabel⟩
    · exact hparams.1 label hlabel
    · rw [← Option.some.inj hlabel]
      exact hnames.1
  | case2 params names h => exact hparams

/-- Filling in files a doclet that stands. -/
theorem Stands.isFiled_fill {base : String} {variation : Option String}
    (h : d.Stands base variation) (hborrowed : d.borrowed = false)
    (hvariation : ∀ v, d.variation = some v → v ≠ "" ∧ Fills v)
    (hparams : NamesFill d.params)
    (hparamNames : ∀ name ∈ d.origin.code.paramNames, Fills name)
    (hborrows : d.AsksForMembers) :
    (d.fill dictionary).IsFiled := by
  have hbase : base ≠ "" := fun hnil => h.path.ne_nil (by rw [hnil]; rfl)
  have hensured : ensuredLongname dictionary d = base ++ variationSuffix variation := by
    rw [ensuredLongname, if_neg, h.longname]
    rintro ⟨-, hnil⟩
    rw [h.longname, String.append_eq_empty_iff] at hnil
    exact hbase hnil.1
  have hlongname : withVariation d.variation (ensuredLongname dictionary d) =
      base ++ variationSuffix d.variation := by
    rw [hensured]
    exact withVariation_base hbase h.unopened h.variation fun v hv => (hvariation v hv).1
  have hfills : ∀ v, d.variation = some v → Fills v := fun v hv => (hvariation v hv).2
  have howner : ∀ owner, d.memberof.filter (· != "") = some owner → d.memberof = some owner :=
    fun owner hsome => (Option.filter_eq_some_iff.1 hsome).1
  rw [fill_eq, hlongname]
  refine ⟨⟨isPath_append_variation h.path hfills, fun owner hsome => ?_⟩, hborrowed, fun hne => ?_,
    fun owner hsome => ?_, hfills, namesFill_nameParams hparams hparamNames, hborrows⟩
  · obtain ⟨hpath, scope, segment, hscope, hne, hsegment, hbelow, hown⟩ :=
      h.below owner (howner owner hsome)
    refine ⟨hpath, scope, segment ++ variationSuffix d.variation, hscope, hne,
      isSegment_append_variation hsegment hfills, ?_, fun hnot => ?_⟩
    · rw [hbelow, String.append_assoc]
    · rw [hown fun hnamespace => hnot (hasNamespace_getD rfl hnamespace), Doclet.segment, hborrowed]
      rfl
  · obtain ⟨owner, hsome⟩ := Option.ne_none_iff_exists'.1 hne
    exact h.name (by simp [howner owner hsome])
  · obtain ⟨-, scope, segment, -, -, -, hbelow, -⟩ := h.below owner (howner owner hsome)
    intro hmem
    refine h.unopened ?_
    rw [hbelow]
    simp [hmem]

/-- A name that is not resolved becomes the longname, and stands. -/
theorem IsRegular.stands_preserved (config : Config) (h : d.IsRegular)
    (hpreserve : d.preserveName = true) :
    ∃ longname base variation, { d with longname }.Stands base variation ∧
      d.fill (Dictionary.ofConfig config).value =
        { d with longname }.fill (Dictionary.ofConfig config).value := by
  have hwritten : d.written = d.name := by rw [written, if_pos hpreserve]
  have hfull : d.parts.full = d.name := by rw [(h.preserved hpreserve).1, hwritten]
  have hstrip : stripGlobalOwner d.name = d.name := by
    rw [← hfull]
    exact h.proper.stripGlobalOwner_full
  have hunowned : d.memberof = none := by
    refine Option.eq_none_iff_forall_ne_some.2 fun owner howner => ?_
    rw [(h.owned owner howner).2.1] at hpreserve
    cases hpreserve
  have hensured : ensuredLongname (Dictionary.ofConfig config).value d =
      namespaced (Dictionary.ofConfig config).value d.kind d.parts.full := by
    rw [ensuredLongname, if_pos ⟨h.named, h.unresolved⟩, hstrip, hfull]
  have hmarks := marks_namespaced config h.proper d
  rw [← parts, ← hensured] at hmarks
  obtain ⟨base, variation, hstands⟩ := stands_of_parts
    (d := { d with longname := ensuredLongname (Dictionary.ofConfig config).value d }) h.proper
    hmarks (.inl (h.preserved hpreserve).2) fun owner howner => absurd howner (by simp [hunowned])
  refine ⟨_, base, variation, hstands, ?_⟩
  have hagain : ensuredLongname (Dictionary.ofConfig config).value
      { d with longname := ensuredLongname (Dictionary.ofConfig config).value d } =
        ensuredLongname (Dictionary.ofConfig config).value d := by
    refine if_neg fun hboth => hstands.path.ne_nil ?_
    have hnil : base ++ variationSuffix variation = "" := hstands.longname.symm.trans hboth.2
    rw [(String.append_eq_empty_iff.1 hnil).1]
    rfl
  rw [fill_eq, fill_eq, hagain]

/-- Finishing files a regular doclet. -/
theorem IsRegular.isFiled_finish (config : Config) (h : d.IsRegular) :
    (d.finish (Dictionary.ofConfig config).value).IsFiled := by
  rw [finish_eq_fill]
  by_cases hpreserve : d.preserveName = true
  · obtain ⟨longname, base, variation, hstands, hfill⟩ := h.stands_preserved config hpreserve
    rw [if_pos hpreserve, hfill]
    exact hstands.isFiled_fill h.unborrowed h.variation h.params h.paramNames h.borrows
  · rw [Bool.not_eq_true] at hpreserve
    obtain ⟨name, longname, memberof, scope, hresolve, base, variation, hstands⟩ :=
      h.exists_resolve_eq config hpreserve
    rw [if_neg (by simp [hpreserve]), hresolve]
    refine hstands.isFiled_fill h.unborrowed (fun v hv => ?_) h.params h.paramNames h.borrows
    rcases Option.or_eq_some_iff.1 hv with hv | ⟨-, hv⟩
    · exact h.proper.variation v hv
    · exact h.variation v hv

end Doclet

end Commentary
