import Commentary.Doclet.Resolve
import Commentary.Proofs.MemberPaths
import Mathlib.Data.List.Infix

/-!
# What resolving gives a doclet

Resolving a name goes through many small steps, of which most do nothing to a given doclet. This
module says what they come to together: an owner that is a plain path is kept as it is spelled
(`ownerSpelling_path`), and the parts of a member give a doclet its name, owner, scope and longname
at once (`takeParts_member`).
-/

namespace Commentary

/-! ## Texts that are left alone -/

namespace Text

/-- Where a text does not occur, there is nothing to replace. -/
theorem replaceFrom_eq_self {pattern cs : List Char} (h : ¬pattern <:+: cs)
    (replacement : List Char) : replaceFrom pattern replacement 0 cs = cs := by
  induction cs with
  | nil => rfl
  | cons c cs ih =>
    have hprefix : ¬pattern.isPrefixOf (c :: cs) = true := fun hp =>
      h (List.isPrefixOf_iff_prefix.1 hp).isInfix
    have hrest : ¬pattern <:+: cs := fun hin => h (hin.trans (List.suffix_cons c cs).isInfix)
    rw [replaceFrom, if_neg hprefix, ih hrest]

theorem replaceAll_eq_self {pattern s : String} (h : ¬pattern.toList <:+: s.toList)
    (replacement : String) : replaceAll pattern replacement s = s := by
  rw [replaceAll, replaceFrom_eq_self h, String.ofList_toList]

theorem dropEnd?_eq_none {ending s : String} (h : ¬ending.toList <:+ s.toList) :
    dropEnd? ending s = none := by
  rw [dropEnd?, Option.map_eq_none_iff, Option.eq_none_iff_forall_ne_some]
  intro rest hrest
  have happend := List.isPrefixOf?_eq_some_iff_append_eq.1 hrest
  exact h (List.reverse_prefix.1 ⟨rest, happend⟩)

end Text

namespace Longname

open Commentary.Text

theorem stripGlobalOwner_eq_self {s : String} (h : ¬globalOwner.toList <+: s.toList) :
    stripGlobalOwner s = s := by
  have hnone : globalOwner.toList.isPrefixOf? s.toList = none := by
    rw [Option.eq_none_iff_forall_ne_some]
    intro rest hrest
    exact h ⟨rest, List.isPrefixOf?_eq_some_iff_append_eq.1 hrest⟩
  simp only [stripGlobalOwner, hnone]

/-- A text that starts with an angle bracket may start with the owner of ownerless symbols; no other
does. -/
theorem not_globalOwner_prefix {cs : List Char} (h : cs.head? ≠ some '<') :
    ¬globalOwner.toList <+: cs := by
  rintro ⟨rest, rfl⟩
  exact h rfl

/-- A path of plain segments holds nothing but fillers. -/
theorem PathOf.isFiller {cs : List Char} (h : PathOf IsPlain cs) : ∀ c ∈ cs, isFiller c = true := by
  induction h with
  | segment h => exact h.isFiller
  | @member owner name c _ hc hname ih =>
    have hfiller : Longname.isFiller c = true := by
      unfold Scope.isPunctuation Scope.ofPunctuation? at hc
      split at hc
      · rfl
      · rfl
      · rfl
      · cases hc
    simp only [List.forall_mem_append, List.forall_mem_cons]
    exact ⟨ih, hfiller, hname.isFiller⟩

theorem PathOf.isPath {cs : List Char} (h : PathOf IsPlain cs) : IsPath cs :=
  h.mono fun _ hcs => hcs.isSegment

/-- The words of plain text between dots are its segments, and none of these is a `prototype`. -/
theorem not_settled_prototype {front back : List Char} (hfront : ∀ c ∈ front, isFiller c = true)
    (hback : back = [] ∨ ∃ c rest, back = c :: rest ∧ Scope.isPunctuation c = true) :
    ¬Settled true (tokenize (front ++ '.' :: (prototypeName ++ back))) := by
  have htokens : ∃ rest, tokenize (prototypeName ++ back) = .text prototypeName :: rest := by
    have hfiller := isFiller_of_mem_prototypeName
    rcases hback with rfl | ⟨c, rest, rfl, hc⟩
    · exact ⟨[], by rw [List.append_nil, tokenize_prototypeName]⟩
    · refine ⟨.delimiter c :: tokenize rest, ?_⟩
      rw [tokenize_append (whole_of_filler hfiller) (paired_of_filler hfiller) hc,
        tokenize_prototypeName]
      rfl
  obtain ⟨rest, hrest⟩ := htokens
  rw [tokenize_append (whole_of_filler hfront) (paired_of_filler hfront) rfl, hrest]
  generalize tokenize front = ts
  intro hsettled
  have hnot : ∀ {starts : Bool} {ts : List Token},
      ¬Settled starts (ts ++ .delimiter '.' :: .text prototypeName :: rest) := by
    intro starts ts
    induction ts generalizing starts with
    | nil => exact fun h => h.2.1 (by simp) rfl
    | cons t ts ih => exact fun h => ih h.2
  exact hnot hsettled

end Longname

namespace Doclet

open Longname

/-- An owner of plain segments is kept as it is spelled, also with a delimiter at its end. -/
theorem ownerSpelling_eq_self {owner : String} (hfiller : ∀ c ∈ owner.toList, isFiller c = true)
    (hsettled : Settled true (tokenize owner.toList))
    (hglobal : ¬globalOwner.toList <+: owner.toList) : ownerSpelling owner = owner := by
  have hend : ¬".prototype".toList <:+ owner.toList := by
    rintro ⟨front, hfront⟩
    have hsplit : owner.toList = front ++ '.' :: (prototypeName ++ []) := hfront.symm
    rw [hsplit] at hfiller hsettled
    simp only [List.forall_mem_append] at hfiller
    exact not_settled_prototype hfiller.1 (.inl rfl) hsettled
  have hinside : ¬".prototype.".toList <:+: owner.toList := by
    rintro ⟨front, back, hfront⟩
    have hsplit : owner.toList = front ++ '.' :: (prototypeName ++ '.' :: back) := by
      rw [← hfront]
      simp [prototypeName]
    rw [hsplit] at hfiller hsettled
    simp only [List.forall_mem_append] at hfiller
    exact not_settled_prototype hfiller.1 (.inr ⟨'.', back, rfl, rfl⟩) hsettled
  simp only [ownerSpelling, stripGlobalOwner_eq_self hglobal, Text.dropEnd?_eq_none hend,
    Text.replaceAll_eq_self hinside]

theorem ownerSpelling_path {owner : String} (howner : PathOf IsPlain owner.toList)
    (hglobal : ¬globalOwner.toList <+: owner.toList) : ownerSpelling owner = owner :=
  ownerSpelling_eq_self howner.isFiller howner.isPath.settled hglobal

/-! ## Placing -/

/-- A name is a longname below an owner exactly if it starts with the owner and a delimiter. -/
theorem isBelow_iff {owner name : String} :
    isBelow owner name = true ↔ owner ≠ "" ∧
      ∃ c rest, Scope.isPunctuation c = true ∧ name.toList = owner.toList ++ c :: rest := by
  rw [isBelow, Bool.and_eq_true, bne_iff_ne]
  refine and_congr_right fun _ => ?_
  constructor
  · intro h
    split at h
    · rename_i c rest hprefix
      exact ⟨c, rest, h, (List.isPrefixOf?_eq_some_iff_append_eq.1 hprefix).symm⟩
    · cases h
  · rintro ⟨c, rest, hc, hname⟩
    rw [List.isPrefixOf?_eq_some_iff_append_eq.2 hname.symm]
    exact hc

variable {dictionary : Dictionary} {d : Doclet} {about : Longname} {scope : Option Scope}

/-- A name without an owner is split on its own. -/
theorem place_unowned (howner : d.memberof = none) (hforce : d.forceMemberof = false)
    (name : String) : d.place name = (some (Longname.split name), d.scope) := by
  rw [place, if_neg (by simp [howner, hforce])]

theorem place_owned {owner : String} (howner : d.memberof = some owner) (hne : owner ≠ "")
    (name : String) : d.place name = d.placeUnder (instancePath owner) name := by
  rw [place, howner, Option.getD_some, if_pos (.inl hne)]

/-- An owner that is not forced does not dictate where a longname is split. -/
theorem splitFor_eq (hforce : d.forceMemberof = false) (owner longname : String) :
    d.splitFor owner longname = Longname.split longname := by
  simp [splitFor, hforce]

/-! ## Names that are placed -/

/-- Takes over the parts of a placed longname, and settles what they leave open. -/
def takeParts (dictionary : Dictionary) (about : Longname) (d : Doclet) : Doclet :=
  takeVariation about <| settle dictionary about <| takeLongname dictionary about <|
    takeOwner about <| takeName about d

/-- Resolving takes over the parts of the name, in the function around the code if there is one. -/
theorem resolve_eq (dictionary : Dictionary) {enclosed : Option String} {parts : Option Longname}
    (hopen : d.longname = "" ∨ d.longname = d.name)
    (henclosed : { d with name := d.plainName }.enclosedName? = enclosed)
    (hplace : d.place (enclosed.getD d.plainName) = (parts, scope)) :
    d.resolve dictionary = takeParts dictionary (parts.getD default)
      { d with name := d.plainName, longname := enclosed.getD d.longname, scope } := by
  have hplace' : { d with name := d.plainName, longname := enclosed.getD d.longname }.place
      (enclosed.getD d.plainName) = (parts, scope) := hplace
  have hnot : ¬(d.longname ≠ "" ∧ d.longname ≠ d.name) := by tauto
  rw [resolve, if_neg hnot]
  simp only [henclosed, hplace', takeParts]

/-- Outside of functions a name is placed as it is. -/
theorem enclosedName?_eq_none (d : Doclet) (henclosing : d.origin.code.enclosing = none) :
    d.enclosedName? = none := by
  unfold enclosedName?
  split
  · simp [henclosing]
  · rfl

theorem takeLongname_eq (dictionary : Dictionary) (about : Longname) (d : Doclet) :
    takeLongname dictionary about d =
      { d with
        longname := if about.full ≠ "" ∧ (d.longname = "" ∨ d.longname = d.name) then
          namespaced dictionary d.kind (stripGlobalOwner about.full) else d.longname } := by
  unfold takeLongname
  split
  · rfl
  · rfl

theorem takeVariation_eq (about : Longname) (d : Doclet) :
    takeVariation about d = { d with variation := about.variation.or d.variation } := by
  unfold takeVariation
  cases about.variation with
  | none => rfl
  | some variation => rfl

/-- What the parts of a member give a doclet. -/
theorem takeParts_placed (hscope : d.scope ≠ some .global)
    (habout : about.scope ≠ .global) (hname : about.name ≠ "")
    (howner : about.memberof ≠ "") (hkept : ownerSpelling about.memberof = about.memberof) :
    takeParts dictionary about d =
      { d with
        name := about.name
        memberof := some about.memberof
        longname := if about.full ≠ "" ∧ (d.longname = "" ∨ d.longname = about.name) then
          namespaced dictionary d.kind (stripGlobalOwner about.full) else d.longname
        scope := some about.scope
        variation := about.variation.or d.variation } := by
  have hglobal : about.memberof ≠ globalOwner := by
    intro heq
    rw [heq] at hkept
    exact absurd hkept (by decide)
  have hmemberof : Tag.nonEmpty (ownerSpelling about.memberof) = some about.memberof := by
    rw [hkept, Tag.nonEmpty, if_neg (by simpa using howner)]
  rw [takeParts, takeName, if_neg hname, takeOwner, if_neg howner, setMemberof, hmemberof,
    takeLongname_eq, settle, if_neg hscope, if_pos habout, if_neg hglobal, takeVariation_eq]

/-- What the parts of a member give a doclet whose longname is open. -/
theorem takeParts_member (hlongname : d.longname = "") (hscope : d.scope ≠ some .global)
    (habout : about.scope ≠ .global) (hname : about.name ≠ "") (hfull : about.full ≠ "")
    (howner : about.memberof ≠ "") (hkept : ownerSpelling about.memberof = about.memberof)
    (hstrip : stripGlobalOwner about.full = about.full) :
    takeParts dictionary about d =
      { d with
        name := about.name
        memberof := some about.memberof
        longname := namespaced dictionary d.kind about.full
        scope := some about.scope
        variation := about.variation.or d.variation } := by
  rw [takeParts_placed hscope habout hname howner hkept, if_pos ⟨hfull, .inl hlongname⟩, hstrip]

/-- What a name does to a doclet that has an owner, but no scope and no longname: it is joined to
the owner by the delimiter that it starts with, or else by a dot. -/
theorem takeParts_joined {owner rest : String} {leading : Scope} (hlongname : d.longname = "")
    (hscope : d.scope = none) (howner : d.memberof = some owner) (hne : d.name ≠ "")
    (hlead : d.leadingScope = { d with name := rest, scope := some leading }) :
    takeParts dictionary default d =
      { d with
        name := rest
        longname := namespaced dictionary d.kind
          (stripGlobalOwner (owner ++ leading.punctuation ++ rest))
        scope := some leading } := by
  -- there are no parts to take over, and the longname is still open
  have hdefault : takeLongname dictionary default (takeOwner default (takeName default d)) = d :=
    rfl
  have hsettle : settle dictionary default d = d.joinOwner dictionary owner := by
    rw [settle, if_neg (by simp [hscope]), if_neg (fun h => h rfl), if_pos ⟨hne, hlongname⟩, howner]
  rw [takeParts, hdefault, hsettle]
  simp only [joinOwner, hlead]
  rfl

theorem leadingScope_delimiter {rest : String} {c : Char} {leading : Scope}
    (hname : d.name.toList = c :: rest.toList) (hc : Scope.ofPunctuation? c = some leading) :
    d.leadingScope = { d with name := rest, scope := some leading } := by
  simp only [leadingScope, hname, hc, String.ofList_toList]

theorem leadingScope_plain (h : hasLeadingScope d.name = false) :
    d.leadingScope = { d with scope := some .static } := by
  unfold leadingScope
  cases hname : d.name.toList with
  | nil => rfl
  | cons c rest =>
    have hc : Scope.ofPunctuation? c = none := by
      simpa [hasLeadingScope, hname, Scope.isPunctuation] using h
    simp only [hc]

/-! ## Finishing -/

/-- A doclet that resolving gives a longname and no variation keeps both to the end. -/
theorem finish_of_resolve {r : Doclet} (hpreserve : d.preserveName = false)
    (hresolve : d.resolve dictionary = r) (hlongname : r.longname ≠ "")
    (howner : r.memberof ≠ some "") (hvariation : r.variation = none) :
    d.finish dictionary =
      { r with
        kind := some (r.kind.getD (Kind.ofCode r.origin.code.form))
        params := nameParams r.params r.origin.code.paramNames } := by
  have hensure : r.ensureLongname dictionary = r := by
    rw [ensureLongname, if_neg fun h => hlongname h.2]
  have hfilter : r.memberof.filter (· != "") = r.memberof := by
    cases hmemberof : r.memberof with
    | none => rfl
    | some owner =>
      have hne : owner ≠ "" := by
        rintro rfl
        exact howner hmemberof
      simp [hne]
  simp only [finish, hpreserve, Bool.false_eq_true, if_false, hresolve, hensure, hfilter,
    appendVariation, hvariation]

end Doclet

end Commentary
