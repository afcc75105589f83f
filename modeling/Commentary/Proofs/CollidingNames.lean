import Commentary.Proofs.LongnameParts
import Commentary.Proofs.SessionRun

/-!
# Functions of one longname

When a doclet is tracked, at most two doclets are renamed: the doclet itself, and a function that is
remembered under its longname. Since what is remembered is true (`Overloads.Coherent`), the two
carry the same longname, and nothing but their longnames and variations changes
(`Overloads.track_frame`).

A function that is renamed becomes a variation of its longname, or of what stands before the first
parenthesis in plain text, if the older function has a variation and the longname ends in a closing
parenthesis. That is the place where the variation starts unless the owner or the name has
parentheses of its own: `Session.renamed_longnames` says that there is no other way in which more
than a variation gets lost.
-/

namespace Commentary

/-! ## The first parenthesis of a longname -/

namespace Longname

/-- The characters of a longname, each with whether it stands in plain text. -/
def marks (longname : String) : List (Char × Bool) :=
  (tokenize longname.toList).flatMap Token.marked

theorem map_fst_marks (longname : String) : (marks longname).map Prod.fst = longname.toList := by
  rw [marks, map_fst_flatMap_marked, spell_tokenize]

theorem isTextChar_iff {c : Char} {m : Char × Bool} : isTextChar c m = true ↔ m = (c, true) := by
  obtain ⟨d, plain⟩ := m
  simp [isTextChar]

/-- A longname starts with `front`, in which no parenthesis opens in plain text. -/
def StartsUnopened (longname front : String) : Prop :=
  ∃ before behind, marks longname = before ++ behind ∧ before.map Prod.fst = front.toList ∧
    ('(', true) ∉ before

/-- The first parenthesis of a longname that opens in plain text stands behind `front`. -/
def OpensBehind (longname front : String) : Prop :=
  ∃ before behind, marks longname = before ++ ('(', true) :: behind ∧
    before.map Prod.fst = front.toList ∧ ('(', true) ∉ before

/-- Behind `front` a longname ends in a group in parentheses, which has no parentheses of its own in
plain text. -/
def EndsInGroup (longname front : String) : Prop :=
  ∃ before content, marks longname = before ++ ('(', true) :: (content ++ [(')', true)]) ∧
    before.map Prod.fst = front.toList ∧ ∀ m ∈ content, m ≠ ('(', true) ∧ m ≠ (')', true)

theorem EndsInGroup.ne_parenthesis {longname front : String} (h : EndsInGroup longname front) :
    ∀ m ∈ ((marks longname).drop (front.toList.length + 1)).dropLast,
      m ≠ ('(', true) ∧ m ≠ (')', true) := by
  obtain ⟨before, content, hmarks, hfront, hcontent⟩ := h
  have hrest : (marks longname).drop (front.toList.length + 1) = content ++ [(')', true)] := by
    rw [hmarks, ← hfront, List.length_map, ← List.drop_drop, List.drop_left]
    rfl
  rw [hrest, List.dropLast_concat]
  exact hcontent

theorem takeWhile_marks_of {before : List (Char × Bool)} (h : ('(', true) ∉ before)
    (behind : List (Char × Bool)) :
    (before ++ behind).takeWhile (!isTextChar '(' ·) =
      before ++ behind.takeWhile (!isTextChar '(' ·) := by
  refine List.takeWhile_append_of_pos fun m hm => ?_
  rw [Bool.not_eq_true', ← Bool.not_eq_true, isTextChar_iff]
  rintro rfl
  exact h hm

theorem OpensBehind.ne {longname front : String} (h : OpensBehind longname front) :
    front ≠ longname := by
  obtain ⟨before, behind, hmarks, hfront, -⟩ := h
  rintro rfl
  have hlength := congrArg List.length (map_fst_marks front)
  rw [hmarks, ← hfront] at hlength
  simp at hlength

/-- Behind its first parenthesis a longname that ends in one is cut off. -/
theorem stripVariation_of_opensBehind {longname front : String}
    (hlast : longname.toList.getLast? = some ')') (h : OpensBehind longname front) :
    stripVariation longname = front := by
  obtain ⟨before, behind, hmarks, hfront, hunopened⟩ := h
  rw [stripVariation, if_pos hlast, ← marks, hmarks, takeWhile_marks_of hunopened]
  simp [isTextChar, hfront]

theorem stripVariation_eq_self {longname : String}
    (h : longname.toList.getLast? = some ')' → ∀ front, ¬OpensBehind longname front) :
    stripVariation longname = longname := by
  unfold stripVariation
  split
  · rename_i hlast
    rw [← marks]
    have hrest : (marks longname).dropWhile (!isTextChar '(' ·) = [] := by
      by_contra hne
      obtain ⟨m, behind, hbehind⟩ := List.exists_cons_of_ne_nil hne
      -- the span would end at a parenthesis in plain text
      have hstop := List.head?_dropWhile_not (!isTextChar '(' ·) (marks longname)
      rw [hbehind] at hstop
      obtain rfl : m = ('(', true) := isTextChar_iff.1 (by simpa using hstop)
      refine h hlast (String.ofList (((marks longname).takeWhile (!isTextChar '(' ·)).map Prod.fst))
        ⟨_, behind, ?_, String.toList_ofList.symm, fun hmem => ?_⟩
      · rw [← hbehind, List.takeWhile_append_dropWhile]
      · simpa [isTextChar] using List.mem_takeWhile_imp hmem
    have hall := List.takeWhile_append_dropWhile (p := (!isTextChar '(' ·)) (l := marks longname)
    rw [hrest, List.append_nil] at hall
    rw [hall, map_fst_marks, String.ofList_toList]
  · rfl

theorem StartsUnopened.isPrefix {longname front : String} (h : StartsUnopened longname front) :
    front.toList <+: longname.toList := by
  obtain ⟨before, behind, hmarks, hfront, -⟩ := h
  rw [← map_fst_marks longname, hmarks, List.map_append, hfront]
  exact List.prefix_append _ _

/-- What stands before the first parenthesis stays. -/
theorem StartsUnopened.prefix_stripVariation {longname front : String}
    (h : StartsUnopened longname front) : front.toList <+: (stripVariation longname).toList := by
  unfold stripVariation
  split
  · obtain ⟨before, behind, hmarks, hfront, hunopened⟩ := h
    rw [← marks, hmarks, takeWhile_marks_of hunopened, List.map_append, hfront,
      String.toList_ofList]
    exact List.prefix_append _ _
  · exact h.isPrefix

end Longname

namespace Overloads

open Longname

/-! ## Tracking any doclet -/

section Track

variable {overloads : Overloads} {catalog : Catalog} {id oldId : Nat} {d old : Doclet}

/-- A function and the one that is remembered under its longname are both renamed. -/
theorem renamings_pair (hget : catalog.get? id = some d) (hd : d.IsOwnedFunction)
    (hlatest : overloads.latest.find? d.longname = some oldId)
    (hold : catalog.get? oldId = some old) :
    ∃ v w how, overloads.renamings catalog id =
      [⟨oldId, sharedBase old, v, how⟩, ⟨id, sharedBase old, w, how⟩] := by
  simp only [renamings, hget, if_pos hd, hlatest, hold]
  exact ⟨_, _, _, rfl⟩

/-- All that tracking can rename: nobody, a function and the one that is remembered under its
longname, or a function alone. -/
theorem renamings_inv (overloads : Overloads) (catalog : Catalog) (id : Nat) :
    overloads.renamings catalog id = [] ∨
      ∃ d, catalog.get? id = some d ∧ d.IsOwnedFunction ∧
        ((∃ oldId old v w how, overloads.latest.find? d.longname = some oldId ∧
            catalog.get? oldId = some old ∧ overloads.renamings catalog id =
              [⟨oldId, sharedBase old, v, how⟩, ⟨id, sharedBase old, w, how⟩]) ∨
          ∃ v how, overloads.renamings catalog id = [⟨id, d.longname, v, how⟩]) := by
  rcases hget : catalog.get? id with _ | d
  · simp [renamings, hget]
  by_cases hd : d.IsOwnedFunction
  · rcases hlatest : overloads.latest.find? d.longname with _ | oldId
    · rcases hover : overloads.overloaded.find? d.longname with _ | how
      · simp [renamings, hget, hd, hlatest, hover]
      · have hlate : ∃ v how, overloads.renamings catalog id = [⟨id, d.longname, v, how⟩] := by
          simp only [renamings, hget, if_pos hd, hlatest, hover]
          exact ⟨_, _, rfl⟩
        exact .inr ⟨d, rfl, hd, .inr hlate⟩
    · rcases hold : catalog.get? oldId with _ | old
      · simp [renamings, hget, hd, hlatest, hold]
      · obtain ⟨v, w, how, hrs⟩ := renamings_pair hget hd hlatest hold
        exact .inr ⟨d, rfl, hd, .inl ⟨oldId, old, v, w, how, hlatest, hold, hrs⟩⟩
  · simp [renamings, hget, hd]

/-- Nothing happens to a doclet that is no function with an owner, nor to any other one. -/
theorem track_of_not_isOwnedFunction (h : ∀ d, catalog.get? id = some d → ¬d.IsOwnedFunction) :
    overloads.track catalog id = (overloads, catalog) := by
  unfold track
  split
  · rfl
  · rename_i d hget
    have hor : d.kind ≠ some .function ∨ d.memberof = none := by
      simpa [Doclet.IsOwnedFunction, or_iff_not_imp_left] using h d hget
    rw [if_pos hor]

/-- Renaming changes longnames and variations, and nothing else of a doclet. -/
theorem get?_foldl_apply (rs : List Renaming) (hget : catalog.get? id = some d) :
    ∃ longname variation,
      (rs.foldl Renaming.apply catalog).get? id = some { d with longname, variation } := by
  induction rs generalizing catalog d with
  | nil => exact ⟨d.longname, d.variation, hget⟩
  | cons r rs ih =>
    rw [List.foldl_cons]
    by_cases hid : id = r.id
    · have happly : (r.apply catalog).get? id =
          some { d with longname := r.longname, variation := some r.variation } := by
        rw [Renaming.apply, get?_assign, if_pos hid, hget]
        rfl
      obtain ⟨longname, variation, hrest⟩ := ih happly
      exact ⟨longname, variation, hrest⟩
    · refine ih ?_
      rw [Renaming.apply, get?_assign, if_neg hid, hget]

theorem Coherent.insert (h : Coherent overloads catalog) (d : Doclet) :
    Coherent overloads (catalog.insert d) := by
  intro longname id hfind
  rw [Catalog.longnameAt?_insert, if_neg (Nat.ne_of_lt (h.lt_size hfind))]
  exact h longname id hfind

/-- The function that is remembered under a longname carries it. -/
theorem Coherent.longname_latest (h : Coherent overloads catalog)
    (hlatest : overloads.latest.find? d.longname = some oldId)
    (hold : catalog.get? oldId = some old) : old.longname = d.longname := by
  simpa [Catalog.longnameAt?, hold] using h _ _ hlatest

/-- A doclet that is renamed is the one that is tracked, or one of the same longname. -/
theorem Coherent.exists_other (h : Coherent overloads catalog) (id : Nat) :
    ∃ other, ∀ r ∈ overloads.renamings catalog id, r.id = id ∨
      r.id = other ∧ catalog.longnameAt? other = catalog.longnameAt? id := by
  obtain hrs | ⟨d, hget, -, ⟨oldId, old, v, w, how, hlatest, -, hrs⟩ | ⟨v, how, hrs⟩⟩ :=
    renamings_inv overloads catalog id
  · exact ⟨id, by simp [hrs]⟩
  · have hname : catalog.longnameAt? oldId = catalog.longnameAt? id := by
      rw [h _ _ hlatest, Catalog.longnameAt?, hget, Option.map_some]
    exact ⟨oldId, by simp [hrs, hname]⟩
  · exact ⟨id, by simp [hrs]⟩

end Track

/-- In a catalog of doclets that arrived one after the other, and perhaps one that has been added
since, tracking a doclet changes at most this one and another one, which carried the same longname,
and of them only longnames and variations. Nothing changes if the doclet is no function with an
owner. The doclets keep their positions, and the index stays in step. -/
theorem track_frame (ds : List Doclet) (added : Option Doclet) (id : Nat) :
    let overloads := (afterAll ds).1
    let catalog := (afterAll ds).2.insertAll added.toList
    let tracked := (overloads.track catalog id).2
    (∃ other, ∀ i, i ≠ id → tracked.get? i ≠ catalog.get? i →
        i = other ∧ catalog.longnameAt? other = catalog.longnameAt? id) ∧
      (∀ i d, catalog.get? i = some d →
        ∃ longname variation, tracked.get? i = some { d with longname, variation }) ∧
      ((∀ d, catalog.get? id = some d → ¬d.IsOwnedFunction) →
        overloads.track catalog id = (overloads, catalog)) ∧
      tracked.size = catalog.size ∧ tracked.Indexed := by
  intro overloads catalog tracked
  have hcoherent : Coherent overloads catalog := by
    cases added with
    | none => exact coherent_afterAll ds
    | some d => exact (coherent_afterAll ds).insert d
  have hindexed : catalog.Indexed := (indexed_afterAll ds).insertAll added.toList
  have htracked : tracked = (overloads.renamings catalog id).foldl Renaming.apply catalog :=
    track_snd overloads catalog id
  refine ⟨?_, fun i d hget => ?_, track_of_not_isOwnedFunction, ?_, ?_⟩
  · obtain ⟨other, hother⟩ := hcoherent.exists_other id
    refine ⟨other, fun i hi hchanged => ?_⟩
    by_contra hnot
    -- no renaming is of any other doclet
    refine hchanged ?_
    rw [htracked]
    refine get?_foldl_apply_of_forall_ne _ _ fun r hr hir => ?_
    rcases hother r hr with hid | ⟨hid, hname⟩
    · exact hi (hir.trans hid)
    · exact hnot ⟨hir.trans hid, hname⟩
  · rw [htracked]
    exact get?_foldl_apply _ hget
  · rw [htracked, size_foldl_apply]
  · rw [htracked]
    exact indexed_foldl_apply hindexed _

/-- A method meets another one, which is renamed with it, and a function without an owner comes. -/
theorem track_frame_heat :
    let state := afterAll [sampleMethod "Soup#heat" "degrees"]
    let catalog := state.2.insert (sampleMethod "Soup#heat" "time")
    let tracked := (state.1.track catalog 1).2
    let helper : Doclet := { sampleMethod "Soup#heat" "time" with memberof := none }
    tracked.get? 0 ≠ catalog.get? 0 ∧ catalog.longnameAt? 0 = catalog.longnameAt? 1 ∧
      (∃ longname variation, tracked.get? 0 =
        some { sampleMethod "Soup#heat" "degrees" with longname, variation }) ∧
      ¬helper.IsOwnedFunction ∧
      state.1.track (state.2.insert helper) 1 = (state.1, state.2.insert helper) := by
  intro state catalog tracked helper
  obtain ⟨⟨other, hother⟩, hfields, -⟩ := track_frame [sampleMethod "Soup#heat" "degrees"]
    (some (sampleMethod "Soup#heat" "time")) 1
  obtain ⟨-, -, hunowned, -⟩ :=
    track_frame [sampleMethod "Soup#heat" "degrees"] (some helper) 1
  have hchanged : tracked.get? 0 ≠ catalog.get? 0 := by decide
  obtain ⟨rfl, hname⟩ := hother 0 (by decide) hchanged
  have hhelper : ¬helper.IsOwnedFunction := by decide
  refine ⟨hchanged, hname, hfields 0 _ (by decide), hhelper, hunowned fun d hd => ?_⟩
  have hget : (state.2.insert helper).get? 1 = some helper := by decide
  obtain rfl := Option.some.inj (hget.symm.trans hd)
  exact hhelper

/-! ## What is renamed -/

end Overloads

/-- The variation that ends the longname of a doclet starts behind `front`: it is the variation of
the doclet, or else a group in parentheses. -/
def Doclet.VariesBehind (d : Doclet) (front : String) : Prop :=
  (∃ variation, d.variation = some variation ∧
      d.longname = Overloads.withVariation front variation) ∨
    Longname.EndsInGroup d.longname front

namespace Overloads

open Longname

/-- A doclet that is renamed becomes a variation of its longname, or of what stands before the
variation in it. -/
def KeepsLongnames (overloads : Overloads) (catalog : Catalog) (id : Nat) : Prop :=
  ∀ r ∈ overloads.renamings catalog id, ∃ d, catalog.get? r.id = some d ∧
    (r.base = d.longname ∨ d.VariesBehind r.base)

/-- A function meets an older one that has a variation, and their longname ends in a parenthesis but
opens one, in plain text, before the variation of one of them. -/
def CutsLongname (overloads : Overloads) (catalog : Catalog) (id : Nat) : Prop :=
  ∃ d oldId old front, catalog.get? id = some d ∧ d.IsOwnedFunction ∧
    overloads.latest.find? d.longname = some oldId ∧ catalog.get? oldId = some old ∧
    old.variation ≠ none ∧ d.longname.toList.getLast? = some ')' ∧
    OpensBehind d.longname front ∧ ¬(old.VariesBehind front ∧ d.VariesBehind front)

section Renamed

variable {overloads : Overloads} {catalog : Catalog} {id oldId : Nat} {d old : Doclet}

/-- What two functions become variations of is their longname or what strips it. -/
theorem sharedBase_cases (old : Doclet) :
    sharedBase old = old.longname ∨
      old.variation ≠ none ∧ sharedBase old = stripVariation old.longname := by
  unfold sharedBase
  split
  · rename_i hsome
    exact .inr ⟨Option.isSome_iff_ne_none.1 hsome, rfl⟩
  · exact .inl rfl

/-- A doclet that is renamed becomes a variation of its longname, or it is one of two functions of
one longname and both become variations of what these share. -/
theorem Coherent.renamed_cases (h : Coherent overloads catalog) {r : Renaming}
    (hr : r ∈ overloads.renamings catalog id) :
    ∃ e, catalog.get? r.id = some e ∧ (r.base = e.longname ∨
      ∃ d oldId old, catalog.get? id = some d ∧ d.IsOwnedFunction ∧
        overloads.latest.find? d.longname = some oldId ∧ catalog.get? oldId = some old ∧
        old.longname = d.longname ∧ r.base = sharedBase old ∧ (e = old ∨ e = d)) := by
  obtain hrs | ⟨d, hget, hd, ⟨oldId, old, v, w, how, hlatest, hold, hrs⟩ | ⟨v, how, hrs⟩⟩ :=
    renamings_inv overloads catalog id
  · simp [hrs] at hr
  · have hname : old.longname = d.longname := h.longname_latest hlatest hold
    simp only [hrs, List.mem_cons, List.not_mem_nil, or_false] at hr
    obtain rfl | rfl := hr
    · exact ⟨old, hold, .inr ⟨d, oldId, old, hget, hd, hlatest, hold, hname, rfl, .inl rfl⟩⟩
    · exact ⟨d, hget, .inr ⟨d, oldId, old, hget, hd, hlatest, hold, hname, rfl, .inr rfl⟩⟩
  · rw [hrs, List.mem_singleton] at hr
    subst hr
    exact ⟨d, hget, .inl rfl⟩

/-- What a doclet becomes a variation of is its longname, or that without what may be a
variation. -/
theorem Coherent.base_cases (h : Coherent overloads catalog) {r : Renaming}
    (hr : r ∈ overloads.renamings catalog id) :
    ∃ d, catalog.get? r.id = some d ∧
      (r.base = d.longname ∨ r.base = stripVariation d.longname) := by
  obtain ⟨e, hget, hwhole | ⟨d, oldId, old, -, -, -, -, hname, hbase, he⟩⟩ := h.renamed_cases hr
  · exact ⟨e, hget, .inl hwhole⟩
  · have hsame : e.longname = old.longname := by
      obtain rfl | rfl := he
      · rfl
      · exact hname.symm
    refine ⟨e, hget, ?_⟩
    rw [hbase, hsame]
    exact (sharedBase_cases old).imp_right And.right

/-- What opens no parenthesis at the start of a longname stays when the doclet is renamed. -/
theorem Coherent.prefix_renamed (h : Coherent overloads catalog) {r : Renaming}
    (hr : r ∈ overloads.renamings catalog id) (hget : catalog.get? r.id = some d) {front : String}
    (hfront : StartsUnopened d.longname front) : front.toList <+: r.longname.toList := by
  obtain ⟨e, hgete, hbase⟩ := h.base_cases hr
  obtain rfl : e = d := Option.some.inj (hgete.symm.trans hget)
  have hkept : front.toList <+: r.base.toList := by
    obtain hbase | hbase := hbase
    · rw [hbase]
      exact hfront.isPrefix
    · rw [hbase]
      exact hfront.prefix_stripVariation
  rw [Renaming.longname, toList_withVariation]
  exact hkept.trans (List.prefix_append _ _)

theorem Coherent.not_cutsLongname (h : Coherent overloads catalog)
    (hkeeps : KeepsLongnames overloads catalog id) : ¬CutsLongname overloads catalog id := by
  rintro ⟨d, oldId, old, front, hget, hd, hlatest, hold, hvariation, hlast, hopens, hnot⟩
  have hname : old.longname = d.longname := h.longname_latest hlatest hold
  have hbase : sharedBase old = front := by
    rw [sharedBase, if_pos (Option.isSome_iff_ne_none.2 hvariation), hname,
      stripVariation_of_opensBehind hlast hopens]
  obtain ⟨v, w, how, hrs⟩ := renamings_pair hget hd hlatest hold
  rw [hbase] at hrs
  have hvaries : ∀ r ∈ overloads.renamings catalog id, r.base = front → ∀ e,
      catalog.get? r.id = some e → e.longname = d.longname → e.VariesBehind front := by
    rintro r hr rfl e he hsame
    obtain ⟨e', he', hwhole | hvaries⟩ := hkeeps r hr
    · obtain rfl := Option.some.inj (he'.symm.trans he)
      exact absurd (hwhole.trans hsame) hopens.ne
    · obtain rfl := Option.some.inj (he'.symm.trans he)
      exact hvaries
  exact hnot ⟨hvaries ⟨oldId, front, v, how⟩ (by simp [hrs]) rfl old hold hname,
    hvaries ⟨id, front, w, how⟩ (by simp [hrs]) rfl d hget rfl⟩

/-- Two functions of one longname become variations of it, or of what stands before the variation of
both. -/
theorem Coherent.sharedBase_of_not_cutsLongname (h : Coherent overloads catalog)
    (hcuts : ¬CutsLongname overloads catalog id) (hget : catalog.get? id = some d)
    (hd : d.IsOwnedFunction) (hlatest : overloads.latest.find? d.longname = some oldId)
    (hold : catalog.get? oldId = some old) :
    sharedBase old = d.longname ∨
      old.VariesBehind (sharedBase old) ∧ d.VariesBehind (sharedBase old) := by
  have hname : old.longname = d.longname := h.longname_latest hlatest hold
  obtain hbase | ⟨hvariation, hbase⟩ := sharedBase_cases old
  · exact .inl (hbase.trans hname)
  rw [hname] at hbase
  by_cases hopens : d.longname.toList.getLast? = some ')' ∧ ∃ front, OpensBehind d.longname front
  · obtain ⟨hlast, front, hopens⟩ := hopens
    rw [hbase, stripVariation_of_opensBehind hlast hopens]
    by_contra hnot
    exact hcuts ⟨d, oldId, old, front, hget, hd, hlatest, hold, hvariation, hlast, hopens,
      fun hvaries => hnot (.inr hvaries)⟩
  · refine .inl (hbase.trans (stripVariation_eq_self fun hlast front hfront => ?_))
    exact hopens ⟨hlast, front, hfront⟩

theorem Coherent.keepsLongnames (h : Coherent overloads catalog)
    (hcuts : ¬CutsLongname overloads catalog id) : KeepsLongnames overloads catalog id := by
  intro r hr
  obtain ⟨e, hget, hwhole | ⟨d, oldId, old, hgetd, hd, hlatest, hold, hname, hbase, he⟩⟩ :=
    h.renamed_cases hr
  · exact ⟨e, hget, .inl hwhole⟩
  · refine ⟨e, hget, ?_⟩
    rw [hbase]
    obtain hwhole | ⟨hvaries, hvaries'⟩ :=
      h.sharedBase_of_not_cutsLongname hcuts hgetd hd hlatest hold
    · left
      obtain rfl | rfl := he
      · exact hwhole.trans hname.symm
      · exact hwhole
    · right
      obtain rfl | rfl := he
      · exact hvaries
      · exact hvaries'

/-- The only way in which more than a variation gets lost is that a longname is cut too early. -/
theorem Coherent.keepsLongnames_iff (h : Coherent overloads catalog) (id : Nat) :
    KeepsLongnames overloads catalog id ↔ ¬CutsLongname overloads catalog id :=
  ⟨h.not_cutsLongname, h.keepsLongnames⟩

end Renamed

end Overloads

namespace Session

open Longname Overloads

/-- What tracking a new doclet makes of longnames in a session that has seen any calls. A doclet
that is renamed gets the variation behind a base, keeps whatever stands before the first parenthesis
of its longname, and is the same for the rest. The base is its longname, or what stands before its
variation, unless the longname is cut at a parenthesis before that. -/
theorem renamed_longnames {σ : Type} (dictionary : Dictionary) (plugins : List (Plugin σ))
    (state : σ) (calls : List Call) (d : Doclet) :
    let session := afterCalls dictionary plugins state calls
    let catalog := session.catalog.insert d
    let id := session.catalog.size
    let tracked := (session.overloads.track catalog id).2
    (∀ r ∈ session.overloads.renamings catalog id, ∃ e, catalog.get? r.id = some e ∧
        tracked.get? r.id =
          some { e with
            longname := withVariation r.base r.variation, variation := some r.variation } ∧
        ∀ front, StartsUnopened e.longname front →
          front.toList <+: (withVariation r.base r.variation).toList) ∧
      (∀ i, (∀ r ∈ session.overloads.renamings catalog id, i ≠ r.id) →
        tracked.get? i = catalog.get? i) ∧
      (KeepsLongnames session.overloads catalog id ↔
        ¬CutsLongname session.overloads catalog id) := by
  intro session catalog id tracked
  have hsession : Coherent session.overloads session.catalog :=
    (hasFiled_afterCalls dictionary plugins state calls).coherent
  have hcoherent : Coherent session.overloads catalog := hsession.insert d
  have htracked : tracked =
      (session.overloads.renamings catalog id).foldl Renaming.apply catalog :=
    track_snd session.overloads catalog id
  refine ⟨fun r hr => ?_, fun i hi => ?_, hcoherent.keepsLongnames_iff id⟩
  · obtain ⟨e, hget, -⟩ := hcoherent.base_cases hr
    refine ⟨e, hget, ?_, fun front hfront => hcoherent.prefix_renamed hr hget hfront⟩
    rw [htracked, get?_foldl_apply_of_mem _ _ (hsession.nodup_renamings d) hr, hget]
    rfl
  · rw [htracked]
    exact get?_foldl_apply_of_forall_ne _ _ hi

/-- An owner with parentheses in quotes. -/
def quotedOwner : String := "\"Soup(2)\""

/-- A method of this owner, with one parameter and the variation `x`. -/
def quotedMethod (param : String) : Doclet :=
  { sampleMethod (quotedOwner ++ "#eat(x)") param with
    memberof := some quotedOwner, variation := some "x" }

/-- The calls for the owner and one of its methods. -/
def quotedCalls : List Call :=
  [.addDoclet { name := quotedOwner, longname := quotedOwner }, .addDoclet (quotedMethod "a")]

/-- A quoted owner stays. The first method is renamed with the second one, and the doclet of the
owner is left alone. -/
theorem renamed_longnames_quoted :
    let session := afterCalls .empty [] () quotedCalls
    let catalog := session.catalog.insert (quotedMethod "b")
    let id := session.catalog.size
    let tracked := (session.overloads.track catalog id).2
    (⟨1, quotedOwner ++ "#eat", "a", .named⟩ ∈ session.overloads.renamings catalog id ∧
        tracked.get? 1 =
          some { quotedMethod "a" with
            longname := withVariation (quotedOwner ++ "#eat") "a", variation := some "a" } ∧
        StartsUnopened (quotedMethod "a").longname (quotedOwner ++ "#") ∧
        (quotedOwner ++ "#").toList <+: (withVariation (quotedOwner ++ "#eat") "a").toList) ∧
      (∀ r ∈ session.overloads.renamings catalog id, 0 ≠ r.id) ∧
      tracked.get? 0 = catalog.get? 0 := by
  intro session catalog id tracked
  obtain ⟨hrenamed, hothers, -⟩ :=
    renamed_longnames .empty [] () quotedCalls (quotedMethod "b")
  have hmem : ⟨1, quotedOwner ++ "#eat", "a", .named⟩ ∈
      session.overloads.renamings catalog id := by
    decide +kernel
  have hzero : ∀ r ∈ session.overloads.renamings catalog id, 0 ≠ r.id := by decide
  have hmethod : catalog.get? 1 = some (quotedMethod "a") := by decide
  obtain ⟨e, hget, htracked, hfront⟩ := hrenamed _ hmem
  obtain rfl := Option.some.inj (hmethod.symm.trans hget)
  have hstarts : StartsUnopened (quotedMethod "a").longname (quotedOwner ++ "#") :=
    ⟨_, _, (List.take_append_drop 10 (marks _)).symm, by decide +kernel, by decide +kernel⟩
  exact ⟨⟨hmem, htracked, hstarts, hfront _ hstarts⟩, hzero, hothers 0 hzero⟩

/-- A comment that names its symbol comes to its doclet. -/
theorem value_addComment_named {σ : Type} (session : Session σ) {source : Doclet.Source}
    {d : Doclet} (hparts : parts source = [source])
    (hd : (Doclet.ofSource session.dictionary source).value = d) (hname : d.name.isEmpty = false) :
    (session.addComment source).value.1 = (session.addDoclet d).1 := by
  rw [addComment, hparts, Noted.value_foldlM, List.foldl_cons, List.foldl_nil, Noted.value_bind,
    addPart, Noted.value_bind, Noted.value_bind, hd, discover, hname]
  rfl

theorem dictionary_addDoclet {σ : Type} (session : Session σ) (d : Doclet) :
    (session.addDoclet d).1.dictionary = session.dictionary := by
  unfold addDoclet
  simp only
  split
  · rfl
  · rfl

/-- A comment for a method, with a variation, of a class with one. Every run knows its tags. -/
def variedSource : Doclet.Source :=
  { comment := "/** @name Soup(2)#eat(x)\n * @kind function */" }

/-- The doclet of that comment. -/
def variedDoclet : Doclet :=
  { comment := variedSource.comment, kind := some .function, name := "eat",
    longname := "Soup(2)#eat(x)", memberof := some "Soup(2)", scope := some .instance,
    variation := some "x" }

/-- The dictionary without any set. -/
def bareDictionary : Dictionary := (Dictionary.ofConfig { tagSets := [] }).value

theorem value_variedSource :
    parts variedSource = [variedSource] ∧
      (Doclet.ofSource bareDictionary variedSource).value = variedDoclet := by
  decide +kernel

/-- A session with that comment. -/
def variedSession : Session Unit := afterCalls bareDictionary [] () [.addComment variedSource]

theorem variedSession_eq :
    variedSession = (addDoclet { dictionary := bareDictionary, state := () } variedDoclet).1 := by
  rw [variedSession, afterCalls, List.foldl_cons, List.foldl_nil, perform]
  exact value_addComment_named _ value_variedSource.1 value_variedSource.2 rfl

/-- If the comment comes twice, both methods get longnames without the variation of their class and
without their own name, and one of them gets the longname of the class. -/
theorem renamed_longnames_cut :
    (variedSession.addComment variedSource).value.1.catalog.toList.map
          (fun d => (d.longname, d.memberof)) =
        [("Soup(1)", some "Soup(2)"), ("Soup(2)", some "Soup(2)")] ∧
      ¬KeepsLongnames variedSession.overloads
        (variedSession.catalog.insert variedDoclet) variedSession.catalog.size := by
  have hagain : (variedSession.addComment variedSource).value.1 =
      (variedSession.addDoclet variedDoclet).1 := by
    refine value_addComment_named _ value_variedSource.1 ?_ rfl
    rw [variedSession_eq, dictionary_addDoclet]
    exact value_variedSource.2
  rw [hagain, variedSession_eq]
  refine ⟨by decide +kernel, fun hkeeps => ?_⟩
  obtain ⟨e, hget, hbase⟩ := hkeeps ⟨0, "Soup", "1", .numbered⟩ (by decide +kernel)
  obtain rfl : variedDoclet = e := Option.some.inj hget
  obtain hwhole | ⟨variation, hx, hvaries⟩ | hgroup := hbase
  · exact absurd hwhole (by decide)
  · obtain rfl := Option.some.inj hx
    exact absurd hvaries (by decide)
  · exact (hgroup.ne_parenthesis (')', true) (by decide +kernel)).2 rfl

end Session

end Commentary
