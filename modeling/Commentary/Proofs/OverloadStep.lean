import Commentary.Overload
import Commentary.Proofs.CatalogIndex
import Mathlib

/-!
# One function arrives

What the arrival of a doclet does to the overloads and the catalog. A function with an owner is
either the first of its longname, or it makes a *pair* with an older one and both are renamed, or it
comes *late*, when the longname is used by variations only, and is renamed alone. `renamings` lists
who is renamed and how, and `arrive_snd` says that nothing else happens to the catalog.

Numbers are always free (`freeNumber_isLeast`), and so is what a late function is given
(`chooseLate_free`). The names that a pair is given need not be: nobody looks whether a third doclet
carries one of them. `arrive_distinct_iff` says that this is the only way in which two doclets can
come to share a longname that was given to one of them.
-/

namespace Commentary

/-- Whether a doclet is a function with an owner; only these are told apart. -/
def Doclet.IsOwnedFunction (d : Doclet) : Prop := d.kind = some .function ∧ d.memberof ≠ none

instance (d : Doclet) : Decidable d.IsOwnedFunction :=
  inferInstanceAs (Decidable (_ ∧ _))

namespace Overloads

/-! ## Longnames with variations -/

@[simp]
theorem withVariation_inj {base v w : String} :
    withVariation base v = withVariation base w ↔ v = w := by
  simp [withVariation, String.append_assoc, String.append_right_inj, String.append_left_inj]

theorem toList_withVariation (base variation : String) :
    (withVariation base variation).toList = base.toList ++ '(' :: (variation.toList ++ [')']) := by
  simp [withVariation]

/-- A longname with a variation is longer than the longname. -/
theorem withVariation_ne_self (base variation : String) : withVariation base variation ≠ base := by
  intro h
  have hlen := congrArg (fun s => s.toList.length) h
  simp [toList_withVariation] at hlen

/-- A longname with a number for its variation. -/
def numberedName (base : String) (n : Nat) : String := withVariation base (toString n)

theorem numberedName_injective (base : String) : Function.Injective (numberedName base) :=
  fun _ _ h => Nat.repr_inj.1 (withVariation_inj.1 h)

/-! ## Free numbers -/

/-- A number above a bound with which a longname is free. -/
def IsFree (catalog : Catalog) (base : String) (above n : Nat) : Prop :=
  above < n ∧ catalog.contains (numberedName base n) = false

theorem mem_keys_of_contains {catalog : Catalog} {longname : String}
    (h : catalog.contains longname = true) : longname ∈ catalog.byLongname.keys := by
  rcases hfind : catalog.byLongname.find? longname with _ | ids
  · simp [Catalog.contains, Catalog.lookup, hfind] at h
  · exact Table.mem_keys_of_find? hfind

/-- Of more numbers than the catalog has longnames, one is free. -/
theorem exists_free (catalog : Catalog) (base : String) (above : Nat) :
    ∃ n ∈ List.range' (above + 1) (catalog.byLongname.entries.length + 1),
      catalog.contains (numberedName base n) = false := by
  -- otherwise all these longnames would be keys of the index, and there are too many of them
  by_contra hall
  push Not at hall
  have hsub : (List.range' (above + 1) (catalog.byLongname.entries.length + 1)).map
      (numberedName base) ⊆ catalog.byLongname.keys := by
    intro longname hmem
    obtain ⟨n, hn, rfl⟩ := List.mem_map.1 hmem
    exact mem_keys_of_contains (by simpa using hall n hn)
  have hnodup : ((List.range' (above + 1) (catalog.byLongname.entries.length + 1)).map
      (numberedName base)).Nodup :=
    (List.nodup_range' 1).map (numberedName_injective base)
  have hle := (hnodup.subperm hsub).length_le
  simp [Table.keys] at hle

/-- The number found is the least free one. -/
theorem freeNumber_isLeast (catalog : Catalog) (base : String) (above : Nat) :
    IsLeast {n | IsFree catalog base above n} (freeNumber catalog base above) := by
  have hdef : freeNumber catalog base above =
      ((List.range' (above + 1) (catalog.byLongname.entries.length + 1)).find? fun n =>
        !catalog.contains (numberedName base n)).getD (above + 1) := rfl
  rw [hdef]
  rcases hfind : (List.range' (above + 1) (catalog.byLongname.entries.length + 1)).find? fun n =>
      !catalog.contains (numberedName base n) with _ | n
  -- the search reaches a free number, so its default is never used
  · obtain ⟨n, hn, hfree⟩ := exists_free catalog base above
    have hnot := List.find?_eq_none.1 hfind n hn
    simp [hfree] at hnot
  · obtain ⟨hfree, hmem, hleast⟩ := List.find?_range'_eq_some.1 hfind
    rw [List.mem_range'_1] at hmem
    refine ⟨⟨hmem.1, by simpa using hfree⟩, ?_⟩
    rintro m ⟨hm, hmfree⟩
    by_contra hlt
    simpa [hmfree] using hleast m hm (Nat.lt_of_not_le hlt)

theorem freeNumber_free (catalog : Catalog) (base : String) (above : Nat) :
    catalog.contains (numberedName base (freeNumber catalog base above)) = false :=
  (freeNumber_isLeast catalog base above).1.2

theorem lt_freeNumber (catalog : Catalog) (base : String) (above : Nat) :
    above < freeNumber catalog base above :=
  (freeNumber_isLeast catalog base above).1.1

/-! ## Choices -/

theorem pairVariations?_ne {old new : Doclet} {pair : String × String}
    (h : pairVariations? old new = some pair) : pair.1 ≠ pair.2 := by
  simp only [pairVariations?, Option.ite_none_left_eq_some, Option.some.injEq] at h
  obtain ⟨hne, rfl⟩ := h
  exact hne

/-- A pair is told apart by variations of its own, or else by the first two free numbers. -/
theorem choosePair_cases (overloads : Overloads) (catalog : Catalog) (base : String)
    (old new : Doclet) :
    (∃ pair, pairVariations? old new = some pair ∧
        catalog.contains (numberedName base 1) = false ∧
        overloads.overloaded.find? base ≠ some .numbered ∧
        overloads.choosePair catalog base old new = (pair, .named)) ∨
      overloads.choosePair catalog base old new = (numberPair catalog base, .numbered) := by
  unfold choosePair
  simp only
  split
  · rename_i pair hpair
    split at hpair
    · simp at hpair
    · rename_i hnumbered
      rw [not_or] at hnumbered
      exact .inl ⟨pair, hpair, Bool.eq_false_iff.2 hnumbered.2, hnumbered.1, rfl⟩
  · exact .inr rfl

theorem choosePair_ne (overloads : Overloads) (catalog : Catalog) (base : String)
    (old new : Doclet) :
    (overloads.choosePair catalog base old new).1.1 ≠
      (overloads.choosePair catalog base old new).1.2 := by
  obtain ⟨pair, hpair, -, -, heq⟩ | heq := choosePair_cases overloads catalog base old new
  · rw [heq]
    exact pairVariations?_ne hpair
  · rw [heq]
    intro h
    have hlt := lt_freeNumber catalog base (freeNumber catalog base 0)
    exact Nat.ne_of_lt hlt (Nat.repr_inj.1 h)

/-- Numbers given to a pair are free. -/
theorem choosePair_free {overloads : Overloads} {catalog : Catalog} {base : String}
    {old new : Doclet} (h : (overloads.choosePair catalog base old new).2 = .numbered) :
    catalog.contains
        (withVariation base (overloads.choosePair catalog base old new).1.1) = false ∧
      catalog.contains
        (withVariation base (overloads.choosePair catalog base old new).1.2) = false := by
  obtain ⟨pair, -, -, -, heq⟩ | heq := choosePair_cases overloads catalog base old new
  · rw [heq] at h
    cases h
  · rw [heq]
    exact ⟨freeNumber_free catalog base 0, freeNumber_free catalog base _⟩

/-- What a late function is given is free. -/
theorem chooseLate_free (catalog : Catalog) (d : Doclet) (how : Variations) :
    catalog.contains (withVariation d.longname (chooseLate catalog d how).1) = false := by
  unfold chooseLate
  simp only
  split
  · rename_i h
    exact h.2
  · exact freeNumber_free catalog d.longname 0

/-- Where numbers are in use a late function gets the least free one. -/
theorem chooseLate_numbered (catalog : Catalog) (d : Doclet) :
    chooseLate catalog d .numbered = (toString (freeNumber catalog d.longname 0), .numbered) := by
  simp [chooseLate]

/-! ## Renaming -/

/-- A doclet becomes a variation of a longname, told apart by a name or by a number. -/
structure Renaming where
  id : Nat
  base : String
  variation : String
  how : Variations
deriving DecidableEq, Repr

namespace Renaming

/-- The longname that is given. -/
def longname (r : Renaming) : String := withVariation r.base r.variation

/-- Gives the longname. -/
def apply (catalog : Catalog) (r : Renaming) : Catalog :=
  assign catalog r.id r.base r.variation

end Renaming

theorem get?_assign (catalog : Catalog) (id : Nat) (base variation : String) (i : Nat) :
    (assign catalog id base variation).get? i =
      if i = id then
        (catalog.get? i).map fun d =>
          { d with longname := withVariation base variation, variation := some variation }
      else catalog.get? i := by
  by_cases hi : i = id
  · simp only [assign, Catalog.get?_modify, Catalog.get?_rekey, if_pos hi, Option.map_map]
    rfl
  · simp only [assign, Catalog.get?_modify, Catalog.get?_rekey, if_neg hi]

@[simp]
theorem size_assign (catalog : Catalog) (id : Nat) (base variation : String) :
    (assign catalog id base variation).size = catalog.size := by
  simp [assign]

theorem indexed_assign {catalog : Catalog} (h : catalog.Indexed) (id : Nat)
    (base variation : String) : (assign catalog id base variation).Indexed :=
  (h.rekey id (withVariation base variation)).modify id fun _ => rfl

/-- Who is renamed when the doclet at a position is tracked, and how. -/
def renamings (overloads : Overloads) (catalog : Catalog) (id : Nat) : List Renaming :=
  match catalog.get? id with
  | none => []
  | some d =>
    if d.IsOwnedFunction then
      match overloads.latest.find? d.longname with
      | some oldId =>
        match catalog.get? oldId with
        | some old =>
          let base := sharedBase old
          let (variations, how) := overloads.choosePair catalog base old d
          [⟨oldId, base, variations.1, how⟩, ⟨id, base, variations.2, how⟩]
        | none => []
      | none =>
        match overloads.overloaded.find? d.longname with
        | some how =>
          let (variation, how) := chooseLate catalog d how
          [⟨id, d.longname, variation, how⟩]
        | none => []
    else []

/-- Tracking a doclet changes the catalog by renaming and in no other way. -/
theorem track_snd (overloads : Overloads) (catalog : Catalog) (id : Nat) :
    (overloads.track catalog id).2 =
      (overloads.renamings catalog id).foldl Renaming.apply catalog := by
  unfold track renamings
  rcases catalog.get? id with _ | d
  · rfl
  · by_cases hd : d.IsOwnedFunction
    · have hnot : ¬(d.kind ≠ some .function ∨ d.memberof = none) := by
        simpa [Doclet.IsOwnedFunction] using hd
      simp only [if_neg hnot, if_pos hd]
      rcases overloads.latest.find? d.longname with _ | oldId
      · rcases overloads.overloaded.find? d.longname with _ | how
        · rfl
        · rfl
      · simp only
        rcases catalog.get? oldId with _ | old
        · rfl
        · rfl
    · have hor : d.kind ≠ some .function ∨ d.memberof = none := by
        simpa [Doclet.IsOwnedFunction, or_iff_not_imp_left] using hd
      simp only [if_pos hor, if_neg hd]
      rfl

/-! ## Arrivals -/

/-- Adds a doclet to the catalog and tracks it. -/
def arrive (state : Overloads × Catalog) (d : Doclet) : Overloads × Catalog :=
  state.1.track (state.2.insert d) state.2.size

/-- What is remembered as the last function of a longname carries that longname. -/
def Coherent (overloads : Overloads) (catalog : Catalog) : Prop :=
  ∀ longname id, overloads.latest.find? longname = some id →
    catalog.longnameAt? id = some longname

section Arrival

variable {overloads : Overloads} {catalog : Catalog} {d old : Doclet} {oldId : Nat}
  {how : Variations}

theorem arrive_snd (overloads : Overloads) (catalog : Catalog) (d : Doclet) :
    (arrive (overloads, catalog) d).2 =
      (overloads.renamings (catalog.insert d) catalog.size).foldl Renaming.apply
        (catalog.insert d) :=
  track_snd overloads (catalog.insert d) catalog.size

theorem arrive_unowned (overloads : Overloads) (catalog : Catalog)
    (hd : ¬d.IsOwnedFunction) :
    arrive (overloads, catalog) d = (overloads, catalog.insert d) ∧
      overloads.renamings (catalog.insert d) catalog.size = [] := by
  have hor : d.kind ≠ some .function ∨ d.memberof = none := by
    simpa [Doclet.IsOwnedFunction, or_iff_not_imp_left] using hd
  simp [arrive, track, renamings, if_pos hor, hd]

theorem arrive_first (catalog : Catalog) (hd : d.IsOwnedFunction)
    (hlatest : overloads.latest.find? d.longname = none)
    (hover : overloads.overloaded.find? d.longname = none) :
    arrive (overloads, catalog) d =
        (overloads.remember d.longname catalog.size, catalog.insert d) ∧
      overloads.renamings (catalog.insert d) catalog.size = [] := by
  simp [arrive, track, renamings, hd, hd.1, hd.2, hlatest, hover]

theorem arrive_pair (hd : d.IsOwnedFunction)
    (hlatest : overloads.latest.find? d.longname = some oldId)
    (hold : (catalog.insert d).get? oldId = some old) :
    arrive (overloads, catalog) d =
        overloads.separate (catalog.insert d) oldId catalog.size old d ∧
      overloads.renamings (catalog.insert d) catalog.size =
        [⟨oldId, sharedBase old,
            (overloads.choosePair (catalog.insert d) (sharedBase old) old d).1.1,
            (overloads.choosePair (catalog.insert d) (sharedBase old) old d).2⟩,
          ⟨catalog.size, sharedBase old,
            (overloads.choosePair (catalog.insert d) (sharedBase old) old d).1.2,
            (overloads.choosePair (catalog.insert d) (sharedBase old) old d).2⟩] := by
  have hget : (catalog.insert d).get? catalog.size = some d := by simp
  simp only [arrive, track, renamings, hget, hold, hlatest, hd, hd.1, hd.2, if_true, ne_eq,
    not_true_eq_false, or_self, if_false, and_self]

theorem arrive_late (catalog : Catalog) (hd : d.IsOwnedFunction)
    (hlatest : overloads.latest.find? d.longname = none)
    (hover : overloads.overloaded.find? d.longname = some how) :
    arrive (overloads, catalog) d = overloads.join (catalog.insert d) catalog.size d how ∧
      overloads.renamings (catalog.insert d) catalog.size =
        [⟨catalog.size, d.longname, (chooseLate (catalog.insert d) d how).1,
          (chooseLate (catalog.insert d) d how).2⟩] := by
  have hget : (catalog.insert d).get? catalog.size = some d := by simp
  simp only [arrive, track, renamings, hget, hlatest, hover, hd, hd.1, hd.2, if_true, ne_eq,
    not_true_eq_false, or_self, if_false, and_self]

/-- All that an arrival can be. The doclet is not tracked, or it is a function with an owner: the
first that is known under its longname, one that meets an older one there, or one that comes after
two have met. -/
inductive Arrival (overloads : Overloads) (catalog : Catalog) (d : Doclet) : Prop
  | unowned (hd : ¬d.IsOwnedFunction)
      (harrive : arrive (overloads, catalog) d = (overloads, catalog.insert d))
      (hrs : overloads.renamings (catalog.insert d) catalog.size = [])
  | first (hd : d.IsOwnedFunction)
      (harrive : arrive (overloads, catalog) d =
        (overloads.remember d.longname catalog.size, catalog.insert d))
      (hrs : overloads.renamings (catalog.insert d) catalog.size = [])
  | pair {oldId : Nat} {old : Doclet} (hd : d.IsOwnedFunction)
      (hlatest : overloads.latest.find? d.longname = some oldId)
      (hold : catalog.get? oldId = some old) (hname : old.longname = d.longname)
      (harrive : arrive (overloads, catalog) d =
        overloads.separate (catalog.insert d) oldId catalog.size old d)
      (hrs : overloads.renamings (catalog.insert d) catalog.size =
        [⟨oldId, sharedBase old,
            (overloads.choosePair (catalog.insert d) (sharedBase old) old d).1.1,
            (overloads.choosePair (catalog.insert d) (sharedBase old) old d).2⟩,
          ⟨catalog.size, sharedBase old,
            (overloads.choosePair (catalog.insert d) (sharedBase old) old d).1.2,
            (overloads.choosePair (catalog.insert d) (sharedBase old) old d).2⟩])
  | late {how : Variations} (hd : d.IsOwnedFunction)
      (hover : overloads.overloaded.find? d.longname = some how)
      (harrive : arrive (overloads, catalog) d =
        overloads.join (catalog.insert d) catalog.size d how)
      (hrs : overloads.renamings (catalog.insert d) catalog.size =
        [⟨catalog.size, d.longname, (chooseLate (catalog.insert d) d how).1,
          (chooseLate (catalog.insert d) d how).2⟩])

theorem Coherent.arrival (h : Coherent overloads catalog) (d : Doclet) :
    Arrival overloads catalog d := by
  by_cases hd : d.IsOwnedFunction
  · rcases hlatest : overloads.latest.find? d.longname with _ | oldId
    · rcases hover : overloads.overloaded.find? d.longname with _ | how
      · obtain ⟨harrive, hrs⟩ := arrive_first catalog hd hlatest hover
        exact .first hd harrive hrs
      · obtain ⟨harrive, hrs⟩ := arrive_late catalog hd hlatest hover
        exact .late hd hover harrive hrs
    -- the last function of a longname is an older doclet that carries it
    · obtain ⟨old, hold, hname⟩ := Option.map_eq_some_iff.1 (h _ _ hlatest)
      obtain ⟨harrive, hrs⟩ := arrive_pair hd hlatest (Catalog.get?_insert_of_get? hold)
      exact .pair hd hlatest hold hname harrive hrs
  · obtain ⟨harrive, hrs⟩ := arrive_unowned overloads catalog hd
    exact .unowned hd harrive hrs

/-- All that an arrival can rename: nobody, an older doclet and the new one, or the new one. What is
given is free, names given to a pair apart. -/
theorem Coherent.renamings_cases (h : Coherent overloads catalog) (d : Doclet) :
    overloads.renamings (catalog.insert d) catalog.size = [] ∨
      (∃ oldId base v w how, oldId < catalog.size ∧ v ≠ w ∧
        (how = .numbered → (catalog.insert d).contains (withVariation base v) = false ∧
          (catalog.insert d).contains (withVariation base w) = false) ∧
        overloads.renamings (catalog.insert d) catalog.size =
          [⟨oldId, base, v, how⟩, ⟨catalog.size, base, w, how⟩]) ∨
      (∃ base v how, (catalog.insert d).contains (withVariation base v) = false ∧
        overloads.renamings (catalog.insert d) catalog.size = [⟨catalog.size, base, v, how⟩]) := by
  cases h.arrival d with
  | unowned _ _ hrs => exact .inl hrs
  | first _ _ hrs => exact .inl hrs
  | @pair oldId old _ _ hold _ _ hrs =>
    exact .inr (.inl ⟨oldId, sharedBase old, _, _, _, Catalog.lt_size_of_get? hold,
      choosePair_ne overloads (catalog.insert d) (sharedBase old) old d, choosePair_free, hrs⟩)
  | @late how _ _ _ hrs =>
    exact .inr (.inr ⟨d.longname, _, _, chooseLate_free (catalog.insert d) d how, hrs⟩)

/-- No doclet is renamed twice by one arrival. -/
theorem Coherent.nodup_renamings (h : Coherent overloads catalog) (d : Doclet) :
    ((overloads.renamings (catalog.insert d) catalog.size).map Renaming.id).Nodup := by
  obtain hrs | ⟨oldId, base, v, w, how, hlt, -, -, hrs⟩ | ⟨base, v, how, -, hrs⟩ :=
    h.renamings_cases d
  · simp [hrs]
  · simp [hrs, Nat.ne_of_lt hlt]
  · simp [hrs]

/-- Only doclets of the catalog are renamed. -/
theorem Coherent.renamings_lt (h : Coherent overloads catalog) (d : Doclet) :
    ∀ r ∈ overloads.renamings (catalog.insert d) catalog.size,
      r.id < (catalog.insert d).size := by
  rw [Catalog.size_insert]
  obtain hrs | ⟨oldId, base, v, w, how, hlt, -, -, hrs⟩ | ⟨base, v, how, -, hrs⟩ :=
    h.renamings_cases d
  · simp [hrs]
  · simp [hrs, Nat.le_of_lt hlt]
  · simp [hrs]

end Arrival

/-! ## Renaming several doclets -/

theorem indexed_foldl_apply {catalog : Catalog} (h : catalog.Indexed) (rs : List Renaming) :
    (rs.foldl Renaming.apply catalog).Indexed :=
  List.foldlRecOn rs Renaming.apply h fun _ hc r _ =>
    indexed_assign hc r.id r.base r.variation

theorem size_foldl_apply (catalog : Catalog) (rs : List Renaming) :
    (rs.foldl Renaming.apply catalog).size = catalog.size :=
  List.foldlRecOn (motive := fun c => c.size = catalog.size) rs Renaming.apply rfl
    fun c hc r _ => (size_assign c r.id r.base r.variation).trans hc

theorem get?_foldl_apply_of_forall_ne (rs : List Renaming) (catalog : Catalog) {i : Nat}
    (hi : ∀ r ∈ rs, i ≠ r.id) : (rs.foldl Renaming.apply catalog).get? i = catalog.get? i := by
  induction rs generalizing catalog with
  | nil => rfl
  | cons r rs ih =>
    rw [List.foldl_cons, ih _ fun r' hr' => hi r' (List.mem_cons_of_mem _ hr'), Renaming.apply,
      get?_assign, if_neg (hi r List.mem_cons_self)]

/-- A doclet that is renamed once has what it is given, and is the same for the rest. -/
theorem get?_foldl_apply_of_mem (rs : List Renaming) (catalog : Catalog)
    (hnodup : (rs.map Renaming.id).Nodup) {r : Renaming} (hr : r ∈ rs) :
    (rs.foldl Renaming.apply catalog).get? r.id =
      (catalog.get? r.id).map fun d =>
        { d with longname := r.longname, variation := some r.variation } := by
  induction rs generalizing catalog with
  | nil => simp at hr
  | cons r' rs ih =>
    rw [List.map_cons, List.nodup_cons] at hnodup
    rcases List.mem_cons.1 hr with rfl | hr
    · have hlater : ∀ r' ∈ rs, r.id ≠ r'.id := fun r' hr' h =>
        hnodup.1 (h ▸ List.mem_map_of_mem hr')
      rw [List.foldl_cons, get?_foldl_apply_of_forall_ne rs _ hlater, Renaming.apply,
        get?_assign, if_pos rfl]
      rfl
    · have hother : r.id ≠ r'.id := fun h => hnodup.1 (h ▸ List.mem_map_of_mem hr)
      rw [List.foldl_cons, ih _ hnodup.2 hr, Renaming.apply, get?_assign, if_neg hother]

theorem longnameAt?_foldl_apply_of_mem (rs : List Renaming) (catalog : Catalog)
    (hnodup : (rs.map Renaming.id).Nodup) {r : Renaming} (hr : r ∈ rs)
    (hlt : r.id < catalog.size) :
    (rs.foldl Renaming.apply catalog).longnameAt? r.id = some r.longname := by
  obtain ⟨d, hd⟩ := Catalog.lt_size_iff.1 hlt
  rw [Catalog.longnameAt?, get?_foldl_apply_of_mem rs catalog hnodup hr, hd]
  rfl

/-! ## What an arrival keeps -/

theorem indexed_arrive {catalog : Catalog} (h : catalog.Indexed) (overloads : Overloads)
    (d : Doclet) : (arrive (overloads, catalog) d).2.Indexed := by
  rw [arrive_snd]
  exact indexed_foldl_apply (h.insert d) _

theorem size_arrive (overloads : Overloads) (catalog : Catalog) (d : Doclet) :
    (arrive (overloads, catalog) d).2.size = catalog.size + 1 := by
  rw [arrive_snd, size_foldl_apply, Catalog.size_insert]

section Keeps

variable {overloads : Overloads} {catalog : Catalog} {d : Doclet}

/-- A renamed doclet has the longname that it was given. -/
theorem Coherent.longnameAt?_renamed (h : Coherent overloads catalog) {r : Renaming}
    (hr : r ∈ overloads.renamings (catalog.insert d) catalog.size) :
    (arrive (overloads, catalog) d).2.longnameAt? r.id = some r.longname := by
  rw [arrive_snd]
  exact longnameAt?_foldl_apply_of_mem _ _ (h.nodup_renamings d) hr (h.renamings_lt d r hr)

/-- A doclet that is not renamed stays as it is. -/
theorem get?_arrive_of_forall_ne {i : Nat}
    (hi : ∀ r ∈ overloads.renamings (catalog.insert d) catalog.size, i ≠ r.id) :
    (arrive (overloads, catalog) d).2.get? i = (catalog.insert d).get? i := by
  rw [arrive_snd]
  exact get?_foldl_apply_of_forall_ne _ _ hi

theorem longnameAt?_arrive_of_forall_ne {i : Nat} (hlt : i < catalog.size)
    (hi : ∀ r ∈ overloads.renamings (catalog.insert d) catalog.size, i ≠ r.id) :
    (arrive (overloads, catalog) d).2.longnameAt? i = catalog.longnameAt? i := by
  rw [Catalog.longnameAt?, get?_arrive_of_forall_ne hi, Catalog.get?_insert,
    if_neg (Nat.ne_of_lt hlt), Catalog.longnameAt?]

theorem Coherent.lt_size (h : Coherent overloads catalog) {longname : String} {id : Nat}
    (hfind : overloads.latest.find? longname = some id) : id < catalog.size := by
  obtain ⟨e, he, -⟩ := Option.map_eq_some_iff.1 (h longname id hfind)
  exact Catalog.lt_size_of_get? he

/-- What is remembered after an arrival: a renamed doclet, a first function, or what was remembered
before and is not renamed. -/
theorem Coherent.latest_arrive (h : Coherent overloads catalog) {longname : String} {id : Nat}
    (hfind : (arrive (overloads, catalog) d).1.latest.find? longname = some id) :
    (∃ r ∈ overloads.renamings (catalog.insert d) catalog.size,
        r.id = id ∧ r.longname = longname) ∨
      (overloads.renamings (catalog.insert d) catalog.size = [] ∧ id = catalog.size ∧
        longname = d.longname) ∨
      (overloads.latest.find? longname = some id ∧
        ∀ r ∈ overloads.renamings (catalog.insert d) catalog.size, id ≠ r.id) := by
  cases h.arrival d with
  | unowned _ harrive hrs =>
    rw [harrive] at hfind
    exact .inr (.inr ⟨hfind, by simp [hrs]⟩)
  | first _ harrive hrs =>
    simp only [harrive, remember, Table.find?_insert] at hfind
    rw [hrs]
    split at hfind
    · rename_i hl
      cases hfind
      exact .inr (.inl ⟨rfl, rfl, hl.symm⟩)
    · exact .inr (.inr ⟨hfind, by simp⟩)
  | @pair oldId old _ _ hget hname harrive hrs =>
    simp only [harrive, separate, record, remember, Table.find?_insert, Table.find?_erase] at hfind
    rw [hrs]
    split at hfind
    · rename_i hl
      cases hfind
      exact .inl ⟨_, List.mem_cons_of_mem _ (List.mem_singleton_self _), rfl, hl⟩
    · split at hfind
      · rename_i hl
        cases hfind
        exact .inl ⟨_, List.mem_cons_self, rfl, hl⟩
      · split at hfind
        · cases hfind
        · rename_i hne
          -- the older function was remembered under its longname alone, which is forgotten
          have hid : id ≠ oldId := by
            rintro rfl
            have hother := h longname id hfind
            rw [Catalog.longnameAt?, hget] at hother
            exact hne (Option.some.inj hother)
          exact .inr (.inr ⟨hfind, by simpa [hid] using Nat.ne_of_lt (h.lt_size hfind)⟩)
  | late _ _ harrive hrs =>
    simp only [harrive, join, record, remember, Table.find?_insert] at hfind
    rw [hrs]
    split at hfind
    · rename_i hl
      cases hfind
      exact .inl ⟨_, List.mem_singleton_self _, rfl, hl⟩
    · exact .inr (.inr ⟨hfind, by simpa using Nat.ne_of_lt (h.lt_size hfind)⟩)

/-- Arrivals keep what is remembered true. -/
theorem coherent_arrive (h : Coherent overloads catalog) (d : Doclet) :
    Coherent (arrive (overloads, catalog) d).1 (arrive (overloads, catalog) d).2 := by
  intro longname id hfind
  obtain ⟨r, hr, rfl, rfl⟩ | ⟨hrs, rfl, rfl⟩ | ⟨hfind, hne⟩ := h.latest_arrive hfind
  · exact h.longnameAt?_renamed hr
  · rw [arrive_snd, hrs]
    simp
  · rw [longnameAt?_arrive_of_forall_ne (h.lt_size hfind) hne]
    exact h longname id hfind

end Keeps

/-! ## Longnames given twice -/

/-- No longname that tracking a doclet gives is carried by a doclet that it was not given to. -/
def GivesUnique (overloads : Overloads) (catalog : Catalog) (id : Nat) : Prop :=
  ∀ r ∈ overloads.renamings catalog id, ∀ i,
    (overloads.track catalog id).2.longnameAt? i = some r.longname → i = r.id

/-- Two functions are told apart by names of which a third doclet carries one. -/
def NameTaken (overloads : Overloads) (catalog : Catalog) (id : Nat) : Prop :=
  ∃ r₁ r₂ i, overloads.renamings catalog id = [r₁, r₂] ∧ r₁.how = .named ∧
    i ≠ r₁.id ∧ i ≠ r₂.id ∧
    (catalog.longnameAt? i = some r₁.longname ∨ catalog.longnameAt? i = some r₂.longname)

section Unique

variable {overloads : Overloads} {catalog : Catalog} {d : Doclet}

/-- One arrival gives no longname twice. -/
theorem Coherent.eq_of_longname_eq (h : Coherent overloads catalog) {r r' : Renaming}
    (hr : r ∈ overloads.renamings (catalog.insert d) catalog.size)
    (hr' : r' ∈ overloads.renamings (catalog.insert d) catalog.size)
    (hname : r.longname = r'.longname) : r = r' := by
  obtain hrs | ⟨oldId, base, v, w, how, -, hne, -, hrs⟩ | ⟨base, v, how, -, hrs⟩ :=
    h.renamings_cases d
  · simp [hrs] at hr
  · simp only [hrs, List.mem_cons, List.not_mem_nil, or_false] at hr hr'
    obtain rfl | rfl := hr <;> obtain rfl | rfl := hr'
    · rfl
    · exact absurd (withVariation_inj.1 hname) hne
    · exact absurd (withVariation_inj.1 hname) hne.symm
    · rfl
  · rw [hrs, List.mem_singleton] at hr hr'
    rw [hr, hr']

/-- A longname that is given and was there before is a name, given to one of two functions. -/
theorem Coherent.pair_of_contains (h : Coherent overloads catalog) {r : Renaming}
    (hr : r ∈ overloads.renamings (catalog.insert d) catalog.size)
    (hcontains : (catalog.insert d).contains r.longname = true) :
    ∃ r₁ r₂, overloads.renamings (catalog.insert d) catalog.size = [r₁, r₂] ∧
      r₁.how = .named := by
  obtain hrs | ⟨oldId, base, v, w, how, -, -, hfree, hrs⟩ | ⟨base, v, how, hfree, hrs⟩ :=
    h.renamings_cases d
  · simp [hrs] at hr
  · refine ⟨_, _, hrs, ?_⟩
    rcases how
    · rfl
    · obtain ⟨hv, hw⟩ := hfree rfl
      simp only [hrs, List.mem_cons, List.not_mem_nil, or_false] at hr
      obtain rfl | rfl := hr
      · simp [Renaming.longname, hv] at hcontains
      · simp [Renaming.longname, hw] at hcontains
  · rw [hrs, List.mem_singleton] at hr
    simp [hr, Renaming.longname, hfree] at hcontains

/-- An arrival gives a longname that another doclet carries only if it tells two functions apart by
names and a third doclet carries one of them. -/
theorem Coherent.givesUnique_iff (h : Coherent overloads catalog) (hindexed : catalog.Indexed)
    (d : Doclet) :
    GivesUnique overloads (catalog.insert d) catalog.size ↔
      ¬NameTaken overloads (catalog.insert d) catalog.size := by
  have hkeep : ∀ i, (∀ r ∈ overloads.renamings (catalog.insert d) catalog.size, i ≠ r.id) →
      (overloads.track (catalog.insert d) catalog.size).2.longnameAt? i =
        (catalog.insert d).longnameAt? i := fun i hi =>
    congrArg (Option.map Doclet.longname) (get?_arrive_of_forall_ne hi)
  constructor
  · rintro hunique ⟨r₁, r₂, i, hrs, -, hi₁, hi₂, hcarried⟩
    have hi : ∀ r ∈ overloads.renamings (catalog.insert d) catalog.size, i ≠ r.id := by
      simp [hrs, hi₁, hi₂]
    obtain hcarried | hcarried := hcarried
    · exact hi₁ (hunique r₁ (by simp [hrs]) i ((hkeep i hi).trans hcarried))
    · exact hi₂ (hunique r₂ (by simp [hrs]) i ((hkeep i hi).trans hcarried))
  · intro hfree r hr i hcarried
    by_contra hne
    -- a doclet that is renamed itself would have been given the same longname
    have hi : ∀ r' ∈ overloads.renamings (catalog.insert d) catalog.size, i ≠ r'.id := by
      rintro r' hr' rfl
      have hname := (h.longnameAt?_renamed hr').symm.trans hcarried
      exact hne (congrArg Renaming.id (h.eq_of_longname_eq hr' hr (Option.some.inj hname)))
    rw [hkeep i hi] at hcarried
    obtain ⟨r₁, r₂, hrs, hnamed⟩ :=
      h.pair_of_contains hr (((hindexed.insert d).contains_iff r.longname).2 ⟨i, hcarried⟩)
    refine hfree ⟨r₁, r₂, i, hrs, hnamed, hi r₁ (by simp [hrs]), hi r₂ (by simp [hrs]), ?_⟩
    rw [hrs] at hr
    simp only [List.mem_cons, List.not_mem_nil, or_false] at hr
    obtain rfl | rfl := hr
    · exact .inl hcarried
    · exact .inr hcarried

end Unique

end Overloads

end Commentary
