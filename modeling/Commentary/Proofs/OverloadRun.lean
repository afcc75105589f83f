import Commentary.Proofs.OverloadStep

/-!
# Overloads over a whole run

Doclets arrive one after the other. If no function with an owner brings a variation along, and no
longname of one has a parenthesis, the run can be read off the number of arrivals under each
longname (`Settled`): a function that is alone under its longname keeps it, and as soon as there are
two, all of them are variations of it, and no two the same one. Once numbers are used for a longname
they are used to the end, and always the least that is free.
-/

namespace Commentary

/-- A function with an owner arrives under a longname. -/
def Doclet.ArrivesAs (d : Doclet) (longname : String) : Prop :=
  d.IsOwnedFunction ∧ d.longname = longname

instance (d : Doclet) (longname : String) : Decidable (d.ArrivesAs longname) :=
  inferInstanceAs (Decidable (_ ∧ _))

/-- A doclet as a variation of its longname. -/
def Doclet.vary (d : Doclet) (variation : String) : Doclet :=
  { d with longname := Overloads.withVariation d.longname variation, variation := some variation }

namespace Overloads

/-- The overloads and the catalog after doclets have arrived one after the other. -/
def afterAll (ds : List Doclet) : Overloads × Catalog := ds.foldl arrive ({}, .empty)

theorem afterAll_concat (ds : List Doclet) (d : Doclet) :
    afterAll (ds ++ [d]) = arrive (afterAll ds) d := by
  simp [afterAll]

/-! ## What every run keeps -/

theorem size_afterAll (ds : List Doclet) : (afterAll ds).2.size = ds.length := by
  induction ds using List.reverseRecOn with
  | nil => rfl
  | append_singleton ds d ih =>
    rw [afterAll_concat, size_arrive, ih, List.length_append, List.length_singleton]

theorem indexed_afterAll (ds : List Doclet) : (afterAll ds).2.Indexed := by
  induction ds using List.reverseRecOn with
  | nil => exact .empty
  | append_singleton ds d ih =>
    rw [afterAll_concat]
    exact indexed_arrive ih (afterAll ds).1 d

theorem coherent_afterAll (ds : List Doclet) : Coherent (afterAll ds).1 (afterAll ds).2 := by
  induction ds using List.reverseRecOn with
  | nil =>
    intro longname id hfind
    simp [afterAll] at hfind
  | append_singleton ds d ih =>
    rw [afterAll_concat]
    exact coherent_arrive ih d

/-! ## Longnames without parentheses -/

/-- Every function with an owner comes without a variation and without a parenthesis in its
longname. -/
def Plain (ds : List Doclet) : Prop :=
  ∀ d ∈ ds, d.IsOwnedFunction → d.variation = none ∧ '(' ∉ d.longname.toList

theorem ne_withVariation {longname : String} (h : '(' ∉ longname.toList)
    (base variation : String) : longname ≠ withVariation base variation := by
  rintro rfl
  simp [toList_withVariation] at h

/-- The parenthesis of a variation is the first one, so base and variation can be read off. -/
theorem base_eq_of_withVariation_eq {b b' v v' : String} (hb : '(' ∉ b.toList)
    (hb' : '(' ∉ b'.toList) (h : withVariation b v = withVariation b' v') : b = b' := by
  have htake : ∀ b v : String, '(' ∉ b.toList →
      (withVariation b v).toList.takeWhile (· != '(') = b.toList := by
    intro b v hb
    rw [toList_withVariation, List.takeWhile_append_of_pos]
    · simp
    · intro c hc
      simpa using fun hceq : c = '(' => hb (hceq ▸ hc)
  have hlist := congrArg (fun s : String => s.toList.takeWhile (· != '(')) h
  simp only [htake _ _ hb, htake _ _ hb'] at hlist
  exact String.toList_inj.1 hlist

/-! ## Arrivals under a longname -/

/-- How many functions with an owner arrive under a longname. -/
def arrivals (ds : List Doclet) (longname : String) : Nat :=
  ds.countP fun d => d.ArrivesAs longname

theorem arrivals_concat (ds : List Doclet) (d : Doclet) (longname : String) :
    arrivals (ds ++ [d]) longname =
      arrivals ds longname + if d.ArrivesAs longname then 1 else 0 := by
  simp [arrivals, List.countP_append, List.countP_cons]

theorem arrivals_pos_iff {ds : List Doclet} {longname : String} :
    0 < arrivals ds longname ↔
      ∃ (i : Nat) (d : Doclet), ds[i]? = some d ∧ d.ArrivesAs longname := by
  simp only [arrivals, List.countP_pos_iff, List.mem_iff_getElem?, decide_eq_true_eq]
  constructor
  · rintro ⟨d, ⟨i, hi⟩, hd⟩
    exact ⟨i, d, hi, hd⟩
  · rintro ⟨i, d, hi, hd⟩
    exact ⟨d, ⟨i, hi⟩, hd⟩

theorem getElem?_concat_eq_some {ds : List Doclet} {d e : Doclet} {i : Nat} :
    (ds ++ [d])[i]? = some e ↔ ds[i]? = some e ∨ (i = ds.length ∧ d = e) := by
  rw [List.getElem?_append]
  split
  · rename_i hlt
    simp [Nat.ne_of_lt hlt]
  · rename_i hle
    have hnone : ds[i]? = none := List.getElem?_eq_none (Nat.le_of_not_lt hle)
    by_cases hi : i = ds.length
    · simp [hi]
    · have hsub : i - ds.length ≠ 0 := by omega
      simp [hnone, hi, hsub]

/-- The state of a run, read off the arrivals: each doclet is as it came, except that functions with
an owner that are not alone under their longname are variations of it. -/
structure Settled (ds : List Doclet) (overloads : Overloads) (catalog : Catalog) : Prop where
  size_eq : catalog.size = ds.length
  indexed : catalog.Indexed
  kept : ∀ {i : Nat} {d : Doclet}, ds[i]? = some d →
    (d.IsOwnedFunction → arrivals ds d.longname = 1) → catalog.get? i = some d
  varied : ∀ {i : Nat} {d : Doclet}, ds[i]? = some d → d.IsOwnedFunction →
    arrivals ds d.longname ≠ 1 → ∃ variation, catalog.get? i = some (d.vary variation)
  /-- Functions that arrived under one longname can be told apart. -/
  distinct : ∀ {i j : Nat} {d e : Doclet} {base : String}, ds[i]? = some d → ds[j]? = some e →
    d.ArrivesAs base → e.ArrivesAs base → i ≠ j →
    catalog.longnameAt? i ≠ catalog.longnameAt? j
  /-- A function is remembered under its longname as long as it is alone. -/
  latest : ∀ {base : String}, '(' ∉ base.toList → ∀ i,
    overloads.latest.find? base = some i ↔
      arrivals ds base = 1 ∧ ∃ d, ds[i]? = some d ∧ d.ArrivesAs base
  /-- A longname counts as overloaded from its second function on. -/
  overloaded : ∀ base, overloads.overloaded.find? base = none ↔ arrivals ds base ≤ 1

theorem settled_nil : Settled [] {} .empty where
  size_eq := rfl
  indexed := .empty
  kept := by simp
  varied := by simp
  distinct := by simp
  latest := by simp
  overloaded := by simp [arrivals]

section Steps

variable {ds : List Doclet} {overloads : Overloads} {catalog : Catalog} {d : Doclet}

/-- There is only one place for a function that is alone under its longname. -/
theorem Settled.eq_of_alone (h : Settled ds overloads catalog) {base : String}
    (hparen : '(' ∉ base.toList) (hone : arrivals ds base = 1) {i j : Nat} {e f : Doclet}
    (hi : ds[i]? = some e) (he : e.ArrivesAs base) (hj : ds[j]? = some f)
    (hf : f.ArrivesAs base) : i = j := by
  have hfind := (h.latest hparen i).2 ⟨hone, e, hi, he⟩
  rw [(h.latest hparen j).2 ⟨hone, f, hj, hf⟩] at hfind
  exact (Option.some.inj hfind).symm

/-- A function with an owner meets no other under its longname, one, or several that have
variations. -/
theorem Settled.arrive_cases (h : Settled ds overloads catalog) (hplain : Plain (ds ++ [d]))
    (hd : d.IsOwnedFunction) :
    (arrivals ds d.longname = 0 ∧
        arrive (overloads, catalog) d =
          (overloads.remember d.longname catalog.size, catalog.insert d)) ∨
      (∃ oldId old, arrivals ds d.longname = 1 ∧ ds[oldId]? = some old ∧
        old.ArrivesAs d.longname ∧ oldId < catalog.size ∧ catalog.get? oldId = some old ∧
        sharedBase old = d.longname ∧
        arrive (overloads, catalog) d =
          overloads.separate (catalog.insert d) oldId catalog.size old d) ∨
      (∃ how, 2 ≤ arrivals ds d.longname ∧ overloads.overloaded.find? d.longname = some how ∧
        arrive (overloads, catalog) d =
          overloads.join (catalog.insert d) catalog.size d how) := by
  have hparen : '(' ∉ d.longname.toList := (hplain d (by simp) hd).2
  rcases hlatest : overloads.latest.find? d.longname with _ | oldId
  · have hne : arrivals ds d.longname ≠ 1 := by
      intro hone
      obtain ⟨i, e, hi, he⟩ := arrivals_pos_iff.1 (hone ▸ Nat.one_pos)
      have hfind := (h.latest hparen i).2 ⟨hone, e, hi, he⟩
      rw [hlatest] at hfind
      cases hfind
    rcases hover : overloads.overloaded.find? d.longname with _ | how
    · have hle := (h.overloaded d.longname).1 hover
      exact .inl ⟨by omega, (arrive_first catalog hd hlatest hover).1⟩
    · have hle : ¬arrivals ds d.longname ≤ 1 := by
        rw [← h.overloaded, hover]
        simp
      exact .inr (.inr ⟨how, by omega, rfl, (arrive_late catalog hd hlatest hover).1⟩)
  · obtain ⟨hone, old, hold, harr⟩ := (h.latest hparen oldId).1 hlatest
    have hget : catalog.get? oldId = some old :=
      h.kept hold fun _ => harr.2.symm ▸ hone
    have hbase : sharedBase old = d.longname := by
      have hvar := (hplain old (List.mem_append_left _ (List.mem_of_getElem? hold)) harr.1).1
      simp [sharedBase, hvar, harr.2]
    exact .inr (.inl ⟨oldId, old, hone, hold, harr, Catalog.lt_size_of_get? hget, hget, hbase,
      (arrive_pair hd hlatest (Catalog.get?_insert_of_get? hget)).1⟩)

/-- The catalog after a function has met an older one. -/
theorem get?_separate (overloads : Overloads) {oldId : Nat} {old : Doclet}
    (hold : catalog.get? oldId = some old) (hbase : sharedBase old = d.longname)
    (hname : old.longname = d.longname) (i : Nat) :
    (overloads.separate (catalog.insert d) oldId catalog.size old d).2.get? i =
      if i = catalog.size then
        some (d.vary (overloads.choosePair (catalog.insert d) d.longname old d).1.2)
      else if i = oldId then
        some (old.vary (overloads.choosePair (catalog.insert d) d.longname old d).1.1)
      else catalog.get? i := by
  have hlt := Catalog.lt_size_of_get? hold
  simp only [separate, hbase, get?_assign, Catalog.get?_insert]
  by_cases hi : i = catalog.size
  · simp [hi, (Nat.ne_of_lt hlt).symm, Doclet.vary]
  · by_cases hio : i = oldId
    · simp [hio, Nat.ne_of_lt hlt, hold, hname, Doclet.vary]
    · simp [hi, hio]

/-- The catalog after a function has come late. -/
theorem get?_join (overloads : Overloads) (catalog : Catalog) (d : Doclet) (how : Variations)
    (i : Nat) :
    (overloads.join (catalog.insert d) catalog.size d how).2.get? i =
      if i = catalog.size then some (d.vary (chooseLate (catalog.insert d) d how).1)
      else catalog.get? i := by
  simp only [join, get?_assign, Catalog.get?_insert]
  by_cases hi : i = catalog.size <;> simp [hi, Doclet.vary]

/-- A doclet stays as it is, unless it is alone under its longname and the new one meets it. -/
theorem Settled.get?_arrive_other (h : Settled ds overloads catalog) (hplain : Plain (ds ++ [d]))
    {i : Nat} {e : Doclet} (hi : ds[i]? = some e)
    (hmeets : ¬(e.IsOwnedFunction ∧ d.ArrivesAs e.longname ∧ arrivals ds e.longname = 1)) :
    (arrive (overloads, catalog) d).2.get? i = catalog.get? i := by
  have hlt : i ≠ catalog.size :=
    Nat.ne_of_lt (h.size_eq ▸ (List.getElem?_eq_some_iff.1 hi).1)
  by_cases hd : d.IsOwnedFunction
  · obtain ⟨-, harrive⟩ | ⟨oldId, old, hone, hold, harr, -, hget, hbase, harrive⟩ |
      ⟨how, -, -, harrive⟩ := h.arrive_cases hplain hd
    · rw [harrive, Catalog.get?_insert, if_neg hlt]
    · have hio : i ≠ oldId := by
        rintro rfl
        rw [hold] at hi
        cases hi
        exact hmeets ⟨harr.1, ⟨hd, harr.2.symm⟩, harr.2.symm ▸ hone⟩
      rw [harrive, get?_separate _ hget hbase harr.2, if_neg hlt, if_neg hio]
    · rw [harrive, get?_join, if_neg hlt]
  · rw [(arrive_unowned overloads catalog hd).1, Catalog.get?_insert, if_neg hlt]

/-- It is enough to look at the functions that the new doclet meets under its longname. -/
theorem Settled.concat (h : Settled ds overloads catalog) {overloads' : Overloads}
    {catalog' : Catalog} (hsize : catalog'.size = catalog.size + 1) (hindexed : catalog'.Indexed)
    (hother : ∀ {i : Nat} {e : Doclet}, ds[i]? = some e →
      ¬(e.IsOwnedFunction ∧ d.ArrivesAs e.longname) → catalog'.get? i = catalog.get? i)
    (hnew : (d.IsOwnedFunction → arrivals ds d.longname = 0) →
      catalog'.get? ds.length = some d)
    (hvaried : d.IsOwnedFunction → arrivals ds d.longname ≠ 0 → ∀ {i : Nat} {e : Doclet},
      (ds ++ [d])[i]? = some e → e.ArrivesAs d.longname →
      ∃ variation, catalog'.get? i = some (e.vary variation))
    (hdistinct : d.IsOwnedFunction → ∀ {i j : Nat} {e f : Doclet}, (ds ++ [d])[i]? = some e →
      (ds ++ [d])[j]? = some f → e.ArrivesAs d.longname → f.ArrivesAs d.longname → i ≠ j →
      catalog'.longnameAt? i ≠ catalog'.longnameAt? j)
    (hlatest : ∀ {base : String}, '(' ∉ base.toList → ∀ i,
      overloads'.latest.find? base = some i ↔
        arrivals (ds ++ [d]) base = 1 ∧ ∃ e, (ds ++ [d])[i]? = some e ∧ e.ArrivesAs base)
    (hover : ∀ base,
      overloads'.overloaded.find? base = none ↔ arrivals (ds ++ [d]) base ≤ 1) :
    Settled (ds ++ [d]) overloads' catalog' where
  size_eq := by rw [hsize, h.size_eq, List.length_append, List.length_singleton]
  indexed := hindexed
  kept := by
    intro i e hi hsole
    obtain hi | ⟨rfl, rfl⟩ := getElem?_concat_eq_some.1 hi
    -- a function that the new one meets is alone no longer
    · by_cases hmeets : e.IsOwnedFunction ∧ d.ArrivesAs e.longname
      · have hone := hsole hmeets.1
        have hpos := arrivals_pos_iff.2 ⟨i, e, hi, hmeets.1, rfl⟩
        rw [arrivals_concat, if_pos hmeets.2] at hone
        omega
      · rw [hother hi hmeets]
        refine h.kept hi fun he => ?_
        have hone := hsole he
        rwa [arrivals_concat, if_neg fun hd => hmeets ⟨he, hd⟩] at hone
    · refine hnew fun hd => ?_
      have hone := hsole hd
      rw [arrivals_concat, if_pos ⟨hd, rfl⟩] at hone
      omega
  varied := by
    intro i e hi he hmany
    by_cases hd : d.ArrivesAs e.longname
    · have hne : arrivals ds d.longname ≠ 0 := by
        rw [hd.2]
        obtain hi | ⟨rfl, rfl⟩ := getElem?_concat_eq_some.1 hi
        · exact Nat.ne_of_gt (arrivals_pos_iff.2 ⟨i, e, hi, he, rfl⟩)
        · rw [arrivals_concat, if_pos hd] at hmany
          omega
      exact hvaried hd.1 hne hi ⟨he, hd.2.symm⟩
    · obtain hi | ⟨rfl, rfl⟩ := getElem?_concat_eq_some.1 hi
      · rw [hother hi fun hmeets => hd hmeets.2]
        rw [arrivals_concat, if_neg hd] at hmany
        exact h.varied hi he hmany
      · exact absurd ⟨he, rfl⟩ hd
  distinct := by
    intro i j e f base hi hj he hf hne
    by_cases hd : d.ArrivesAs base
    · obtain ⟨hd, rfl⟩ := hd
      exact hdistinct hd hi hj he hf hne
    · obtain hi | ⟨rfl, rfl⟩ := getElem?_concat_eq_some.1 hi
      · obtain hj | ⟨rfl, rfl⟩ := getElem?_concat_eq_some.1 hj
        · have hold := h.distinct hi hj he hf hne
          rw [Catalog.longnameAt?, Catalog.longnameAt?,
            hother hi fun hmeets => hd (he.2 ▸ hmeets.2),
            hother hj fun hmeets => hd (hf.2 ▸ hmeets.2)]
          exact hold
        · exact absurd hf hd
      · exact absurd he hd
  latest := hlatest
  overloaded := hover

/-! What is remembered has to be looked at under the longname of the new doclet alone, if nothing
changes under the others. -/

theorem Settled.latest_concat (h : Settled ds overloads catalog) {overloads' : Overloads}
    (hsame : ∀ {base : String}, '(' ∉ base.toList → ¬d.ArrivesAs base →
      overloads'.latest.find? base = overloads.latest.find? base)
    (hhere : d.IsOwnedFunction → '(' ∉ d.longname.toList → ∀ i,
      overloads'.latest.find? d.longname = some i ↔ arrivals ds d.longname = 0 ∧ i = ds.length)
    {base : String} (hparen : '(' ∉ base.toList) (i : Nat) :
    overloads'.latest.find? base = some i ↔
      arrivals (ds ++ [d]) base = 1 ∧ ∃ e, (ds ++ [d])[i]? = some e ∧ e.ArrivesAs base := by
  by_cases hd : d.ArrivesAs base
  · obtain ⟨hd, rfl⟩ := hd
    rw [hhere hd hparen, arrivals_concat, if_pos ⟨hd, rfl⟩]
    constructor
    · rintro ⟨hzero, rfl⟩
      exact ⟨by omega, d, by simp, hd, rfl⟩
    · rintro ⟨hone, e, hi, he⟩
      refine ⟨by omega, ?_⟩
      obtain hi | ⟨hi, -⟩ := getElem?_concat_eq_some.1 hi
      · have hpos := arrivals_pos_iff.2 ⟨i, e, hi, he⟩
        omega
      · exact hi
  · rw [hsame hparen hd, h.latest hparen, arrivals_concat, if_neg hd, Nat.add_zero]
    refine and_congr_right fun _ => exists_congr fun e => ?_
    rw [getElem?_concat_eq_some]
    constructor
    · rintro ⟨hi, he⟩
      exact ⟨.inl hi, he⟩
    · rintro ⟨hi | ⟨-, rfl⟩, he⟩
      · exact ⟨hi, he⟩
      · exact absurd he hd

theorem Settled.overloaded_concat (h : Settled ds overloads catalog) {overloads' : Overloads}
    (hsame : ∀ {base : String}, ¬d.ArrivesAs base →
      overloads'.overloaded.find? base = overloads.overloaded.find? base)
    (hhere : d.IsOwnedFunction →
      (overloads'.overloaded.find? d.longname = none ↔ arrivals ds d.longname = 0))
    (base : String) :
    overloads'.overloaded.find? base = none ↔ arrivals (ds ++ [d]) base ≤ 1 := by
  by_cases hd : d.ArrivesAs base
  · obtain ⟨hd, rfl⟩ := hd
    rw [hhere hd, arrivals_concat, if_pos ⟨hd, rfl⟩]
    omega
  · rw [hsame hd, h.overloaded, arrivals_concat, if_neg hd, Nat.add_zero]

theorem Settled.get?_insert (h : Settled ds overloads catalog) {i : Nat} {e : Doclet}
    (hi : ds[i]? = some e) : (catalog.insert d).get? i = catalog.get? i := by
  have hlt : i < catalog.size := h.size_eq ▸ (List.getElem?_eq_some_iff.1 hi).1
  rw [Catalog.get?_insert, if_neg (Nat.ne_of_lt hlt)]

/-- A doclet that is no function with an owner arrives. -/
theorem Settled.unowned (h : Settled ds overloads catalog) (hd : ¬d.IsOwnedFunction) :
    Settled (ds ++ [d]) overloads (catalog.insert d) := by
  exact h.concat (catalog.size_insert d) (h.indexed.insert d) (fun hi _ => h.get?_insert hi)
    (fun _ => by simp [← h.size_eq]) (fun hd' => absurd hd' hd) (fun hd' => absurd hd' hd)
    (h.latest_concat (fun _ _ => rfl) fun hd' => absurd hd' hd)
    (h.overloaded_concat (fun _ => rfl) fun hd' => absurd hd' hd)

/-- A function arrives that is the first under its longname. -/
theorem Settled.first (h : Settled ds overloads catalog) (hd : d.IsOwnedFunction)
    (hzero : arrivals ds d.longname = 0) :
    Settled (ds ++ [d]) (overloads.remember d.longname catalog.size) (catalog.insert d) := by
  have halone : ∀ {i : Nat} {e : Doclet}, (ds ++ [d])[i]? = some e →
      e.ArrivesAs d.longname → i = ds.length := by
    intro i e hi he
    obtain hi | ⟨hi, -⟩ := getElem?_concat_eq_some.1 hi
    · have hpos := arrivals_pos_iff.2 ⟨i, e, hi, he⟩
      omega
    · exact hi
  refine h.concat (catalog.size_insert d) (h.indexed.insert d) (fun hi _ => h.get?_insert hi)
    (fun _ => by simp [← h.size_eq]) (fun _ hne => absurd hzero hne) ?_ ?_ ?_
  · intro _ i j e f hi hj he hf hne
    exact absurd ((halone hi he).trans (halone hj hf).symm) hne
  · refine h.latest_concat (fun _ harr => ?_) fun _ _ i => ?_
    · simp [remember, show d.longname ≠ _ from fun hb => harr ⟨hd, hb⟩]
    · simp [remember, hzero, h.size_eq, eq_comm]
  · refine h.overloaded_concat (fun _ => rfl) fun _ => ?_
    have hle := h.overloaded d.longname
    simpa [remember, hzero] using hle

/-- A function arrives that meets another one, alone under their longname so far. -/
theorem Settled.pair (h : Settled ds overloads catalog) (hplain : Plain (ds ++ [d]))
    (hd : d.IsOwnedFunction) {oldId : Nat} {old : Doclet} (hone : arrivals ds d.longname = 1)
    (hold : ds[oldId]? = some old) (harr : old.ArrivesAs d.longname)
    (hget : catalog.get? oldId = some old) (hbase : sharedBase old = d.longname)
    (harrive : arrive (overloads, catalog) d =
      overloads.separate (catalog.insert d) oldId catalog.size old d) :
    Settled (ds ++ [d]) (overloads.separate (catalog.insert d) oldId catalog.size old d).1
      (overloads.separate (catalog.insert d) oldId catalog.size old d).2 := by
  have hparen : '(' ∉ d.longname.toList := (hplain d (by simp) hd).2
  have hsep := get?_separate overloads hget hbase harr.2
  have hne := choosePair_ne overloads (catalog.insert d) d.longname old d
  have hlt : oldId < catalog.size := Catalog.lt_size_of_get? hget
  -- the functions under the longname are the older one and the new one
  have honly : ∀ {i : Nat} {e : Doclet}, ds[i]? = some e → e.ArrivesAs d.longname →
      i = oldId := fun hi he => h.eq_of_alone hparen hone hi he hold harr
  refine h.concat ?_ ?_ ?_ (fun hzero => ?_) ?_ ?_ ?_ ?_
  · simp only [separate, size_assign, Catalog.size_insert]
  · exact indexed_assign (indexed_assign (h.indexed.insert d) _ _ _) _ _ _
  · intro i e hi hmeets
    rw [← harrive]
    exact h.get?_arrive_other hplain hi fun hm => hmeets ⟨hm.1, hm.2.1⟩
  · have := hzero hd
    omega
  · intro _ _ i e hi he
    obtain hi | ⟨rfl, rfl⟩ := getElem?_concat_eq_some.1 hi
    · obtain rfl := honly hi he
      rw [hold] at hi
      cases hi
      exact ⟨_, by rw [hsep, if_neg (Nat.ne_of_lt hlt), if_pos rfl]⟩
    · exact ⟨_, by rw [hsep, if_pos h.size_eq.symm]⟩
  · intro _ i j e f hi hj he hf hij
    rw [Catalog.longnameAt?, Catalog.longnameAt?, hsep, hsep]
    obtain hi | ⟨rfl, rfl⟩ := getElem?_concat_eq_some.1 hi <;>
      obtain hj | ⟨rfl, rfl⟩ := getElem?_concat_eq_some.1 hj
    · exact absurd ((honly hi he).trans (honly hj hf).symm) hij
    · obtain rfl := honly hi he
      simpa [Nat.ne_of_lt hlt, ← h.size_eq, Doclet.vary, harr.2] using hne
    · obtain rfl := honly hj hf
      simpa [Nat.ne_of_lt hlt, ← h.size_eq, Doclet.vary, harr.2] using hne.symm
    · exact absurd rfl hij
  -- the shared longname is forgotten, and what is remembered instead has a parenthesis
  · refine h.latest_concat (fun hbparen harr' => ?_) fun _ _ i => ?_
    · simp [separate, record, remember, (ne_withVariation hbparen _ _).symm, harr.2,
        show d.longname ≠ _ from fun hb => harr' ⟨hd, hb⟩]
    · simp [separate, record, remember, (ne_withVariation hparen _ _).symm, harr.2, hone]
  · refine h.overloaded_concat (fun harr' => ?_) fun _ => ?_
    · simp [separate, record, remember, hbase, show d.longname ≠ _ from fun hb => harr' ⟨hd, hb⟩]
    · simp [separate, record, remember, hbase, hone]

/-- A function arrives whose longname is overloaded already. -/
theorem Settled.late (h : Settled ds overloads catalog)
    (hd : d.IsOwnedFunction) (how : Variations) (hmany : 2 ≤ arrivals ds d.longname) :
    Settled (ds ++ [d]) (overloads.join (catalog.insert d) catalog.size d how).1
      (overloads.join (catalog.insert d) catalog.size d how).2 := by
  have hjoin := get?_join overloads catalog d how
  have hkeep : ∀ {i : Nat} {e : Doclet}, ds[i]? = some e →
      (overloads.join (catalog.insert d) catalog.size d how).2.get? i = catalog.get? i := by
    intro i e hi
    have hilt : i < catalog.size := h.size_eq ▸ (List.getElem?_eq_some_iff.1 hi).1
    rw [hjoin, if_neg (Nat.ne_of_lt hilt)]
  have hnew : (overloads.join (catalog.insert d) catalog.size d how).2.get? ds.length =
      some (d.vary (chooseLate (catalog.insert d) d how).1) := by
    rw [hjoin, if_pos h.size_eq.symm]
  -- what the function is given is carried by no doclet that was there before
  have hfree : ∀ {i : Nat} {e : Doclet}, ds[i]? = some e →
      (overloads.join (catalog.insert d) catalog.size d how).2.longnameAt? i ≠
        (overloads.join (catalog.insert d) catalog.size d how).2.longnameAt? ds.length := by
    intro i e hi
    have hcarried := ((h.indexed.insert d).contains_eq_false_iff _).1
      (chooseLate_free (catalog.insert d) d how) i
    rw [Catalog.longnameAt?, h.get?_insert hi] at hcarried
    rw [Catalog.longnameAt?, Catalog.longnameAt?, hkeep hi, hnew]
    exact hcarried
  refine h.concat ?_ ?_ (fun hi _ => hkeep hi) (fun hzero => ?_) ?_ ?_ ?_ ?_
  · simp only [join, size_assign, Catalog.size_insert]
  · exact indexed_assign (h.indexed.insert d) _ _ _
  · have := hzero hd
    omega
  · intro _ _ i e hi he
    obtain hi | ⟨rfl, rfl⟩ := getElem?_concat_eq_some.1 hi
    · rw [hkeep hi]
      exact h.varied hi he.1 (by rw [he.2]; omega)
    · exact ⟨_, hnew⟩
  · intro _ i j e f hi hj he hf hij
    obtain hi | ⟨rfl, rfl⟩ := getElem?_concat_eq_some.1 hi <;>
      obtain hj | ⟨rfl, rfl⟩ := getElem?_concat_eq_some.1 hj
    · rw [Catalog.longnameAt?, Catalog.longnameAt?, hkeep hi, hkeep hj]
      exact h.distinct hi hj he hf hij
    · exact hfree hi
    · exact (hfree hj).symm
    · exact absurd rfl hij
  · refine h.latest_concat (fun hbparen _ => ?_) fun _ hparen i => ?_
    · simp [join, record, remember, (ne_withVariation hbparen _ _).symm]
    · have hold := h.latest hparen i
      simp only [join, record, remember, Table.find?_insert,
        if_neg (ne_withVariation hparen _ _).symm, hold]
      constructor
      · rintro ⟨hone, -⟩
        omega
      · rintro ⟨hzero, -⟩
        omega
  · refine h.overloaded_concat (fun harr => ?_) fun _ => ?_
    · simp [join, record, remember, show d.longname ≠ _ from fun hb => harr ⟨hd, hb⟩]
    · simp only [join, record, remember, Table.find?_insert, if_true, reduceCtorEq, false_iff]
      omega

/-- Arrivals keep the state settled. -/
theorem settled_arrive (h : Settled ds overloads catalog) (hplain : Plain (ds ++ [d])) :
    Settled (ds ++ [d]) (arrive (overloads, catalog) d).1 (arrive (overloads, catalog) d).2 := by
  by_cases hd : d.IsOwnedFunction
  · obtain ⟨hzero, harrive⟩ |
      ⟨oldId, old, hone, hold, harr, -, hget, hbase, harrive⟩ | ⟨how, hmany, -, harrive⟩ :=
      h.arrive_cases hplain hd
    · rw [harrive]
      exact h.first hd hzero
    · rw [harrive]
      exact h.pair hplain hd hone hold harr hget hbase harrive
    · rw [harrive]
      exact h.late hd how hmany
  · rw [(arrive_unowned overloads catalog hd).1]
    exact h.unowned hd

end Steps

theorem Plain.of_append {ds es : List Doclet} (h : Plain (ds ++ es)) : Plain ds :=
  fun d hd => h d (List.mem_append_left _ hd)

/-- Every run of plain arrivals leaves a settled state. -/
theorem settled_afterAll {ds : List Doclet} (hplain : Plain ds) :
    Settled ds (afterAll ds).1 (afterAll ds).2 := by
  induction ds using List.reverseRecOn with
  | nil => exact settled_nil
  | append_singleton ds d ih =>
    rw [afterAll_concat]
    exact settled_arrive (ih hplain.of_append) hplain

/-! ## Numbers stay -/

theorem record_numbered_iff (overloads : Overloads) (base : String) (how : Variations)
    (longname : String) :
    (overloads.record base how).overloaded.find? longname = some .numbered ↔
      overloads.overloaded.find? longname = some .numbered ∨
        (base = longname ∧ how = .numbered) := by
  by_cases hb : base = longname
  · subst hb
    cases how with
    | numbered => simp [record]
    | named =>
      rcases hfind : overloads.overloaded.find? base with _ | how
      · simp [record, hfind]
      · simp [record, hfind]
  · simp [record, hb]

/-- A longname is told apart by numbers from the arrival on that first uses one. -/
theorem Coherent.numbered_arrive {overloads : Overloads} {catalog : Catalog}
    (h : Coherent overloads catalog) (d : Doclet) (base : String) :
    (arrive (overloads, catalog) d).1.overloaded.find? base = some .numbered ↔
      overloads.overloaded.find? base = some .numbered ∨
        ∃ r ∈ overloads.renamings (catalog.insert d) catalog.size,
          r.base = base ∧ r.how = .numbered := by
  cases h.arrival d with
  | unowned _ harrive hrs => simp [harrive, hrs]
  | first _ harrive hrs => simp [harrive, hrs, remember]
  | pair _ _ _ _ harrive hrs =>
    simp only [harrive, hrs, separate, record_numbered_iff, remember, List.mem_cons,
      List.not_mem_nil, or_false, exists_eq_or_imp, exists_eq_left, or_self]
  | late _ _ harrive hrs =>
    simp only [harrive, hrs, join, record_numbered_iff, remember, List.mem_singleton,
      exists_eq_left]

/-- Some arrival of a run gives a function a number as a variation of a longname. -/
def Numbered (ds : List Doclet) (base : String) : Prop :=
  ∃ before d after, ds = before ++ d :: after ∧
    ∃ r ∈ (afterAll before).1.renamings ((afterAll before).2.insert d) before.length,
      r.base = base ∧ r.how = .numbered

theorem numbered_concat_iff (ds : List Doclet) (d : Doclet) (base : String) :
    Numbered (ds ++ [d]) base ↔ Numbered ds base ∨
      ∃ r ∈ (afterAll ds).1.renamings ((afterAll ds).2.insert d) ds.length,
        r.base = base ∧ r.how = .numbered := by
  constructor
  · rintro ⟨before, e, after, heq, hr⟩
    rcases List.eq_nil_or_concat after with rfl | ⟨after, x, rfl⟩
    · obtain ⟨rfl, hlast⟩ := List.append_inj' heq rfl
      cases hlast
      exact .inr hr
    · rw [List.concat_eq_append, ← List.cons_append, ← List.append_assoc] at heq
      exact .inl ⟨before, e, after, (List.append_inj' heq rfl).1, hr⟩
  · rintro (⟨before, e, after, rfl, hr⟩ | hr)
    · exact ⟨before, e, after ++ [d], by simp, hr⟩
    · exact ⟨ds, d, [], rfl, hr⟩

/-- Numbers once used for a longname are what the run remembers of it. -/
theorem numbered_iff (ds : List Doclet) (base : String) :
    Numbered ds base ↔ (afterAll ds).1.overloaded.find? base = some .numbered := by
  induction ds using List.reverseRecOn with
  | nil => simp [Numbered, afterAll]
  | append_singleton ds d ih =>
    rw [numbered_concat_iff, ih, afterAll_concat, ← size_afterAll ds,
      ← (coherent_afterAll ds).numbered_arrive]

theorem contains_insert_of_ne {catalog : Catalog} {d : Doclet} {longname : String}
    (h : d.longname ≠ longname) :
    (catalog.insert d).contains longname = catalog.contains longname := by
  rw [Catalog.contains, Catalog.lookup_insert, if_neg h, Catalog.contains]

theorem contains_insert_numberedName (catalog : Catalog) (d : Doclet) (n : Nat) :
    (catalog.insert d).contains (numberedName d.longname n) =
      catalog.contains (numberedName d.longname n) :=
  contains_insert_of_ne (withVariation_ne_self d.longname _).symm

theorem isFree_insert (catalog : Catalog) (d : Doclet) (above n : Nat) :
    IsFree (catalog.insert d) d.longname above n ↔ IsFree catalog d.longname above n := by
  rw [IsFree, IsFree, contains_insert_numberedName]

/-- Once numbers are used, a further function gets the least that is free. -/
theorem get?_afterAll_of_numbered {ds : List Doclet} {d : Doclet} (hplain : Plain (ds ++ [d]))
    (hd : d.IsOwnedFunction) (hnumbered : Numbered ds d.longname) :
    ∃ n, IsLeast {n | IsFree (afterAll ds).2 d.longname 0 n} n ∧
      (afterAll (ds ++ [d])).2.get? ds.length = some (d.vary (toString n)) := by
  have h := settled_afterAll hplain.of_append
  have hover := (numbered_iff ds d.longname).1 hnumbered
  have hmany : ¬arrivals ds d.longname ≤ 1 := by
    rw [← h.overloaded, hover]
    simp
  obtain ⟨hzero, -⟩ | ⟨_, _, hone, -⟩ | ⟨how, -, hhow, harrive⟩ := h.arrive_cases hplain hd
  · omega
  · omega
  · rw [hover] at hhow
    cases hhow
    refine ⟨freeNumber ((afterAll ds).2.insert d) d.longname 0, ?_, ?_⟩
    · have hleast := freeNumber_isLeast ((afterAll ds).2.insert d) d.longname 0
      simpa only [isFree_insert] using hleast
    · rw [afterAll_concat, harrive, get?_join, if_pos h.size_eq.symm, chooseLate_numbered]

/-! ## Overloads that only numbers tell apart -/

/-- All functions that arrive under a longname have the same parameters, and no other doclet arrives
as a numbered variation of it. -/
structure Identical (ds : List Doclet) (base : String) : Prop where
  params : ∀ d ∈ ds, ∀ e ∈ ds, d.ArrivesAs base → e.ArrivesAs base →
    paramVariation d.params = paramVariation e.params
  others : ∀ d ∈ ds, ¬d.ArrivesAs base → ∀ n, d.longname ≠ numberedName base n

theorem Identical.of_append {ds es : List Doclet} {base : String}
    (h : Identical (ds ++ es) base) : Identical ds base where
  params := fun d hd e he => h.params d (List.mem_append_left _ hd) e (List.mem_append_left _ he)
  others := fun d hd => h.others d (List.mem_append_left _ hd)

/-- A function comes after fewer functions of its longname than there are. -/
theorem arrivals_take_lt {ds : List Doclet} {i : Nat} {d : Doclet} {base : String}
    (hi : ds[i]? = some d) (hd : d.ArrivesAs base) :
    arrivals (ds.take i) base < arrivals ds base := by
  obtain ⟨hlt, hget⟩ := List.getElem?_eq_some_iff.1 hi
  have hsplit : arrivals ds base =
      arrivals (ds.take i) base + arrivals (ds.drop i) base := by
    rw [arrivals, arrivals, arrivals, ← List.countP_append, List.take_append_drop]
  have hpos : 0 < arrivals (ds.drop i) base :=
    arrivals_pos_iff.2 ⟨0, d, by simp [hi], hd⟩
  omega

/-- Each number below the number of arrivals is the number of those before some arrival. -/
theorem exists_arrival (ds : List Doclet) (base : String) {n : Nat} (hn : n < arrivals ds base) :
    ∃ (i : Nat) (d : Doclet), ds[i]? = some d ∧ d.ArrivesAs base ∧
      arrivals (ds.take i) base = n := by
  induction ds using List.reverseRecOn with
  | nil => simp [arrivals] at hn
  | append_singleton ds d ih =>
    by_cases hlt : n < arrivals ds base
    · obtain ⟨i, e, hi, he, hcount⟩ := ih hlt
      have hle : i ≤ ds.length := Nat.le_of_lt (List.getElem?_eq_some_iff.1 hi).1
      exact ⟨i, e, getElem?_concat_eq_some.2 (.inl hi), he,
        by rw [List.take_append_of_le_length hle, hcount]⟩
    · rw [arrivals_concat] at hn
      split at hn
      · rename_i hd
        refine ⟨ds.length, d, by simp, hd, ?_⟩
        rw [List.take_left]
        omega
      · omega

/-- Only functions that arrived under a longname become numbered variations of it. -/
theorem Settled.arrivesAs_of_numberedName {ds : List Doclet} {overloads : Overloads}
    {catalog : Catalog} {base : String} {i n : Nat} (h : Settled ds overloads catalog)
    (hplain : Plain ds) (hbase : '(' ∉ base.toList)
    (hothers : ∀ d ∈ ds, ¬d.ArrivesAs base → ∀ n, d.longname ≠ numberedName base n)
    (hname : catalog.longnameAt? i = some (numberedName base n)) :
    ∃ d, ds[i]? = some d ∧ d.ArrivesAs base := by
  obtain ⟨e, he, hlong⟩ := Option.map_eq_some_iff.1 hname
  have hlt : i < ds.length := h.size_eq ▸ Catalog.lt_size_of_get? he
  have hi : ds[i]? = some ds[i] := List.getElem?_eq_getElem hlt
  refine ⟨ds[i], hi, ?_⟩
  by_contra hnot
  -- a doclet that is as it came is excluded, and one that is varied shows its base
  by_cases hkept : ds[i].IsOwnedFunction → arrivals ds ds[i].longname = 1
  · rw [h.kept hi hkept, Option.some.injEq] at he
    exact hothers _ (List.getElem_mem hlt) hnot n (he ▸ hlong)
  · rw [Classical.not_imp] at hkept
    obtain ⟨variation, hget⟩ := h.varied hi hkept.1 hkept.2
    rw [hget, Option.some.injEq] at he
    have hparen := (hplain _ (List.getElem_mem hlt) hkept.1).2
    exact hnot ⟨hkept.1, base_eq_of_withVariation_eq hparen hbase (he ▸ hlong)⟩

/-- Two functions with the same parameters and no variation have no variations of their own. -/
theorem pairVariations?_eq_none {old new : Doclet} (hold : old.variation = none)
    (hnew : new.variation = none)
    (hparams : paramVariation old.params = paramVariation new.params) :
    pairVariations? old new = none := by
  simp [pairVariations?, ownVariation, hold, hnew, hparams]

/-- If a longname is free with every number, the first two are taken. -/
theorem numberPair_eq {catalog : Catalog} {base : String}
    (hfree : ∀ n, catalog.contains (numberedName base n) = false) :
    numberPair catalog base = (toString 1, toString 2) := by
  have hnext : ∀ above, freeNumber catalog base above = above + 1 := by
    intro above
    refine (freeNumber_isLeast catalog base above).unique ⟨⟨Nat.lt_succ_self above, hfree _⟩, ?_⟩
    rintro n ⟨hn, -⟩
    exact hn
  simp only [numberPair, hnext]

section Order

variable {ds : List Doclet} {d : Doclet}

/-- The second of two functions that only numbers tell apart. -/
theorem afterAll_second (hplain : Plain (ds ++ [d])) (hident : Identical (ds ++ [d]) d.longname)
    (hd : d.IsOwnedFunction) (hone : arrivals ds d.longname = 1) :
    Numbered (ds ++ [d]) d.longname ∧
      ∀ {i : Nat} {e : Doclet}, (ds ++ [d])[i]? = some e → e.ArrivesAs d.longname →
        (afterAll (ds ++ [d])).2.longnameAt? i =
          some (numberedName d.longname (arrivals ((ds ++ [d]).take i) d.longname + 1)) := by
  have h := settled_afterAll hplain.of_append
  have hparen := (hplain d (by simp) hd).2
  obtain ⟨hzero, -⟩ | ⟨oldId, old, -, hold, harr, hlt, hget, hbase, harrive⟩ | ⟨how, hmany, -⟩ :=
    h.arrive_cases hplain hd
  · omega
  · have hmem : old ∈ ds ++ [d] := List.mem_append_left _ (List.mem_of_getElem? hold)
    -- no doclet is named by a number yet, not even the older function
    have hfree : ∀ n, ((afterAll ds).2.insert d).contains (numberedName d.longname n) = false := by
      intro n
      rw [contains_insert_numberedName, h.indexed.contains_eq_false_iff]
      intro i hname
      obtain ⟨e, hi, he⟩ := h.arrivesAs_of_numberedName hplain.of_append hparen
        hident.of_append.others hname
      rw [Catalog.longnameAt?, h.kept hi fun _ => he.2 ▸ hone] at hname
      exact withVariation_ne_self d.longname _ ((Option.some.inj hname).symm.trans he.2)
    have hchoose : (afterAll ds).1.choosePair ((afterAll ds).2.insert d) d.longname old d =
        ((toString 1, toString 2), .numbered) := by
      obtain ⟨pair, hpair, -⟩ | hchoose :=
        choosePair_cases (afterAll ds).1 ((afterAll ds).2.insert d) d.longname old d
      · have hnone := pairVariations?_eq_none (hplain old hmem harr.1).1
          (hplain d (by simp) hd).1 (hident.params old hmem d (by simp) harr ⟨hd, rfl⟩)
        rw [hnone] at hpair
        cases hpair
      · rw [hchoose, numberPair_eq hfree]
    refine ⟨?_, ?_⟩
    · rw [numbered_iff, afterAll_concat, harrive]
      simp only [separate, hbase, hchoose, record_numbered_iff]
      exact .inr ⟨trivial, trivial⟩
    · intro i e hi he
      rw [afterAll_concat, harrive, Catalog.longnameAt?, get?_separate _ hget hbase harr.2, hchoose]
      obtain hi | ⟨rfl, rfl⟩ := getElem?_concat_eq_some.1 hi
      · obtain rfl := h.eq_of_alone hparen hone hi he hold harr
        have hlt' := arrivals_take_lt hi he
        have hzero : arrivals ((ds ++ [d]).take i) d.longname = 0 := by
          rw [List.take_append_of_le_length (h.size_eq ▸ Nat.le_of_lt hlt)]
          omega
        rw [if_neg (Nat.ne_of_lt hlt), if_pos rfl, hzero]
        simp only [Doclet.vary, harr.2]
        rfl
      · rw [if_pos h.size_eq.symm, List.take_left, hone]
        rfl
  · omega

/-- A further one of several functions that only numbers tell apart. -/
theorem afterAll_further (hplain : Plain (ds ++ [d]))
    (hident : Identical (ds ++ [d]) d.longname) (hd : d.IsOwnedFunction)
    (hnumbered : Numbered ds d.longname)
    (horder : ∀ {i : Nat} {e : Doclet}, ds[i]? = some e → e.ArrivesAs d.longname →
      (afterAll ds).2.longnameAt? i =
        some (numberedName d.longname (arrivals (ds.take i) d.longname + 1))) :
    (afterAll (ds ++ [d])).2.longnameAt? ds.length =
      some (numberedName d.longname (arrivals ds d.longname + 1)) := by
  have h := settled_afterAll hplain.of_append
  have hparen := (hplain d (by simp) hd).2
  obtain ⟨n, hleast, hget⟩ := get?_afterAll_of_numbered hplain hd hnumbered
  -- the numbers in use are exactly those of the functions before
  have hnext : IsLeast {n | IsFree (afterAll ds).2 d.longname 0 n}
      (arrivals ds d.longname + 1) := by
    refine ⟨⟨Nat.succ_pos _, (h.indexed.contains_eq_false_iff _).2 ?_⟩, ?_⟩
    · intro i hname
      obtain ⟨e, hi, he⟩ := h.arrivesAs_of_numberedName hplain.of_append hparen
        hident.of_append.others hname
      rw [horder hi he, Option.some.injEq] at hname
      have heq := numberedName_injective d.longname hname
      have hlt := arrivals_take_lt hi he
      omega
    · rintro m ⟨hm, hfree⟩
      by_contra hle
      -- a smaller number belongs to the function that has as many before it, less one
      obtain ⟨i, e, hi, he, hcount⟩ :=
        exists_arrival ds d.longname (show m - 1 < arrivals ds d.longname by omega)
      have hname := horder hi he
      rw [hcount, Nat.sub_add_cancel hm] at hname
      exact (h.indexed.contains_eq_false_iff _).1 hfree i hname
  rw [Catalog.longnameAt?, hget, hleast.unique hnext]
  rfl

/-- Functions that only numbers tell apart are numbered in the order of their arrival. -/
theorem longnameAt?_afterAll_of_identical {base : String} (hplain : Plain ds)
    (hident : Identical ds base) (hmany : 2 ≤ arrivals ds base) :
    Numbered ds base ∧ ∀ {i : Nat} {d : Doclet}, ds[i]? = some d → d.ArrivesAs base →
      (afterAll ds).2.longnameAt? i =
        some (numberedName base (arrivals (ds.take i) base + 1)) := by
  induction ds using List.reverseRecOn with
  | nil => simp [arrivals] at hmany
  | append_singleton ds d ih =>
    have h := settled_afterAll hplain.of_append
    -- the second function under the longname numbers the first one too, so it starts the induction
    by_cases hsecond : d.ArrivesAs base ∧ arrivals ds base = 1
    · obtain ⟨⟨hd, rfl⟩, hone⟩ := hsecond
      exact afterAll_second hplain hident hd hone
    · have hmany' : 2 ≤ arrivals ds base := by
        rw [arrivals_concat] at hmany
        split at hmany
        · rename_i hd
          have hne : arrivals ds base ≠ 1 := fun hone => hsecond ⟨hd, hone⟩
          omega
        · exact hmany
      obtain ⟨hnumbered, horder⟩ := ih hplain.of_append hident.of_append hmany'
      refine ⟨(numbered_concat_iff ds d base).2 (.inl hnumbered), ?_⟩
      intro i e hi he
      obtain hi | ⟨rfl, rfl⟩ := getElem?_concat_eq_some.1 hi
      · have hle : i ≤ ds.length := Nat.le_of_lt (List.getElem?_eq_some_iff.1 hi).1
        rw [afterAll_concat, Catalog.longnameAt?,
          h.get?_arrive_other hplain hi fun hm => by rw [he.2] at hm; omega,
          List.take_append_of_le_length hle]
        exact horder hi he
      · obtain ⟨hd, rfl⟩ := he
        rw [List.take_left]
        exact afterAll_further hplain hident hd hnumbered horder

end Order

/-! ## Whole runs -/

section Runs

variable {ds : List Doclet}

/-- No two functions with an owner end up with the same longname. -/
theorem longnameAt?_afterAll_ne (hplain : Plain ds) {i j : Nat} {d e : Doclet}
    (hi : ds[i]? = some d) (hj : ds[j]? = some e) (hd : d.IsOwnedFunction)
    (he : e.IsOwnedFunction) (hij : i ≠ j) :
    (afterAll ds).2.longnameAt? i ≠ (afterAll ds).2.longnameAt? j := by
  have h := settled_afterAll hplain
  have hdparen := (hplain d (List.mem_of_getElem? hi) hd).2
  have heparen := (hplain e (List.mem_of_getElem? hj) he).2
  by_cases hsame : d.longname = e.longname
  · exact h.distinct hi hj ⟨hd, rfl⟩ ⟨he, hsame.symm⟩ hij
  · rw [Catalog.longnameAt?, Catalog.longnameAt?]
    by_cases hdone : arrivals ds d.longname = 1 <;> by_cases heone : arrivals ds e.longname = 1
    · rw [h.kept hi fun _ => hdone, h.kept hj fun _ => heone]
      simpa using hsame
    · obtain ⟨w, hw⟩ := h.varied hj he heone
      rw [h.kept hi fun _ => hdone, hw]
      simpa [Doclet.vary] using ne_withVariation hdparen e.longname w
    · obtain ⟨v, hv⟩ := h.varied hi hd hdone
      rw [h.kept hj fun _ => heone, hv]
      simpa [Doclet.vary] using (ne_withVariation heparen d.longname v).symm
    · obtain ⟨v, hv⟩ := h.varied hi hd hdone
      obtain ⟨w, hw⟩ := h.varied hj he heone
      rw [hv, hw]
      simp only [Option.map_some, ne_eq, Option.some.injEq]
      exact fun heq => hsame (base_eq_of_withVariation_eq hdparen heparen heq)

/-- A function keeps its longname if it is alone under it, and else is a variation of it. -/
theorem get?_afterAll (hplain : Plain ds) {i : Nat} {d : Doclet} (hi : ds[i]? = some d)
    (hd : d.IsOwnedFunction) :
    ∃ e, (afterAll ds).2.get? i = some e ∧
      (e.longname = d.longname ↔ arrivals ds d.longname = 1) ∧
      (arrivals ds d.longname ≠ 1 →
        ∃ v, e.variation = some v ∧ e.longname = withVariation d.longname v) := by
  have h := settled_afterAll hplain
  by_cases hone : arrivals ds d.longname = 1
  · exact ⟨d, h.kept hi fun _ => hone, by simp [hone], fun hne => absurd hone hne⟩
  · obtain ⟨v, hv⟩ := h.varied hi hd hone
    refine ⟨d.vary v, hv, ?_, fun _ => ⟨v, rfl, rfl⟩⟩
    simpa [Doclet.vary, hone] using withVariation_ne_self d.longname v

end Runs

/-- What a run of plain arrivals comes to. Functions with an owner have different longnames; one
keeps the longname under which it arrived if no other arrived under it, and else is a variation of
it; once a longname has a numbered variation, each further function that arrives under it gets the
least free number; and functions that only numbers tell apart are numbered from one on, in order. -/
theorem afterAll_numbering (ds : List Doclet) (hplain : Plain ds) :
    (∀ (i j : Nat) (d e : Doclet), ds[i]? = some d → ds[j]? = some e → d.IsOwnedFunction →
        e.IsOwnedFunction → i ≠ j →
        (afterAll ds).2.longnameAt? i ≠ (afterAll ds).2.longnameAt? j) ∧
      (∀ (i : Nat) (d : Doclet), ds[i]? = some d → d.IsOwnedFunction →
        ∃ e, (afterAll ds).2.get? i = some e ∧
          (e.longname = d.longname ↔ arrivals ds d.longname = 1) ∧
          (arrivals ds d.longname ≠ 1 →
            ∃ v, e.variation = some v ∧ e.longname = withVariation d.longname v)) ∧
      (∀ (before after : List Doclet) (d : Doclet), ds = before ++ d :: after →
        d.IsOwnedFunction → Numbered before d.longname →
        ∃ n, IsLeast {n | 0 < n ∧
            (afterAll before).2.contains (numberedName d.longname n) = false} n ∧
          (afterAll (before ++ [d])).2.get? before.length = some (d.vary (toString n))) ∧
      (∀ (base : String), Identical ds base → 2 ≤ arrivals ds base →
        ∀ (i : Nat) (d : Doclet), ds[i]? = some d → d.ArrivesAs base →
          (afterAll ds).2.longnameAt? i =
            some (numberedName base (arrivals (ds.take i) base + 1))) := by
  refine ⟨?_, ?_, ?_, ?_⟩
  · intro i j d e hi hj hd he hij
    exact longnameAt?_afterAll_ne hplain hi hj hd he hij
  · intro i d hi hd
    exact get?_afterAll hplain hi hd
  · rintro before after d rfl hd hnumbered
    have hplain' : Plain (before ++ [d]) := by
      rw [← List.singleton_append, ← List.append_assoc] at hplain
      exact hplain.of_append
    exact get?_afterAll_of_numbered hplain' hd hnumbered
  · intro base hident hmany i d hi hd
    exact (longnameAt?_afterAll_of_identical hplain hident hmany).2 hi hd

/-- A method with one parameter. -/
def sampleMethod (longname param : String) : Doclet :=
  { longname, memberof := some "Soup", kind := some .function, params := [{ name := some param }] }

/-- Three equal overloads, and another method among them. -/
def sampleRun : List Doclet :=
  [sampleMethod "Soup#heat" "degrees", sampleMethod "Soup#stir" "spoon",
    sampleMethod "Soup#heat" "degrees", sampleMethod "Soup#heat" "degrees"]

/-- The last of three equal overloads gets the number three. -/
theorem afterAll_numbering_sampleRun :
    Plain sampleRun ∧ (afterAll sampleRun).2.longnameAt? 3 = some "Soup#heat(3)" := by
  have hplain : Plain sampleRun := by
    unfold Plain
    decide
  have howned : ∀ d ∈ sampleRun, d.IsOwnedFunction := by decide
  have hident : Identical sampleRun "Soup#heat" := by
    constructor
    · decide
    · intro d hd _ n
      exact ne_withVariation (hplain d hd (howned d hd)).2 _ _
  exact ⟨hplain, (afterAll_numbering _ hplain).2.2.2 "Soup#heat" hident (by decide) 3 _ rfl
    ⟨by decide, rfl⟩⟩

end Overloads

end Commentary
