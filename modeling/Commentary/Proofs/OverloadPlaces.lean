import Commentary.Proofs.OverloadRun
import Commentary.Proofs.WellPlaced

/-!
# Overloads stay in their places

Telling functions apart rewrites longnames, so it could tear a longname from the fields of its
doclet. It does not: a longname is rewritten at its first parenthesis, and that is where the
variation of a filed doclet starts (`isFiled_vary`). So a run in which every doclet arrives filed
keeps all of them filed (`filed_afterAll`).
-/

namespace Commentary

open Longname

namespace Overloads

/-! ## Variations that are chosen -/

theorem fills_append {s t : String} (hs : Fills s) (ht : Fills t) : Fills (s ++ t) := by
  intro c hc
  rw [String.toList_append, List.mem_append] at hc
  exact hc.elim (hs c) (ht c)

theorem fills_intercalate {separator : String} (hseparator : Fills separator)
    {texts : List String} (htexts : ∀ text ∈ texts, Fills text) :
    Fills (separator.intercalate texts) := by
  induction texts with
  | nil => exact fun c hc => by simp at hc
  | cons text texts ih =>
    rw [List.forall_mem_cons] at htexts
    by_cases hnil : texts = []
    · rw [hnil, String.intercalate_singleton]
      exact htexts.1
    · rw [String.intercalate_cons_of_ne_nil hnil]
      exact fills_append (fills_append htexts.1 hseparator) (ih htexts.2)

theorem fills_toString (n : Nat) : Fills (toString n) := by
  intro c hc
  rw [show toString n = n.repr from rfl, Nat.toList_repr] at hc
  have hdigit := Nat.isDigit_of_mem_toDigits (by decide) (by decide) hc
  have hne : ∀ e : Char, e.isDigit = false → c ≠ e := by
    rintro e he rfl
    rw [hdigit] at he
    cases he
  have hquote : Text.isQuote c = false := by
    simp only [Text.isQuote, Bool.or_eq_false_iff, beq_eq_false_iff_ne]
    exact ⟨hne _ rfl, hne _ rfl⟩
  exact isFiller_iff.2 ⟨hquote, hne _ rfl, hne _ rfl, hne _ rfl⟩

variable {d old : Doclet}

/-- The names of the parameters of a filed doclet can stand in a variation. -/
theorem fills_paramVariation (h : d.IsFiled) : Fills (paramVariation d.params) := by
  refine fills_intercalate (by decide) fun label hlabel => ?_
  obtain ⟨param, hparam, rfl⟩ := List.mem_map.1 (List.mem_of_mem_filter hlabel)
  have hname : Fills (param.name.getD "") := by
    cases hsome : param.name with
    | none => exact by decide
    | some name => exact h.params param hparam name hsome
  refine fills_append ?_ hname
  split
  · decide
  · decide

theorem fills_ownVariation (h : d.IsFiled) : Fills (ownVariation d) := by
  unfold ownVariation
  cases hsome : d.variation.filter (!·.isEmpty) with
  | none => exact fills_paramVariation h
  | some variation => exact h.variation variation (Option.filter_eq_some_iff.1 hsome).1

theorem fills_choosePair (overloads : Overloads) (catalog : Catalog) (base : String)
    (hold : old.IsFiled) (hd : d.IsFiled) :
    Fills (overloads.choosePair catalog base old d).1.1 ∧
      Fills (overloads.choosePair catalog base old d).1.2 := by
  rcases choosePair_cases overloads catalog base old d with ⟨pair, hpair, -, -, heq⟩ | heq
  · have hparams : Fills (paramVariation old.params) ∧ Fills (paramVariation d.params) :=
      ⟨fills_paramVariation hold, fills_paramVariation hd⟩
    have hown : Fills (ownVariation old) ∧ Fills (ownVariation d) :=
      ⟨fills_ownVariation hold, fills_ownVariation hd⟩
    simp only [pairVariations?, Option.ite_none_left_eq_some, Option.some.injEq] at hpair
    obtain ⟨-, rfl⟩ := hpair
    rw [heq]
    -- whichever pair is taken first, the names of the parameters may take its place
    have hpair : ∀ own : String × String, Fills own.1 ∧ Fills own.2 →
        Fills (if own.1 = own.2 then (paramVariation old.params, paramVariation d.params)
          else own).1 ∧
        Fills (if own.1 = own.2 then (paramVariation old.params, paramVariation d.params)
          else own).2 := by
      intro own hown
      split
      · exact hparams
      · exact hown
    refine hpair _ ?_
    split
    · exact hparams
    · exact hown
  · rw [heq]
    exact ⟨fills_toString _, fills_toString _⟩

theorem fills_chooseLate (catalog : Catalog) (hd : d.IsFiled) (how : Variations) :
    Fills (chooseLate catalog d how).1 := by
  unfold chooseLate
  simp only
  split
  · exact fills_ownVariation hd
  · exact fills_toString _

/-! ## Rewriting longnames -/

theorem withVariation_eq (base variation : String) :
    withVariation base variation = base ++ variationSuffix (some variation) := by
  rw [withVariation, variationSuffix]
  simp only [String.append_assoc]

/-- Up to its first parenthesis a longname is what its variation stands behind. -/
theorem base_eq_of_append_eq {b b' : String} {v v' : Option String} (hb : '(' ∉ b.toList)
    (hb' : '(' ∉ b'.toList) (h : b ++ variationSuffix v = b' ++ variationSuffix v') : b = b' := by
  cases v with
  | none =>
    cases v' with
    | none => simpa [variationSuffix] using h
    | some w =>
      rw [← withVariation_eq] at h
      exact absurd (by simpa [variationSuffix] using h) (ne_withVariation hb b' w)
  | some w =>
    cases v' with
    | none =>
      rw [← withVariation_eq] at h
      exact absurd (by simpa [variationSuffix] using h.symm) (ne_withVariation hb' b w)
    | some w' =>
      rw [← withVariation_eq, ← withVariation_eq] at h
      exact base_eq_of_withVariation_eq hb hb' h

/-- What the variation of a doclet stands behind in its longname, a path without parentheses. -/
structure IsBase (d : Doclet) (base : String) : Prop where
  path : IsPath base.toList
  unopened : '(' ∉ base.toList
  longname : d.longname = base ++ variationSuffix d.variation

theorem IsBase.eq {b b' : String} (h : IsBase old b) (h' : IsBase d b')
    (heq : old.longname = d.longname) : b = b' := by
  rw [h.longname, h'.longname] at heq
  exact base_eq_of_append_eq h.unopened h'.unopened heq

theorem not_hasNamespace (hd : d.IsOwnedFunction) : ¬d.HasNamespace := by
  rw [Doclet.HasNamespace, hd.1]
  decide

/-- The base of a function is its owner, the delimiter of its scope and its name. -/
theorem exists_base (h : d.IsFiled) (hd : d.IsOwnedFunction) :
    ∃ owner scope, d.memberof = some owner ∧ d.scope = some scope ∧ scope ≠ .global ∧
      IsPath owner.toList ∧ IsBase d (owner ++ scope.punctuation ++ d.name) := by
  obtain ⟨owner, howner⟩ := Option.ne_none_iff_exists'.1 hd.2
  obtain ⟨hname, hopen⟩ := h.name hd.2
  obtain ⟨hpath, scope, segment, hscope, hne, -, hlongname, hown⟩ := h.placed.below owner howner
  refine ⟨owner, scope, howner, hscope, hne, hpath, isPath_below hpath hne hname,
    unopened_below (h.owner owner howner) hopen, ?_⟩
  rw [hlongname, hown (not_hasNamespace hd), Doclet.segment, h.unborrowed]
  simp [String.append_assoc]

/-- A function stays filed with another variation. -/
theorem isFiled_vary (h : d.IsFiled) (hd : d.IsOwnedFunction) {base variation : String}
    (hbase : IsBase d base) (hvariation : Fills variation) :
    { d with longname := withVariation base variation,
             variation := some variation : Doclet }.IsFiled := by
  obtain ⟨owner, scope, howner, hscope, hne, hpath, hown⟩ := exists_base h hd
  have hfills : ∀ v, some variation = some v → Fills v := by
    rintro v ⟨⟩
    exact hvariation
  obtain rfl : base = owner ++ scope.punctuation ++ d.name := hbase.eq hown rfl
  refine ⟨⟨?_, fun owner' howner' => ?_⟩, h.unborrowed, h.name, h.owner, hfills, h.params,
    h.borrows⟩
  · rw [withVariation_eq]
    exact isPath_append_variation hbase.path hfills
  · obtain rfl : owner = owner' := Option.some.inj (howner.symm.trans howner')
    refine ⟨hpath, scope, d.name ++ variationSuffix (some variation), hscope, hne,
      isSegment_append_variation (h.name hd.2).1 hfills, ?_, fun _ => ?_⟩
    · rw [withVariation_eq, String.append_assoc]
    · rw [Doclet.segment, h.unborrowed]
      rfl

/-- Two functions of one longname share the base that the older one gives. -/
theorem isBase_sharedBase (hold : old.IsFiled) (hfunction : old.IsOwnedFunction) :
    IsBase old (sharedBase old) := by
  obtain ⟨owner, scope, -, -, -, -, hbase⟩ := exists_base hold hfunction
  suffices heq : sharedBase old = owner ++ scope.punctuation ++ old.name by
    rw [heq]
    exact hbase
  cases hvariation : old.variation with
  | none =>
    have hlongname := hbase.longname
    rw [hvariation] at hlongname
    rw [sharedBase, hvariation]
    simpa [variationSuffix] using hlongname
  | some v =>
    have hstrip := stripVariation_varied hbase.path.whole hbase.path.paired hbase.unopened
      (hold.variation v hvariation)
    have hlongname := hbase.longname
    rw [hvariation] at hlongname
    have hchars : old.longname = String.ofList
        ((owner ++ scope.punctuation ++ old.name).toList ++ variationChars (some v.toList)) := by
      rw [hlongname, ← String.toList_inj, String.toList_append, toList_variationSuffix_some,
        String.toList_ofList]
    rw [sharedBase, hvariation, Option.isSome_some, if_pos rfl, hchars, hstrip,
      String.ofList_toList]

theorem IsBase.of_longname_eq {base : String} (hbase : IsBase old base) (hd : d.IsFiled)
    (hfunction : d.IsOwnedFunction) (heq : old.longname = d.longname) : IsBase d base := by
  obtain ⟨owner, scope, -, -, -, -, hown⟩ := exists_base hd hfunction
  rw [hbase.eq hown heq]
  exact hown

/-- A longname without a parenthesis is its own base. -/
theorem isBase_self (hd : d.IsFiled) (hfunction : d.IsOwnedFunction)
    (hopen : '(' ∉ d.longname.toList) : IsBase d d.longname := by
  obtain ⟨owner, scope, -, -, -, -, hbase⟩ := exists_base hd hfunction
  suffices heq : d.longname = owner ++ scope.punctuation ++ d.name by
    rw [← heq] at hbase
    exact hbase
  have hlongname := hbase.longname
  cases hvariation : d.variation with
  | none =>
    rw [hvariation] at hlongname
    simpa [variationSuffix] using hlongname
  | some v =>
    rw [hvariation, ← withVariation_eq] at hlongname
    exact absurd hlongname (ne_withVariation hopen _ v)

/-! ## Arrivals -/

/-- Whether there is a function with an owner at a position. -/
def OwnsAt (catalog : Catalog) (id : Nat) : Prop :=
  ∃ d, catalog.get? id = some d ∧ d.IsOwnedFunction

/-- All doclets are filed, only functions are remembered, and no longname with overloads has a
parenthesis. -/
structure Filed (overloads : Overloads) (catalog : Catalog) : Prop where
  all : ∀ {id : Nat} {d : Doclet}, catalog.get? id = some d → d.IsFiled
  latest : ∀ {longname : String} {id : Nat}, overloads.latest.find? longname = some id →
    OwnsAt catalog id
  overloaded : ∀ {base : String} {how : Variations},
    overloads.overloaded.find? base = some how → '(' ∉ base.toList

section Arrival

variable {overloads : Overloads} {catalog : Catalog}

theorem OwnsAt.assign {id : Nat} (h : OwnsAt catalog id) (i : Nat) (base variation : String) :
    OwnsAt (assign catalog i base variation) id := by
  obtain ⟨d, hget, hd⟩ := h
  rw [OwnsAt, get?_assign, hget]
  split
  · exact ⟨_, rfl, hd⟩
  · exact ⟨d, rfl, hd⟩

theorem Filed.insert (h : Filed overloads catalog) (hd : d.IsFiled) :
    Filed overloads (catalog.insert d) where
  all := fun hget => by
    rw [Catalog.get?_insert] at hget
    split at hget
    · cases hget
      exact hd
    · exact h.all hget
  latest := fun hfind => by
    obtain ⟨e, hget, he⟩ := h.latest hfind
    exact ⟨e, Catalog.get?_insert_of_get? hget, he⟩
  overloaded := h.overloaded

theorem Filed.assign (h : Filed overloads catalog) {id : Nat} (hget : catalog.get? id = some d)
    (hd : d.IsOwnedFunction) {base variation : String} (hbase : IsBase d base)
    (hvariation : Fills variation) : Filed overloads (assign catalog id base variation) where
  all := fun {i e} he => by
    rw [get?_assign] at he
    split at he
    · rename_i hi
      rw [hi, hget] at he
      cases he
      exact isFiled_vary (h.all hget) hd hbase hvariation
    · exact h.all he
  latest := fun hfind => (h.latest hfind).assign id base variation
  overloaded := h.overloaded

theorem Filed.remember (h : Filed overloads catalog) {id : Nat} (hid : OwnsAt catalog id)
    (longname : String) : Filed (overloads.remember longname id) catalog where
  all := h.all
  latest := fun hfind => by
    simp only [Overloads.remember, Table.find?_insert] at hfind
    split at hfind
    · cases hfind
      exact hid
    · exact h.latest hfind
  overloaded := h.overloaded

theorem Filed.forget (h : Filed overloads catalog) (longname : String) :
    Filed { overloads with latest := overloads.latest.erase longname } catalog where
  all := h.all
  latest := fun hfind => by
    simp only [Table.find?_erase] at hfind
    split at hfind
    · cases hfind
    · exact h.latest hfind
  overloaded := h.overloaded

theorem Filed.record (h : Filed overloads catalog) {base : String} (hopen : '(' ∉ base.toList)
    (how : Variations) : Filed (overloads.record base how) catalog where
  all := h.all
  latest := h.latest
  overloaded := fun {base'} how' hfind => by
    simp only [Overloads.record, Table.find?_insert] at hfind
    split at hfind
    · rename_i heq
      rw [← heq]
      exact hopen
    · exact h.overloaded hfind

/-- A function is told from overloads that have variations. -/
theorem Filed.join (h : Filed overloads catalog) {id : Nat} (hget : catalog.get? id = some d)
    (hd : d.IsOwnedFunction) (hopen : '(' ∉ d.longname.toList) (how : Variations) :
    Filed (overloads.join catalog id d how).1 (overloads.join catalog id d how).2 := by
  have hfiled := h.all hget
  have hassigned := h.assign hget hd (isBase_self hfiled hd hopen)
    (fills_chooseLate catalog hfiled how)
  have howns := OwnsAt.assign ⟨d, hget, hd⟩ id d.longname (chooseLate catalog d how).1
  exact (hassigned.remember howns _).record hopen _

/-- Two functions of one longname are told apart. -/
theorem Filed.separate (h : Filed overloads catalog) {oldId newId : Nat} (hne : newId ≠ oldId)
    (hold : catalog.get? oldId = some old) (hnew : catalog.get? newId = some d)
    (holdFunction : old.IsOwnedFunction) (hfunction : d.IsOwnedFunction)
    (hname : old.longname = d.longname) :
    Filed (overloads.separate catalog oldId newId old d).1
      (overloads.separate catalog oldId newId old d).2 := by
  have hbase := isBase_sharedBase (h.all hold) holdFunction
  obtain ⟨hfirst, hsecond⟩ :=
    fills_choosePair overloads catalog (sharedBase old) (h.all hold) (h.all hnew)
  have hnew' : (Overloads.assign catalog oldId (sharedBase old)
      (overloads.choosePair catalog (sharedBase old) old d).1.1).get? newId = some d := by
    rw [get?_assign, if_neg hne, hnew]
  have hassigned := (h.assign hold holdFunction hbase hfirst).assign hnew' hfunction
    (hbase.of_longname_eq (h.all hnew) hfunction hname) hsecond
  have hownsOld := (OwnsAt.assign ⟨old, hold, holdFunction⟩ oldId (sharedBase old)
    (overloads.choosePair catalog (sharedBase old) old d).1.1).assign newId (sharedBase old)
    (overloads.choosePair catalog (sharedBase old) old d).1.2
  have hownsNew := OwnsAt.assign ⟨d, hnew', hfunction⟩ newId (sharedBase old)
    (overloads.choosePair catalog (sharedBase old) old d).1.2
  exact (((hassigned.forget old.longname).remember hownsOld _).remember hownsNew _).record
    hbase.unopened _

/-- A filed doclet arrives, and all stay filed. -/
theorem Filed.arrive (h : Filed overloads catalog) (hcoherent : Coherent overloads catalog)
    (hd : d.IsFiled) :
    Filed (arrive (overloads, catalog) d).1 (arrive (overloads, catalog) d).2 := by
  have hinsert := h.insert hd
  have hget : (catalog.insert d).get? catalog.size = some d := by simp
  cases hcoherent.arrival d with
  | unowned _ harrive =>
    rw [harrive]
    exact hinsert
  | first hfunction harrive =>
    rw [harrive]
    exact hinsert.remember ⟨d, hget, hfunction⟩ _
  | @pair oldId old hfunction hlatest hold hname harrive =>
    obtain ⟨e, hgetLatest, he⟩ := h.latest hlatest
    obtain rfl : e = old := Option.some.inj (hgetLatest.symm.trans hold)
    rw [harrive]
    exact hinsert.separate (Nat.ne_of_gt (Catalog.lt_size_of_get? hold))
      (Catalog.get?_insert_of_get? hold) hget he hfunction hname
  | late hfunction hover harrive =>
    rw [harrive]
    exact hinsert.join hget hfunction (h.overloaded hover) _

end Arrival

/-- A run of filed arrivals keeps all doclets filed. -/
theorem filed_afterAll {ds : List Doclet} (hds : ∀ d ∈ ds, d.IsFiled) :
    Filed (afterAll ds).1 (afterAll ds).2 := by
  induction ds using List.reverseRecOn with
  | nil => exact ⟨by simp [afterAll], by simp [afterAll], by simp [afterAll]⟩
  | append_singleton ds d ih =>
    rw [List.forall_mem_append, List.forall_mem_singleton] at hds
    rw [afterAll_concat]
    exact (ih hds.1).arrive (coherent_afterAll ds) hds.2

end Overloads

end Commentary
