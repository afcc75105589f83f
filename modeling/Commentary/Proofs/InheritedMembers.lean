import Commentary.Proofs.DependencyOrder
import Commentary.Proofs.LongnameParts

/-!
# Inherited members

Where classes augment each other without a circle, inheritance hands every member of a class down to
all that build on it, directly or not, in whatever order the doclets arrived
(`inheritsExactly_of_noClassMembers`).

A class is handed the members that its parents have when its turn comes, so all hangs on the order:
parents come first, and what they were handed is there by then. `Handing` follows the pass through
one class, `Stage` through the classes. Members are told by their longnames. For the set of
longnames it makes no difference which of several doclets is copied, what is ignored and what
overrides what (`Retouched`).
-/

namespace Commentary

open Longname

/-! ## Additions to a catalog -/

namespace Catalog

/-- Some doclet of the catalog carries a longname. -/
def Carries (catalog : Catalog) (longname : String) : Prop :=
  ∃ id d, catalog.get? id = some d ∧ d.longname = longname

theorem get?_insertAll_of_get? {catalog : Catalog} {id : Nat} {e : Doclet}
    (h : catalog.get? id = some e) (ds : List Doclet) : (catalog.insertAll ds).get? id = some e :=
  List.foldlRecOn (motive := fun catalog : Catalog => catalog.get? id = some e) ds insert h
    fun _ hget _ _ => get?_insert_of_get? hget

/-- What is in a catalog after doclets were added was there or is one of these. -/
theorem get?_insertAll_cases {catalog : Catalog} {ds : List Doclet} {id : Nat} {e : Doclet}
    (h : (catalog.insertAll ds).get? id = some e) : catalog.get? id = some e ∨ e ∈ ds := by
  induction ds generalizing catalog with
  | nil => exact .inl h
  | cons d ds ih =>
    rcases ih h with hget | hmem
    · rw [get?_insert] at hget
      split at hget
      · cases hget
        exact .inr List.mem_cons_self
      · exact .inl hget
    · exact .inr (List.mem_cons_of_mem _ hmem)

theorem exists_get?_insertAll {catalog : Catalog} {ds : List Doclet} {d : Doclet} (h : d ∈ ds) :
    ∃ id, (catalog.insertAll ds).get? id = some d := by
  induction ds generalizing catalog with
  | nil => cases h
  | cons first ds ih =>
    rcases List.mem_cons.1 h with rfl | h
    · have hget : (catalog.insert d).get? catalog.size = some d := by simp
      exact ⟨catalog.size, get?_insertAll_of_get? hget ds⟩
    · exact ih h

/-- The doclets of a new catalog are those that were added to it. -/
theorem mem_insertAll_empty {ds : List Doclet} {d : Doclet} :
    (∃ id, (empty.insertAll ds).get? id = some d) ↔ d ∈ ds := by
  constructor
  · rintro ⟨id, hid⟩
    rcases get?_insertAll_cases hid with hempty | hmem
    · rw [get?_empty] at hempty
      cases hempty
    · exact hmem
  · exact exists_get?_insertAll

theorem Indexed.contains_iff_carries {catalog : Catalog} (h : catalog.Indexed)
    (longname : String) : catalog.contains longname = true ↔ catalog.Carries longname := by
  rw [h.contains_iff]
  refine exists_congr fun id => ?_
  rw [longnameAt?, Option.map_eq_some_iff]

end Catalog

namespace Inheritance

/-! ## Notes -/

/-- What inheriting goes by in a doclet. Its own notes are not among it. -/
structure Outline where
  longname : String
  memberof : Option String
  scope : Option Scope
  kind : Option Kind
  undocumented : Bool
  augments : List String

/-- The outline of a doclet. -/
def outline (d : Doclet) : Outline where
  longname := d.longname
  memberof := d.memberof
  scope := d.scope
  kind := d.kind
  undocumented := d.undocumented
  augments := d.augments

/-- A catalog is another one with notes in its doclets. -/
structure Retouched (base catalog : Catalog) : Prop where
  byLongname : catalog.byLongname = base.byLongname
  outline : ∀ id, (catalog.get? id).map outline = (base.get? id).map outline

namespace Retouched

variable {base catalog next : Catalog}

theorem refl (catalog : Catalog) : Retouched catalog catalog := ⟨rfl, fun _ => rfl⟩

theorem trans (h : Retouched base catalog) (h' : Retouched catalog next) : Retouched base next :=
  ⟨h'.byLongname.trans h.byLongname, fun id => (h'.outline id).trans (h.outline id)⟩

theorem modify (catalog : Catalog) (id : Nat) {change : Doclet → Doclet}
    (hchange : ∀ d, Inheritance.outline (change d) = Inheritance.outline d) :
    Retouched catalog (catalog.modify id change) where
  byLongname := rfl
  outline := by
    intro i
    rw [Catalog.get?_modify]
    split
    · rw [Option.map_map]
      exact congrArg (Option.map · (catalog.get? i)) (funext hchange)
    · rfl

theorem modifyAll (catalog : Catalog) (ids : List Nat) {change : Doclet → Doclet}
    (hchange : ∀ d, Inheritance.outline (change d) = Inheritance.outline d) :
    Retouched catalog (modifyAll catalog ids change) :=
  List.foldlRecOn (motive := fun next => Retouched catalog next) ids _ (refl catalog)
    fun _ h id _ => h.trans (modify _ id hchange)

/-- Each doclet is one of the base, but for notes. -/
theorem exists_base (h : Retouched base catalog) {id : Nat} {d : Doclet}
    (hd : catalog.get? id = some d) :
    ∃ e, base.get? id = some e ∧ Inheritance.outline e = Inheritance.outline d := by
  have houtline := h.outline id
  rw [hd] at houtline
  obtain ⟨e, he, heq⟩ := Option.map_eq_some_iff.1 houtline.symm
  exact ⟨e, he, heq⟩

theorem symm (h : Retouched base catalog) : Retouched catalog base :=
  ⟨h.byLongname.symm, fun id => (h.outline id).symm⟩

theorem lookup_eq (h : Retouched base catalog) (longname : String) :
    catalog.lookup longname = base.lookup longname := by
  rw [Catalog.lookup, Catalog.lookup, h.byLongname]

theorem contains_eq (h : Retouched base catalog) (longname : String) :
    catalog.contains longname = base.contains longname := by
  rw [Catalog.contains, Catalog.contains, h.lookup_eq]

/-- Notes do not touch the index. -/
theorem indexed (h : Retouched base catalog) (hbase : base.Indexed) : catalog.Indexed where
  keys_nodup := h.byLongname ▸ hbase.keys_nodup
  positions_ne_nil := h.byLongname ▸ hbase.positions_ne_nil
  lookup_nodup := by
    intro longname
    rw [h.lookup_eq]
    exact hbase.lookup_nodup longname
  mem_lookup := by
    intro longname id
    have hlongname := congrArg (Option.map Outline.longname) (h.outline id)
    rw [Option.map_map, Option.map_map] at hlongname
    rw [h.lookup_eq, hbase.mem_lookup, Catalog.longnameAt?, Catalog.longnameAt?]
    exact Eq.congr_left hlongname.symm

end Retouched

/-! ## Members -/

/-- A documented instance member, by its owner and its name. -/
structure IsMember (owner name : String) (d : Doclet) : Prop where
  owner_isIdentifier : IsIdentifier owner
  name_isIdentifier : IsIdentifier name
  longname : d.longname = memberName owner name
  memberof : d.memberof = some owner
  scope : d.scope = some .instance
  documented : d.undocumented = false
  not_classLike : d.kind.any isClassLike = false

/-- Whether a doclet is a member does not hang on its notes. -/
theorem IsMember.of_outline {owner name : String} {d e : Doclet} (h : IsMember owner name d)
    (heq : outline d = outline e) : IsMember owner name e where
  owner_isIdentifier := h.owner_isIdentifier
  name_isIdentifier := h.name_isIdentifier
  longname := (congrArg Outline.longname heq).symm.trans h.longname
  memberof := (congrArg Outline.memberof heq).symm.trans h.memberof
  scope := (congrArg Outline.scope heq).symm.trans h.scope
  documented := (congrArg Outline.undocumented heq).symm.trans h.documented
  not_classLike := by
    have hkind : d.kind = e.kind := congrArg Outline.kind heq
    rw [← hkind]
    exact h.not_classLike

theorem changeOwner_memberName {parent name : String} (hparent : IsIdentifier parent)
    (hname : IsIdentifier name) (owner : String) :
    changeOwner (memberName parent name) owner = memberName owner name := by
  rw [changeOwner, split_memberName hparent hname]
  simp [Longname.join, Scope.punctuation, variationSuffix, memberName]

/-- The copy of a member for another owner is a member of that. -/
theorem IsMember.inheritedCopy {parent name : String} {d : Doclet} (h : IsMember parent name d)
    {owner : String} (howner : IsIdentifier owner) (overrides : Option String) :
    IsMember owner name { inheritedCopy owner d with overrides } where
  owner_isIdentifier := howner
  name_isIdentifier := h.name_isIdentifier
  longname := by
    change changeOwner d.longname owner = memberName owner name
    rw [h.longname, changeOwner_memberName h.owner_isIdentifier h.name_isIdentifier]
  memberof := rfl
  scope := h.scope
  documented := h.documented
  not_classLike := h.not_classLike

theorem IsMember.unmark {owner name : String} {d : Doclet} (h : IsMember owner name d) :
    IsMember owner name (unmark d) :=
  { h with }

/-! ## Offering a copy -/

/-- Copies are kept under their longnames. -/
def Keyed (additions : Additions) : Prop :=
  ∀ entry ∈ additions.entries, entry.2.longname = entry.1

theorem Keyed.addCopy {additions : Additions} (h : Keyed additions) (d : Doclet) :
    Keyed (addCopy additions d) := by
  intro entry hentry
  rcases Table.mem_put hentry with rfl | hold
  · rfl
  · exact h entry hold

theorem Keyed.foldl_addCopy {additions : Additions} (h : Keyed additions) (ds : List Doclet) :
    Keyed (ds.foldl Inheritance.addCopy additions) :=
  List.foldlRecOn ds Inheritance.addCopy h fun _ hkeyed d _ => hkeyed.addCopy d

theorem mem_keys_addCopy {additions : Additions} {d : Doclet} {longname : String} :
    longname ∈ (addCopy additions d).keys ↔ longname = d.longname ∨ longname ∈ additions.keys := by
  rw [← Table.contains_iff_mem_keys, ← Table.contains_iff_mem_keys, Inheritance.addCopy]
  by_cases hname : d.longname = longname
  · simp [Table.contains, hname]
  · simp [Table.contains, hname, Ne.symm hname]

theorem mem_keys_foldl_addCopy {additions : Additions} {ds : List Doclet} {longname : String} :
    longname ∈ (ds.foldl addCopy additions).keys ↔
      (∃ d ∈ ds, d.longname = longname) ∨ longname ∈ additions.keys := by
  induction ds generalizing additions with
  | nil => simp
  | cons d ds ih =>
    rw [List.foldl_cons, ih, mem_keys_addCopy, List.exists_mem_cons_iff]
    constructor
    · rintro (h | rfl | h)
      · exact .inl (.inr h)
      · exact .inl (.inl rfl)
      · exact .inr h
    · rintro ((rfl | h) | h)
      · exact .inr (.inl rfl)
      · exact .inl h
      · exact .inr (.inr h)

theorem Keyed.mem_keys_iff {additions : Additions} (h : Keyed additions) {longname : String} :
    longname ∈ additions.keys ↔ ∃ d ∈ copies additions, d.longname = longname := by
  unfold Table.keys copies
  constructor
  · intro hmem
    obtain ⟨entry, hentry, rfl⟩ := List.mem_map.1 hmem
    exact ⟨entry.2, List.mem_map_of_mem hentry, h entry hentry⟩
  · rintro ⟨d, hd, rfl⟩
    obtain ⟨entry, hentry, rfl⟩ := List.mem_map.1 hd
    rw [h entry hentry]
    exact List.mem_map_of_mem hentry

/-- Offering a copy notes something in the catalog, and adds the copy, perhaps without marks, unless
its longname is there. -/
theorem offer_cases (state : State) (copy : Doclet) (change : Doclet → Doclet)
    (hchange : ∀ d, outline (change d) = outline d) :
    Retouched state.catalog (offer state copy change).catalog ∧
      ((∃ copy', (copy' = copy ∨ copy' = unmark copy) ∧
          (offer state copy change).additions = addCopy state.additions copy') ∨
        (offer state copy change).additions = state.additions ∧
          state.catalog.contains copy.longname = true) := by
  unfold offer
  simp only
  split
  · exact ⟨.refl _, .inl ⟨copy, .inl rfl, rfl⟩⟩
  · rename_i hshown
    split
    · exact ⟨.modifyAll _ _ fun _ => rfl, .inl ⟨unmark copy, .inr rfl, rfl⟩⟩
    · refine ⟨.modifyAll _ _ hchange, .inr ⟨rfl, ?_⟩⟩
      rw [Catalog.contains, Bool.not_eq_true', List.isEmpty_eq_false_iff_exists_mem]
      rw [Bool.not_eq_true, List.isEmpty_eq_false_iff_exists_mem] at hshown
      obtain ⟨id, hid⟩ := hshown
      exact ⟨id, List.mem_of_mem_filter hid⟩

/-! ## One class -/

/-- A catalog holds a member of an owner. -/
def HasMember (catalog : Catalog) (owner name : String) : Prop :=
  ∃ id d, catalog.get? id = some d ∧ IsMember owner name d

theorem mem_sources_inScopes_iff {catalog : Catalog} {owner : String}
    {scopes : Option (List Scope)} {d : Doclet} :
    d ∈ sources catalog owner scopes ↔ ∃ id, catalog.get? id = some d ∧
      d.memberof = some owner ∧ Catalog.inScopes scopes d = true ∧ d.undocumented = false := by
  simp only [sources, Catalog.membersOf, List.mem_filter, List.mem_filterMap, List.mem_range,
    Bool.not_eq_true']
  constructor
  · rintro ⟨⟨id, ⟨-, hany⟩, hid⟩, hdocumented⟩
    simp only [hid, Option.any_some, Bool.and_eq_true, beq_iff_eq] at hany
    exact ⟨id, hid, hany.1, hany.2, hdocumented⟩
  · rintro ⟨id, hid, hmemberof, hscope, hdocumented⟩
    refine ⟨⟨id, ⟨Catalog.lt_size_of_get? hid, ?_⟩, hid⟩, hdocumented⟩
    simp [hid, hmemberof, hscope]

theorem mem_sources_iff {catalog : Catalog} {owner : String} {d : Doclet} :
    d ∈ sources catalog owner (some [.instance]) ↔ ∃ id, catalog.get? id = some d ∧
      d.memberof = some owner ∧ d.scope = some .instance ∧ d.undocumented = false := by
  have hscopes : Catalog.inScopes (some [.instance]) d = true ↔ d.scope = some .instance := by
    cases hscope : d.scope with
    | none => simp [Catalog.inScopes, hscope]
    | some scope => simp [Catalog.inScopes, hscope]
  rw [mem_sources_inScopes_iff, hscopes]

section Handing

variable (base : Catalog) (owner : String) (Offered : String → Prop)

/-- Where the pass stands within a class: the catalog it started from has got notes, and the copies
so far are members of the class that were offered to it. -/
structure Handing (state : State) : Prop where
  retouched : Retouched base state.catalog
  keyed : Keyed state.additions
  isMember : ∀ d ∈ copies state.additions, ∃ name, Offered name ∧ IsMember owner name d

/-- A longname is there or will be added. -/
def Provides (state : State) (longname : String) : Prop :=
  base.contains longname = true ∨ longname ∈ state.additions.keys

/-- The pass goes on within a class, and some longnames are provided for. -/
structure Advance (required : String → Prop) (state next : State) : Prop where
  handing : Handing base owner Offered next
  kept : ∀ longname, Provides base state longname → Provides base next longname
  provided : ∀ longname, required longname → Provides base next longname

variable {base owner Offered}

theorem Advance.mono {required required' : String → Prop} {state next : State}
    (h : Advance base owner Offered required state next)
    (himp : ∀ longname, required' longname → required longname) :
    Advance base owner Offered required' state next :=
  { h with provided := fun longname hrequired => h.provided longname (himp longname hrequired) }

theorem Handing.start {catalog : Catalog} (h : Retouched base catalog) :
    Handing base owner Offered { catalog } where
  retouched := h
  keyed := fun _ hentry => absurd hentry List.not_mem_nil
  isMember := fun _ hd => absurd hd List.not_mem_nil

/-- What every step of a row provides, the row provides. -/
theorem advance_foldl {α : Type} {f : State → α → State} {required : α → String → Prop}
    (xs : List α)
    (hstep : ∀ x ∈ xs, ∀ state, Handing base owner Offered state →
      Advance base owner Offered (required x) state (f state x))
    {state : State} (h : Handing base owner Offered state) :
    Advance base owner Offered (fun longname => ∃ x ∈ xs, required x longname) state
      (xs.foldl f state) := by
  induction xs generalizing state with
  | nil => exact ⟨h, fun _ => id, by simp⟩
  | cons x xs ih =>
    rw [List.forall_mem_cons] at hstep
    have hfirst := hstep.1 state h
    have hrest := ih hstep.2 hfirst.handing
    refine ⟨hrest.handing, fun l hl => hrest.kept l (hfirst.kept l hl), ?_⟩
    intro longname hrequired
    rcases (List.exists_mem_cons_iff _ _ _).1 hrequired with hx | hxs
    · exact hrest.kept _ (hfirst.provided _ hx)
    · exact hrest.provided _ hxs

theorem Provides.offer {state : State} {longname : String} (h : Provides base state longname)
    (copy : Doclet) {change : Doclet → Doclet} (hchange : ∀ d, outline (change d) = outline d) :
    Provides base (offer state copy change) longname := by
  rcases h with hbase | hkey
  · exact .inl hbase
  · refine .inr ?_
    obtain ⟨-, ⟨copy', -, hadditions⟩ | ⟨hsame, -⟩⟩ := offer_cases state copy change hchange
    · rw [hadditions, mem_keys_addCopy]
      exact .inr hkey
    · rwa [hsame]

/-- A copy that is offered comes in, or its longname is there. -/
theorem provides_offer {state : State} (h : Retouched base state.catalog) (copy : Doclet)
    {change : Doclet → Doclet} (hchange : ∀ d, outline (change d) = outline d) :
    Provides base (offer state copy change) copy.longname := by
  obtain ⟨-, ⟨copy', hcopies, hadditions⟩ | ⟨-, hthere⟩⟩ := offer_cases state copy change hchange
  · refine .inr ?_
    rw [hadditions, mem_keys_addCopy]
    rcases hcopies with rfl | rfl
    · exact .inl rfl
    · exact .inl rfl
  · exact .inl ((h.contains_eq _).symm.trans hthere)

theorem Handing.offer {state : State} (h : Handing base owner Offered state) {name : String}
    (hoffered : Offered name) {copy : Doclet} (hcopy : IsMember owner name copy)
    {change : Doclet → Doclet} (hchange : ∀ d, outline (change d) = outline d) :
    Advance base owner Offered (· = memberName owner name) state (offer state copy change) := by
  have hprovided : ∀ longname, longname = memberName owner name →
      Provides base (Inheritance.offer state copy change) longname := by
    rintro longname rfl
    rw [← hcopy.longname]
    exact provides_offer h.retouched copy hchange
  refine ⟨?_, fun longname hlongname => hlongname.offer copy hchange, hprovided⟩
  obtain ⟨hretouched, ⟨copy', hcopies, hadditions⟩ | ⟨hsame, -⟩⟩ :=
    offer_cases state copy change hchange
  · have hmember : IsMember owner name copy' := by
      rcases hcopies with rfl | rfl
      · exact hcopy
      · exact hcopy.unmark
    refine ⟨h.retouched.trans hretouched, ?_, ?_⟩
    · rw [hadditions]
      exact h.keyed.addCopy copy'
    · rw [hadditions]
      exact forall_copies_addCopy h.isMember ⟨name, hoffered, hmember⟩
  · refine ⟨h.retouched.trans hretouched, ?_, ?_⟩
    · rw [hsame]
      exact h.keyed
    · rw [hsame]
      exact h.isMember

theorem Handing.inheritMember {state : State} (h : Handing base owner Offered state)
    (howner : IsIdentifier owner) {parent name : String} {ancestor : Doclet}
    (hmember : IsMember parent name ancestor) (hoffered : Offered name) :
    Advance base owner Offered (· = memberName owner name) state
      (inheritMember owner state ancestor) :=
  h.offer hoffered (hmember.inheritedCopy howner _) fun _ => rfl

variable (base Offered) in
/-- Whatever can be handed on from a parent is a member that is offered. -/
def Offers (parent : String) : Prop :=
  ∀ id d, base.get? id = some d → d.memberof = some parent → d.scope = some .instance →
    d.undocumented = false → ∃ name, Offered name ∧ IsMember parent name d

theorem Offers.retouched {parent : String} (h : Offers base Offered parent) {catalog : Catalog}
    (hretouched : Retouched base catalog) : Offers catalog Offered parent := by
  intro id d hd hmemberof hscope hdocumented
  obtain ⟨e, he, heq⟩ := hretouched.exists_base hd
  obtain ⟨name, hoffered, hmember⟩ := h id e he ((congrArg Outline.memberof heq).trans hmemberof)
    ((congrArg Outline.scope heq).trans hscope)
    ((congrArg Outline.undocumented heq).trans hdocumented)
  exact ⟨name, hoffered, hmember.of_outline heq⟩

theorem HasMember.retouched {parent name : String} (h : HasMember base parent name)
    {catalog : Catalog} (hretouched : Retouched base catalog) : HasMember catalog parent name := by
  obtain ⟨id, d, hd, hmember⟩ := h
  obtain ⟨e, he, heq⟩ := hretouched.symm.exists_base hd
  exact ⟨id, e, he, hmember.of_outline heq.symm⟩

/-- All members of a parent are handed on. -/
theorem Handing.inheritFrom {state : State} (h : Handing base owner Offered state)
    (howner : IsIdentifier owner) {parent : String} (hparent : Offers base Offered parent) :
    Advance base owner Offered
      (fun longname => ∃ name, HasMember base parent name ∧ longname = memberName owner name)
      state (inheritFrom owner state parent) := by
  have hstep : ∀ ancestor ∈ sources state.catalog parent (some [.instance]), ∀ state',
      Handing base owner Offered state' →
        Advance base owner Offered
          (fun longname => ∃ name, IsMember parent name ancestor ∧
            longname = memberName owner name)
          state' (Inheritance.inheritMember owner state' ancestor) := by
    intro ancestor hancestor state' hstate'
    obtain ⟨id, hid, hmemberof, hscope, hdocumented⟩ := mem_sources_iff.1 hancestor
    obtain ⟨name, hoffered, hmember⟩ :=
      hparent.retouched h.retouched id ancestor hid hmemberof hscope hdocumented
    refine (hstate'.inheritMember howner hmember hoffered).mono ?_
    rintro longname ⟨name', hmember', rfl⟩
    obtain ⟨-, rfl⟩ := memberName_inj hmember.owner_isIdentifier hmember.name_isIdentifier
      (hmember.longname.symm.trans hmember'.longname)
    rfl
  refine (advance_foldl _ hstep h).mono ?_
  rintro longname ⟨name, hhas, rfl⟩
  obtain ⟨id, d, hd, hmember⟩ := hhas.retouched h.retouched
  refine ⟨d, mem_sources_iff.2 ⟨id, hd, hmember.memberof, hmember.scope, hmember.documented⟩, ?_⟩
  exact ⟨name, hmember, rfl⟩

/-- The members of all parents are handed on. -/
theorem Handing.inherited {state : State} (h : Handing base owner Offered state)
    (howner : IsIdentifier owner) {descendant : Doclet} (hkind : descendant.kind = some .class)
    (hname : descendant.longname = owner)
    (hparents : ∀ parent ∈ descendant.augments, Offers base Offered parent) :
    Advance base owner Offered
      (fun longname => ∃ parent ∈ descendant.augments, ∃ name,
        HasMember base parent name ∧ longname = memberName owner name)
      state (inherited state descendant) := by
  unfold Inheritance.inherited
  rw [if_pos (.inl hkind), hname]
  exact advance_foldl _ (fun parent hparent _ hstate =>
    hstate.inheritFrom howner (hparents parent hparent)) h

/-- What is found for one doclet is set beside what was found for others. -/
theorem Handing.findFor {state : State} (h : Handing base owner Offered state)
    (howner : IsIdentifier owner) {id : Nat} {descendant : Doclet}
    (hid : base.get? id = some descendant) (hkind : descendant.kind = some .class)
    (hname : descendant.longname = owner)
    (hparents : ∀ parent ∈ descendant.augments, Offers base Offered parent) :
    Advance base owner Offered
      (fun longname => ∃ parent ∈ descendant.augments, ∃ name,
        HasMember base parent name ∧ longname = memberName owner name)
      state (findFor Inheritance.inherited state id) := by
  obtain ⟨d, hd, heq⟩ := h.retouched.symm.exists_base hid
  have haugments : d.augments = descendant.augments := congrArg Outline.augments heq
  have hstart : Handing base owner Offered { catalog := state.catalog } := .start h.retouched
  have hfound := hstart.inherited howner ((congrArg Outline.kind heq).trans hkind)
    ((congrArg Outline.longname heq).trans hname) (by rw [haugments]; exact hparents)
  rw [haugments] at hfound
  have hfind : Inheritance.findFor Inheritance.inherited state id =
      { Inheritance.inherited { catalog := state.catalog } d with
        additions := (copies (Inheritance.inherited { catalog := state.catalog } d).additions).foldl
          addCopy state.additions } := by
    unfold Inheritance.findFor
    rw [hd]
  rw [hfind]
  generalize Inheritance.inherited { catalog := state.catalog } d = found at hfound
  have hadditions := Steady.foldl_addCopy
    (P := fun d => ∃ name, Offered name ∧ IsMember owner name d) (I := Retouched base)
    hfound.handing.retouched h.isMember _ hfound.handing.isMember
  refine ⟨⟨hfound.handing.retouched, h.keyed.foldl_addCopy _, hadditions.2⟩, ?_, ?_⟩
  · rintro longname (hbase | hkey)
    · exact .inl hbase
    · exact .inr (mem_keys_foldl_addCopy.2 (.inr hkey))
  · intro longname hrequired
    rcases hfound.provided longname hrequired with hbase | hkey
    · exact .inl hbase
    · exact .inr (mem_keys_foldl_addCopy.2 (.inl (hfound.handing.keyed.mem_keys_iff.1 hkey)))

variable (base owner Offered) in
/-- What the turn of a class makes of a catalog. -/
structure Turn (next : Catalog) : Prop where
  indexed : next.Indexed
  /-- What is there was there, but for notes, or is a member that was offered. -/
  known : ∀ {id : Nat} {d : Doclet}, next.get? id = some d →
    (∃ e, base.get? id = some e ∧ outline e = outline d) ∨
      ∃ name, Offered name ∧ IsMember owner name d
  /-- What was there stays, but for notes. -/
  kept : ∀ {id : Nat} {d : Doclet}, base.get? id = some d →
    ∃ e, next.get? id = some e ∧ outline e = outline d
  /-- What the parents had is there. -/
  carries : ∀ {id : Nat} {d : Doclet}, base.get? id = some d → d.longname = owner →
    ∀ parent ∈ d.augments, ∀ name, HasMember base parent name →
      next.Carries (memberName owner name)

/-- No longname is lost in a turn. -/
theorem Turn.keeps {next : Catalog} (h : Turn base owner Offered next) {longname : String}
    (hcarries : base.Carries longname) : next.Carries longname := by
  obtain ⟨id, d, hd, hlongname⟩ := hcarries
  obtain ⟨e, he, heq⟩ := h.kept hd
  exact ⟨id, e, he, (congrArg Outline.longname heq).trans hlongname⟩

theorem mem_lookup_iff (hindexed : base.Indexed) {id : Nat} :
    id ∈ base.lookup owner ↔ ∃ d, base.get? id = some d ∧ d.longname = owner := by
  rw [hindexed.mem_lookup, Catalog.longnameAt?, Option.map_eq_some_iff]

/-- The members of all parents are handed on for each doclet of the class. -/
theorem advance_lookup (hindexed : base.Indexed) (howner : IsIdentifier owner)
    (hclass : ∀ id d, base.get? id = some d → d.longname = owner →
      d.kind = some .class ∧ ∀ parent ∈ d.augments, Offers base Offered parent) :
    Advance base owner Offered
      (fun longname => ∃ id ∈ base.lookup owner, ∃ d, base.get? id = some d ∧
        ∃ parent ∈ d.augments, ∃ name,
          HasMember base parent name ∧ longname = memberName owner name)
      { catalog := base }
      ((base.lookup owner).foldl (findFor Inheritance.inherited) { catalog := base }) := by
  refine advance_foldl (base.lookup owner) (fun id hid state hstate => ?_) (.start (.refl base))
  obtain ⟨d, hd, hname⟩ := (mem_lookup_iff hindexed).1 hid
  obtain ⟨hkind, hparents⟩ := hclass id d hd hname
  refine (hstate.findFor howner hd hkind hname hparents).mono ?_
  rintro longname ⟨e, he, hrequired⟩
  obtain rfl : d = e := Option.some.inj (hd.symm.trans he)
  exact hrequired

theorem turn_augmentSymbol (hindexed : base.Indexed) (howner : IsIdentifier owner)
    (hclass : ∀ id d, base.get? id = some d → d.longname = owner →
      d.kind = some .class ∧ ∀ parent ∈ d.augments, Offers base Offered parent) :
    Turn base owner Offered (augmentSymbol Inheritance.inherited base owner) := by
  have hall := advance_lookup hindexed howner hclass
  unfold augmentSymbol
  simp only
  generalize (base.lookup owner).foldl (findFor Inheritance.inherited)
    { catalog := base } = state at hall
  obtain ⟨⟨hretouched, hkeyed, hmember⟩, -, hprovided⟩ := hall
  refine ⟨(hretouched.indexed hindexed).insertAll _, ?_, ?_, ?_⟩
  · intro id d hd
    rcases Catalog.get?_insertAll_cases hd with hold | hnew
    · exact .inl (hretouched.exists_base hold)
    · exact .inr (hmember d hnew)
  · intro id d hd
    obtain ⟨e, he, heq⟩ := hretouched.symm.exists_base hd
    exact ⟨e, Catalog.get?_insertAll_of_get? he _, heq⟩
  · intro id d hd hname parent hparent name hhas
    have hid : id ∈ base.lookup owner := (mem_lookup_iff hindexed).2 ⟨d, hd, hname⟩
    rcases hprovided _ ⟨id, hid, d, hd, parent, hparent, name, hhas, rfl⟩ with hbase | hkey
    -- the longname was there
    · obtain ⟨i, e, he, hlongname⟩ := (hindexed.contains_iff_carries _).1 hbase
      obtain ⟨e', he', heq⟩ := hretouched.symm.exists_base he
      exact ⟨i, e', Catalog.get?_insertAll_of_get? he' _,
        (congrArg Outline.longname heq).trans hlongname⟩
    -- a copy with the longname was added
    · obtain ⟨copy, hcopy, hlongname⟩ := hkeyed.mem_keys_iff.1 hkey
      obtain ⟨i, hi⟩ := Catalog.exists_get?_insertAll hcopy
      exact ⟨i, copy, hi, hlongname⟩

end Handing

/-! ## All classes -/

/-- A class of some classes augments another symbol. -/
def Extends (classes : List Doclet) (child parent : String) : Prop :=
  ∃ c ∈ classes, c.longname = child ∧ parent ∈ c.augments

/-- Classes that augment only each other, without a circle, and members of classes. -/
structure Hierarchy (classes members : List Doclet) : Prop where
  kind : ∀ c ∈ classes, c.kind = some .class
  isIdentifier : ∀ c ∈ classes, IsIdentifier c.longname
  augments : ∀ c ∈ classes, ∀ parent ∈ c.augments, ∃ p ∈ classes, p.longname = parent
  acyclic : ∀ name, ¬Relation.TransGen (Extends classes) name name
  isMember : ∀ d ∈ members, ∃ owner name, IsMember owner name d

/-- No documented class is itself an instance member of a class that some class augments. -/
def NoClassMembers (classes : List Doclet) : Prop :=
  ∀ c ∈ classes, ∀ child parent, Extends classes child parent →
    ¬(c.memberof = some parent ∧ c.scope = some .instance ∧ c.undocumented = false)

/-- A member is one of the given ones. -/
def IsGiven (members : List Doclet) (owner name : String) : Prop :=
  ∃ d ∈ members, IsMember owner name d

/-- Inheriting, after doclets arrived in some order, succeeds, and the longnames are then those of
the doclets and of the members of all ancestors, for each class. -/
def InheritsExactly (classes members arrival : List Doclet) : Prop :=
  ∃ next, addInherited (Catalog.empty.insertAll arrival) = .ok next ∧
    ∀ longname, next.Carries longname ↔
      (∃ d ∈ classes ++ members, d.longname = longname) ∨
        ∃ owner ancestor name, Relation.TransGen (Extends classes) owner ancestor ∧
          IsGiven members ancestor name ∧ longname = memberName owner name

section Classes

variable {classes members : List Doclet}

variable (classes members) in
/-- A member is given, or given for an ancestor. -/
def IsDue (owner name : String) : Prop :=
  ∃ ancestor, Relation.ReflTransGen (Extends classes) owner ancestor ∧
    IsGiven members ancestor name

variable (classes members) in
/-- Where the pass stands when some classes had their turn. -/
structure Stage (done : List String) (catalog : Catalog) : Prop where
  indexed : catalog.Indexed
  known : ∀ {id : Nat} {d : Doclet}, catalog.get? id = some d →
    (∃ c ∈ classes, outline c = outline d) ∨
      ∃ owner name, IsDue classes members owner name ∧ IsMember owner name d
  kept : ∀ d ∈ classes ++ members, ∃ id e, catalog.get? id = some e ∧ outline e = outline d
  complete : ∀ owner ∈ done, ∀ name, IsDue classes members owner name →
    catalog.Carries (memberName owner name)

/-- A longname of a member is carried by a member. -/
theorem Stage.hasMember (hclasses : Hierarchy classes members) {done : List String}
    {catalog : Catalog} (h : Stage classes members done catalog) {owner name : String}
    (hcarries : catalog.Carries (memberName owner name)) : HasMember catalog owner name := by
  obtain ⟨id, d, hd, hlongname⟩ := hcarries
  rcases h.known hd with ⟨c, hc, heq⟩ | ⟨owner', name', -, hmember⟩
  · have hname : c.longname = d.longname := congrArg Outline.longname heq
    exact absurd (hname.trans hlongname) ((hclasses.isIdentifier c hc).ne_memberName owner name)
  · obtain ⟨rfl, rfl⟩ := memberName_inj hmember.owner_isIdentifier hmember.name_isIdentifier
      (hmember.longname.symm.trans hlongname)
    exact ⟨id, d, hd, hmember⟩

/-- What carries the longname of a class is that class. -/
theorem Stage.exists_class {done : List String} {catalog : Catalog}
    (h : Stage classes members done catalog) {owner : String} (howner : IsIdentifier owner)
    {id : Nat} {d : Doclet} (hd : catalog.get? id = some d) (hname : d.longname = owner) :
    ∃ c ∈ classes, outline c = outline d := by
  rcases h.known hd with hclass | ⟨owner', name', -, hmember⟩
  · exact hclass
  · have hlongname : owner = memberName owner' name' := hname.symm.trans hmember.longname
    exact absurd hlongname (howner.ne_memberName owner' name')

/-- Nothing but members that are due can be handed on from a class. -/
theorem Stage.offers (hno : NoClassMembers classes) {done : List String} {catalog : Catalog}
    (h : Stage classes members done catalog) {owner parent : String}
    (hextends : Extends classes owner parent) :
    Offers catalog
      (fun name => ∃ parent, Extends classes owner parent ∧ IsDue classes members parent name)
      parent := by
  intro id d hd hmemberof hscope hdocumented
  rcases h.known hd with ⟨c, hc, heq⟩ | ⟨owner', name, hdue, hmember⟩
  · refine absurd ⟨?_, ?_, ?_⟩ (hno c hc owner parent hextends)
    · exact (congrArg Outline.memberof heq).trans hmemberof
    · exact (congrArg Outline.scope heq).trans hscope
    · exact (congrArg Outline.undocumented heq).trans hdocumented
  · obtain rfl : owner' = parent := Option.some.inj (hmember.memberof.symm.trans hmemberof)
    exact ⟨name, ⟨owner', hextends, hdue⟩, hmember⟩

/-- A class takes its turn. The members that are due to its parents are offered to it. -/
theorem Stage.turn (hclasses : Hierarchy classes members) (hno : NoClassMembers classes)
    {done : List String} {catalog : Catalog} (h : Stage classes members done catalog)
    {owner : String} (howner : IsIdentifier owner) :
    Turn catalog owner
      (fun name => ∃ parent, Extends classes owner parent ∧ IsDue classes members parent name)
      (augmentSymbol inherited catalog owner) := by
  refine turn_augmentSymbol h.indexed howner fun id d hd hname => ?_
  obtain ⟨c, hc, heq⟩ := h.exists_class howner hd hname
  have hkind : c.kind = d.kind := congrArg Outline.kind heq
  have hlongname : c.longname = d.longname := congrArg Outline.longname heq
  have haugments : c.augments = d.augments := congrArg Outline.augments heq
  refine ⟨hkind.symm.trans (hclasses.kind c hc), fun parent hparent => ?_⟩
  exact h.offers hno ⟨c, hc, hlongname.trans hname, haugments ▸ hparent⟩

/-- When the parents of a class have had their turns, all that is due to the class is there after
its own. -/
theorem Stage.carries_of_isDue (hclasses : Hierarchy classes members) {done : List String}
    {catalog next : Catalog} (h : Stage classes members done catalog) {owner : String}
    (hparents : ∀ parent, Extends classes owner parent → parent ∈ done)
    {Offered : String → Prop} (hturn : Turn catalog owner Offered next) {name : String}
    (hdue : IsDue classes members owner name) : next.Carries (memberName owner name) := by
  obtain ⟨ancestor, hup, hgiven⟩ := hdue
  rcases hup.cases_head with rfl | ⟨parent, hextends, hrest⟩
  -- the member was given for the class itself
  · obtain ⟨d, hd, hmember⟩ := hgiven
    obtain ⟨id, e, he, heq⟩ := h.kept d (List.mem_append_right _ hd)
    have hcarries : catalog.Carries (memberName owner name) :=
      ⟨id, e, he, (congrArg Outline.longname heq).trans hmember.longname⟩
    exact hturn.keeps hcarries
  -- a parent was handed the member, or had it
  · have hparent : HasMember catalog parent name :=
      h.hasMember hclasses (h.complete parent (hparents parent hextends) name
        ⟨ancestor, hrest, hgiven⟩)
    obtain ⟨c, hc, hlongname, haugments⟩ := hextends
    obtain ⟨id, e, he, heq⟩ := h.kept c (List.mem_append_left _ hc)
    have haugments' : e.augments = c.augments := congrArg Outline.augments heq
    exact hturn.carries he ((congrArg Outline.longname heq).trans hlongname) parent
      (haugments' ▸ haugments) name hparent

/-- A class whose parents are done is done after its turn. -/
theorem Stage.augmentSymbol (hclasses : Hierarchy classes members) (hno : NoClassMembers classes)
    {done : List String} {catalog : Catalog} (h : Stage classes members done catalog)
    {owner : String} (howner : IsIdentifier owner)
    (hparents : ∀ parent, Extends classes owner parent → parent ∈ done) :
    Stage classes members (done ++ [owner]) (augmentSymbol inherited catalog owner) := by
  have hturn := h.turn hclasses hno howner
  refine ⟨hturn.indexed, fun {id d} hd => ?_, fun d hd => ?_, fun owner' howner' name hdue => ?_⟩
  · rcases hturn.known hd with ⟨e, he, heq⟩ | ⟨name, ⟨parent, hextends, hdue⟩, hmember⟩
    · rcases h.known he with ⟨c, hc, heq'⟩ | ⟨owner', name, hdue, hmember⟩
      · exact .inl ⟨c, hc, heq'.trans heq⟩
      · exact .inr ⟨owner', name, hdue, hmember.of_outline heq⟩
    · obtain ⟨ancestor, hup, hgiven⟩ := hdue
      exact .inr ⟨owner, name, ⟨ancestor, .head hextends hup, hgiven⟩, hmember⟩
  · obtain ⟨id, e, he, heq⟩ := h.kept d hd
    obtain ⟨e', he', heq'⟩ := hturn.kept he
    exact ⟨id, e', he', heq'.trans heq⟩
  · rcases List.mem_append.1 howner' with hdone | hlast
    · exact hturn.keeps (h.complete owner' hdone name hdue)
    · obtain rfl := List.mem_singleton.1 hlast
      exact h.carries_of_isDue hclasses hparents hturn hdue

/-- The doclets have arrived, and no class has had its turn. -/
theorem Stage.start (hclasses : Hierarchy classes members) {arrival : List Doclet}
    (harrival : arrival.Perm (classes ++ members)) :
    Stage classes members [] (Catalog.empty.insertAll arrival) where
  indexed := Catalog.Indexed.empty.insertAll arrival
  known := by
    intro id d hd
    have hmem : d ∈ classes ++ members :=
      harrival.mem_iff.1 (Catalog.mem_insertAll_empty.1 ⟨id, hd⟩)
    rcases List.mem_append.1 hmem with hclass | hgiven
    · exact .inl ⟨d, hclass, rfl⟩
    · obtain ⟨owner, name, hmember⟩ := hclasses.isMember d hgiven
      exact .inr ⟨owner, name, ⟨owner, .refl, d, hgiven, hmember⟩, hmember⟩
  kept := by
    intro d hd
    obtain ⟨id, hid⟩ := Catalog.mem_insertAll_empty.2 (harrival.mem_iff.2 hd)
    exact ⟨id, d, hid, rfl⟩
  complete := nofun

/-- What comes before an element of a list stands in front of it. -/
theorem mem_of_idxOf_lt {front back : List String} {x y : String}
    (h : (front ++ y :: back).idxOf x < (front ++ y :: back).idxOf y) : x ∈ front := by
  by_contra hx
  rw [List.idxOf_append_of_notMem hx] at h
  have hy : (front ++ y :: back).idxOf y ≤ front.length := by
    rw [List.idxOf_append]
    split
    · exact List.idxOf_le_length
    · simp
  omega

/-- The classes take their turns, parents first. -/
theorem Stage.foldl (hclasses : Hierarchy classes members) (hno : NoClassMembers classes)
    {order : List String} (hidentifier : ∀ owner ∈ order, IsIdentifier owner)
    (hbefore : ∀ owner parent, Extends classes owner parent →
      order.idxOf parent < order.idxOf owner)
    {done rest : List String} (horder : done ++ rest = order) {catalog : Catalog}
    (h : Stage classes members done catalog) :
    Stage classes members order (rest.foldl (Inheritance.augmentSymbol inherited) catalog) := by
  induction rest generalizing done catalog with
  | nil =>
    rw [List.append_nil] at horder
    exact horder ▸ h
  | cons owner rest ih =>
    have howner : IsIdentifier owner := hidentifier owner (by simp [← horder])
    have hparents : ∀ parent, Extends classes owner parent → parent ∈ done := by
      intro parent hextends
      have hlt := hbefore owner parent hextends
      rw [← horder] at hlt
      exact mem_of_idxOf_lt hlt
    refine ih ?_ (h.augmentSymbol hclasses hno howner hparents)
    rw [List.append_assoc, List.singleton_append]
    exact horder

/-- Of the doclets that arrived, the class-like ones are the classes. -/
theorem mem_classes_iff (hclasses : Hierarchy classes members) {arrival : List Doclet}
    (harrival : arrival.Perm (classes ++ members)) {d : Doclet} :
    (∃ id, (Catalog.empty.insertAll arrival).get? id = some d) ∧ d.kind.any isClassLike = true ↔
      d ∈ classes := by
  rw [Catalog.mem_insertAll_empty, harrival.mem_iff, List.mem_append]
  constructor
  · rintro ⟨hclass | hgiven, hclassLike⟩
    · exact hclass
    · obtain ⟨owner, name, hmember⟩ := hclasses.isMember d hgiven
      rw [hmember.not_classLike] at hclassLike
      cases hclassLike
  · intro hclass
    refine ⟨.inl hclass, ?_⟩
    rw [hclasses.kind d hclass]
    rfl

theorem isNode_insertAll_iff (hclasses : Hierarchy classes members) {arrival : List Doclet}
    (harrival : arrival.Perm (classes ++ members)) {name : String} :
    IsNode (Catalog.empty.insertAll arrival) name ↔ ∃ c ∈ classes, c.longname = name := by
  constructor
  · rintro ⟨id, d, hd, hclass, hname⟩
    exact ⟨d, (mem_classes_iff hclasses harrival).1 ⟨⟨id, hd⟩, hclass⟩, hname⟩
  · rintro ⟨c, hc, hname⟩
    obtain ⟨⟨id, hid⟩, hclass⟩ := (mem_classes_iff hclasses harrival).2 hc
    exact ⟨id, c, hid, hclass, hname⟩

theorem buildsOn_insertAll (hclasses : Hierarchy classes members) {arrival : List Doclet}
    (harrival : arrival.Perm (classes ++ members)) :
    BuildsOn .augments (Catalog.empty.insertAll arrival) = Extends classes := by
  funext child parent
  refine propext ⟨?_, ?_⟩
  · rintro ⟨id, d, hd, ⟨hclass, hname⟩, hparent⟩
    exact ⟨d, (mem_classes_iff hclasses harrival).1 ⟨⟨id, hd⟩, hclass⟩, hname, hparent⟩
  · rintro ⟨c, hc, hname, hparent⟩
    obtain ⟨⟨id, hid⟩, hclass⟩ := (mem_classes_iff hclasses harrival).2 hc
    exact ⟨id, c, hid, ⟨hclass, hname⟩, hparent⟩

/-- All classes can take their turns. -/
theorem exists_stage (hclasses : Hierarchy classes members) (hno : NoClassMembers classes)
    {arrival : List Doclet} (harrival : arrival.Perm (classes ++ members)) :
    ∃ order next, addInherited (Catalog.empty.insertAll arrival) = .ok next ∧
      Stage classes members order next ∧ ∀ c ∈ classes, c.longname ∈ order := by
  have hresolved : Resolved .augments (Catalog.empty.insertAll arrival) := by
    intro id d hd hclass target htarget
    have hc : d ∈ classes := (mem_classes_iff hclasses harrival).1 ⟨⟨id, hd⟩, hclass⟩
    exact (isNode_insertAll_iff hclasses harrival).2 (hclasses.augments d hc target htarget)
  obtain ⟨graph, hgraph⟩ := builds_iff.2 hresolved
  obtain ⟨-, hmem, hbefore⟩ := sort_of_build hgraph
  simp only [isNode_insertAll_iff hclasses harrival] at hmem
  rw [buildsOn_insertAll hclasses harrival] at hbefore
  refine ⟨graph.sort,
    graph.sort.foldl (augmentSymbol inherited) (Catalog.empty.insertAll arrival), ?_, ?_, ?_⟩
  · simp [addInherited, augment, hgraph, bind, Except.bind, pure, Except.pure]
  · refine (Stage.start hclasses harrival).foldl hclasses hno ?_ ?_ (List.nil_append _)
    · intro owner howner
      obtain ⟨c, hc, rfl⟩ := (hmem owner).1 howner
      exact hclasses.isIdentifier c hc
    · intro owner parent hextends
      refine hbefore owner parent hextends fun hback => ?_
      exact hclasses.acyclic owner (.head' hextends hback)
  · exact fun c hc => (hmem _).2 ⟨c, hc, rfl⟩

end Classes

/-- Inheriting is the transitive closure: where classes augment each other without a circle, and no
documented class is an instance member of one that is augmented, each class ends with the members of
all its ancestors and nothing else is added, in whatever order the doclets arrived. -/
theorem inheritsExactly_of_noClassMembers {classes members arrival : List Doclet}
    (hclasses : Hierarchy classes members) (hno : NoClassMembers classes)
    (harrival : arrival.Perm (classes ++ members)) :
    InheritsExactly classes members arrival := by
  obtain ⟨order, next, hnext, hstage, horder⟩ := exists_stage hclasses hno harrival
  refine ⟨next, hnext, fun longname => ⟨?_, ?_⟩⟩
  · rintro ⟨id, d, hd, rfl⟩
    rcases hstage.known hd with ⟨c, hc, heq⟩ | ⟨owner, name, ⟨ancestor, hup, hgiven⟩, hmember⟩
    · exact .inl ⟨c, List.mem_append_left _ hc, congrArg Outline.longname heq⟩
    · rcases Relation.reflTransGen_iff_eq_or_transGen.1 hup with rfl | hup
      · obtain ⟨e, he, hgiven⟩ := hgiven
        exact .inl ⟨e, List.mem_append_right _ he, hgiven.longname.trans hmember.longname.symm⟩
      · exact .inr ⟨owner, ancestor, name, hup, hgiven, hmember.longname⟩
  · rintro (⟨d, hd, rfl⟩ | ⟨owner, ancestor, name, hup, hgiven, rfl⟩)
    · obtain ⟨id, e, he, heq⟩ := hstage.kept d hd
      exact ⟨id, e, he, congrArg Outline.longname heq⟩
    · obtain ⟨parent, ⟨c, hc, rfl, -⟩, -⟩ := Relation.TransGen.head'_iff.1 hup
      exact hstage.complete c.longname (horder c hc) name ⟨ancestor, hup.to_reflTransGen, hgiven⟩

/-- Classes that augment only what comes lower in some measure do so without a circle. -/
theorem acyclic_of_rank {classes : List Doclet} (rank : String → Nat)
    (hrank : ∀ c ∈ classes, ∀ parent ∈ c.augments, rank parent < rank c.longname) (name : String) :
    ¬Relation.TransGen (Extends classes) name name := by
  have hlower : ∀ {child ancestor : String}, Relation.TransGen (Extends classes) child ancestor →
      rank ancestor < rank child := by
    intro child ancestor hup
    induction hup with
    | single hextends =>
      obtain ⟨c, hc, rfl, hparent⟩ := hextends
      exact hrank c hc _ hparent
    | tail _ hextends ih =>
      obtain ⟨c, hc, rfl, hparent⟩ := hextends
      exact (hrank c hc _ hparent).trans ih
  exact fun hcircle => (hlower hcircle).false

/-- A class and what it augments. -/
def sampleClass (longname : String) (augments : List String) : Doclet :=
  { longname, kind := some .class, augments }

/-- A method of a class. -/
def sampleMember (owner name : String) : Doclet :=
  { longname := memberName owner name, memberof := some owner, scope := some .instance,
    kind := some .function }

theorem sampleMember_isMember {owner name : String} (howner : IsIdentifier owner)
    (hname : IsIdentifier name) : IsMember owner name (sampleMember owner name) :=
  ⟨howner, hname, rfl, rfl, rfl, rfl, rfl⟩

/-- A class that comes by two ways from another one. -/
def salads : List Doclet :=
  [sampleClass "Dish" [], sampleClass "Salad" ["Dish"], sampleClass "Potato" ["Dish"],
    sampleClass "PotatoSalad" ["Salad", "Potato"]]

/-- Methods of the classes, one of which overrides another. -/
def saladMembers : List Doclet :=
  [sampleMember "Dish" "serve", sampleMember "Salad" "serve", sampleMember "Potato" "peel"]

theorem inheritsExactly_salads :
    Hierarchy salads saladMembers ∧ NoClassMembers salads ∧
      InheritsExactly salads saladMembers (salads ++ saladMembers).reverse := by
  have hclasses : Hierarchy salads saladMembers := by
    refine ⟨by decide, by decide, by decide, acyclic_of_rank String.length (by decide), ?_⟩
    simp only [saladMembers, List.forall_mem_cons]
    exact ⟨⟨_, _, sampleMember_isMember (by decide) (by decide)⟩,
      ⟨_, _, sampleMember_isMember (by decide) (by decide)⟩,
      ⟨_, _, sampleMember_isMember (by decide) (by decide)⟩, by simp⟩
  have hno : NoClassMembers salads := by
    intro c hc _ _ _ hmember
    have hglobal : ∀ c ∈ salads, c.memberof = none := by decide
    rw [hglobal c hc] at hmember
    cases hmember.1
  exact ⟨hclasses, hno, inheritsExactly_of_noClassMembers hclasses hno (List.reverse_perm _)⟩

/-- A class that is said to be an instance member of another one. -/
def bowl : Doclet := { sampleClass "Bowl" [] with memberof := some "Dish", scope := some .instance }

/-- Classes of which one is handed on as a member. -/
def bowlClasses : List Doclet := [sampleClass "Dish" [], sampleClass "Salad" ["Dish"], bowl]

/-- A class that is an instance member is handed on as well, under a longname that is none of a
member. -/
theorem bowl_not_inheritsExactly :
    Hierarchy bowlClasses [] ∧ ¬InheritsExactly bowlClasses [] bowlClasses := by
  refine ⟨⟨by decide, by decide, by decide, acyclic_of_rank String.length (by decide), by simp⟩, ?_⟩
  rintro ⟨next, hnext, hiff⟩
  have hcopy : (addInherited (Catalog.empty.insertAll bowlClasses)).toOption.bind
      (·.longnameAt? 3) = some "SaladBowl" := by decide +kernel
  rw [hnext] at hcopy
  obtain ⟨d, hd, hlongname⟩ := Option.map_eq_some_iff.1 hcopy
  rcases (hiff "SaladBowl").1 ⟨3, d, hd, hlongname⟩ with hgiven | ⟨_, _, _, -, ⟨e, he, -⟩, -⟩
  · revert hgiven
    decide
  · cases he

end Inheritance

end Commentary
