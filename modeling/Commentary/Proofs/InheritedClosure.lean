import Commentary.Proofs.PassTurns

/-!
# What inheritance hands down

After inheritance every class and interface has a doclet under the longname of each instance member
of each of its parents, those included that the parents were handed themselves. Each copy says where
it comes from: whose member it is, and which doclet it goes back to, along chains of any length
(`addInherited_closed`).

The closure is a matter of the order. In the turn of a class all members of its parents are there,
and each of them is offered (`carries_augmentSymbol`). Where a copy comes from is kept turn by turn
(`Accounted.augmentSymbol`): what a copy is made from either is no copy, and then it is the source,
or is a copy that says its source.
-/

namespace Commentary.Inheritance

/-- Only classes and interfaces inherit. -/
def CanInherit (d : Doclet) : Prop := d.kind = some .class ∨ d.kind = some .interface

theorem addsMembers_inherited : AddsMembers inherited :=
  addsMembers_of_gathered fun _ _ _ hcatalog =>
    Gathered.inherited (fun _ _ _ _ _ _ _ _ => rfl) (fun _ he => he) (.start hcatalog)

/-! ## Where copies come from -/

/-- A doclet was inherited: it is a member of a class or an interface, and goes back to a doclet of
the first catalog that was not inherited. -/
structure IsInherited (origin catalog : Catalog) (e : Doclet) : Prop where
  inherited : e.inherited = true
  owner : ∃ id c, catalog.get? id = some c ∧ CanInherit c ∧ e.memberof = some c.longname
  source : ∃ id d, origin.get? id = some d ∧ d.inherited = false ∧ e.inherits = some d.longname

/-- Each doclet was there at first, but for notes, or was inherited. -/
def Accounted (origin catalog : Catalog) : Prop :=
  ∀ id e, catalog.get? id = some e →
    (∃ d, origin.get? id = some d ∧ core d = core e) ∨ IsInherited origin catalog e

section Accounting

variable {origin catalog : Catalog}

theorem IsInherited.grown {owners : List String} {next : Catalog} {e e' : Doclet}
    (h : IsInherited origin catalog e) (hgrown : Grown owners catalog next)
    (heq : core e = core e') : IsInherited origin next e' where
  inherited := (eq_of_core heq Doclet.inherited).symm.trans h.inherited
  owner := by
    obtain ⟨id, c, hc, hkind, hmember⟩ := h.owner
    obtain ⟨c', hc', heq'⟩ := hgrown.kept hc
    refine ⟨id, c', hc', (eq_of_core heq' CanInherit).mpr hkind, ?_⟩
    rw [← eq_of_core heq Doclet.memberof, hmember, eq_of_core heq' Doclet.longname]
  source := by
    obtain ⟨id, d, hd, hnew, hinherits⟩ := h.source
    exact ⟨id, d, hd, hnew, (eq_of_core heq Doclet.inherits).symm.trans hinherits⟩

/-- A copy of what is accounted for goes back to a doclet that was there at first. -/
theorem Accounted.source (h : Accounted origin catalog)
    (horigin : ∀ id d, origin.get? id = some d → d.inherited = false) {annotated : Catalog}
    (hannotated : Annotated catalog annotated) {parent : String} {ancestor : Doclet}
    (hancestor : ancestor ∈ sources annotated parent (some [.instance])) (owner : String) :
    ∃ id d, origin.get? id = some d ∧ d.inherited = false ∧
      (inheritedCopy owner ancestor).inherits = some d.longname := by
  obtain ⟨⟨id, hid⟩, -⟩ := mem_sources hancestor
  obtain ⟨e, he, heq⟩ := hannotated.exists_base hid
  rcases h id e he with ⟨d, hd, heq'⟩ | hinherited
  -- the ancestor is no copy
  · have hcore : core d = core ancestor := heq'.trans heq
    have hnew : ancestor.inherited = false :=
      (eq_of_core hcore Doclet.inherited).symm.trans (horigin id d hd)
    refine ⟨id, d, hd, horigin id d hd, ?_⟩
    simp [inheritedCopy, hnew, eq_of_core hcore Doclet.longname]
  -- the ancestor is a copy itself, and says where it comes from
  · obtain ⟨i, d, hd, hnew, hinherits⟩ := hinherited.source
    have hcopy : ancestor.inherited = true :=
      (eq_of_core heq Doclet.inherited).symm.trans hinherited.inherited
    have hsame : ancestor.inherits = some d.longname :=
      (eq_of_core heq Doclet.inherits).symm.trans hinherits
    exact ⟨i, d, hd, hnew, by simp [inheritedCopy, hcopy, hsame]⟩

/-- The turn of a symbol leaves every doclet accounted for. -/
theorem Accounted.augmentSymbol (h : Accounted origin catalog)
    (horigin : ∀ id d, origin.get? id = some d → d.inherited = false) (hindexed : catalog.Indexed)
    (owner : String) : Accounted origin (augmentSymbol inherited catalog owner) := by
  have hgathered : Gathered catalog
      (fun e => IsInherited origin catalog e ∧ e.memberof = some owner)
      ((catalog.lookup owner).foldl (findFor inherited) { catalog }) := by
    refine gathered_lookup hindexed fun annotated id c hannotated hc hname => ?_
    refine Gathered.inherited (fun next parent ancestor overrides hnext hkind _ hancestor => ?_)
      (fun e he => ⟨⟨he.1.inherited, he.1.owner, he.1.source⟩, he.2⟩) (.start hannotated)
    obtain ⟨c', hc', heq⟩ := hannotated.exists_base hc
    have howner : some c.longname = some c'.longname :=
      congrArg some (eq_of_core heq Doclet.longname).symm
    exact ⟨⟨rfl, ⟨id, c', hc', (eq_of_core heq CanInherit).mpr hkind, howner⟩,
      h.source horigin hnext hancestor c.longname⟩, congrArg some hname⟩
  have hgrown := hgathered.grown hindexed fun _ he => he.2
  intro id e he
  rcases Catalog.get?_insertAll_cases he with hold | hnew
  · obtain ⟨d, hd, heq⟩ := hgathered.annotated.exists_base hold
    rcases h id d hd with ⟨d', hd', heq'⟩ | hinherited
    · exact .inl ⟨d', hd', heq'.trans heq⟩
    · exact .inr (hinherited.grown hgrown heq)
  · exact .inr ((hgathered.copies e hnew).1.grown hgrown rfl)

/-- All turns leave every doclet accounted for. -/
theorem Accounted.foldl (h : Accounted origin catalog)
    (horigin : ∀ id d, origin.get? id = some d → d.inherited = false) (hindexed : catalog.Indexed)
    (order : List String) :
    Accounted origin (order.foldl (Inheritance.augmentSymbol inherited) catalog) := by
  induction order generalizing catalog with
  | nil => exact h
  | cons owner order ih =>
    exact ih (h.augmentSymbol horigin hindexed owner)
      (addsMembers_inherited catalog owner hindexed).indexed

end Accounting

/-! ## What a turn hands down -/

section Closure

variable {base : Catalog} {state : State}

theorem underway_inheritMember (owner : String) (h : Underway base state) (ancestor : Doclet) :
    Underway base (inheritMember owner state ancestor) :=
  h.offer trivial trivial fun _ => rfl

theorem underway_inheritFrom (owner : String) (h : Underway base state) (parent : String) :
    Underway base (inheritFrom owner state parent) :=
  List.foldlRecOn _ _ h fun _ hstate ancestor _ => underway_inheritMember owner hstate ancestor

theorem underway_inherited (h : Underway base state) (descendant : Doclet) :
    Underway base (inherited state descendant) :=
  Gathered.inherited (fun _ _ _ _ _ _ _ _ => trivial) (fun _ _ => trivial) h

theorem underway_findFor (h : Underway base state) (id : Nat) :
    Underway base (findFor Inheritance.inherited state id) :=
  Gathered.findFor h fun d _ => underway_inherited (.start h.annotated) d

variable {longname : String}

theorem Provides.inheritMember (owner : String) (h : Provides base state longname)
    (ancestor : Doclet) : Provides base (inheritMember owner state ancestor) longname :=
  h.offer _ fun _ => rfl

theorem Provides.inheritFrom (owner : String) (h : Provides base state longname)
    (parent : String) : Provides base (inheritFrom owner state parent) longname :=
  List.foldlRecOn (motive := fun state => Provides base state longname) _ _ h
    fun _ hstate ancestor _ => hstate.inheritMember owner ancestor

theorem Provides.findFor (finder : Finder) (h : Provides base state longname) (id : Nat) :
    Provides base (findFor finder state id) longname :=
  h.imp_right fun hkey => mem_keys_findFor hkey finder id

/-- The members of a parent are offered one by one. -/
theorem provides_inheritFrom (h : Underway base state) {parent : String} {ancestor : Doclet}
    (hancestor : ancestor ∈ sources state.catalog parent (some [.instance])) (owner : String) :
    Provides base (inheritFrom owner state parent) (changeOwner ancestor.longname owner) := by
  refine foldl_reaches (I := Underway base)
    (p := fun state => Provides base state (changeOwner ancestor.longname owner))
    (fun _ ancestor hstate => underway_inheritMember owner hstate ancestor)
    (fun _ ancestor hprovided => hprovided.inheritMember owner ancestor) hancestor ?_ h
  intro state hstate
  exact provides_offer hstate.annotated.retouched _ fun _ => rfl

/-- All parents of a class are asked for their members. -/
theorem provides_inherited (h : Underway base state) {parent : String}
    (hhands : HandsOn base parent longname) {descendant : Doclet} (hkind : CanInherit descendant)
    (hparent : parent ∈ descendant.augments) :
    Provides base (inherited state descendant) (changeOwner longname descendant.longname) := by
  unfold inherited
  rw [CanInherit] at hkind
  rw [if_pos hkind]
  refine foldl_reaches (I := Underway base)
    (p := fun state => Provides base state (changeOwner longname descendant.longname))
    (fun _ parent hstate => underway_inheritFrom _ hstate parent)
    (fun _ parent hprovided => hprovided.inheritFrom _ parent) hparent ?_ h
  intro state hstate
  obtain ⟨ancestor, hancestor, rfl⟩ := hhands.of_annotated hstate.annotated
  exact provides_inheritFrom hstate hancestor _

/-- The turn of a class gives it every member that a parent has by then. -/
theorem carries_augmentSymbol (hindexed : base.Indexed) {id : Nat} {d : Doclet}
    (hd : base.get? id = some d) (hkind : CanInherit d) {parent : String}
    (hparent : parent ∈ d.augments) (hhands : HandsOn base parent longname) :
    (augmentSymbol inherited base d.longname).Carries (changeOwner longname d.longname) := by
  have hstart : Underway base { catalog := base } := .start (.refl base)
  have hend : Underway base
      ((base.lookup d.longname).foldl (findFor inherited) { catalog := base }) :=
    List.foldlRecOn _ _ hstart fun _ hstate id _ => underway_findFor hstate id
  have hprovided : Provides base
      ((base.lookup d.longname).foldl (findFor inherited) { catalog := base })
      (changeOwner longname d.longname) := by
    refine foldl_reaches (I := Underway base)
      (p := fun state => Provides base state (changeOwner longname d.longname))
      (fun _ id hstate => underway_findFor hstate id)
      (fun _ id hprovided => hprovided.findFor _ id)
      ((mem_lookup_iff hindexed).2 ⟨d, hd, rfl⟩) ?_ hstart
    intro state hstate
    obtain ⟨e, he, heq⟩ := hstate.annotated.symm.exists_base hd
    have hkind' : CanInherit e := (eq_of_core heq CanInherit).mpr hkind
    have hparent' : parent ∈ e.augments := by rwa [eq_of_core heq Doclet.augments]
    have hfresh : Underway base { catalog := state.catalog } := .start hstate.annotated
    have hfound := provides_inherited hfresh hhands hkind' hparent'
    rw [eq_of_core heq Doclet.longname] at hfound
    exact hfound.imp_right (mem_keys_findFor_of_get? he (underway_inherited hfresh e).keyed)
  rcases hprovided with hbase | hkey
  -- the longname was there
  · have hgrown := addsMembers_inherited base d.longname hindexed
    exact hgrown.keeps ((hindexed.contains_iff_carries _).1 hbase)
  -- a copy with the longname was added
  · obtain ⟨copy, hcopy, hlongname⟩ := hend.keyed.mem_keys_iff.1 hkey
    obtain ⟨i, hi⟩ := Catalog.exists_get?_insertAll hcopy
    exact ⟨i, copy, hi, hlongname⟩

end Closure

/-! ## The pass -/

/-- Inheritance is closed and says where it takes from. Where the doclets augment each other without
a circle and none is marked as inherited, each class and each interface ends with a doclet under the
longname of every documented instance member that a parent ends with. Each doclet that was added is
a member of a class or an interface, and goes back to a doclet that was there before. -/
theorem addInherited_closed {catalog : Catalog} (hindexed : catalog.Indexed)
    (hbuilds : Builds .augments catalog)
    (hacyclic : ∀ node, ¬Relation.TransGen (BuildsOn .augments catalog) node node)
    (hnew : ∀ id d, catalog.get? id = some d → d.inherited = false) :
    ∃ next, addInherited catalog = .ok next ∧
      (∀ id d, catalog.get? id = some d → CanInherit d → ∀ parent ∈ d.augments, ∀ longname,
        HandsOn next parent longname →
          next.contains (changeOwner longname d.longname) = true) ∧
      ∀ id e, next.get? id = some e → catalog.size ≤ id → IsInherited catalog next e := by
  obtain ⟨order, -, hnext, horder⟩ := exists_order inherited hbuilds hacyclic
  refine ⟨_, hnext, ?_, ?_⟩
  · intro id d hd hkind parent hparent longname hhands
    have hclass : d.kind.any isClassLike = true := by
      rcases hkind with hkind | hkind <;> rw [hkind] <;> rfl
    obtain ⟨front, back, rfl, hnot⟩ :=
      horder d.longname parent ⟨id, d, hd, ⟨hclass, rfl⟩, hparent⟩
    -- what the parent ends with, it has when the class has its turn
    obtain ⟨before, hbefore, hafter, hrest⟩ :=
      addsMembers_inherited.turn hindexed front d.longname back
    have hhands' := hhands.before hafter hnot
    obtain ⟨e, he, heq⟩ := hbefore.kept hd
    have hlongname : e.longname = d.longname := eq_of_core heq Doclet.longname
    have hparent' : parent ∈ e.augments := by rwa [eq_of_core heq Doclet.augments]
    have hcarries := carries_augmentSymbol hbefore.indexed he
      ((eq_of_core heq CanInherit).mpr hkind) hparent' hhands'
    rw [hlongname] at hcarries
    exact (hrest.indexed.contains_iff_carries _).2 (hrest.keeps hcarries)
  · intro id e he hid
    have hstart : Accounted catalog catalog := fun _ d hd => .inl ⟨d, hd, rfl⟩
    rcases hstart.foldl hnew hindexed order id e he with ⟨d, hd, -⟩ | hinherited
    · exact absurd (Catalog.lt_size_of_get? hd) (Nat.not_lt.2 hid)
    · exact hinherited

/-- Classes that augment each other in a row, the last one first, and a method of the first one. -/
def row : Catalog :=
  Catalog.empty.insertAll
    [sampleClass "PotatoSalad" ["Salad"], sampleClass "Salad" ["Dish"], sampleClass "Dish" [],
      sampleMember "Dish" "serve"]

/-- The method comes down the whole row, and the last copy still goes back to the first class. -/
theorem addInherited_closed_row :
    ((addInherited row).toOption.bind (·.get? 5)).map (fun e => (e.longname, e.inherits)) =
        some ("PotatoSalad#serve", some "Dish#serve") ∧
      ∃ next, addInherited row = .ok next ∧
        (∀ id d, row.get? id = some d → CanInherit d → ∀ parent ∈ d.augments, ∀ longname,
          HandsOn next parent longname →
            next.contains (changeOwner longname d.longname) = true) ∧
        ∀ id e, next.get? id = some e → row.size ≤ id → IsInherited row next e := by
  have hnew : ∀ d ∈ row.toList, d.inherited = false := by decide
  refine ⟨by decide +kernel, addInherited_closed (Catalog.Indexed.empty.insertAll _)
    (by decide +kernel) (acyclic_of_lower String.length (by decide)) fun id d hd => ?_⟩
  exact hnew d (Catalog.mem_toList.2 ⟨id, hd⟩)

end Commentary.Inheritance
