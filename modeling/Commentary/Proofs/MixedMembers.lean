import Commentary.Proofs.PassTurns

/-!
# What is mixed in

After mixing in, a symbol has an instance member for every documented member of every mixin of its
own, of whatever scope, those included that the mixin was handed from mixins itself
(`addMixed_complete`).

Members of different scopes and of different mixins may come under one longname, and then the last
copy stays. But all copies of a turn are instance members of the same symbol (`IsMixed`). So it is
enough to follow the longnames: that of each member is set in the turn (`hasMixed_augmentSymbol`).
-/

namespace Commentary.Inheritance

/-- A doclet was mixed into a symbol as an instance member of it. -/
structure IsMixed (owner : String) (e : Doclet) : Prop where
  mixed : e.mixed = true
  scope : e.scope = some .instance
  memberof : e.memberof = some owner

theorem isMixed_mixedCopy (owner : String) (member : Doclet) :
    IsMixed owner (mixedCopy owner member) := ⟨rfl, rfl, rfl⟩

/-- The longname of a member of a mixin below what mixes it in. -/
def mixedLongname (longname owner : String) : String :=
  { Longname.split longname with memberof := owner, scope := .instance }.join

/-- A symbol has a member of a longname that was mixed in. -/
def HasMixed (catalog : Catalog) (owner longname : String) : Prop :=
  ∃ id e, catalog.get? id = some e ∧ IsMixed owner e ∧ e.longname = longname

variable {base : Catalog} {owner longname : String}

theorem HasMixed.grown {owners : List String} {catalog : Catalog} (h : HasMixed base owner longname)
    (hgrown : Grown owners base catalog) : HasMixed catalog owner longname := by
  obtain ⟨id, e, he, hmixed, hlongname⟩ := h
  obtain ⟨e', he', heq⟩ := hgrown.kept he
  refine ⟨id, e', he', ⟨?_, ?_, ?_⟩, (eq_of_core heq Doclet.longname).trans hlongname⟩
  · exact (eq_of_core heq Doclet.mixed).trans hmixed.mixed
  · exact (eq_of_core heq Doclet.scope).trans hmixed.scope
  · exact (eq_of_core heq Doclet.memberof).trans hmixed.memberof

/-! ## A turn -/

/-- In the turn of a symbol, all copies are mixed into it. -/
theorem gathered_mixed (hindexed : base.Indexed) (owner : String) :
    Gathered base (IsMixed owner)
      ((base.lookup owner).foldl (findFor mixed) { catalog := base }) := by
  refine gathered_lookup hindexed fun catalog id consumer hcatalog _ hname => ?_
  refine Gathered.mixed (fun _ _ member _ _ _ => ?_) (.start hcatalog)
  rw [hname]
  exact isMixed_mixedCopy owner member

theorem addsMembers_mixed : AddsMembers mixed := fun _ owner hindexed =>
  (gathered_mixed hindexed owner).grown hindexed fun _ he => he.memberof

theorem mixFrom_eq (owner : String) (state : State) (mixin : String) :
    mixFrom owner state mixin =
      { state with
        additions := ((sources state.catalog mixin none).map (mixedCopy owner)).foldl addCopy
          state.additions } := by
  rw [List.foldl_map]
  rfl

/-- Every member of every mixin sets its longname. -/
theorem mem_keys_mixed {state : State} {consumer member : Doclet} {mixin : String}
    (hmixin : mixin ∈ consumer.mixes) (hmember : member ∈ sources state.catalog mixin none) :
    mixedLongname member.longname consumer.longname ∈ (mixed state consumer).additions.keys := by
  refine foldl_reaches (f := mixFrom consumer.longname)
    (I := fun s : State => s.catalog = state.catalog)
    (p := fun s : State => mixedLongname member.longname consumer.longname ∈ s.additions.keys)
    (fun _ _ hsame => hsame) ?_ hmixin ?_ rfl
  · intro s mixin hkey
    rw [mixFrom_eq]
    exact mem_keys_foldl_addCopy.2 (.inr hkey)
  · intro s hsame
    rw [mixFrom_eq, hsame]
    exact mem_keys_foldl_addCopy.2 (.inl ⟨_, List.mem_map_of_mem hmember, rfl⟩)

/-- The turn of a symbol mixes in every documented member that a mixin has by then. -/
theorem hasMixed_augmentSymbol (hindexed : base.Indexed) {id : Nat} {consumer : Doclet}
    (hconsumer : base.get? id = some consumer) {mixin : String} (hmixin : mixin ∈ consumer.mixes)
    {i : Nat} {member : Doclet} (hmember : base.get? i = some member)
    (howner : member.memberof = some mixin) (hdocumented : member.undocumented = false) :
    HasMixed (augmentSymbol mixed base consumer.longname) consumer.longname
      (mixedLongname member.longname consumer.longname) := by
  have hgathered := gathered_mixed hindexed consumer.longname
  have hkey : mixedLongname member.longname consumer.longname ∈
      ((base.lookup consumer.longname).foldl (findFor mixed)
        { catalog := base }).additions.keys := by
    refine foldl_reaches (I := Underway base)
      (p := fun state => mixedLongname member.longname consumer.longname ∈ state.additions.keys)
      (fun state id hstate => hstate.findFor fun d _ =>
        Gathered.mixed (fun _ _ _ _ _ _ => trivial) (.start hstate.annotated))
      (fun state id hkey => mem_keys_findFor hkey mixed id)
      ((mem_lookup_iff hindexed).2 ⟨consumer, hconsumer, rfl⟩) ?_ (.start (.refl base))
    intro state hstate
    obtain ⟨e, he, heq⟩ := hstate.annotated.symm.exists_base hconsumer
    obtain ⟨m, hm, heq'⟩ := hstate.annotated.symm.exists_base hmember
    have hsource : m ∈ sources state.catalog mixin none :=
      mem_sources_inScopes_iff.2 ⟨i, hm, (eq_of_core heq' Doclet.memberof).trans howner, rfl,
        (eq_of_core heq' Doclet.undocumented).trans hdocumented⟩
    have hmixin' : mixin ∈ e.mixes := by rwa [eq_of_core heq Doclet.mixes]
    have hfresh : Underway base { catalog := state.catalog } :=
      .start hstate.annotated
    have hfound : mixedLongname m.longname e.longname ∈
        (mixed { catalog := state.catalog } e).additions.keys := mem_keys_mixed hmixin' hsource
    rw [eq_of_core heq Doclet.longname, eq_of_core heq' Doclet.longname] at hfound
    refine mem_keys_findFor_of_get? he ?_ hfound
    exact (hfresh.mixed fun _ _ _ _ _ _ => trivial).keyed
  obtain ⟨copy, hcopy, hlongname⟩ := hgathered.keyed.mem_keys_iff.1 hkey
  obtain ⟨j, hj⟩ := Catalog.exists_get?_insertAll hcopy
  exact ⟨j, copy, hj, hgathered.copies copy hcopy, hlongname⟩

/-! ## The pass -/

/-- Mixing in is complete. Where symbols mix in each other without a circle, each class-like doclet
ends with an instance member, marked as mixed in, for every documented member that a mixin ends
with. -/
theorem addMixed_complete {catalog : Catalog} (hindexed : catalog.Indexed)
    (hbuilds : Builds .mixes catalog)
    (hacyclic : ∀ node, ¬Relation.TransGen (BuildsOn .mixes catalog) node node) :
    ∃ next, addMixed catalog = .ok next ∧
      ∀ id w, catalog.get? id = some w → w.kind.any isClassLike = true → ∀ mixin ∈ w.mixes,
        ∀ i m, next.get? i = some m → m.memberof = some mixin → m.undocumented = false →
          HasMixed next w.longname (mixedLongname m.longname w.longname) := by
  obtain ⟨order, -, hnext, horder⟩ := exists_order mixed hbuilds hacyclic
  refine ⟨_, hnext, fun id w hw hclass mixin hmixin i m hm howner hdocumented => ?_⟩
  obtain ⟨front, back, rfl, hnot⟩ := horder w.longname mixin ⟨id, w, hw, ⟨hclass, rfl⟩, hmixin⟩
  -- what the mixin ends with, it has when the symbol has its turn
  obtain ⟨before, hbefore, hafter, hrest⟩ := addsMembers_mixed.turn hindexed front w.longname back
  obtain ⟨m', hm', heq'⟩ := hafter.member_before hm howner hnot
  obtain ⟨w', hw', heq⟩ := hbefore.kept hw
  have hmixin' : mixin ∈ w'.mixes := by rwa [eq_of_core heq Doclet.mixes]
  have hhas := hasMixed_augmentSymbol hbefore.indexed hw' hmixin' hm'
    ((eq_of_core heq' Doclet.memberof).trans howner)
    ((eq_of_core heq' Doclet.undocumented).trans hdocumented)
  rw [eq_of_core heq Doclet.longname, eq_of_core heq' Doclet.longname] at hhas
  exact hhas.grown hrest

/-- A class that mixes in a mixin of a mixin, which has a static method. -/
def chefs : Catalog :=
  Catalog.empty.insertAll
    [{ longname := "HeadChef", kind := some .class, mixes := ["Cooking"] },
      { longname := "Cooking", kind := some .mixin, mixes := ["Stir"] },
      { longname := "Stir", kind := some .mixin },
      { longname := "Stir.taste", memberof := some "Stir", scope := some .static,
        kind := some .function }]

/-- The static method becomes an instance method of the mixin in between and of the class. -/
theorem addMixed_complete_chefs :
    (addMixed chefs).toOption.map (fun next => (next.longnameAt? 4, next.longnameAt? 5)) =
        some (some "Cooking#taste", some "HeadChef#taste") ∧
      ∃ next, addMixed chefs = .ok next ∧
        ∀ id w, chefs.get? id = some w → w.kind.any isClassLike = true → ∀ mixin ∈ w.mixes,
          ∀ i m, next.get? i = some m → m.memberof = some mixin → m.undocumented = false →
            HasMixed next w.longname (mixedLongname m.longname w.longname) :=
  ⟨by decide +kernel, addMixed_complete (Catalog.Indexed.empty.insertAll _) (by decide +kernel)
    (acyclic_of_lower String.length (by decide))⟩

end Commentary.Inheritance
