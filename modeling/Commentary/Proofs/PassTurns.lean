import Commentary.Proofs.InheritedMembers

/-!
# The turns of a pass

A pass takes the symbols one by one, and all that the turn of a symbol adds are members of that
symbol. What was there stays, but for notes (`Grown`). Where nothing builds on itself, each symbol
comes once, behind what it builds on (`exists_order`). So when a symbol has its turn, all members of
the symbols it builds on that will ever be there are there (`Grown.member_before`).

Within a turn, copies are gathered (`Gathered`). What the finders of all passes do to a turn is said
here as far as it hangs on what their copies are like.

Which notes a pass makes in doclets differs from pass to pass. `core` is what none of them touches.
-/

namespace Commentary.Inheritance

/-! ## What no pass changes -/

/-- A doclet without the notes of passes: whether it is ignored, and what it overrides and
implements. -/
def core (d : Doclet) : Doclet := { d with ignore := false, overrides := none, implements := [] }

/-- Doclets that differ in notes agree in all that does not read them. -/
theorem eq_of_core {β : Type} {d e : Doclet} (h : core d = core e) (field : Doclet → β)
    (hfield : ∀ d, field (core d) = field d := by intro _; rfl) : field d = field e := by
  rw [← hfield d, h, hfield]

/-- A catalog is another one with notes of passes in its doclets. -/
structure Annotated (base catalog : Catalog) : Prop where
  byLongname : catalog.byLongname = base.byLongname
  core : ∀ id, (catalog.get? id).map core = (base.get? id).map core

namespace Annotated

variable {base catalog : Catalog}

theorem refl (catalog : Catalog) : Annotated catalog catalog := ⟨rfl, fun _ => rfl⟩

theorem modify (h : Annotated base catalog) (id : Nat) {change : Doclet → Doclet}
    (hchange : ∀ d, Inheritance.core (change d) = Inheritance.core d) :
    Annotated base (catalog.modify id change) where
  byLongname := h.byLongname
  core := by
    intro i
    rw [Catalog.get?_modify, ← h.core i]
    split
    · rw [Option.map_map]
      exact congrArg (Option.map · (catalog.get? i)) (funext hchange)
    · rfl

theorem modifyAll (h : Annotated base catalog) (ids : List Nat) {change : Doclet → Doclet}
    (hchange : ∀ d, Inheritance.core (change d) = Inheritance.core d) :
    Annotated base (modifyAll catalog ids change) :=
  List.foldlRecOn ids _ h fun _ h id _ => h.modify id hchange

theorem retouched (h : Annotated base catalog) : Retouched base catalog where
  byLongname := h.byLongname
  outline := by
    intro id
    have houtline := congrArg (Option.map outline) (h.core id)
    rwa [Option.map_map, Option.map_map] at houtline

theorem symm (h : Annotated base catalog) : Annotated catalog base :=
  ⟨h.byLongname.symm, fun id => (h.core id).symm⟩

/-- Each doclet is one of the base, but for notes. -/
theorem exists_base (h : Annotated base catalog) {id : Nat} {d : Doclet}
    (hd : catalog.get? id = some d) :
    ∃ e, base.get? id = some e ∧ Inheritance.core e = Inheritance.core d := by
  have hcore := h.core id
  rw [hd] at hcore
  obtain ⟨e, he, heq⟩ := Option.map_eq_some_iff.1 hcore.symm
  exact ⟨e, he, heq⟩

end Annotated

/-! ## What turns add -/

/-- A catalog after some symbols had their turns: what was there stays, but for notes, and all else
are members of these symbols. -/
structure Grown (owners : List String) (base catalog : Catalog) : Prop where
  indexed : catalog.Indexed
  kept : ∀ {id : Nat} {d : Doclet}, base.get? id = some d →
    ∃ e, catalog.get? id = some e ∧ core e = core d
  known : ∀ {id : Nat} {e : Doclet}, catalog.get? id = some e →
    (∃ d, base.get? id = some d ∧ core d = core e) ∨ ∃ owner ∈ owners, e.memberof = some owner

namespace Grown

variable {owners owners' : List String} {base catalog next : Catalog}

theorem refl (h : base.Indexed) : Grown [] base base where
  indexed := h
  kept := fun {_ d} hd => ⟨d, hd, rfl⟩
  known := fun {_ e} he => .inl ⟨e, he, rfl⟩

theorem trans (h : Grown owners base catalog) (h' : Grown owners' catalog next) :
    Grown (owners ++ owners') base next where
  indexed := h'.indexed
  kept := by
    intro id d hd
    obtain ⟨e, he, heq⟩ := h.kept hd
    obtain ⟨e', he', heq'⟩ := h'.kept he
    exact ⟨e', he', heq'.trans heq⟩
  known := by
    intro id e he
    rcases h'.known he with ⟨d, hd, heq⟩ | ⟨owner, howner, hmember⟩
    · rcases h.known hd with ⟨d', hd', heq'⟩ | ⟨owner, howner, hmember⟩
      · exact .inl ⟨d', hd', heq'.trans heq⟩
      · exact .inr ⟨owner, List.mem_append_left _ howner,
          (eq_of_core heq Doclet.memberof).symm.trans hmember⟩
    · exact .inr ⟨owner, List.mem_append_right _ howner, hmember⟩

theorem of_insertAll (hbase : base.Indexed) (h : Annotated base catalog) {ds : List Doclet}
    {owner : String} (hds : ∀ d ∈ ds, d.memberof = some owner) :
    Grown [owner] base (catalog.insertAll ds) where
  indexed := (h.retouched.indexed hbase).insertAll ds
  kept := by
    intro id d hd
    obtain ⟨e, he, heq⟩ := h.symm.exists_base hd
    exact ⟨e, Catalog.get?_insertAll_of_get? he ds, heq⟩
  known := by
    intro id e he
    rcases Catalog.get?_insertAll_cases he with hold | hnew
    · exact .inl (h.exists_base hold)
    · exact .inr ⟨owner, List.mem_singleton.2 rfl, hds e hnew⟩

/-- No longname is lost. -/
theorem keeps (h : Grown owners base catalog) {longname : String}
    (hcarries : base.Carries longname) : catalog.Carries longname := by
  obtain ⟨id, d, hd, hlongname⟩ := hcarries
  obtain ⟨e, he, heq⟩ := h.kept hd
  exact ⟨id, e, he, (eq_of_core heq Doclet.longname).trans hlongname⟩

/-- The members of other symbols were there before. -/
theorem member_before (h : Grown owners base catalog) {id : Nat} {e : Doclet}
    (he : catalog.get? id = some e) {owner : String} (hmember : e.memberof = some owner)
    (howner : owner ∉ owners) : ∃ d, base.get? id = some d ∧ core d = core e := by
  rcases h.known he with hbase | ⟨owner', howner', hmember'⟩
  · exact hbase
  · obtain rfl : owner = owner' := Option.some.inj (hmember.symm.trans hmember')
    exact absurd howner' howner

end Grown

/-! ## What is handed on -/

/-- A doclet is a documented instance member of a symbol. -/
def IsHandedOn (parent longname : String) (m : Doclet) : Prop :=
  m.memberof = some parent ∧ m.scope = some .instance ∧ m.undocumented = false ∧
    m.longname = longname

/-- A catalog holds a documented instance member of a symbol under a longname. -/
def HandsOn (catalog : Catalog) (parent longname : String) : Prop :=
  ∃ id m, catalog.get? id = some m ∧ IsHandedOn parent longname m

section HandsOn

variable {base catalog : Catalog} {parent longname : String}

theorem HandsOn.of_annotated (h : HandsOn base parent longname)
    (hannotated : Annotated base catalog) :
    ∃ m ∈ sources catalog parent (some [.instance]), m.longname = longname := by
  obtain ⟨id, m, hm, hmember⟩ := h
  obtain ⟨e, he, heq⟩ := hannotated.symm.exists_base hm
  obtain ⟨howner, hscope, hdocumented, hlongname⟩ :=
    (eq_of_core heq (IsHandedOn parent longname)).mpr hmember
  exact ⟨e, mem_sources_iff.2 ⟨id, he, howner, hscope, hdocumented⟩, hlongname⟩

/-- What a parent hands on that has no more turns, it handed on before. -/
theorem HandsOn.before (h : HandsOn catalog parent longname) {owners : List String}
    (hgrown : Grown owners base catalog) (hparent : parent ∉ owners) :
    HandsOn base parent longname := by
  obtain ⟨id, m, hm, hmember⟩ := h
  obtain ⟨e, he, heq⟩ := hgrown.member_before hm hmember.1 hparent
  exact ⟨id, e, he, (eq_of_core heq (IsHandedOn parent longname)).mpr hmember⟩

end HandsOn

/-! ## One turn -/

/-- Where the turn of a symbol stands: the catalog it started from has got notes, and the copies so
far are kept under their longnames and have some property. -/
structure Gathered (base : Catalog) (Q : Doclet → Prop) (state : State) : Prop where
  annotated : Annotated base state.catalog
  keyed : Keyed state.additions
  copies : ∀ d ∈ copies state.additions, Q d

namespace Gathered

variable {base : Catalog} {Q : Doclet → Prop} {state : State}

theorem start {catalog : Catalog} (h : Annotated base catalog) : Gathered base Q { catalog } where
  annotated := h
  keyed := fun _ hentry => absurd hentry List.not_mem_nil
  copies := fun _ hd => absurd hd List.not_mem_nil

theorem addCopy (h : Gathered base Q state) {catalog : Catalog} (hcatalog : Annotated base catalog)
    {copy : Doclet} (hcopy : Q copy) :
    Gathered base Q { catalog, additions := addCopy state.additions copy } where
  annotated := hcatalog
  keyed := h.keyed.addCopy copy
  copies := forall_copies_addCopy h.copies hcopy

theorem offer (h : Gathered base Q state) {copy : Doclet} {change : Doclet → Doclet}
    (hcopy : Q copy) (hunmark : Q (unmark copy)) (hchange : ∀ d, core (change d) = core d) :
    Gathered base Q (offer state copy change) := by
  unfold Inheritance.offer
  simp only
  split
  · exact h.addCopy h.annotated hcopy
  · split
    · have hignored : Annotated base (modifyAll state.catalog (shownIds state.catalog copy.longname)
          ({ · with ignore := true })) := h.annotated.modifyAll _ fun _ => rfl
      exact h.addCopy hignored hunmark
    · exact { h with annotated := h.annotated.modifyAll _ hchange }

theorem inherited {descendant : Doclet}
    (hcopy : ∀ catalog parent ancestor overrides, Annotated base catalog →
      descendant.kind = some .class ∨ descendant.kind = some .interface →
      parent ∈ descendant.augments → ancestor ∈ sources catalog parent (some [.instance]) →
        Q { inheritedCopy descendant.longname ancestor with overrides })
    (hunmark : ∀ d, Q d → Q (unmark d)) (h : Gathered base Q state) :
    Gathered base Q (inherited state descendant) := by
  refine inherited_keeps (fun start state parent ancestor hstart hstate hkind hparent hfrom => ?_) h
  have hnew := fun overrides =>
    hcopy start.catalog parent ancestor overrides hstart.annotated hkind hparent hfrom
  exact hstate.offer (hnew _) (hunmark _ (hnew _)) fun _ => rfl

theorem implementMember (h : Gathered base Q state) {owner : String} {declared : Doclet}
    (hcopy : Q (implementedCopy owner declared))
    (hunmark : Q (unmark (implementedCopy owner declared))) :
    Gathered base Q (implementMember owner state declared) := by
  unfold Inheritance.implementMember
  simp only
  split
  · exact h.offer hcopy hunmark fun _ => rfl
  · exact h

theorem implemented {implementer : Doclet}
    (hcopy : ∀ catalog interface declared, Annotated base catalog →
      interface ∈ implementer.implements →
      declared ∈ sources catalog interface (some [.instance]) →
        Q (implementedCopy implementer.longname declared))
    (hunmark : ∀ d, Q d → Q (unmark d)) (h : Gathered base Q state) :
    Gathered base Q (implemented state implementer) := by
  refine implemented_keeps (fun start state interface declared hstart hstate hinterface hfrom => ?_)
    h
  have hnew := hcopy start.catalog interface declared hstart.annotated hinterface hfrom
  exact hstate.implementMember hnew (hunmark _ hnew)

theorem foldl_addCopy (h : Gathered base Q state) (ds : List Doclet) (hds : ∀ d ∈ ds, Q d) :
    Gathered base Q { state with additions := ds.foldl Inheritance.addCopy state.additions } where
  annotated := h.annotated
  keyed := h.keyed.foldl_addCopy ds
  copies := (Steady.foldl_addCopy h.annotated h.copies ds hds).2

theorem mixed {consumer : Doclet}
    (hcopy : ∀ catalog mixin member, Annotated base catalog → mixin ∈ consumer.mixes →
      member ∈ sources catalog mixin none → Q (mixedCopy consumer.longname member))
    (h : Gathered base Q state) : Gathered base Q (mixed state consumer) := by
  refine List.foldlRecOn _ _ h fun state hstate mixin hmixin => ?_
  have hcopies : ∀ d ∈ (sources state.catalog mixin none).map (mixedCopy consumer.longname),
      Q d := by
    intro d hd
    obtain ⟨member, hmember, rfl⟩ := List.mem_map.1 hd
    exact hcopy state.catalog mixin member hstate.annotated hmixin hmember
  have hfold := hstate.foldl_addCopy _ hcopies
  rwa [List.foldl_map] at hfold

/-- What is found for one doclet is set beside what was found for others. -/
theorem findFor {finder : Finder} (h : Gathered base Q state) {id : Nat}
    (hfinder : ∀ d, state.catalog.get? id = some d →
      Gathered base Q (finder { catalog := state.catalog } d)) :
    Gathered base Q (findFor finder state id) := by
  unfold Inheritance.findFor
  split
  · exact h
  · rename_i d hget
    have hfound := hfinder d hget
    exact { h.foldl_addCopy _ hfound.copies with annotated := hfound.annotated }

/-- Adding the copies ends the turn. -/
theorem grown (h : Gathered base Q state) (hbase : base.Indexed) {owner : String}
    (hmember : ∀ d, Q d → d.memberof = some owner) :
    Grown [owner] base (state.catalog.insertAll (Inheritance.copies state.additions)) :=
  .of_insertAll hbase h.annotated fun d hd => hmember d (h.copies d hd)

end Gathered

/-- No longname of a copy is lost when copies for another doclet are set beside. -/
theorem mem_keys_findFor {state : State} {longname : String} (h : longname ∈ state.additions.keys)
    (finder : Finder) (id : Nat) : longname ∈ (findFor finder state id).additions.keys := by
  unfold findFor
  split
  · exact h
  · exact mem_keys_foldl_addCopy.2 (.inr h)

/-- The longnames of the copies for a doclet are among those of the turn. -/
theorem mem_keys_findFor_of_get? {finder : Finder} {state : State} {id : Nat} {d : Doclet}
    (hget : state.catalog.get? id = some d)
    (hkeyed : Keyed (finder { catalog := state.catalog } d).additions) {longname : String}
    (h : longname ∈ (finder { catalog := state.catalog } d).additions.keys) :
    longname ∈ (findFor finder state id).additions.keys := by
  unfold findFor
  simp only [hget]
  exact mem_keys_foldl_addCopy.2 (.inl (hkeyed.mem_keys_iff.1 h))

/-- What one step of a row reaches and the others keep, the row reaches. -/
theorem foldl_reaches {σ α : Type} {f : σ → α → σ} {I p : σ → Prop} (hI : ∀ s x, I s → I (f s x))
    (hp : ∀ s x, p s → p (f s x)) {xs : List α} {x : α} (hx : x ∈ xs)
    (hreach : ∀ s, I s → p (f s x)) {s : σ} (h : I s) : p (xs.foldl f s) := by
  obtain ⟨front, back, rfl⟩ := List.append_of_mem hx
  rw [List.foldl_append, List.foldl_cons]
  have hfront : I (front.foldl f s) := List.foldlRecOn front f h fun s hs y _ => hI s y hs
  exact List.foldlRecOn back f (hreach _ hfront) fun s hs y _ => hp s y hs

/-- A turn within which nothing is asked of the copies. -/
abbrev Underway (base : Catalog) : State → Prop := Gathered base fun _ => True

/-- In the turn of a symbol, the copies have a property that the finder gives to copies for the
doclets of that symbol. -/
theorem gathered_lookup {finder : Finder} {base : Catalog} {Q : Doclet → Prop}
    (hindexed : base.Indexed) {owner : String}
    (hfinder : ∀ catalog id d, Annotated base catalog → catalog.get? id = some d →
      d.longname = owner → Gathered base Q (finder { catalog } d)) :
    Gathered base Q ((base.lookup owner).foldl (findFor finder) { catalog := base }) := by
  refine List.foldlRecOn _ _ (.start (.refl base)) fun state hstate id hid => ?_
  refine hstate.findFor fun d hd => hfinder state.catalog id d hstate.annotated hd ?_
  obtain ⟨e, he, hname⟩ := (mem_lookup_iff hindexed).1 hid
  obtain ⟨e', he', heq⟩ := hstate.annotated.exists_base hd
  obtain rfl : e = e' := Option.some.inj (he.symm.trans he')
  exact (eq_of_core heq Doclet.longname).symm.trans hname

/-! ## Turns in order -/

section Turns

variable {finder : Finder} {base : Catalog}

/-- A finder adds nothing but members of the symbol whose turn it is. -/
def AddsMembers (finder : Finder) : Prop :=
  ∀ catalog owner, catalog.Indexed → Grown [owner] catalog (augmentSymbol finder catalog owner)

/-- It is enough that all copies for a doclet are members of it. -/
theorem addsMembers_of_gathered
    (h : ∀ base catalog d, Annotated base catalog →
      Gathered base (fun e => e.memberof = some d.longname) (finder { catalog } d)) :
    AddsMembers finder := by
  intro base owner hindexed
  have hgathered : Gathered base (fun e => e.memberof = some owner)
      ((base.lookup owner).foldl (findFor finder) { catalog := base }) :=
    gathered_lookup hindexed fun catalog _ d hcatalog _ hname => hname ▸ h base catalog d hcatalog
  exact hgathered.grown hindexed fun _ he => he

theorem AddsMembers.foldl (hfinder : AddsMembers finder) (h : base.Indexed)
    (order : List String) : Grown order base (order.foldl (augmentSymbol finder) base) := by
  induction order generalizing base with
  | nil => exact .refl h
  | cons owner order ih =>
    have hturn := hfinder base owner h
    exact hturn.trans (ih hturn.indexed)

/-- The catalog at the turn of a symbol, with what the turns before it, from it on and after it
do. -/
theorem AddsMembers.turn (hfinder : AddsMembers finder) (h : base.Indexed)
    (front : List String) (owner : String) (back : List String) :
    ∃ before, Grown front base before ∧
      Grown (owner :: back) before
        ((front ++ owner :: back).foldl (augmentSymbol finder) base) ∧
      Grown back (augmentSymbol finder before owner)
        ((front ++ owner :: back).foldl (augmentSymbol finder) base) := by
  have hbefore := hfinder.foldl h front
  have hturn := hfinder _ owner hbefore.indexed
  rw [List.foldl_append]
  exact ⟨_, hbefore, hfinder.foldl hbefore.indexed (owner :: back),
    hfinder.foldl hturn.indexed back⟩

/-- Where nothing builds on itself, a pass takes the symbols in an order in which a symbol comes
once, and what it builds on does not come again from there on. -/
theorem exists_order (finder : Finder) {relation : Relation} (hbuilds : Builds relation base)
    (hacyclic : ∀ node, ¬Relation.TransGen (BuildsOn relation base) node node) :
    ∃ order, (∃ graph, Graph.build relation base = .ok graph ∧ graph.sort = order) ∧
      augment relation finder base = .ok (order.foldl (augmentSymbol finder) base) ∧
      ∀ owner target, BuildsOn relation base owner target →
        ∃ front back, order = front ++ owner :: back ∧ target ∉ owner :: back := by
  obtain ⟨graph, hgraph⟩ := hbuilds
  obtain ⟨hnodup, hmem, hbefore⟩ := sort_of_build hgraph
  refine ⟨graph.sort, ⟨graph, hgraph, rfl⟩, ?_, ?_⟩
  · simp [augment, hgraph, bind, Except.bind, pure, Except.pure]
  intro owner target hbuilds
  have hlt := hbefore owner target hbuilds fun hback => hacyclic owner (.head' hbuilds hback)
  obtain ⟨front, back, hsplit⟩ := List.append_of_mem ((hmem owner).2 hbuilds.isNode)
  rw [hsplit] at hlt hnodup
  have hfront : target ∈ front := mem_of_idxOf_lt hlt
  exact ⟨front, back, hsplit, fun hagain => (List.disjoint_of_nodup_append hnodup) hfront hagain⟩

/-- Nothing builds on itself if all that a doclet builds on comes lower in some measure. -/
theorem acyclic_of_lower {relation : Relation} (rank : String → Nat)
    (hrank : ∀ d ∈ base.toList, ∀ target ∈ d.related relation, rank target < rank d.longname)
    (node : String) : ¬Relation.TransGen (BuildsOn relation base) node node := by
  have hstep : ∀ node target, BuildsOn relation base node target → rank target < rank node := by
    rintro _ target ⟨id, d, hd, ⟨-, rfl⟩, htarget⟩
    exact hrank d (Catalog.mem_toList.2 ⟨id, hd⟩) target htarget
  have hlower : ∀ node target, Relation.TransGen (BuildsOn relation base) node target →
      rank target < rank node := by
    intro node target hup
    induction hup with
    | single hbuilds => exact hstep _ _ hbuilds
    | tail _ hbuilds ih => exact (hstep _ _ hbuilds).trans ih
  exact fun hcircle => (hlower node node hcircle).false

instance (relation : Relation) (catalog : Catalog) : Decidable (Builds relation catalog) :=
  match h : Graph.build relation catalog with
  | .ok graph => .isTrue ⟨graph, h⟩
  | .error _ => .isFalse fun ⟨_, hgraph⟩ => nomatch h.symm.trans hgraph

end Turns

end Commentary.Inheritance
