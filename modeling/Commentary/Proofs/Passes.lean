import Commentary.Inheritance.Pass
import Commentary.Proofs.CatalogIndex

/-!
# What the passes keep

A pass only adds copies of doclets and makes small changes to doclets that are there. So an
invariant of catalogs survives a pass as soon as it survives adding a doclet that has some property
and changing a doclet in some way (`Steady`), where the copies of the pass have the property and its
changes are of that kind. Each finder is followed once, down to the members it hands on
(`inherited_keeps`, `implemented_keeps`), and from there to the copies and changes it makes;
`Steady.addMixed`, `Steady.addImplemented` and `Steady.addInherited` say what is left to show of an
invariant. The first such invariant is that the index is in step (`indexed_augmentAll`).
-/

namespace Commentary.Inheritance

/-- An invariant `I` under which all doclets have `P`, and that survives adding doclets that have
`P` and changing doclets by `T`. -/
structure Steady (P : Doclet → Prop) (T : (Doclet → Doclet) → Prop) (I : Catalog → Prop) :
    Prop where
  all : ∀ {catalog : Catalog} {id : Nat} {d : Doclet}, I catalog → catalog.get? id = some d → P d
  insert : ∀ {catalog : Catalog} {d : Doclet}, I catalog → P d → I (catalog.insert d)
  modify : ∀ {catalog : Catalog} {change : Doclet → Doclet}, I catalog → T change → ∀ id,
    I (catalog.modify id change)

/-- That all doclets have a property survives adding such doclets and changes that keep the
property. -/
theorem steady_forall (P : Doclet → Prop) :
    Steady P (fun change => ∀ d, P d → P (change d))
      (fun catalog => ∀ id d, catalog.get? id = some d → P d) where
  all := fun h hget => h _ _ hget
  insert := by
    intro catalog d h hd id e hget
    rw [Catalog.get?_insert] at hget
    split at hget
    · exact Option.some.inj hget ▸ hd
    · exact h id e hget
  modify := by
    intro catalog change h hchange i id e hget
    rw [Catalog.get?_modify] at hget
    split at hget
    · obtain ⟨d, hd, rfl⟩ := Option.map_eq_some_iff.1 hget
      exact hchange d (h id d hd)
    · exact h id e hget

/-- The marks of a doclet that a copy in its place does not need. -/
def unmark (d : Doclet) : Doclet :=
  { d with isVirtual := false, inheritdoc := false, isOverride := false }

section Finders

variable {P : Doclet → Prop} {T : (Doclet → Doclet) → Prop} {I : Catalog → Prop}

/-- Where a pass stands, the invariant holds and the copies so far have the property. -/
def Sound (P : Doclet → Prop) (I : Catalog → Prop) (state : State) : Prop :=
  I state.catalog ∧ ∀ d ∈ copies state.additions, P d

theorem mem_copies_addCopy {additions : Additions} {d e : Doclet}
    (h : e ∈ copies (addCopy additions d)) : e = d ∨ e ∈ copies additions := by
  obtain ⟨entry, hentry, rfl⟩ := List.mem_map.1 h
  rcases Table.mem_put hentry with rfl | hold
  · exact .inl rfl
  · exact .inr (List.mem_map_of_mem hold)

theorem forall_copies_addCopy {additions : Additions} {d : Doclet}
    (h : ∀ e ∈ copies additions, P e) (hd : P d) : ∀ e ∈ copies (addCopy additions d), P e := by
  intro e he
  rcases mem_copies_addCopy he with rfl | hold
  · exact hd
  · exact h e hold

/-! Each finder hands members on one by one. What holds before a member is handed on and is kept by
that holds in the end, where `start` is the state in which the members were looked up. -/

theorem inherited_keeps {M : State → Prop} {descendant : Doclet}
    (hstep : ∀ start state parent ancestor, M start → M state →
      descendant.kind = some .class ∨ descendant.kind = some .interface →
      parent ∈ descendant.augments → ancestor ∈ sources start.catalog parent (some [.instance]) →
        M (inheritMember descendant.longname state ancestor))
    {state : State} (h : M state) : M (inherited state descendant) := by
  unfold inherited
  split
  · rename_i hkind
    exact List.foldlRecOn _ _ h fun start hstart parent hparent =>
      List.foldlRecOn _ _ hstart fun state hstate ancestor hancestor =>
        hstep start state parent ancestor hstart hstate hkind hparent hancestor
  · exact h

theorem implemented_keeps {M : State → Prop} {implementer : Doclet}
    (hstep : ∀ start state interface declared, M start → M state →
      interface ∈ implementer.implements →
      declared ∈ sources start.catalog interface (some [.instance]) →
        M (implementMember implementer.longname state declared))
    {state : State} (h : M state) : M (implemented state implementer) :=
  List.foldlRecOn _ _ h fun start hstart interface hinterface =>
    List.foldlRecOn _ _ hstart fun state hstate declared hdeclared =>
      hstep start state interface declared hstart hstate hinterface hdeclared

/-- What an owner hands on are members of it that are there. -/
theorem mem_sources {catalog : Catalog} {owner : String} {scopes : Option (List Scope)}
    {d : Doclet} (h : d ∈ sources catalog owner scopes) :
    (∃ id, catalog.get? id = some d) ∧ d.memberof = some owner := by
  obtain ⟨id, hmember, hid⟩ := List.mem_filterMap.1 (List.mem_of_mem_filter h)
  have hany := (List.mem_filter.1 hmember).2
  rw [hid, Option.any_some, Bool.and_eq_true, beq_iff_eq] at hany
  exact ⟨⟨id, hid⟩, hany.1⟩

namespace Steady

variable (hI : Steady P T I)
include hI

theorem sources {catalog : Catalog} (h : I catalog) {owner : String}
    {scopes : Option (List Scope)} {d : Doclet} (hd : d ∈ sources catalog owner scopes) :
    P d ∧ d.memberof ≠ none := by
  obtain ⟨⟨id, hid⟩, hmember⟩ := mem_sources hd
  exact ⟨hI.all h hid, by simp [hmember]⟩

theorem modifyAll {catalog : Catalog} (h : I catalog) (ids : List Nat)
    {change : Doclet → Doclet} (hchange : T change) : I (modifyAll catalog ids change) :=
  List.foldlRecOn ids _ h fun _ hc id _ => hI.modify hc hchange id

theorem insertAll {catalog : Catalog} (h : I catalog) {ds : List Doclet} (hds : ∀ d ∈ ds, P d) :
    I (catalog.insertAll ds) :=
  List.foldlRecOn ds Catalog.insert h fun _ hc d hd => hI.insert hc (hds d hd)

theorem offer {state : State} (h : Sound P I state) {copy : Doclet}
    {change : Doclet → Doclet} (hcopy : P copy) (hunmark : P (unmark copy))
    (hignore : T ({ · with ignore := true })) (hchange : T change) :
    Sound P I (offer state copy change) := by
  unfold Inheritance.offer
  simp only
  -- the copy is added, or added in place of what it replaces, or what is there is changed
  split
  · exact ⟨h.1, forall_copies_addCopy h.2 hcopy⟩
  · split
    · exact ⟨hI.modifyAll h.1 _ hignore, forall_copies_addCopy h.2 hunmark⟩
    · exact ⟨hI.modifyAll h.1 _ hchange, h.2⟩

/-- What inheritance does to a state, given what its copies and its notes do to a doclet. -/
theorem inherited (hcopy : ∀ consumer overrides d, P consumer → P d → d.memberof ≠ none →
      P { inheritedCopy consumer.longname d with overrides })
    (hunmark : ∀ d, P d → P (unmark d)) (hignore : T ({ · with ignore := true }))
    (hnote : ∀ longname, T ({ · with overrides := some longname }))
    {state : State} (h : Sound P I state) {descendant : Doclet} (hdescendant : P descendant) :
    Sound P I (inherited state descendant) := by
  refine inherited_keeps (fun start state parent ancestor hstart hstate _ _ hancestor => ?_) h
  obtain ⟨hP, howned⟩ := hI.sources hstart.1 hancestor
  -- what the copy overrides hangs on the state, but the property holds of the copy either way
  have hnew := hcopy descendant
    (if (shownIds state.catalog (inheritedCopy descendant.longname ancestor).longname).isEmpty then
      none else some ancestor.longname) ancestor hdescendant hP howned
  exact hI.offer hstate hnew (hunmark _ hnew) hignore (hnote ancestor.longname)

omit hI in
/-- Adding copies keeps a state sound. -/
theorem foldl_addCopy {catalog : Catalog} {additions : Additions} (h : I catalog)
    (hadditions : ∀ d ∈ copies additions, P d) (ds : List Doclet) (hds : ∀ d ∈ ds, P d) :
    Sound P I { catalog, additions := ds.foldl addCopy additions } :=
  ⟨h, List.foldlRecOn (motive := fun additions => ∀ d ∈ copies additions, P d) ds addCopy
    hadditions fun _ hcopies d hd => forall_copies_addCopy hcopies (hds d hd)⟩

/-- What mixing in does to a state. -/
theorem mixed (hcopy : ∀ consumer d, P consumer → P d → d.memberof ≠ none →
      P (mixedCopy consumer.longname d)) {state : State}
    (h : Sound P I state) {consumer : Doclet} (hconsumer : P consumer) :
    Sound P I (mixed state consumer) := by
  have hfrom : ∀ state mixin, Sound P I state →
      Sound P I (mixFrom consumer.longname state mixin) := by
    intro state mixin h
    have hcopies : ∀ d ∈ (Inheritance.sources state.catalog mixin none).map
        (mixedCopy consumer.longname), P d := by
      intro d hd
      obtain ⟨member, hmember, rfl⟩ := List.mem_map.1 hd
      obtain ⟨hP, howned⟩ := hI.sources h.1 hmember
      exact hcopy consumer member hconsumer hP howned
    have hfold := foldl_addCopy h.1 h.2 _ hcopies
    rwa [List.foldl_map] at hfold
  exact List.foldlRecOn _ _ h fun state hstate mixin _ => hfrom state mixin hstate

/-- What linking implementations does to a state. -/
theorem implemented (hcopy : ∀ consumer d, P consumer → P d → d.memberof ≠ none →
      P (implementedCopy consumer.longname d))
    (hunmark : ∀ d, P d → P (unmark d)) (hignore : T ({ · with ignore := true }))
    (hlink : ∀ owner d, P d → T ({ · with implements := (implementedCopy owner d).implements }))
    {state : State} (h : Sound P I state) {implementer : Doclet} (himplementer : P implementer) :
    Sound P I (implemented state implementer) := by
  refine implemented_keeps (fun start state interface declared hstart hstate _ hdeclared => ?_) h
  obtain ⟨hP, howned⟩ := hI.sources hstart.1 hdeclared
  have hnew := hcopy implementer declared himplementer hP howned
  unfold implementMember
  simp only
  split
  · exact hI.offer hstate hnew (hunmark _ hnew) hignore (hlink _ declared hP)
  · exact hstate

/-- A pass keeps the invariant if its finder keeps states sound. -/
theorem augment {relation : Relation} {finder : Finder} {catalog catalog' : Catalog}
    (hfinder : ∀ state d, Sound P I state → P d → Sound P I (finder state d)) (h : I catalog)
    (hok : augment relation finder catalog = .ok catalog') : I catalog' := by
  have hfindFor : ∀ state id, Sound P I state → Sound P I (findFor finder state id) := by
    intro state id hstate
    unfold findFor
    split
    · exact hstate
    · rename_i d hget
      -- the finder starts without copies; those of other doclets are set beside its own afterwards
      have hfound := hfinder { catalog := state.catalog } d
        ⟨hstate.1, by simp [copies, Table.empty]⟩ (hI.all hstate.1 hget)
      exact foldl_addCopy hfound.1 hstate.2 _ hfound.2
  have hsymbol : ∀ catalog longname, I catalog → I (augmentSymbol finder catalog longname) := by
    intro catalog longname h
    have hstart : Sound P I { catalog } := ⟨h, by simp [copies, Table.empty]⟩
    have hend := List.foldlRecOn (catalog.lookup longname) (findFor finder) hstart
      fun state hstate id _ => hfindFor state id hstate
    exact hI.insertAll hend.1 hend.2
  unfold Inheritance.augment at hok
  rcases hgraph : Graph.build relation catalog with problem | graph
  · simp [hgraph, bind, Except.bind] at hok
  · simp only [hgraph, bind, Except.bind, pure, Except.pure, Except.ok.injEq] at hok
    subst hok
    exact List.foldlRecOn _ _ h fun catalog hcatalog longname _ =>
      hsymbol catalog longname hcatalog

/-! ## The three passes -/

theorem addMixed (hcopy : ∀ consumer d, P consumer → P d → d.memberof ≠ none →
      P (mixedCopy consumer.longname d)) {catalog catalog' : Catalog}
    (h : I catalog) (hok : addMixed catalog = .ok catalog') : I catalog' :=
  hI.augment (fun _ _ hstate hconsumer => hI.mixed hcopy hstate hconsumer) h hok

theorem addImplemented (hcopy : ∀ consumer d, P consumer → P d → d.memberof ≠ none →
      P (implementedCopy consumer.longname d))
    (hunmark : ∀ d, P d → P (unmark d)) (hignore : T ({ · with ignore := true }))
    (hlink : ∀ owner d, P d → T ({ · with implements := (implementedCopy owner d).implements }))
    {catalog catalog' : Catalog} (h : I catalog) (hok : addImplemented catalog = .ok catalog') :
    I catalog' :=
  hI.augment (fun _ _ hstate himplementer =>
    hI.implemented hcopy hunmark hignore hlink hstate himplementer) h hok

theorem addInherited (hcopy : ∀ consumer overrides d, P consumer → P d → d.memberof ≠ none →
      P { inheritedCopy consumer.longname d with overrides })
    (hunmark : ∀ d, P d → P (unmark d)) (hignore : T ({ · with ignore := true }))
    (hnote : ∀ longname, T ({ · with overrides := some longname }))
    {catalog catalog' : Catalog} (h : I catalog) (hok : addInherited catalog = .ok catalog') :
    I catalog' :=
  hI.augment (fun _ _ hstate hdescendant =>
    hI.inherited hcopy hunmark hignore hnote hstate hdescendant) h hok

end Steady

end Finders

/-! ## Rows of passes -/

/-- A row of passes is run by running its first part, and the rest if that succeeds. -/
theorem runPasses_append (first rest : List (Catalog → Except Problem Catalog))
    (catalog : Catalog) :
    runPasses (first ++ rest) catalog =
      if (runPasses first catalog).problem = none then
        runPasses rest (runPasses first catalog).catalog
      else runPasses first catalog := by
  induction first generalizing catalog with
  | nil => rfl
  | cons pass passes ih =>
    rcases hpass : pass catalog with problem | next
    · simp [runPasses, hpass]
    · simp only [List.cons_append, runPasses, hpass, ih]

/-- What every pass keeps, a row of passes keeps, also one that fails. -/
theorem runPasses_keeps {I : Catalog → Prop} {passes : List (Catalog → Except Problem Catalog)}
    (hpasses : ∀ pass ∈ passes, ∀ catalog catalog', I catalog → pass catalog = .ok catalog' →
      I catalog')
    {catalog : Catalog} (h : I catalog) : I (runPasses passes catalog).catalog := by
  induction passes generalizing catalog with
  | nil => exact h
  | cons pass passes ih =>
    rw [List.forall_mem_cons] at hpasses
    rw [runPasses]
    split
    · rename_i next hnext
      exact ih hpasses.2 (hpasses.1 catalog next h hnext)
    · exact h

/-- A check that succeeds gives back what it was given. -/
theorem check_eq_ok {relation : Relation} {catalog catalog' : Catalog}
    (hok : check relation catalog = .ok catalog') : catalog' = catalog := by
  unfold check at hok
  rcases hgraph : Graph.build relation catalog with problem | graph
  · simp [hgraph, Except.map] at hok
  · rw [hgraph] at hok
    exact (Except.ok.inj hok).symm

/-- All passes keep the invariant, whether or not they succeed. -/
theorem Steady.augmentAll {P : Doclet → Prop} {T : (Doclet → Doclet) → Prop} {I : Catalog → Prop}
    (hI : Steady P T I)
    (hmixed : ∀ consumer d, P consumer → P d → d.memberof ≠ none →
      P (mixedCopy consumer.longname d))
    (himplemented : ∀ consumer d, P consumer → P d → d.memberof ≠ none →
      P (implementedCopy consumer.longname d))
    (hinherited : ∀ consumer overrides d, P consumer → P d → d.memberof ≠ none →
      P { inheritedCopy consumer.longname d with overrides })
    (hunmark : ∀ d, P d → P (unmark d)) (hignore : T ({ · with ignore := true }))
    (hlink : ∀ owner d, P d → T ({ · with implements := (implementedCopy owner d).implements }))
    (hnote : ∀ longname, T ({ · with overrides := some longname }))
    {catalog : Catalog} (h : I catalog) : I (augmentAll catalog).catalog := by
  have hcheck : ∀ relation catalog catalog', I catalog →
      check relation catalog = .ok catalog' → I catalog' := by
    intro relation catalog catalog' h hok
    rwa [check_eq_ok hok]
  have hlinked : ∀ catalog catalog', I catalog →
      Inheritance.addImplemented catalog = .ok catalog' → I catalog' := fun _ _ =>
    hI.addImplemented himplemented hunmark hignore hlink
  refine runPasses_keeps ?_ h
  simp only [List.forall_mem_cons]
  exact ⟨hcheck _, hcheck _, hcheck _, fun _ _ => hI.addMixed hmixed, hlinked,
    fun _ _ => hI.addInherited hinherited hunmark hignore hnote, hlinked,
    fun _ hpass => absurd hpass List.not_mem_nil⟩

/-! ## The index

Copies are filed as they are added, and no change touches a longname. -/

/-- The index stays in step under additions and under changes that leave the longname alone. -/
theorem steady_indexed :
    Steady (fun _ => True) (fun change => ∀ d, (change d).longname = d.longname)
      Catalog.Indexed where
  all := fun _ _ => trivial
  insert := fun h _ => h.insert _
  modify := fun h hchange id => h.modify id hchange

theorem indexed_augmentAll {catalog : Catalog} (h : catalog.Indexed) :
    (augmentAll catalog).catalog.Indexed :=
  steady_indexed.augmentAll (fun _ _ _ _ _ => trivial) (fun _ _ _ _ _ => trivial)
    (fun _ _ _ _ _ _ => trivial) (fun _ _ => trivial) (fun _ => rfl) (fun _ _ _ _ => rfl)
    (fun _ _ => rfl) h

end Commentary.Inheritance
