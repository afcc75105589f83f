import Commentary.Proofs.InheritedClosure
import Commentary.Proofs.LinkedMembers

/-!
# What inheritance says is overridden

A copy that takes the place of a documented doclet says which member it overrides. The doclet is
ignored from then on. So when a second member is handed over to the same owner under the same
longname, nothing is documented there any more: its copy replaces the first one and says nothing
(`gumbo_not_recordsAll`). What the copy that stays says hangs on how many members were handed over
under its longname (`addInherited_overrides`).

All members that a pass hands over are `handoversMade`, turn by turn. Within a turn, how things
stand at a longname hangs on the handovers under that longname so far (`Recording`); the turns are
put together in `Recorded`.
-/

namespace Commentary.Inheritance

/-! ## Handovers -/

instance : DecidablePred CanInherit := fun d =>
  inferInstanceAs (Decidable (d.kind = some .class ∨ d.kind = some .interface))

/-- A member of a parent, by its longname, that is handed over to an owner. -/
structure Handover where
  owner : String
  member : String
deriving DecidableEq

/-- The longname of the member below its new owner. -/
def Handover.target (handover : Handover) : String := changeOwner handover.member handover.owner

/-- What a parent hands over to an owner. -/
def handoversFrom (catalog : Catalog) (owner parent : String) : List Handover :=
  (sources catalog parent (some [.instance])).map fun ancestor => ⟨owner, ancestor.longname⟩

/-- What the parents of a doclet hand over to it. -/
def handoversTo (catalog : Catalog) (d : Doclet) : List Handover :=
  if CanInherit d then d.augments.flatMap (handoversFrom catalog d.longname) else []

/-- What is handed over to the doclet at a position. -/
def handoversAt (catalog : Catalog) (id : Nat) : List Handover :=
  match catalog.get? id with
  | none => []
  | some d => handoversTo catalog d

/-- What is handed over in the turn of a symbol. -/
def handoversFor (catalog : Catalog) (owner : String) : List Handover :=
  (catalog.lookup owner).flatMap (handoversAt catalog)

/-- What is handed over when the symbols of a row have their turns. -/
abbrev handoversAlong (order : List String) (catalog : Catalog) : List Handover :=
  logged (augmentSymbol inherited) handoversFor order catalog

/-- All that the pass hands over, in order. -/
def handoversMade (catalog : Catalog) : List Handover :=
  match Graph.build .augments catalog with
  | .error _ => []
  | .ok graph => handoversAlong graph.sort catalog

/-- The handovers under a longname. -/
def under (longname : String) (handovers : List Handover) : List Handover :=
  handovers.filter (·.target == longname)

theorem under_append (longname : String) (front back : List Handover) :
    under longname (front ++ back) = under longname front ++ under longname back :=
  List.filter_append _ _

theorem under_append_singleton (longname : String) (handovers : List Handover)
    (handover : Handover) :
    under longname (handovers ++ [handover]) =
      if handover.target = longname then under longname handovers ++ [handover]
      else under longname handovers := by
  by_cases htarget : handover.target = longname <;> simp [under, htarget]

theorem mem_of_mem_under {longname : String} {handovers : List Handover} {handover : Handover}
    (h : handover ∈ under longname handovers) : handover ∈ handovers :=
  List.mem_of_mem_filter h

/-- The member of the only handover, if there is just one. -/
def soleMember : List Handover → Option String
  | [handover] => some handover.member
  | _ => none

theorem soleMember_append_singleton {handovers : List Handover} (h : handovers ≠ [])
    (handover : Handover) : soleMember (handovers ++ [handover]) = none := by
  cases handovers with
  | nil => exact absurd rfl h
  | cons first rest => cases rest <;> rfl

/-- What a row of steps logs that does not hang on where they start. -/
theorem logged_const {σ α β : Type} (f : σ → α → σ) (log : α → List β) (xs : List α) (s : σ) :
    logged f (fun _ x => log x) xs s = xs.flatMap log := by
  induction xs generalizing s with
  | nil => rfl
  | cons x xs ih => rw [logged, ih, List.flatMap_cons]

/-- What every step keeps, together with what is handed over in it, a row of steps keeps. -/
theorem handovers_keep {σ α : Type} {f : σ → α → σ} {log : α → List Handover}
    {I : List Handover → σ → Prop} (xs : List α)
    (hstep : ∀ history s, ∀ x ∈ xs, I history s → I (history ++ log x) (f s x))
    {history : List Handover} {s : σ} (h : I history s) :
    I (history ++ xs.flatMap log) (xs.foldl f s) := by
  rw [← logged_const f log xs s]
  exact logged_keeps xs hstep h

/-! ## Members are the same all through a turn -/

section Annotated

variable {base catalog : Catalog}

theorem Annotated.get?_eq_none_iff (h : Annotated base catalog) {id : Nat} :
    catalog.get? id = none ↔ base.get? id = none := by
  rw [← Option.map_eq_none_iff, h.core id, Option.map_eq_none_iff]

theorem Annotated.size_eq (h : Annotated base catalog) : catalog.size = base.size := by
  have hiff : ∀ id, catalog.size ≤ id ↔ base.size ≤ id := by
    intro id
    rw [← Catalog.get?_eq_none_iff, h.get?_eq_none_iff, Catalog.get?_eq_none_iff]
  exact Nat.le_antisymm ((hiff base.size).2 le_rfl) ((hiff catalog.size).1 le_rfl)

/-- What an owner hands on are the same doclets, but for notes. -/
theorem Annotated.map_core_sources (h : Annotated base catalog) (owner : String)
    (scopes : Option (List Scope)) :
    (sources catalog owner scopes).map Inheritance.core =
      (sources base owner scopes).map Inheritance.core := by
  simp only [sources, Catalog.membersOf, List.filterMap_filter, List.filter_filterMap,
    List.map_filterMap, h.size_eq]
  refine List.filterMap_congr fun id _ => ?_
  rcases hd : catalog.get? id with _ | d
  · rw [h.get?_eq_none_iff.1 hd]
  · obtain ⟨e, he, heq⟩ := h.exists_base hd
    have hmember : e.memberof = d.memberof := eq_of_core heq Doclet.memberof
    have hscope : Catalog.inScopes scopes e = Catalog.inScopes scopes d :=
      eq_of_core heq (Catalog.inScopes scopes)
    have hdocumented : e.undocumented = d.undocumented := eq_of_core heq Doclet.undocumented
    rw [he, Option.any_some, Option.any_some, hmember, hscope]
    split
    · rw [Option.filter_some, Option.filter_some, hdocumented]
      split <;> simp [heq]
    · rfl

/-- So they hand over the same. -/
theorem Annotated.handoversFrom_eq (h : Annotated base catalog) (owner parent : String) :
    handoversFrom catalog owner parent = handoversFrom base owner parent := by
  have hcore := congrArg (List.map fun ancestor => Handover.mk owner ancestor.longname)
    (h.map_core_sources parent (some [.instance]))
  rwa [List.map_map, List.map_map] at hcore

end Annotated

/-! ## What is documented under a longname -/

/-- A catalog holds a documented doclet of a longname. -/
def Shows (catalog : Catalog) (longname : String) : Prop :=
  ∃ id d, catalog.get? id = some d ∧ d.longname = longname ∧ d.isShown = true

theorem shownIds_isEmpty_iff_not_shows {catalog : Catalog} (hindexed : catalog.Indexed)
    {longname : String} :
    (shownIds catalog longname).isEmpty = true ↔ ¬Shows catalog longname := by
  rw [shownIds_isEmpty_iff hindexed]
  constructor
  · rintro hhidden ⟨id, d, hd, hname, hshown⟩
    rw [hhidden id d hd hname] at hshown
    cases hshown
  · intro hnot id d hd hname
    by_contra hshown
    exact hnot ⟨id, d, hd, hname, by simpa using hshown⟩

/-- Nothing is documented any more where doclets are ignored. -/
theorem not_shows_ignored {catalog : Catalog} (hindexed : catalog.Indexed) (longname : String) :
    ¬Shows (modifyAll catalog (shownIds catalog longname) ({ · with ignore := true }))
      longname := by
  rintro ⟨id, e, he, hname, hshown⟩
  exact (get?_of_ignored hindexed he hshown).2 hname

/-- A change of what is documented under a longname leaves the doclets of others as they are. -/
theorem get?_of_modifyAll {catalog : Catalog} (hindexed : catalog.Indexed) {longname : String}
    {change : Doclet → Doclet} {id : Nat} {e : Doclet}
    (he : (modifyAll catalog (shownIds catalog longname) change).get? id = some e)
    (hname : e.longname ≠ longname) (hchange : ∀ d, (change d).longname = d.longname) :
    catalog.get? id = some e := by
  obtain ⟨d, hd, rfl⟩ := exists_of_get?_modifyAll hindexed he
  split at hname
  · rename_i htouched
    exact absurd ((hchange d).trans htouched.1) hname
  · rename_i hnot
    rwa [if_neg hnot]

/-- What is documented under a longname stays so if its doclets stay as they are. -/
theorem Shows.of_untouched {base catalog : Catalog} {longname : String} (h : Shows base longname)
    (hkept : ∀ {id : Nat} {d : Doclet}, base.get? id = some d →
      ∃ e, catalog.get? id = some e ∧ core e = core d)
    (huntouched : ∀ {id : Nat} {e : Doclet}, catalog.get? id = some e → e.longname = longname →
      base.get? id = some e) : Shows catalog longname := by
  obtain ⟨id, d, hd, hname, hshown⟩ := h
  obtain ⟨e, he, heq⟩ := hkept hd
  have hname' : e.longname = longname := (eq_of_core heq Doclet.longname).trans hname
  obtain rfl : d = e := Option.some.inj (hd.symm.trans (huntouched he hname'))
  exact ⟨id, d, he, hname, hshown⟩

section Offer

variable {state : State} {copy : Doclet} {change : Doclet → Doclet} {longname : String}

/-- An offer leaves the doclets of other longnames as they are. -/
theorem get?_of_offer (hindexed : state.catalog.Indexed)
    (hchange : ∀ d, (change d).longname = d.longname) {id : Nat} {e : Doclet}
    (he : (offer state copy change).catalog.get? id = some e)
    (hname : e.longname ≠ copy.longname) : state.catalog.get? id = some e := by
  unfold offer at he
  simp only at he
  split at he
  · exact he
  · split at he
    · exact get?_of_modifyAll hindexed he hname fun _ => rfl
    · exact get?_of_modifyAll hindexed he hname hchange

/-- An offer leaves the copies of other longnames as they are. -/
theorem find?_additions_offer (hchange : ∀ d, outline (change d) = outline d)
    (hname : copy.longname ≠ longname) :
    (offer state copy change).additions.find? longname = state.additions.find? longname := by
  obtain ⟨-, ⟨copy', hcopies, hadditions⟩ | ⟨hsame, -⟩⟩ := offer_cases state copy change hchange
  · have hname' : copy'.longname ≠ longname := by
      rcases hcopies with rfl | rfl
      · exact hname
      · exact hname
    rw [hadditions, Inheritance.addCopy, Table.find?_insert, if_neg hname']
  · rw [hsame]

theorem nodup_keys_offer (hkeys : state.additions.keys.Nodup)
    (hchange : ∀ d, outline (change d) = outline d) :
    (offer state copy change).additions.keys.Nodup := by
  obtain ⟨-, ⟨copy', -, hadditions⟩ | ⟨hsame, -⟩⟩ := offer_cases state copy change hchange
  · rw [hadditions]
    exact Table.nodup_keys_insert hkeys _ _
  · rwa [hsame]

end Offer

/-! ## One turn -/

/-- The copy that waits under a longname. The outer copies are those for other doclets of the
symbol. -/
def waiting (outer : Additions) (state : State) (longname : String) : Option Doclet :=
  (state.additions.find? longname).or (outer.find? longname)

/-- How things stand at a longname in the turn of a symbol, after some handovers. -/
structure Recording (turn : Catalog) (longname : String) (outer : Additions)
    (history : List Handover) (state : State) : Prop where
  annotated : Annotated turn state.catalog
  keyed : Keyed state.additions
  keys_nodup : state.additions.keys.Nodup
  /-- As long as nothing is handed over under the longname, its doclets stay as they are. -/
  untouched : under longname history = [] → ∀ {id : Nat} {e : Doclet},
    state.catalog.get? id = some e → e.longname = longname → turn.get? id = some e
  /-- After that none of its documented doclets asks for other documentation. -/
  settled : under longname history ≠ [] → ∀ {id : Nat} {e : Doclet},
    state.catalog.get? id = some e → e.longname = longname → e.isShown = true → asks e = false
  /-- A copy waits where something was handed over and nothing is documented any more. -/
  alone : ∀ {copy : Doclet}, waiting outer state longname = some copy →
    under longname history ≠ [] ∧ ¬Shows state.catalog longname
  /-- Where something was documented, it says what was handed over if that is just one member. -/
  tells : ∀ {copy : Doclet}, waiting outer state longname = some copy → Shows turn longname →
    copy.overrides = soleMember (under longname history)

namespace Recording

variable {turn : Catalog} {longname : String} {outer : Additions} {history : List Handover}
  {state : State}

theorem indexed (h : Recording turn longname outer history state) (hturn : turn.Indexed) :
    state.catalog.Indexed :=
  h.annotated.retouched.indexed hturn

/-- An offer under another longname. -/
theorem offer_other (h : Recording turn longname outer history state) (hturn : turn.Indexed)
    {handover : Handover} {copy : Doclet} {change : Doclet → Doclet}
    (hname : copy.longname = handover.target) (hother : handover.target ≠ longname)
    (hchange : ∀ d, core (change d) = core d) :
    Recording turn longname outer (history ++ [handover]) (offer state copy change) := by
  have hsame : under longname (history ++ [handover]) = under longname history := by
    rw [under_append_singleton, if_neg hother]
  have houtline : ∀ d, outline (change d) = outline d := fun d => eq_of_core (hchange d) outline
  have hwaiting : waiting outer (offer state copy change) longname =
      waiting outer state longname := by
    rw [waiting, find?_additions_offer houtline (hname ▸ hother), waiting]
  have hback : ∀ {id : Nat} {e : Doclet}, (offer state copy change).catalog.get? id = some e →
      e.longname = longname → state.catalog.get? id = some e := by
    rintro id e he rfl
    exact get?_of_offer (h.indexed hturn) (fun d => congrArg Outline.longname (houtline d)) he
      (hname ▸ hother.symm)
  obtain ⟨hannotated, hkeyed, -⟩ : Underway turn (offer state copy change) :=
    Gathered.offer ⟨h.annotated, h.keyed, fun _ _ => trivial⟩ trivial trivial hchange
  refine ⟨hannotated, hkeyed, nodup_keys_offer h.keys_nodup houtline, ?_, ?_, ?_, ?_⟩
  · rw [hsame]
    exact fun hnone id e he hlongname => h.untouched hnone (hback he hlongname) hlongname
  · rw [hsame]
    exact fun hsome id e he hlongname => h.settled hsome (hback he hlongname) hlongname
  · intro copy' hcopy'
    rw [hwaiting] at hcopy'
    obtain ⟨hsome, hnot⟩ := h.alone hcopy'
    refine ⟨hsame ▸ hsome, ?_⟩
    rintro ⟨id, e, he, hlongname, hshown⟩
    exact hnot ⟨id, e, hback he hlongname, hlongname, hshown⟩
  · intro copy' hcopy'
    rw [hwaiting] at hcopy'
    rw [hsame]
    exact h.tells hcopy'

/-- A copy comes in where nothing is documented any more. -/
theorem addCopy (h : Recording turn longname outer history state) {catalog : Catalog}
    (hannotated : Annotated turn catalog) {handover : Handover} {copy : Doclet}
    (hname : copy.longname = longname) (htarget : handover.target = longname)
    (hnot : ¬Shows catalog longname)
    (htells : Shows turn longname →
      copy.overrides = soleMember (under longname history ++ [handover])) :
    Recording turn longname outer (history ++ [handover])
      { catalog, additions := addCopy state.additions copy } := by
  have hunder : under longname (history ++ [handover]) = under longname history ++ [handover] := by
    rw [under_append_singleton, if_pos htarget]
  have hsome : under longname (history ++ [handover]) ≠ [] := by
    rw [hunder]
    exact List.append_ne_nil_of_right_ne_nil _ (List.cons_ne_nil _ _)
  have hkeys := Table.nodup_keys_insert h.keys_nodup copy.longname copy
  refine ⟨hannotated, h.keyed.addCopy copy, hkeys, ?_, ?_, ?_, ?_⟩
  · exact fun hnone => absurd hnone hsome
  · intro _ id e he hlongname hshown
    exact absurd ⟨id, e, he, hlongname, hshown⟩ hnot
  · exact fun _ => ⟨hsome, hnot⟩
  · intro copy' hcopy' hshows
    rw [waiting, Inheritance.addCopy, Table.find?_insert, if_pos hname, Option.some_or] at hcopy'
    obtain rfl : copy = copy' := Option.some.inj hcopy'
    rw [hunder]
    exact htells hshows

/-- What is documented stays and is told what it overrides, as it does not ask for anything else. -/
theorem tell (h : Recording turn longname outer history state) (hturn : turn.Indexed)
    {handover : Handover} (htarget : handover.target = longname)
    (hshows : Shows state.catalog longname)
    (hasks : asksToInherit state.catalog (shownIds state.catalog longname) = false)
    (overrides : Option String) :
    Recording turn longname outer (history ++ [handover])
      { state with
        catalog := modifyAll state.catalog (shownIds state.catalog longname)
          ({ · with overrides }) } := by
  have hindexed := h.indexed hturn
  have hsome : under longname (history ++ [handover]) ≠ [] := by
    rw [under_append_singleton, if_pos htarget]
    exact List.append_ne_nil_of_right_ne_nil _ (List.cons_ne_nil _ _)
  -- no copy waits beside what is documented
  have hnone : ∀ copy, waiting outer state longname ≠ some copy :=
    fun copy hcopy => (h.alone hcopy).2 hshows
  refine ⟨h.annotated.modifyAll _ fun _ => rfl, h.keyed, h.keys_nodup, ?_, ?_, ?_, ?_⟩
  · exact fun hempty => absurd hempty hsome
  · intro _ id e he hlongname hshown
    obtain ⟨d, hd, heq⟩ := exists_of_get?_modifyAll hindexed he
    have hfields : e.longname = d.longname ∧ e.isShown = d.isShown ∧ asks e = asks d := by
      rw [heq]
      split <;> exact ⟨rfl, rfl, rfl⟩
    by_contra hasks'
    have hany := (asksToInherit_iff hindexed longname).2
      ⟨id, d, hd, hfields.1 ▸ hlongname, hfields.2.1 ▸ hshown,
        hfields.2.2 ▸ (Bool.not_eq_false _).mp hasks'⟩
    rw [hany] at hasks
    cases hasks
  · exact fun hcopy => absurd hcopy (hnone _)
  · exact fun hcopy => absurd hcopy (hnone _)

/-- An offer under the longname. The copy says what it overrides if something is documented. -/
theorem offer_under (h : Recording turn longname outer history state) (hturn : turn.Indexed)
    {handover : Handover} {copy : Doclet} (hname : copy.longname = longname)
    (htarget : handover.target = longname)
    (hoverrides : copy.overrides =
      if (shownIds state.catalog longname).isEmpty then none else some handover.member)
    (overrides : Option String) :
    Recording turn longname outer (history ++ [handover])
      (offer state copy ({ · with overrides })) := by
  have hindexed := h.indexed hturn
  unfold Inheritance.offer
  simp only [hname]
  split
  -- nothing is documented, so where something was this is not the first handover
  · rename_i hempty
    have hnot := (shownIds_isEmpty_iff_not_shows hindexed).1 hempty
    refine h.addCopy h.annotated hname htarget hnot fun hshows => ?_
    have hsome : under longname history ≠ [] :=
      fun hnone => hnot (hshows.of_untouched h.annotated.symm.exists_base (h.untouched hnone))
    rw [hoverrides, if_pos hempty, soleMember_append_singleton hsome]
  · rename_i hsome
    rw [if_neg hsome] at hoverrides
    have hshows : Shows state.catalog longname := by
      rwa [shownIds_isEmpty_iff_not_shows hindexed, not_not] at hsome
    split
    -- what is documented asks to be replaced, so this is the first handover
    · rename_i hasks
      have hnone : under longname history = [] := by
        by_contra hsome
        obtain ⟨id, d, hd, hlongname, hshown, hasks⟩ := (asksToInherit_iff hindexed _).1 hasks
        rw [h.settled hsome hd hlongname hshown] at hasks
        cases hasks
      have hignored : Annotated turn (modifyAll state.catalog (shownIds state.catalog longname)
          ({ · with ignore := true })) := h.annotated.modifyAll _ fun _ => rfl
      refine h.addCopy hignored hname htarget (not_shows_ignored hindexed longname) fun _ => ?_
      rw [hnone]
      exact hoverrides
    · rename_i hasks
      exact h.tell hturn htarget hshows ((Bool.not_eq_true _).mp hasks) _

/-- A member is handed over. -/
theorem inheritMember (h : Recording turn longname outer history state) (hturn : turn.Indexed)
    (owner : String) (ancestor : Doclet) :
    Recording turn longname outer (history ++ [⟨owner, ancestor.longname⟩])
      (inheritMember owner state ancestor) := by
  unfold Inheritance.inheritMember
  by_cases htarget : Handover.target ⟨owner, ancestor.longname⟩ = longname
  · subst htarget
    exact h.offer_under hturn rfl rfl rfl _
  · exact h.offer_other hturn rfl htarget fun _ => rfl

/-- The members of a parent are handed over. -/
theorem inheritFrom (h : Recording turn longname outer history state) (hturn : turn.Indexed)
    (owner parent : String) :
    Recording turn longname outer (history ++ handoversFrom turn owner parent)
      (inheritFrom owner state parent) := by
  rw [← h.annotated.handoversFrom_eq, handoversFrom, List.map_eq_flatMap]
  exact handovers_keep _ (fun _ _ ancestor _ hstate => hstate.inheritMember hturn owner ancestor) h

/-- The members of all parents are handed over. -/
theorem inherited (h : Recording turn longname outer history state) (hturn : turn.Indexed)
    (d : Doclet) :
    Recording turn longname outer (history ++ handoversTo turn d) (inherited state d) := by
  unfold Inheritance.inherited handoversTo
  by_cases hkind : CanInherit d
  · rw [if_pos hkind]
    rw [CanInherit] at hkind
    rw [if_pos hkind]
    exact handovers_keep _ (fun _ _ parent _ hstate => hstate.inheritFrom hturn _ parent) h
  · rw [if_neg hkind, List.append_nil]
    rw [CanInherit] at hkind
    rwa [if_neg hkind]

/-- What is found for one doclet is set beside what was found for others. -/
theorem findFor (h : Recording turn longname .empty history state) (hturn : turn.Indexed)
    (id : Nat) :
    Recording turn longname .empty (history ++ handoversAt turn id)
      (findFor Inheritance.inherited state id) := by
  unfold Inheritance.findFor handoversAt
  rcases hget : state.catalog.get? id with _ | d
  · have hnone := h.annotated.get?_eq_none_iff.1 hget
    simpa only [hnone, List.append_nil] using h
  · obtain ⟨e, he, heq⟩ := h.annotated.exists_base hget
    have hstart : Recording turn longname state.additions history { catalog := state.catalog } := by
      refine ⟨h.annotated, fun _ hentry => absurd hentry List.not_mem_nil, List.nodup_nil,
        h.untouched, h.settled, ?_, ?_⟩
      · exact fun hcopy => h.alone (by simpa [waiting] using hcopy)
      · exact fun hcopy => h.tells (by simpa [waiting] using hcopy)
    have hfound := hstart.inherited hturn d
    rw [← eq_of_core heq (handoversTo turn)] at hfound
    have hwaiting : ∀ found : State, Keyed found.additions → found.additions.keys.Nodup →
        waiting .empty { found with
          additions := (copies found.additions).foldl Inheritance.addCopy state.additions }
          longname = waiting state.additions found longname := by
      intro found hkeyed hkeys
      simp [waiting, hkeyed.find?_foldl_addCopy hkeys]
    simp only [he]
    refine ⟨hfound.annotated, h.keyed.foldl_addCopy _, ?_, hfound.untouched, hfound.settled, ?_, ?_⟩
    · exact nodup_keys_foldl_addCopy h.keys_nodup _
    · intro copy hcopy
      rw [hwaiting _ hfound.keyed hfound.keys_nodup] at hcopy
      exact hfound.alone hcopy
    · intro copy hcopy
      rw [hwaiting _ hfound.keyed hfound.keys_nodup] at hcopy
      exact hfound.tells hcopy

theorem start (turn : Catalog) (longname : String) :
    Recording turn longname .empty [] { catalog := turn } where
  annotated := .refl turn
  keyed := fun _ hentry => absurd hentry List.not_mem_nil
  keys_nodup := List.nodup_nil
  untouched := fun _ {_ _} he _ => he
  settled := fun hsome => absurd rfl hsome
  alone := by simp [waiting]
  tells := by simp [waiting]

/-- All handovers of a turn. -/
theorem lookup {turn : Catalog} (hturn : turn.Indexed) (owner longname : String) :
    Recording turn longname .empty (handoversFor turn owner)
      ((turn.lookup owner).foldl (Inheritance.findFor Inheritance.inherited) { catalog := turn }) :=
  handovers_keep _ (fun _ _ id _ hstate => hstate.findFor hturn id) (start turn longname)

/-- The copies of a turn wait under their longnames. -/
theorem waiting_of_mem (h : Recording turn longname .empty history state) {copy : Doclet}
    (hcopy : copy ∈ copies state.additions) : waiting .empty state copy.longname = some copy := by
  rw [waiting, h.keyed.find?_of_mem_copies h.keys_nodup hcopy, Option.some_or]

end Recording

section Turn

variable {turn : Catalog} {owner : String} {id : Nat} {e : Doclet}

/-- What a turn adds are copies that wait at its end. -/
theorem waiting_of_new (hturn : turn.Indexed)
    (he : (augmentSymbol inherited turn owner).get? id = some e) (hnew : turn.get? id = none) :
    waiting .empty ((turn.lookup owner).foldl (findFor inherited) { catalog := turn }) e.longname =
      some e := by
  have hend := Recording.lookup hturn owner e.longname
  rcases Catalog.get?_insertAll_cases he with hold | hcopy
  · rw [hend.annotated.get?_eq_none_iff.2 hnew] at hold
    cases hold
  · exact hend.waiting_of_mem hcopy

theorem memberof_of_new (hturn : turn.Indexed)
    (he : (augmentSymbol inherited turn owner).get? id = some e) (hnew : turn.get? id = none) :
    e.memberof = some owner := by
  have hgrown := addsMembers_inherited turn owner hturn
  rcases hgrown.known he with ⟨d, hd, -⟩ | ⟨owner', howner, hmember⟩
  · rw [hnew] at hd
    cases hd
  · rwa [List.mem_singleton.1 howner] at hmember

/-- Nothing is added under a longname under which nothing is handed over. -/
theorem under_ne_nil_of_new (hturn : turn.Indexed)
    (he : (augmentSymbol inherited turn owner).get? id = some e) (hnew : turn.get? id = none) :
    under e.longname (handoversFor turn owner) ≠ [] :=
  ((Recording.lookup hturn owner e.longname).alone (waiting_of_new hturn he hnew)).1

/-- In a turn without handovers under a longname, its doclets stay as they are. -/
theorem get?_of_under_eq_nil (hturn : turn.Indexed)
    (he : (augmentSymbol inherited turn owner).get? id = some e)
    (hnone : under e.longname (handoversFor turn owner) = []) : turn.get? id = some e := by
  rcases hold : turn.get? id with _ | d
  · exact absurd hnone (under_ne_nil_of_new hturn he hold)
  · have hend := Recording.lookup hturn owner e.longname
    obtain ⟨e', he', -⟩ := hend.annotated.symm.exists_base hold
    obtain rfl : e' = e :=
      Option.some.inj ((Catalog.get?_insertAll_of_get? he' _).symm.trans he)
    rw [← hold]
    exact hend.untouched hnone he' rfl

/-- What a copy says that takes the place of something documented. -/
theorem overrides_of_new (hturn : turn.Indexed)
    (he : (augmentSymbol inherited turn owner).get? id = some e) (hnew : turn.get? id = none)
    (hshows : Shows turn e.longname) :
    e.overrides = soleMember (under e.longname (handoversFor turn owner)) :=
  (Recording.lookup hturn owner e.longname).tells (waiting_of_new hturn he hnew) hshows

end Turn

/-! ## The pass -/

/-- A longname is one of a member of a parent of a symbol. -/
def IsParentMember (catalog : Catalog) (owner member : String) : Prop :=
  ∃ id d, catalog.get? id = some d ∧ d.longname = owner ∧ ∃ parent ∈ d.augments,
    ∃ i m, catalog.get? i = some m ∧ m.memberof = some parent ∧ m.longname = member

theorem IsParentMember.grown {owners : List String} {catalog next : Catalog} {owner member : String}
    (h : IsParentMember catalog owner member) (hgrown : Grown owners catalog next) :
    IsParentMember next owner member := by
  obtain ⟨id, d, hd, hname, parent, hparent, i, m, hm, hmemberof, hmember⟩ := h
  obtain ⟨d', hd', heq⟩ := hgrown.kept hd
  obtain ⟨m', hm', heq'⟩ := hgrown.kept hm
  refine ⟨id, d', hd', (eq_of_core heq Doclet.longname).trans hname, parent, ?_, i, m', hm',
    (eq_of_core heq' Doclet.memberof).trans hmemberof,
    (eq_of_core heq' Doclet.longname).trans hmember⟩
  rwa [eq_of_core heq Doclet.augments]

/-- In the turn of a symbol, members of its parents are handed over to it. -/
theorem isParentMember_of_mem {catalog : Catalog} (hindexed : catalog.Indexed) {owner : String}
    {handover : Handover} (h : handover ∈ handoversFor catalog owner) :
    handover.owner = owner ∧ IsParentMember catalog handover.owner handover.member := by
  obtain ⟨id, hid, hmem⟩ := List.mem_flatMap.1 h
  obtain ⟨d, hd, hname⟩ := (mem_lookup_iff hindexed).1 hid
  rw [handoversAt, hd] at hmem
  simp only [handoversTo] at hmem
  split at hmem
  · obtain ⟨parent, hparent, hmember⟩ := List.mem_flatMap.1 hmem
    obtain ⟨ancestor, hancestor, rfl⟩ := List.mem_map.1 hmember
    obtain ⟨i, hi, hmemberof, -⟩ := mem_sources_iff.1 hancestor
    exact ⟨hname, id, d, hd, rfl, parent, hparent, i, ancestor, hi, hmemberof, rfl⟩
  · exact absurd hmem List.not_mem_nil

/-- How a catalog stands, at a longname, to the catalog before the pass and to what was handed over
in the turns so far. -/
structure Recorded (base : Catalog) (longname : String) (done : List String)
    (history : List Handover) (catalog : Catalog) : Prop where
  grown : Grown done base catalog
  made : ∀ handover ∈ history,
    handover.owner ∈ done ∧ IsParentMember catalog handover.owner handover.member
  /-- As long as nothing is handed over under the longname, its doclets stay as they are. -/
  untouched : under longname history = [] → ∀ {id : Nat} {e : Doclet},
    catalog.get? id = some e → e.longname = longname → base.get? id = some e
  /-- What was added was handed over to its owner. -/
  handed : ∀ {id : Nat} {e : Doclet}, catalog.get? id = some e → base.get? id = none →
    e.longname = longname → ∃ handover ∈ under longname history, e.memberof = some handover.owner
  /-- Where something was documented and there is one owner, a copy says what was handed over if
  that is just one member. -/
  tells : ∀ {id : Nat} {e : Doclet}, catalog.get? id = some e → base.get? id = none →
    e.longname = longname → Shows base longname →
    (∀ handover ∈ under longname history, e.memberof = some handover.owner) →
      e.overrides = soleMember (under longname history)

namespace Recorded

variable {base catalog : Catalog} {longname owner : String} {done : List String}
  {history : List Handover}

theorem start (hbase : base.Indexed) (longname : String) : Recorded base longname [] [] base where
  grown := .refl hbase
  made := fun _ hhandover => absurd hhandover List.not_mem_nil
  untouched := fun _ {_ _} he _ => he
  handed := by
    intro id e he hnone
    rw [hnone] at he
    cases he
  tells := by
    intro id e he hnone
    rw [hnone] at he
    cases he

/-- Nothing was handed over before to an owner whose turn it is. -/
theorem under_eq_nil (h : Recorded base longname done history catalog) (howner : owner ∉ done)
    (hall : ∀ handover ∈ under longname history, handover.owner = owner) :
    under longname history = [] := by
  refine List.eq_nil_iff_forall_not_mem.2 fun handover hhandover => howner ?_
  exact hall handover hhandover ▸ (h.made handover (mem_of_mem_under hhandover)).1

/-- A later turn leaves it so that what was added was handed over to its owner. -/
theorem handed_of_grown (h : Recorded base longname done history catalog) {next : Catalog}
    {owners : List String} (hgrown : Grown owners catalog next) {id : Nat} {d e : Doclet}
    (hold : catalog.get? id = some d) (he : next.get? id = some e) (hnone : base.get? id = none)
    (hname : e.longname = longname) :
    ∃ handover ∈ under longname history, e.memberof = some handover.owner := by
  obtain ⟨e', he', heq⟩ := hgrown.kept hold
  obtain rfl : e' = e := Option.some.inj (he'.symm.trans he)
  have hname' : d.longname = longname := (eq_of_core heq Doclet.longname).symm.trans hname
  rw [eq_of_core heq Doclet.memberof]
  exact h.handed hold hnone hname'

theorem augmentSymbol (h : Recorded base longname done history catalog) (howner : owner ∉ done) :
    Recorded base longname (done ++ [owner]) (history ++ handoversFor catalog owner)
      (augmentSymbol inherited catalog owner) := by
  have hindexed := h.grown.indexed
  have hturn := addsMembers_inherited catalog owner hindexed
  have hgrown := h.grown.trans hturn
  have hnew : ∀ handover ∈ under longname (handoversFor catalog owner), handover.owner = owner :=
    fun handover hhandover => (isParentMember_of_mem hindexed (mem_of_mem_under hhandover)).1
  refine ⟨hgrown, ?_, ?_, ?_, ?_⟩
  · intro handover hhandover
    rcases List.mem_append.1 hhandover with hold | hlast
    · obtain ⟨hdone, hmember⟩ := h.made handover hold
      exact ⟨List.mem_append_left _ hdone, hmember.grown hturn⟩
    · obtain ⟨rfl, hmember⟩ := isParentMember_of_mem hindexed hlast
      exact ⟨List.mem_append_right _ (List.mem_singleton.2 rfl), hmember.grown hturn⟩
  · intro hnone id e he hname
    rw [under_append, List.append_eq_nil_iff] at hnone
    subst hname
    exact h.untouched hnone.1 (get?_of_under_eq_nil hindexed he hnone.2) rfl
  · intro id e he hnone hname
    rw [under_append]
    rcases hold : catalog.get? id with _ | d
    · subst hname
      obtain ⟨handover, hhandover⟩ :=
        List.exists_mem_of_ne_nil _ (under_ne_nil_of_new hindexed he hold)
      refine ⟨handover, List.mem_append_right _ hhandover, ?_⟩
      rw [memberof_of_new hindexed he hold, hnew handover hhandover]
    · obtain ⟨handover, hhandover, hmember⟩ := h.handed_of_grown hturn hold he hnone hname
      exact ⟨handover, List.mem_append_left _ hhandover, hmember⟩
  · intro id e he hnone hname hshows hall
    rw [under_append] at hall ⊢
    rcases hold : catalog.get? id with _ | d
    -- the copy is new, and all that was handed over came in this turn
    · have hmember := memberof_of_new hindexed he hold
      have hempty : under longname history = [] := h.under_eq_nil howner fun handover hhandover =>
        Option.some.inj ((hall handover (List.mem_append_left _ hhandover)).symm.trans hmember)
      rw [hempty, List.nil_append]
      subst hname
      exact overrides_of_new hindexed he hold
        (hshows.of_untouched h.grown.kept (h.untouched hempty))
    -- the copy came in an earlier turn, so its owner is not the one whose turn it is
    · have hempty : under longname (handoversFor catalog owner) = [] := by
        refine List.eq_nil_iff_forall_not_mem.2 fun handover hhandover => howner ?_
        obtain ⟨earlier, hearlier, hmember⟩ := h.handed_of_grown hturn hold he hnone hname
        have hsame := hall handover (List.mem_append_right _ hhandover)
        rw [hnew handover hhandover, hmember] at hsame
        exact Option.some.inj hsame ▸ (h.made earlier (mem_of_mem_under hearlier)).1
      rw [hempty, List.append_nil] at hall ⊢
      subst hname
      exact h.tells (get?_of_under_eq_nil hindexed he hempty) hnone rfl hshows hall

/-- All turns. -/
theorem foldl (hbase : base.Indexed) (longname : String) {order : List String}
    (hnodup : order.Nodup) :
    Recorded base longname order (handoversAlong order base)
      (order.foldl (Inheritance.augmentSymbol inherited) base) := by
  induction order using List.reverseRecOn with
  | nil => exact start hbase longname
  | append_singleton order owner ih =>
    rw [List.nodup_append_comm] at hnodup
    have howner := List.nodup_cons.1 hnodup
    rw [handoversAlong, logged_append, List.foldl_append]
    have hturn := (ih howner.2).augmentSymbol howner.1
    simpa [logged] using hturn

end Recorded

/-- A doclet says that it overrides a member of a parent of its owner. -/
def RecordsOverride (catalog : Catalog) (e : Doclet) : Prop :=
  ∃ owner member, e.memberof = some owner ∧ e.overrides = some member ∧
    IsParentMember catalog owner member

/-- Everything that was added where something was documented says what it overrides. -/
def RecordsAll (catalog next : Catalog) : Prop :=
  ∀ id e, next.get? id = some e → catalog.size ≤ id → Shows catalog e.longname →
    RecordsOverride next e

/-- What copies say that take the place of something documented. If one member is handed over under
its longname, a copy says that it overrides this member of a parent. If several are, all to its
owner, it says nothing. -/
theorem addInherited_overrides {catalog : Catalog} (hindexed : catalog.Indexed)
    (hbuilds : Builds .augments catalog) :
    ∃ next, addInherited catalog = .ok next ∧
      ∀ id e, next.get? id = some e → catalog.size ≤ id → Shows catalog e.longname →
        ((under e.longname (handoversMade catalog)).length = 1 → RecordsOverride next e) ∧
        ((∀ handover ∈ under e.longname (handoversMade catalog),
            e.memberof = some handover.owner) →
          e.overrides = soleMember (under e.longname (handoversMade catalog))) := by
  obtain ⟨graph, hgraph⟩ := hbuilds
  have hmade : handoversMade catalog = handoversAlong graph.sort catalog := by
    rw [handoversMade, hgraph]
  refine ⟨graph.sort.foldl (augmentSymbol inherited) catalog, ?_, ?_⟩
  · simp [addInherited, augment, hgraph, bind, Except.bind, pure, Except.pure]
  intro id e he hid hshows
  have hrecorded := Recorded.foldl hindexed e.longname (sort_of_build hgraph).1
  rw [← hmade] at hrecorded
  have hnone := Catalog.get?_eq_none_iff.2 hid
  have htells := hrecorded.tells he hnone rfl hshows
  refine ⟨fun hsingle => ?_, htells⟩
  obtain ⟨handover, hunder⟩ := List.length_eq_one_iff.1 hsingle
  obtain ⟨handover', hhandover, hmember⟩ := hrecorded.handed he hnone rfl
  have hmade := (hrecorded.made handover' (mem_of_mem_under hhandover)).2
  rw [hunder] at htells hhandover
  obtain rfl := List.mem_singleton.1 hhandover
  refine ⟨handover'.owner, handover'.member, hmember, htells fun other hother => ?_, hmade⟩
  rw [List.mem_singleton.1 hother]
  exact hmember

/-- A class with a method, and a class that augments it and has the method to inherit what is said
about it. -/
def borscht : Catalog :=
  Catalog.empty.insertAll
    [sampleClass "Soup" [], sampleMember "Soup" "serve", sampleClass "Borscht" ["Soup"],
      { sampleMember "Borscht" "serve" with inheritdoc := true }]

/-- The copy takes the place of the method and says what it overrides. -/
theorem addInherited_overrides_borscht :
    ((addInherited borscht).toOption.bind (·.get? 4)).map (fun e => (e.longname, e.overrides)) =
        some ("Borscht#serve", some "Soup#serve") ∧
      under "Borscht#serve" (handoversMade borscht) = [⟨"Borscht", "Soup#serve"⟩] ∧
      ∃ next, addInherited borscht = .ok next ∧
        ∀ id e, next.get? id = some e → borscht.size ≤ id → Shows borscht e.longname →
          ((under e.longname (handoversMade borscht)).length = 1 → RecordsOverride next e) ∧
          ((∀ handover ∈ under e.longname (handoversMade borscht),
              e.memberof = some handover.owner) →
            e.overrides = soleMember (under e.longname (handoversMade borscht))) :=
  ⟨by decide +kernel, by decide +kernel,
    addInherited_overrides (Catalog.Indexed.empty.insertAll _) (by decide +kernel)⟩

/-- The same with two classes to augment. -/
def gumbo : Catalog :=
  Catalog.empty.insertAll
    [sampleClass "Soup" [], sampleMember "Soup" "serve", sampleClass "Stew" [],
      sampleMember "Stew" "serve", sampleClass "Gumbo" ["Soup", "Stew"],
      { sampleMember "Gumbo" "serve" with inheritdoc := true }]

/-- The copy that takes the place of the method is that of the second class, and says nothing. -/
theorem gumbo_not_recordsAll :
    (gumbo.Indexed ∧ Builds .augments gumbo ∧
        ∀ node, ¬Relation.TransGen (BuildsOn .augments gumbo) node node) ∧
      ¬∃ next, addInherited gumbo = .ok next ∧ RecordsAll gumbo next := by
  refine ⟨⟨Catalog.Indexed.empty.insertAll _, by decide +kernel,
    acyclic_of_lower String.length (by decide)⟩, ?_⟩
  rintro ⟨next, hnext, hall⟩
  have hcopy : (addInherited gumbo).toOption.bind (fun next => (next.get? 6).map fun e =>
      (e.longname, e.overrides)) = some ("Gumbo#serve", none) := by
    decide +kernel
  rw [hnext] at hcopy
  obtain ⟨e, he, hfields⟩ := Option.map_eq_some_iff.1 hcopy
  simp only [Prod.mk.injEq] at hfields
  have hmethod : gumbo.get? 5 = some { sampleMember "Gumbo" "serve" with inheritdoc := true } := rfl
  have hshows : Shows gumbo e.longname := by
    rw [hfields.1]
    exact ⟨5, _, hmethod, by decide +kernel, rfl⟩
  obtain ⟨owner, member, -, hoverrides, -⟩ := hall 6 e he (by decide +kernel) hshows
  rw [hfields.2] at hoverrides
  cases hoverrides

end Commentary.Inheritance
