import Commentary.Proofs.PassTurns

/-!
# How implementations are linked

Linking writes a whole list into what implements a member of an interface, and does not look at what
stands there. So the last link that is made to a longname is what all documented doclets of that
longname end with, and what they named before is gone (`addImplemented_links`). Each member of an
interface is linked to its implementation, but where several interfaces declare one member, or a
doclet names something of its own, all but one link may be lost (`pans_not_namesAll`).

The links that a pass makes are told by a log that follows it step by step (`linksMade`). How a
catalog stands to the log up to then is `Linked`, and how the copies of a turn do is `Linking`.
-/

namespace Commentary.Inheritance

/-! ## Logs -/

section Logs

variable {σ α β : Type} {f : σ → α → σ} {log : σ → α → List β}

/-- What a row of steps logs, each from where the one before it ended. -/
def logged (f : σ → α → σ) (log : σ → α → List β) : List α → σ → List β
  | [], _ => []
  | x :: xs, s => log s x ++ logged f log xs (f s x)

theorem logged_append (front back : List α) (s : σ) :
    logged f log (front ++ back) s =
      logged f log front s ++ logged f log back (front.foldl f s) := by
  induction front generalizing s with
  | nil => rfl
  | cons x front ih => simp [logged, ih]

/-- What every step keeps, together with what it logs, a row of steps keeps. -/
theorem logged_keeps {I : List β → σ → Prop} (xs : List α)
    (hstep : ∀ history s, ∀ x ∈ xs, I history s → I (history ++ log s x) (f s x))
    {history : List β} {s : σ} (h : I history s) :
    I (history ++ logged f log xs s) (xs.foldl f s) := by
  induction xs generalizing history s with
  | nil => simpa [logged] using h
  | cons x xs ih =>
    have hfirst := hstep history s x List.mem_cons_self h
    have hrest := ih (fun history s y hy => hstep history s y (List.mem_cons_of_mem _ hy)) hfirst
    rwa [List.append_assoc] at hrest

end Logs

/-! ## Links -/

/-- A member of an interface that is linked to what implements it for an owner. -/
structure Link where
  owner : String
  declared : Doclet
deriving DecidableEq

namespace Link

/-- The longname of what implements the member. -/
def target (link : Link) : String := changeOwner link.declared.longname link.owner

/-- What the implementation names from then on. -/
def implements (link : Link) : List String := (implementedCopy link.owner link.declared).implements

/-- The implementation names the member. -/
theorem declared_mem_implements (link : Link) : link.declared.longname ∈ link.implements := by
  unfold implements implementedCopy
  simp only
  split
  · rename_i hcontains
    simpa using hcontains
  · simp

end Link

/-- The last of some links to a longname. -/
def lastLink (links : List Link) (longname : String) : Option Link :=
  links.reverse.find? (·.target == longname)

theorem lastLink_append (links : List Link) (link : Link) (longname : String) :
    lastLink (links ++ [link]) longname =
      if link.target = longname then some link else lastLink links longname := by
  by_cases hname : link.target = longname <;> simp [lastLink, hname]

theorem lastLink_eq_none_iff {links : List Link} {longname : String} :
    lastLink links longname = none ↔ ∀ link ∈ links, link.target ≠ longname := by
  simp [lastLink]

/-- The link of a member, made if there is an implementation. -/
def linksOfMember (owner : String) (state : State) (declared : Doclet) : List Link :=
  if state.catalog.contains (changeOwner declared.longname owner) then [⟨owner, declared⟩] else []

/-- The links of the members of an interface. -/
def linksFrom (owner : String) (state : State) (interface : String) : List Link :=
  logged (implementMember owner) (linksOfMember owner)
    (sources state.catalog interface (some [.instance])) state

/-- The links of what the doclet at a position implements. -/
def linksOf (state : State) (implementer : Doclet) : List Link :=
  logged (implementFrom implementer.longname) (linksFrom implementer.longname)
    implementer.implements state

/-- The links for the doclet at a position. -/
def linksAt (state : State) (id : Nat) : List Link :=
  match state.catalog.get? id with
  | none => []
  | some d => linksOf { catalog := state.catalog } d

/-- The links in the turn of a symbol. -/
def linksFor (catalog : Catalog) (longname : String) : List Link :=
  logged (findFor implemented) linksAt (catalog.lookup longname) { catalog }

/-- The links that the pass makes, in the order in which it makes them. -/
def linksMade (catalog : Catalog) : List Link :=
  match Graph.build .implements catalog with
  | .error _ => []
  | .ok graph => logged (augmentSymbol implemented) linksFor graph.sort catalog

/-! ## Documented doclets of a longname -/

section Shown

variable {catalog : Catalog}

theorem get?_modifyAll {ids : List Nat} (hnodup : ids.Nodup) (change : Doclet → Doclet) (id : Nat) :
    (modifyAll catalog ids change).get? id =
      if id ∈ ids then (catalog.get? id).map change else catalog.get? id := by
  unfold modifyAll
  induction ids generalizing catalog with
  | nil => simp
  | cons first ids ih =>
    rw [List.nodup_cons] at hnodup
    rw [List.foldl_cons, ih hnodup.2, Catalog.get?_modify]
    by_cases hid : id = first
    · subst hid
      simp [hnodup.1]
    · simp [hid]

theorem mem_shownIds_iff (hindexed : catalog.Indexed) {longname : String} {id : Nat} :
    id ∈ shownIds catalog longname ↔
      ∃ d, catalog.get? id = some d ∧ d.longname = longname ∧ d.isShown = true := by
  rw [shownIds, List.mem_filter, mem_lookup_iff hindexed]
  constructor
  · rintro ⟨⟨d, hd, hname⟩, hshown⟩
    rw [hd, Option.any_some] at hshown
    exact ⟨d, hd, hname, hshown⟩
  · rintro ⟨d, hd, hname, hshown⟩
    exact ⟨⟨d, hd, hname⟩, by rwa [hd, Option.any_some]⟩

theorem shownIds_isEmpty_iff (hindexed : catalog.Indexed) {longname : String} :
    (shownIds catalog longname).isEmpty = true ↔
      ∀ id d, catalog.get? id = some d → d.longname = longname → d.isShown = false := by
  simp only [List.isEmpty_iff, List.eq_nil_iff_forall_not_mem, mem_shownIds_iff hindexed]
  constructor
  · intro hnone id d hd hname
    by_contra hshown
    exact hnone id ⟨d, hd, hname, by simpa using hshown⟩
  · rintro hhidden id ⟨d, hd, hname, hshown⟩
    rw [hhidden id d hd hname] at hshown
    cases hshown

/-- Changing the documented doclets of a longname. -/
theorem get?_modifyAll_shownIds (hindexed : catalog.Indexed) (longname : String)
    (change : Doclet → Doclet) (id : Nat) :
    (modifyAll catalog (shownIds catalog longname) change).get? id =
      (catalog.get? id).map fun d =>
        if d.longname = longname ∧ d.isShown = true then change d else d := by
  have hnodup : (shownIds catalog longname).Nodup := (hindexed.lookup_nodup longname).filter _
  rw [get?_modifyAll hnodup]
  simp only [mem_shownIds_iff hindexed]
  rcases catalog.get? id with _ | d
  · simp
  · by_cases hd : d.longname = longname ∧ d.isShown = true <;> simp [hd]

theorem exists_of_get?_modifyAll (hindexed : catalog.Indexed) {longname : String}
    {change : Doclet → Doclet} {id : Nat} {e : Doclet}
    (he : (modifyAll catalog (shownIds catalog longname) change).get? id = some e) :
    ∃ d, catalog.get? id = some d ∧
      e = if d.longname = longname ∧ d.isShown = true then change d else d := by
  rw [get?_modifyAll_shownIds hindexed] at he
  obtain ⟨d, hd, heq⟩ := Option.map_eq_some_iff.1 he
  exact ⟨d, hd, heq.symm⟩

theorem indexed_modifyAll (hindexed : catalog.Indexed) (ids : List Nat)
    {change : Doclet → Doclet} (hchange : ∀ d, outline (change d) = outline d) :
    (modifyAll catalog ids change).Indexed :=
  (Retouched.modifyAll catalog ids hchange).indexed hindexed

/-- Whether a doclet asks for the documentation of what it overrides. -/
def asks (d : Doclet) : Bool := d.inheritdoc || d.isOverride

theorem asksToInherit_iff (hindexed : catalog.Indexed) (longname : String) :
    asksToInherit catalog (shownIds catalog longname) = true ↔
      ∃ id d, catalog.get? id = some d ∧ d.longname = longname ∧ d.isShown = true ∧
        asks d = true := by
  simp only [asksToInherit, List.any_eq_true, mem_shownIds_iff hindexed]
  constructor
  · rintro ⟨id, ⟨d, hd, hname, hshown⟩, hasks⟩
    rw [hd, Option.any_some] at hasks
    exact ⟨id, d, hd, hname, hshown, hasks⟩
  · rintro ⟨id, d, hd, hname, hshown, hasks⟩
    exact ⟨id, ⟨d, hd, hname, hshown⟩, by rwa [hd, Option.any_some]⟩

/-- What is documented after doclets of a longname are ignored is not one of these. -/
theorem get?_of_ignored (hindexed : catalog.Indexed) {longname : String} {id : Nat} {e : Doclet}
    (he : (modifyAll catalog (shownIds catalog longname) ({ · with ignore := true })).get? id =
      some e) (hshown : e.isShown = true) : catalog.get? id = some e ∧ e.longname ≠ longname := by
  obtain ⟨d, hd, rfl⟩ := exists_of_get?_modifyAll hindexed he
  split at hshown
  · simp [Doclet.isShown] at hshown
  · rename_i hnot
    rw [if_neg hnot]
    exact ⟨hd, fun hname => hnot ⟨hname, hshown⟩⟩

/-- Where doclets are linked, only what they name changes. -/
theorem exists_of_relinked (hindexed : catalog.Indexed) {longname : String}
    {implements : List String} {id : Nat} {e : Doclet}
    (he : (modifyAll catalog (shownIds catalog longname) ({ · with implements })).get? id =
      some e) :
    ∃ d, catalog.get? id = some d ∧ d.longname = e.longname ∧ d.isShown = e.isShown ∧
      asks d = asks e ∧
      e.implements = if d.longname = longname ∧ d.isShown = true then implements
        else d.implements := by
  obtain ⟨d, hd, rfl⟩ := exists_of_get?_modifyAll hindexed he
  refine ⟨d, hd, ?_⟩
  split <;> simp [Doclet.isShown, asks]

end Shown

/-! ## A catalog and its log -/

/-- How a catalog stands to the links that were made so far, and to the catalog before the pass. -/
structure Linked (base : Catalog) (history : List Link) (catalog : Catalog) : Prop where
  indexed : catalog.Indexed
  kept : ∀ {id : Nat} {d : Doclet}, base.get? id = some d → ∃ e, catalog.get? id = some e
  /-- No longname is new. -/
  carried : ∀ {id : Nat} {e : Doclet}, catalog.get? id = some e → base.Carries e.longname
  /-- A documented doclet names what the last link says, or what it named before. -/
  shown : ∀ {id : Nat} {e : Doclet}, catalog.get? id = some e → e.isShown = true →
    ((lastLink history e.longname).map Link.implements).or
      ((base.get? id).map Doclet.implements) = some e.implements
  /-- A doclet that is not documented names what it named before. -/
  hidden : ∀ {id : Nat} {d e : Doclet}, base.get? id = some d → catalog.get? id = some e →
    e.isShown = false → e.implements = d.implements
  /-- Where a link was made and a doclet is still documented that was there before, no documented
  doclet asks for other documentation. So none of them will be replaced. -/
  settled : ∀ {id : Nat} {d e : Doclet}, base.get? id = some d → catalog.get? id = some e →
    e.isShown = true → lastLink history e.longname ≠ none →
    ∀ {i : Nat} {e' : Doclet}, catalog.get? i = some e' → e'.longname = e.longname →
      e'.isShown = true → asks e' = false

namespace Linked

variable {base catalog : Catalog} {history : List Link}

theorem start (h : base.Indexed) : Linked base [] base where
  indexed := h
  kept := fun {_ d} hd => ⟨d, hd⟩
  carried := fun {id e} he => ⟨id, e, he, rfl⟩
  shown := fun {_ _} he _ => by simp [lastLink, he]
  hidden := by
    intro id d e hd he _
    rw [Option.some.inj (hd.symm.trans he)]
  settled := fun {_ _ _} _ _ _ hlink => absurd rfl hlink

/-- A link where nothing is documented. -/
theorem append_of_hidden (h : Linked base history catalog) {link : Link}
    (hhidden : ∀ id e, catalog.get? id = some e → e.longname = link.target → e.isShown = false) :
    Linked base (history ++ [link]) catalog := by
  have hsame : ∀ {id : Nat} {e : Doclet}, catalog.get? id = some e → e.isShown = true →
      lastLink (history ++ [link]) e.longname = lastLink history e.longname := by
    intro id e he hshown
    rw [lastLink_append, if_neg]
    intro hname
    rw [hhidden id e he hname.symm] at hshown
    cases hshown
  refine { h with shown := ?_, settled := ?_ }
  · intro id e he hshown
    rw [hsame he hshown]
    exact h.shown he hshown
  · intro id d e hd he hshown hlink
    rw [hsame he hshown] at hlink
    exact h.settled hd he hshown hlink

/-- The documented doclets of a longname are ignored as one of them asks for it. -/
theorem ignore (h : Linked base history catalog) {longname : String}
    (hasks : asksToInherit catalog (shownIds catalog longname) = true) :
    Linked base history (modifyAll catalog (shownIds catalog longname)
      ({ · with ignore := true })) := by
  refine ⟨indexed_modifyAll h.indexed _ fun _ => rfl, ?_, ?_, ?_, ?_, ?_⟩
  · intro id d hd
    obtain ⟨e, he⟩ := h.kept hd
    exact ⟨_, by rw [get?_modifyAll_shownIds h.indexed, he, Option.map_some]⟩
  · intro id e he
    obtain ⟨d, hd, rfl⟩ := exists_of_get?_modifyAll h.indexed he
    have hcarried := h.carried hd
    split
    · exact hcarried
    · exact hcarried
  · intro id e he hshown
    exact h.shown (get?_of_ignored h.indexed he hshown).1 hshown
  · intro id d e hd he hshown
    obtain ⟨e', he', rfl⟩ := exists_of_get?_modifyAll h.indexed he
    split
    · rename_i htouched
      obtain ⟨rfl, hshown'⟩ := htouched
      -- a doclet that is replaced was not linked, as it would not ask then
      have hnone : lastLink history e'.longname = none := by
        by_contra hlink
        obtain ⟨i, a, ha, hname, hshown'', hasks'⟩ := (asksToInherit_iff h.indexed _).1 hasks
        rw [h.settled hd he' hshown' hlink ha hname hshown''] at hasks'
        cases hasks'
      have himplements := h.shown he' hshown'
      rw [hnone, hd] at himplements
      exact (Option.some.inj himplements).symm
    · rename_i hnot
      rw [if_neg hnot] at hshown
      exact h.hidden hd he' hshown
  · intro id d e hd he hshown hlink i e' he' hname hshown'
    exact h.settled hd (get?_of_ignored h.indexed he hshown).1 hshown hlink
      (get?_of_ignored h.indexed he' hshown').1 hname hshown'

/-- The documented doclets of a longname are linked as none of them asks for other documentation. -/
theorem link (h : Linked base history catalog) {link : Link}
    (hasks : asksToInherit catalog (shownIds catalog link.target) = false) :
    Linked base (history ++ [link]) (modifyAll catalog (shownIds catalog link.target)
      ({ · with implements := link.implements })) := by
  refine ⟨indexed_modifyAll h.indexed _ fun _ => rfl, ?_, ?_, ?_, ?_, ?_⟩
  · intro id d hd
    obtain ⟨e, he⟩ := h.kept hd
    exact ⟨_, by rw [get?_modifyAll_shownIds h.indexed, he, Option.map_some]⟩
  · intro id e he
    obtain ⟨d, hd, hname, -⟩ := exists_of_relinked h.indexed he
    exact hname ▸ h.carried hd
  · intro id e he hshown
    obtain ⟨d, hd, hname, hsame, -, himplements⟩ := exists_of_relinked h.indexed he
    rw [← hsame] at hshown
    rw [himplements, ← hname, lastLink_append]
    by_cases htarget : link.target = d.longname
    · simp [htarget, hshown]
    · simpa [htarget, Ne.symm htarget] using h.shown hd hshown
  · intro id d e hd he hshown
    obtain ⟨e', he', -, hsame, -, himplements⟩ := exists_of_relinked h.indexed he
    rw [← hsame] at hshown
    rw [himplements, if_neg (by simp [hshown])]
    exact h.hidden hd he' hshown
  · intro id d e hd he hshown hlink i e' he' hname hshown'
    obtain ⟨d₁, hd₁, hname₁, hsame₁, -, -⟩ := exists_of_relinked h.indexed he
    obtain ⟨d₂, hd₂, hname₂, hsame₂, hasks₂, -⟩ := exists_of_relinked h.indexed he'
    rw [← hasks₂]
    rw [← hsame₂] at hshown'
    by_cases htarget : link.target = e.longname
    · -- none of these asks, or they would have been replaced
      by_contra hasks'
      have hany := (asksToInherit_iff h.indexed link.target).2
        ⟨i, d₂, hd₂, (hname₂.trans hname).trans htarget.symm, hshown', by simpa using hasks'⟩
      rw [hany] at hasks
      cases hasks
    · rw [lastLink_append, if_neg htarget, ← hname₁] at hlink
      exact h.settled hd hd₁ (hsame₁.trans hshown) hlink hd₂
        ((hname₂.trans hname).trans hname₁.symm) hshown'

end Linked

/-! ## Copies by longname -/

theorem nodup_keys_foldl_addCopy {additions : Additions} (hkeys : additions.keys.Nodup)
    (ds : List Doclet) : (ds.foldl addCopy additions).keys.Nodup :=
  List.foldlRecOn (motive := fun additions : Additions => additions.keys.Nodup) ds addCopy hkeys
    fun _ hkeys _ _ => Table.nodup_keys_insert hkeys _ _

/-- A copy is found under its longname. -/
theorem Keyed.find?_of_mem_copies {additions : Additions} (hkeyed : Keyed additions)
    (hkeys : additions.keys.Nodup) {copy : Doclet} (hcopy : copy ∈ copies additions) :
    additions.find? copy.longname = some copy := by
  obtain ⟨entry, hentry, rfl⟩ := List.mem_map.1 hcopy
  rw [hkeyed entry hentry]
  exact (Table.find?_eq_some_iff hkeys entry.1 entry.2).2 hentry

/-- Copies that are set beside others replace those of their longnames. -/
theorem Keyed.find?_foldl_addCopy {additions : Additions} (hkeyed : Keyed additions)
    (hkeys : additions.keys.Nodup) (outer : Additions) (longname : String) :
    ((copies additions).foldl Inheritance.addCopy outer).find? longname =
      (additions.find? longname).or (outer.find? longname) := by
  obtain ⟨entries⟩ := additions
  induction entries generalizing outer with
  | nil => rfl
  | cons entry entries ih =>
    obtain ⟨key, d⟩ := entry
    have hkey : d.longname = key := hkeyed _ List.mem_cons_self
    have hrest := ih (Inheritance.addCopy outer d)
      (fun entry hentry => hkeyed entry (List.mem_cons_of_mem _ hentry)) (List.nodup_cons.1 hkeys).2
    have hcopies : copies ⟨(key, d) :: entries⟩ = d :: copies ⟨entries⟩ := rfl
    rw [hcopies, List.foldl_cons, hrest, Inheritance.addCopy, Table.find?_insert, hkey]
    by_cases hname : key = longname
    · subst hname
      have hnone : Table.find? ⟨entries⟩ key = none := by
        by_contra hsome
        obtain ⟨d', hd'⟩ := Option.ne_none_iff_exists'.1 hsome
        exact (List.nodup_cons.1 hkeys).1 (Table.mem_keys_of_find? hd')
      rw [hnone]
      simp [Table.find?, Table.lookup]
    · simp [Table.find?, Table.lookup, hname]

/-! ## The copies of a turn -/

/-- A copy that is not added yet. It says what the last link says, and nothing else of its longname
is documented. -/
structure Awaits (base : Catalog) (history : List Link) (catalog : Catalog) (longname : String)
    (copy : Doclet) : Prop where
  longname_eq : copy.longname = longname
  carried : base.Carries longname
  last : (lastLink history longname).map Link.implements = some copy.implements
  alone : ∀ {id : Nat} {e : Doclet}, catalog.get? id = some e → e.longname = longname →
    e.isShown = false

/-- How the turn of a symbol stands to the links that were made so far. The outer copies are those
for other doclets of the symbol. -/
structure Linking (base : Catalog) (outer : Additions) (history : List Link) (state : State) :
    Prop where
  linked : Linked base history state.catalog
  keyed : Keyed state.additions
  keys_nodup : state.additions.keys.Nodup
  awaits : ∀ {longname : String} {copy : Doclet},
    (state.additions.find? longname).or (outer.find? longname) = some copy →
      Awaits base history state.catalog longname copy

namespace Linking

variable {base : Catalog} {outer : Additions} {history : List Link} {state : State}

/-- A copy is made where nothing is documented any more. -/
theorem addCopy (h : Linking base outer history state) {catalog : Catalog} {link : Link}
    {copy : Doclet} (hlinked : Linked base (history ++ [link]) catalog)
    (hback : ∀ {id : Nat} {e : Doclet}, catalog.get? id = some e → e.isShown = true →
      state.catalog.get? id = some e ∧ e.longname ≠ link.target)
    (hcarried : base.Carries link.target) (hlongname : copy.longname = link.target)
    (himplements : copy.implements = link.implements) :
    Linking base outer (history ++ [link])
      { catalog, additions := addCopy state.additions copy } where
  linked := hlinked
  keyed := h.keyed.addCopy copy
  keys_nodup := Table.nodup_keys_insert h.keys_nodup _ _
  awaits := by
    intro longname copy' hfind
    have halone : ∀ {id : Nat} {e : Doclet}, catalog.get? id = some e → e.longname = link.target →
        e.isShown = false := by
      intro id e he hname
      by_contra hshown
      exact (hback he (by simpa using hshown)).2 hname
    rw [Inheritance.addCopy, Table.find?_insert, hlongname] at hfind
    by_cases htarget : link.target = longname
    · subst htarget
      rw [if_pos rfl] at hfind
      obtain rfl : copy = copy' := Option.some.inj hfind
      exact ⟨hlongname, hcarried, by simp [lastLink_append, himplements], halone⟩
    · rw [if_neg htarget] at hfind
      have hold := h.awaits hfind
      refine ⟨hold.longname_eq, hold.carried, ?_, ?_⟩
      · rw [lastLink_append, if_neg htarget]
        exact hold.last
      · intro id e he hname
        by_contra hshown
        rw [hold.alone (hback he (by simpa using hshown)).1 hname] at hshown
        exact hshown rfl

/-- Where something is documented, it names what the link says. No copy waits there. -/
theorem link (h : Linking base outer history state) {link : Link}
    (hsome : ¬(shownIds state.catalog link.target).isEmpty = true)
    (hasks : asksToInherit state.catalog (shownIds state.catalog link.target) = false) :
    Linking base outer (history ++ [link])
      { state with
        catalog := modifyAll state.catalog (shownIds state.catalog link.target)
          ({ · with implements := link.implements }) } where
  linked := h.linked.link hasks
  keyed := h.keyed
  keys_nodup := h.keys_nodup
  awaits := by
    intro longname copy hfind
    have hold := h.awaits hfind
    have htarget : link.target ≠ longname := by
      rintro rfl
      exact hsome ((shownIds_isEmpty_iff h.linked.indexed).2 fun _ _ => hold.alone)
    refine ⟨hold.longname_eq, hold.carried, ?_, ?_⟩
    · rw [lastLink_append, if_neg htarget]
      exact hold.last
    · intro id e he hlongname
      obtain ⟨d, hd, hsame, hshown, -⟩ := exists_of_relinked h.linked.indexed he
      rw [← hshown]
      exact hold.alone hd (hsame.trans hlongname)

/-- A link is made: a copy comes in, perhaps in place of what there is, or what there is names what
the link says. -/
theorem offer (h : Linking base outer history state) {link : Link}
    (hthere : state.catalog.contains link.target = true) :
    Linking base outer (history ++ [link])
      (offer state (implementedCopy link.owner link.declared)
        ({ · with implements := link.implements })) := by
  have hname : (implementedCopy link.owner link.declared).longname = link.target := rfl
  have hcarried : base.Carries link.target := by
    obtain ⟨id, e, he, hlongname⟩ := (h.linked.indexed.contains_iff_carries _).1 hthere
    exact hlongname ▸ h.linked.carried he
  unfold Inheritance.offer
  simp only [hname]
  split
  · rename_i hempty
    have hhidden := (shownIds_isEmpty_iff h.linked.indexed).1 hempty
    refine h.addCopy (h.linked.append_of_hidden hhidden) ?_ hcarried hname rfl
    intro id e he hshown
    refine ⟨he, fun hlongname => ?_⟩
    rw [hhidden id e he hlongname] at hshown
    cases hshown
  · rename_i hsome
    split
    · rename_i hasks
      have hignored := h.linked.ignore hasks
      refine h.addCopy (hignored.append_of_hidden fun id e he hlongname => ?_)
        (fun he hshown => get?_of_ignored h.linked.indexed he hshown) hcarried hname rfl
      by_contra hshown
      exact (get?_of_ignored h.linked.indexed he (by simpa using hshown)).2 hlongname
    · rename_i hasks
      exact h.link hsome ((Bool.not_eq_true _).mp hasks)

theorem implementMember (h : Linking base outer history state) (owner : String)
    (declared : Doclet) :
    Linking base outer (history ++ linksOfMember owner state declared)
      (implementMember owner state declared) := by
  have hstep : Inheritance.implementMember owner state declared =
      if state.catalog.contains (Link.target ⟨owner, declared⟩) then
        Inheritance.offer state (implementedCopy owner declared)
          ({ · with implements := Link.implements ⟨owner, declared⟩ })
      else state := rfl
  have hlinks : linksOfMember owner state declared =
      if state.catalog.contains (Link.target ⟨owner, declared⟩) then [⟨owner, declared⟩]
      else [] := rfl
  rw [hstep, hlinks]
  split
  · rename_i hthere
    exact h.offer hthere
  · rw [List.append_nil]
    exact h

theorem implementFrom (h : Linking base outer history state) (owner interface : String) :
    Linking base outer (history ++ linksFrom owner state interface)
      (implementFrom owner state interface) :=
  logged_keeps _ (fun _ _ declared _ hstate => hstate.implementMember owner declared) h

theorem implemented (h : Linking base outer history state) (implementer : Doclet) :
    Linking base outer (history ++ linksOf state implementer)
      (implemented state implementer) :=
  logged_keeps _ (fun _ _ interface _ hstate => hstate.implementFrom _ interface) h

theorem findFor (h : Linking base .empty history state) (id : Nat) :
    Linking base .empty (history ++ linksAt state id)
      (findFor Inheritance.implemented state id) := by
  unfold Inheritance.findFor linksAt
  rcases hget : state.catalog.get? id with _ | d
  · simpa only [List.append_nil] using h
  · have hstart : Linking base state.additions history { catalog := state.catalog } := by
      refine ⟨h.linked, fun _ hentry => absurd hentry List.not_mem_nil, List.nodup_nil, ?_⟩
      intro longname copy hfind
      refine h.awaits ?_
      simpa using hfind
    have hfound := hstart.implemented d
    refine ⟨hfound.linked, h.keyed.foldl_addCopy _, ?_, ?_⟩
    · exact nodup_keys_foldl_addCopy h.keys_nodup _
    · intro longname copy hfind
      refine hfound.awaits ?_
      simpa [hfound.keyed.find?_foldl_addCopy hfound.keys_nodup] using hfind

theorem awaits_of_mem (h : Linking base .empty history state) {copy : Doclet}
    (hcopy : copy ∈ copies state.additions) :
    Awaits base history state.catalog copy.longname copy := by
  refine h.awaits ?_
  rw [h.keyed.find?_of_mem_copies h.keys_nodup hcopy, Option.some_or]

/-- Adding the copies ends the turn. -/
theorem insertAll (h : Linking base .empty history state) :
    Linked base history (state.catalog.insertAll (copies state.additions)) := by
  have hold : ∀ {id : Nat} {d e : Doclet}, base.get? id = some d →
      (state.catalog.insertAll (copies state.additions)).get? id = some e →
        state.catalog.get? id = some e := by
    intro id d e hd he
    obtain ⟨e', he'⟩ := h.linked.kept hd
    rw [Catalog.get?_insertAll_of_get? he'] at he
    exact he'.trans he
  refine ⟨h.linked.indexed.insertAll _, ?_, ?_, ?_, ?_, ?_⟩
  · intro id d hd
    obtain ⟨e, he⟩ := h.linked.kept hd
    exact ⟨e, Catalog.get?_insertAll_of_get? he _⟩
  · intro id e he
    rcases Catalog.get?_insertAll_cases he with he | hnew
    · exact h.linked.carried he
    · exact (h.awaits_of_mem hnew).carried
  · intro id e he hshown
    rcases Catalog.get?_insertAll_cases he with he | hnew
    · exact h.linked.shown he hshown
    · rw [(h.awaits_of_mem hnew).last, Option.some_or]
  · intro id d e hd he hshown
    exact h.linked.hidden hd (hold hd he) hshown
  · intro id d e hd he hshown hlink i e' he' hname hshown'
    rcases Catalog.get?_insertAll_cases he' with he' | hnew
    · exact h.linked.settled hd (hold hd he) hshown hlink he' hname hshown'
    · rw [(h.awaits_of_mem hnew).alone (hold hd he) hname.symm] at hshown
      cases hshown

end Linking

/-- A turn starts without copies. -/
theorem Linked.linking {base catalog : Catalog} {history : List Link}
    (h : Linked base history catalog) : Linking base .empty history { catalog } where
  linked := h
  keyed := fun _ hentry => absurd hentry List.not_mem_nil
  keys_nodup := List.nodup_nil
  awaits := by
    intro longname copy hfind
    simp at hfind

theorem Linked.augmentSymbol {base catalog : Catalog} {history : List Link}
    (h : Linked base history catalog) (longname : String) :
    Linked base (history ++ linksFor catalog longname)
      (augmentSymbol implemented catalog longname) := by
  exact Linking.insertAll (logged_keeps _ (fun _ _ id _ hstate => hstate.findFor id) h.linking)

/-- As long as no link is made to a doclet, it names what it named before. -/
theorem Linked.implements_eq {base catalog : Catalog} {history : List Link}
    (h : Linked base history catalog) {id : Nat} {d e : Doclet} (hd : base.get? id = some d)
    (he : catalog.get? id = some e) (hnone : lastLink history e.longname = none) :
    e.implements = d.implements := by
  by_cases hshown : e.isShown = true
  · have himplements := h.shown he hshown
    rw [hnone, hd] at himplements
    exact (Option.some.inj himplements).symm
  · exact h.hidden hd he (by simpa using hshown)

/-! ## All links are made -/

section Due

variable {turn : Catalog} {state : State} {interface longname : String}

theorem underway_implementFrom (h : Underway turn state) (owner interface : String) :
    Underway turn (implementFrom owner state interface) :=
  List.foldlRecOn _ _ h fun _ hstate _ _ => hstate.implementMember trivial trivial

/-- Every member of an interface is linked that has an implementation. -/
theorem mem_linksFrom (h : Underway turn state) {declared : Doclet}
    (hdeclared : declared ∈ sources state.catalog interface (some [.instance])) {owner : String}
    (hthere : turn.contains (changeOwner declared.longname owner) = true) :
    ⟨owner, declared⟩ ∈ linksFrom owner state interface := by
  unfold linksFrom
  obtain ⟨front, back, hsplit⟩ := List.append_of_mem hdeclared
  have hfront : Underway turn (front.foldl (implementMember owner) state) :=
    List.foldlRecOn _ _ h fun _ hstate _ _ => hstate.implementMember trivial trivial
  rw [hsplit, logged_append, logged]
  refine List.mem_append_right _ (List.mem_append_left _ ?_)
  rw [linksOfMember, hfront.annotated.retouched.contains_eq, if_pos hthere]
  exact List.mem_singleton.2 rfl

/-- All interfaces of an implementer are asked for their members. -/
theorem exists_mem_linksOf (h : Underway turn state) (hhands : HandsOn turn interface longname)
    {implementer : Doclet} (hinterface : interface ∈ implementer.implements)
    (hthere : turn.contains (changeOwner longname implementer.longname) = true) :
    ∃ link ∈ linksOf state implementer,
      link.owner = implementer.longname ∧ link.declared.longname = longname := by
  unfold linksOf
  obtain ⟨front, back, hsplit⟩ := List.append_of_mem hinterface
  have hfront : Underway turn (front.foldl (implementFrom implementer.longname) state) :=
    List.foldlRecOn _ _ h fun _ hstate interface _ => underway_implementFrom hstate _ interface
  obtain ⟨declared, hdeclared, rfl⟩ := hhands.of_annotated hfront.annotated
  rw [hsplit, logged_append, logged]
  exact ⟨_, List.mem_append_right _ (List.mem_append_left _
    (mem_linksFrom hfront hdeclared hthere)), rfl, rfl⟩

/-- In the turn of a symbol, a doclet to which no link was made links what it named at first. -/
theorem exists_mem_linksFor {base : Catalog} {history : List Link} (h : Linked base history turn)
    (hhands : HandsOn turn interface longname) {id : Nat} {d e : Doclet}
    (hd : base.get? id = some d) (he : turn.get? id = some e) (hname : e.longname = d.longname)
    (hnot : ∀ link ∈ history ++ linksFor turn d.longname, link.target ≠ d.longname)
    (hinterface : interface ∈ d.implements)
    (hthere : turn.contains (changeOwner longname d.longname) = true) :
    ∃ link ∈ linksFor turn d.longname,
      link.owner = d.longname ∧ link.declared.longname = longname := by
  unfold linksFor at hnot ⊢
  obtain ⟨front, back, hsplit⟩ :=
    List.append_of_mem ((mem_lookup_iff h.indexed).2 ⟨e, he, hname⟩)
  have hunderway : Underway turn (front.foldl (findFor implemented) { catalog := turn }) :=
    List.foldlRecOn _ _ (.start (.refl turn)) fun state hstate id _ => hstate.findFor fun d _ =>
      Gathered.implemented (fun _ _ _ _ _ _ => trivial) (fun _ _ => trivial)
        (.start hstate.annotated)
  have hlinking := logged_keeps front (fun _ _ id _ hstate => hstate.findFor id) h.linking
  rw [hsplit, logged_append, ← List.append_assoc] at hnot
  rw [hsplit, logged_append, logged]
  generalize front.foldl (findFor implemented) { catalog := turn } = state
    at hunderway hlinking ⊢
  obtain ⟨e', he', heq⟩ := hunderway.annotated.symm.exists_base he
  have hname' : e'.longname = d.longname := (eq_of_core heq Doclet.longname).trans hname
  have hnone := lastLink_eq_none_iff.2 fun link hlink => hnot link (List.mem_append_left _ hlink)
  rw [← hname'] at hnone hthere
  rw [← hlinking.linked.implements_eq hd he' hnone] at hinterface
  have hfresh : Underway turn { catalog := state.catalog } := .start hunderway.annotated
  obtain ⟨link, hlink, howner, hdeclared⟩ := exists_mem_linksOf hfresh hhands hinterface hthere
  refine ⟨link, List.mem_append_right _ (List.mem_append_left _ ?_), howner.trans hname', hdeclared⟩
  unfold linksAt
  rwa [he']

end Due

/-! ## The pass -/

theorem addsMembers_implemented : AddsMembers implemented :=
  addsMembers_of_gathered fun _ _ _ hcatalog =>
    Gathered.implemented (fun _ _ _ _ _ _ => rfl) (fun _ he => he) (.start hcatalog)

/-- The links that are made when the symbols of a row have their turns. -/
abbrev linksAlong (order : List String) (catalog : Catalog) : List Link :=
  logged (augmentSymbol implemented) linksFor order catalog

theorem linked_foldl {catalog : Catalog} (hindexed : catalog.Indexed) (order : List String) :
    Linked catalog (linksAlong order catalog)
      (order.foldl (augmentSymbol implemented) catalog) := by
  have hlinked := logged_keeps order
    (fun _ _ longname _ hcatalog => hcatalog.augmentSymbol longname) (Linked.start hindexed)
  rwa [List.nil_append] at hlinked

/-- What an interface ends with, it has when the implementer has its turn, and then it is linked. -/
theorem exists_mem_linksAlong {catalog : Catalog} (hindexed : catalog.Indexed)
    {front back : List String} {id : Nat} {d : Doclet} (hd : catalog.get? id = some d)
    (hnot : ∀ link ∈ linksAlong (front ++ d.longname :: back) catalog, link.target ≠ d.longname)
    {interface longname : String} (hinterface : interface ∈ d.implements)
    (hagain : interface ∉ d.longname :: back)
    (hhands : HandsOn ((front ++ d.longname :: back).foldl (augmentSymbol implemented) catalog)
      interface longname)
    (hthere : catalog.Carries (changeOwner longname d.longname)) :
    ∃ link ∈ linksAlong (front ++ d.longname :: back) catalog,
      link.owner = d.longname ∧ link.declared.longname = longname := by
  have hbefore := addsMembers_implemented.foldl hindexed front
  have hlinked := linked_foldl hindexed front
  rw [List.foldl_append] at hhands
  unfold linksAlong at hnot hlinked ⊢
  rw [logged_append, logged] at hnot ⊢
  generalize front.foldl (augmentSymbol implemented) catalog = before
    at hbefore hlinked hhands hnot ⊢
  have hafter := addsMembers_implemented.foldl hbefore.indexed (d.longname :: back)
  have hhands' := hhands.before hafter hagain
  obtain ⟨e, he, heq⟩ := hbefore.kept hd
  have hthere' := (hbefore.indexed.contains_iff_carries _).2 (hbefore.keeps hthere)
  rw [← List.append_assoc] at hnot
  obtain ⟨link, hlink, hfound⟩ := exists_mem_linksFor hlinked hhands' hd he
    (eq_of_core heq Doclet.longname) (fun link hlink => hnot link (List.mem_append_left _ hlink))
    hinterface hthere'
  exact ⟨link, List.mem_append_right _ (List.mem_append_left _ hlink), hfound⟩

/-- Everything that is documented names all members that it implements, and nothing that was
documented has lost what it named. -/
structure NamesAll (catalog next : Catalog) : Prop where
  linked : ∀ {id : Nat} {d : Doclet}, catalog.get? id = some d → d.kind.any isClassLike = true →
    ∀ interface ∈ d.implements, ∀ longname, HandsOn next interface longname →
      ∀ {i : Nat} {e : Doclet}, next.get? i = some e →
        e.longname = changeOwner longname d.longname → e.isShown = true → longname ∈ e.implements
  kept : ∀ {id : Nat} {d e : Doclet}, catalog.get? id = some d → d.isShown = true →
    next.get? id = some e → d.implements ⊆ e.implements

/-- The last link to a longname says all: what the links to it name, and what its documented doclets
name. No link goes to an implementer. -/
structure LastSaysAll (catalog : Catalog) (links : List Link) : Prop where
  linked : ∀ link ∈ links, ∀ last, lastLink links link.target = some last →
    link.declared.longname ∈ last.implements
  kept : ∀ {id : Nat} {d : Doclet}, catalog.get? id = some d → d.isShown = true →
    ∀ last, lastLink links d.longname = some last → d.implements ⊆ last.implements
  apart : ∀ {id : Nat} {d : Doclet}, catalog.get? id = some d → d.kind.any isClassLike = true →
    ∀ link ∈ links, link.target ≠ d.longname

/-- Each documented instance member that an interface ends with and that has an implementation is
linked, unless a link to the implementer itself changes what that implements. -/
def MakesAll (catalog next : Catalog) (links : List Link) : Prop :=
  ∀ id d, catalog.get? id = some d → d.kind.any isClassLike = true →
    (∀ link ∈ links, link.target ≠ d.longname) →
    ∀ interface ∈ d.implements, ∀ longname, HandsOn next interface longname →
      next.contains (changeOwner longname d.longname) = true →
        ∃ link ∈ links, link.owner = d.longname ∧ link.declared.longname = longname

/-- What a documented doclet of a longname names is what the last link says, if there is one. -/
theorem Linked.implements_eq_last {base catalog : Catalog} {history : List Link}
    (h : Linked base history catalog) {id : Nat} {e : Doclet} (he : catalog.get? id = some e)
    (hshown : e.isShown = true) {last : Link} (hlast : lastLink history e.longname = some last) :
    e.implements = last.implements := by
  have himplements := h.shown he hshown
  rw [hlast, Option.map_some, Option.some_or] at himplements
  exact (Option.some.inj himplements).symm

/-- Where all links are made and the last ones say all, nothing is lost. -/
theorem LastSaysAll.namesAll {catalog next : Catalog} {links : List Link} {owners : List String}
    (hlast : LastSaysAll catalog links) (hlinked : Linked catalog links next)
    (hgrown : Grown owners catalog next) (hmakes : MakesAll catalog next links) :
    NamesAll catalog next where
  linked := by
    intro id d hd hclass interface hinterface longname hhands i e he hlongname hshown
    have hthere := (hlinked.indexed.contains_iff_carries _).2 ⟨i, e, he, hlongname⟩
    obtain ⟨link, hlink, howner, rfl⟩ :=
      hmakes id d hd hclass (hlast.apart hd hclass) interface hinterface longname hhands hthere
    have htarget : link.target = e.longname := by rw [hlongname, Link.target, howner]
    obtain ⟨last, hlastLink⟩ : ∃ last, lastLink links e.longname = some last := by
      rw [← Option.ne_none_iff_exists', ne_eq, lastLink_eq_none_iff]
      exact fun hnone => hnone link hlink htarget
    rw [hlinked.implements_eq_last he hshown hlastLink]
    exact hlast.linked link hlink last (htarget ▸ hlastLink)
  kept := by
    intro id d e hd hshown he
    obtain ⟨e', he', heq⟩ := hgrown.kept hd
    obtain rfl : e = e' := Option.some.inj (he.symm.trans he')
    have hlongname : e.longname = d.longname := eq_of_core heq Doclet.longname
    rcases hlastLink : lastLink links e.longname with _ | last
    · rw [hlinked.implements_eq hd he hlastLink]
      exact List.Subset.refl _
    · by_cases hshown' : e.isShown = true
      · rw [hlinked.implements_eq_last he hshown' hlastLink]
        exact hlast.kept hd hshown last (hlongname ▸ hlastLink)
      · rw [hlinked.hidden hd he (by simpa using hshown')]
        exact List.Subset.refl _

/-- The last link wins. Where symbols implement each other without a circle, all links are made. A
documented doclet ends naming what the last link to its longname says, or what it named before if
there is none; one that is not documented names what it named before. So nothing is lost where the
last links say all. -/
theorem addImplemented_links {catalog : Catalog} (hindexed : catalog.Indexed)
    (hbuilds : Builds .implements catalog)
    (hacyclic : ∀ node, ¬Relation.TransGen (BuildsOn .implements catalog) node node) :
    ∃ next, addImplemented catalog = .ok next ∧
      MakesAll catalog next (linksMade catalog) ∧
      (∀ id e, next.get? id = some e → e.isShown = true →
        ((lastLink (linksMade catalog) e.longname).map Link.implements).or
          ((catalog.get? id).map Doclet.implements) = some e.implements) ∧
      (∀ id d e, catalog.get? id = some d → next.get? id = some e → e.isShown = false →
        e.implements = d.implements) ∧
      (LastSaysAll catalog (linksMade catalog) → NamesAll catalog next) := by
  obtain ⟨order, ⟨graph, hgraph, hsort⟩, hnext, horder⟩ :=
    exists_order implemented hbuilds hacyclic
  have hlinks : linksMade catalog = linksAlong order catalog := by
    rw [linksMade, hgraph, ← hsort]
  have hlinked := linked_foldl hindexed order
  have hgrown := addsMembers_implemented.foldl hindexed order
  have hmakes : MakesAll catalog (order.foldl (augmentSymbol implemented) catalog)
      (linksAlong order catalog) := by
    intro id d hd hclass hnot interface hinterface longname hhands hthere
    -- no longname is new, so the implementation was there all along
    obtain ⟨i, e, he, hlongname⟩ := (hlinked.indexed.contains_iff_carries _).1 hthere
    have hthere' : catalog.Carries (changeOwner longname d.longname) :=
      hlongname ▸ hlinked.carried he
    obtain ⟨front, back, rfl, hagain⟩ :=
      horder d.longname interface ⟨id, d, hd, ⟨hclass, rfl⟩, hinterface⟩
    exact exists_mem_linksAlong hindexed hd hnot hinterface hagain hhands hthere'
  rw [hlinks]
  exact ⟨_, hnext, hmakes, fun _ _ he hshown => hlinked.shown he hshown,
    fun _ _ _ hd he hshown => hlinked.hidden hd he hshown,
    fun hlast => hlast.namesAll hlinked hgrown hmakes⟩

/-- An interface with a method, and a class with that method that implements it. -/
def pan : Catalog :=
  Catalog.empty.insertAll
    [{ longname := "Pot", kind := some .interface }, sampleMember "Pot" "stir",
      { longname := "SteelPan", kind := some .class, implements := ["Pot"] },
      sampleMember "SteelPan" "stir"]

/-- The one link of the class. -/
def panLink : Link := ⟨"SteelPan", sampleMember "Pot" "stir"⟩

/-- A single link says all that there is. -/
theorem lastSaysAll_pan : LastSaysAll pan [panLink] where
  linked := by
    intro link hlink last hlast
    obtain rfl : link = panLink := List.mem_singleton.1 hlink
    obtain rfl : last = panLink := List.mem_singleton.1 (List.mem_of_find?_eq_some hlast)
    exact panLink.declared_mem_implements
  kept := by
    intro id d hd _ last hlast
    have hnothing : ∀ d ∈ pan.toList, panLink.target = d.longname → d.implements = [] := by
      decide +kernel
    have htarget : last.target = d.longname := by simpa using List.find?_some hlast
    obtain rfl : last = panLink := List.mem_singleton.1 (List.mem_of_find?_eq_some hlast)
    rw [hnothing d (Catalog.mem_toList.2 ⟨id, hd⟩) htarget]
    exact List.nil_subset _
  apart := by
    intro id d hd hclass link hlink
    have hapart : ∀ d ∈ pan.toList, d.kind.any isClassLike = true →
        panLink.target ≠ d.longname := by
      decide +kernel
    obtain rfl : link = panLink := List.mem_singleton.1 hlink
    exact hapart d (Catalog.mem_toList.2 ⟨id, hd⟩) hclass

/-- The method of the class ends linked to the method of the interface. -/
theorem addImplemented_links_pan :
    linksMade pan = [panLink] ∧
      ∃ next, addImplemented pan = .ok next ∧
        MakesAll pan next (linksMade pan) ∧
        (∀ id e, next.get? id = some e → e.isShown = true →
          ((lastLink (linksMade pan) e.longname).map Link.implements).or
            ((pan.get? id).map Doclet.implements) = some e.implements) ∧
        (∀ id d e, pan.get? id = some d → next.get? id = some e → e.isShown = false →
          e.implements = d.implements) ∧
        NamesAll pan next := by
  have hlinks : linksMade pan = [panLink] := by decide +kernel
  obtain ⟨next, hnext, hmakes, hshown, hhidden, hall⟩ :=
    addImplemented_links (Catalog.Indexed.empty.insertAll _ : pan.Indexed) (by decide +kernel)
      (acyclic_of_lower String.length (by decide))
  exact ⟨hlinks, next, hnext, hmakes, hshown, hhidden, hall (hlinks ▸ lastSaysAll_pan)⟩

/-- Two interfaces that declare one method, and a class with that method that implements both. -/
def pans : Catalog :=
  Catalog.empty.insertAll
    [{ longname := "Pot", kind := some .interface }, sampleMember "Pot" "stir",
      { longname := "Wok", kind := some .interface }, sampleMember "Wok" "stir",
      { longname := "SteelPan", kind := some .class, implements := ["Pot", "Wok"] },
      sampleMember "SteelPan" "stir"]

/-- The method of the class ends linked to the method of the second interface only, although it is
documented. -/
theorem pans_not_namesAll :
    (pans.Indexed ∧ Builds .implements pans ∧
        ∀ node, ¬Relation.TransGen (BuildsOn .implements pans) node node) ∧
      ¬∃ next, addImplemented pans = .ok next ∧ NamesAll pans next := by
  refine ⟨⟨Catalog.Indexed.empty.insertAll _, by decide +kernel,
    acyclic_of_lower String.length (by decide)⟩, ?_⟩
  rintro ⟨next, hnext, hall⟩
  have hmethod : (addImplemented pans).toOption.bind (fun next => (next.get? 5).map fun e =>
      (e.longname, e.isShown, e.implements)) = some ("SteelPan#stir", true, ["Wok#stir"]) := by
    decide +kernel
  have hpot : (addImplemented pans).toOption.bind (fun next => (next.get? 1).map fun m =>
      (m.memberof, m.scope, m.undocumented, m.longname)) =
        some (some "Pot", some .instance, false, "Pot#stir") := by
    decide +kernel
  rw [hnext] at hmethod hpot
  obtain ⟨e, he, hfields⟩ := Option.map_eq_some_iff.1 hmethod
  obtain ⟨m, hm, hmember⟩ := Option.map_eq_some_iff.1 hpot
  simp only [Prod.mk.injEq] at hfields hmember
  have hclass : pans.get? 4 = some
      { longname := "SteelPan", kind := some .class, implements := ["Pot", "Wok"] } := rfl
  have hnames := hall.linked hclass rfl "Pot" (by decide) "Pot#stir" ⟨1, m, hm, hmember⟩ he
    (hfields.1.trans (by decide +kernel)) hfields.2.1
  rw [hfields.2.2] at hnames
  revert hnames
  decide

end Commentary.Inheritance
