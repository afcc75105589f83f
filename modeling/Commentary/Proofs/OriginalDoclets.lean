import Commentary.Borrowing
import Commentary.Proofs.InheritedMembers

/-!
# What becomes of the doclets that are there

Resolving borrows and running the passes adds doclets behind those that are there. These keep their
positions, and with them all that they say but for a few fields (`Doclet.KeptAs`): requests to
borrow are dropped, a doclet may be ignored from then on, and it may be noted to override or to
implement something. `originals_kept` says so of the two together, and more closely of the two
steps that change the least.

For a pass this is an invariant in the sense of `Inheritance.Steady`: what holds between each old
doclet and the one at its position (`Catalog.Relates`) is not touched by additions, so only the
changes that a pass makes to doclets count.
-/

namespace Commentary

/-- The doclet without its requests to borrow. -/
def Doclet.withoutBorrows (d : Doclet) : Doclet := { d with borrows := [] }

/-- The second doclet is what the first can become: it borrows nothing, is ignored if the first is,
and may differ in what it overrides and implements, and in nothing else. -/
structure Doclet.KeptAs (d e : Doclet) : Prop where
  rest : e = { d with
    borrows := [], ignore := e.ignore, overrides := e.overrides, implements := e.implements }
  ignored : d.ignore = true → e.ignore = true

/-- Each doclet of the base is related to the one that stands at its position now. -/
def Catalog.Relates (R : Doclet → Doclet → Prop) (base catalog : Catalog) : Prop :=
  ∀ id d, base.get? id = some d → ∃ e, catalog.get? id = some e ∧ R d e

/-- What holds between the doclets of a base and those at their positions survives additions, and
changes under which the relation is closed. -/
theorem Inheritance.steady_relates (R : Doclet → Doclet → Prop) (base : Catalog) :
    Steady (fun _ => True) (fun change => ∀ d e, R d e → R d (change e)) (base.Relates R) where
  all := fun _ _ => trivial
  insert := by
    intro catalog new h _ id d hd
    obtain ⟨e, he, hR⟩ := h id d hd
    exact ⟨e, Catalog.get?_insert_of_get? he, hR⟩
  modify := by
    intro catalog change h hchange i id d hd
    obtain ⟨e, he, hR⟩ := h id d hd
    rw [Catalog.get?_modify, he]
    by_cases hid : id = i
    · exact ⟨change e, by rw [if_pos hid, Option.map_some], hchange d e hR⟩
    · exact ⟨e, if_neg hid, hR⟩

/-! ## Borrowing -/

namespace Borrowing

variable {outcome : Outcome} {id : Nat} {d : Doclet}

/-- Meeting a request only adds doclets. -/
theorem get?_serve (h : outcome.catalog.get? id = some d) (owner : String) (location : Location)
    (borrow : Borrow) : (serve owner location outcome borrow).value.catalog.get? id = some d := by
  unfold serve
  simp only
  split
  · exact h
  · exact Catalog.get?_insertAll_of_get? h _

/-- A borrower that is served loses its requests; the other doclets stay as they are. -/
theorem get?_serveAll (h : outcome.catalog.get? id = some d) (borrower : Nat) :
    (serveAll outcome borrower).value.catalog.get? id =
      some (if id = borrower then d.withoutBorrows else d) := by
  unfold serveAll
  split
  · rename_i hnone
    have hid : id ≠ borrower := by
      rintro rfl
      simp [h] at hnone
    rw [if_neg hid]
    exact h
  · rename_i found _
    rw [Noted.value_foldlM]
    have hmodified : (outcome.catalog.modify borrower ({ · with borrows := [] })).get? id =
        some (if id = borrower then d.withoutBorrows else d) := by
      rw [Catalog.get?_modify, h]
      split <;> rfl
    exact List.foldlRecOn (motive := fun outcome : Outcome => outcome.catalog.get? id = _)
      found.borrows _ hmodified fun _ hserved borrow _ => get?_serve hserved _ _ borrow

theorem withoutBorrows_withoutBorrows (d : Doclet) :
    d.withoutBorrows.withoutBorrows = d.withoutBorrows := rfl

/-- When some borrowers have been served, these have lost their requests, and the other doclets
are as they were. -/
theorem get?_foldl_serveAll (h : outcome.catalog.get? id = some d) (ids : List Nat) :
    (ids.foldl (fun outcome id => (serveAll outcome id).value) outcome).catalog.get? id =
      some (if id ∈ ids then d.withoutBorrows else d) := by
  induction ids generalizing outcome d with
  | nil => exact h
  | cons borrower ids ih =>
    rw [List.foldl_cons, ih (get?_serveAll h borrower)]
    by_cases hid : id = borrower <;> simp [hid, withoutBorrows_withoutBorrows]

theorem mem_borrowers_iff {catalog : Catalog} (h : catalog.get? id = some d) :
    id ∈ borrowers catalog ↔ d.borrows ≠ [] := by
  simp [borrowers, h, Catalog.lt_size_of_get? h]

/-- Resolving leaves each doclet at its position without its requests, and otherwise as it was. -/
theorem get?_resolve {catalog : Catalog} (h : catalog.get? id = some d) :
    (resolve catalog).value.catalog.get? id = some d.withoutBorrows := by
  rw [resolve, Noted.value_foldlM, get?_foldl_serveAll h]
  split
  · rfl
  · rename_i hid
    rw [mem_borrowers_iff h, ne_eq, not_not] at hid
    -- a doclet that is no borrower has no requests to lose
    rw [Doclet.withoutBorrows, ← hid]

end Borrowing

/-! ## The passes -/

namespace Doclet.KeptAs

variable {d e : Doclet}

theorem of_withoutBorrows (d : Doclet) : d.KeptAs d.withoutBorrows := ⟨rfl, id⟩

theorem ignore (h : d.KeptAs e) : d.KeptAs { e with ignore := true } where
  rest := by
    rw [h.rest]
  ignored := fun _ => rfl

theorem override (h : d.KeptAs e) (overrides : Option String) :
    d.KeptAs { e with overrides } where
  rest := by
    rw [h.rest]
  ignored := h.ignored

theorem implement (h : d.KeptAs e) (implements : List String) :
    d.KeptAs { e with implements } where
  rest := by
    rw [h.rest]
  ignored := h.ignored

end Doclet.KeptAs

namespace Inheritance

/-- Mixing in changes no doclet that is there. -/
theorem get?_addMixed {catalog mixed : Catalog} (hok : addMixed catalog = .ok mixed) {id : Nat}
    {d : Doclet} (h : catalog.get? id = some d) : mixed.get? id = some d := by
  have hrelates : catalog.Relates (fun d e => e = d) mixed :=
    (steady_relates _ catalog).addMixed (fun _ _ _ _ _ => trivial) (fun _ d hd => ⟨d, hd, rfl⟩) hok
  obtain ⟨e, he, rfl⟩ := hrelates id d h
  exact he

/-- All passes keep the doclets of a base, whether or not they succeed. -/
theorem relates_augmentAll {base catalog : Catalog} (h : base.Relates Doclet.KeptAs catalog) :
    base.Relates Doclet.KeptAs (augmentAll catalog).catalog :=
  (steady_relates _ base).augmentAll (fun _ _ _ _ _ => trivial) (fun _ _ _ _ _ => trivial)
    (fun _ _ _ _ _ _ => trivial) (fun _ _ => trivial) (fun _ _ hkept => hkept.ignore)
    (fun _ _ _ _ _ hkept => hkept.implement _) (fun _ _ _ hkept => hkept.override _) h

/-- Every doclet of a catalog is still at its position after borrows are resolved, and then without
its requests to borrow and otherwise unchanged; after members are mixed in, and then unchanged; and
after borrows are resolved and all passes have run, whether or not they succeed, and then as
`Doclet.KeptAs` says. -/
theorem originals_kept (catalog : Catalog) (id : Nat) (d : Doclet)
    (h : catalog.get? id = some d) :
    let borrowed := (Borrowing.resolve catalog).value.catalog
    let augmented := (augmentAll borrowed).catalog
    borrowed.get? id = some d.withoutBorrows ∧
      (∀ mixed, addMixed catalog = .ok mixed → mixed.get? id = some d) ∧
      ∃ e, augmented.get? id = some e ∧ d.KeptAs e := by
  intro borrowed augmented
  have hborrowed : ∀ id d, catalog.get? id = some d → borrowed.get? id = some d.withoutBorrows :=
    fun _ _ => Borrowing.get?_resolve
  have hrelates : catalog.Relates Doclet.KeptAs borrowed := fun id d hd =>
    ⟨d.withoutBorrows, hborrowed id d hd, .of_withoutBorrows d⟩
  exact ⟨hborrowed id d h, fun _ hok => get?_addMixed hok h, relates_augmentAll hrelates id d h⟩

/-- A method that has been written out for a class, and borrows from the interface of the class. -/
def panStir : Doclet :=
  { name := "stir", longname := "Pan#stir", memberof := some "Pan", scope := some .instance,
    kind := some .function, borrows := [⟨"Pot#stir", some "#shake"⟩] }

/-- An interface with a method, and a class with that method. -/
def pots : Catalog :=
  Catalog.empty.insertAll
    [{ name := "Pot", longname := "Pot", kind := some .interface },
      { name := "stir", longname := "Pot#stir", memberof := some "Pot", scope := some .instance,
        kind := some .function },
      { name := "Pan", longname := "Pan", kind := some .class, implements := ["Pot"] }, panStir]

/-- The method of the class loses its request and is linked to the interface. -/
theorem originals_kept_pots :
    let borrowed := (Borrowing.resolve pots).value.catalog
    let augmented := (augmentAll borrowed).catalog
    pots.get? 3 = some panStir ∧
      (augmented.get? 3).map (fun e => (e.borrows, e.implements)) = some ([], ["Pot#stir"]) ∧
      borrowed.get? 3 = some panStir.withoutBorrows ∧
      (∀ mixed, addMixed pots = .ok mixed → mixed.get? 3 = some panStir) ∧
      ∃ e, augmented.get? 3 = some e ∧ panStir.KeptAs e :=
  ⟨rfl, by decide +kernel, originals_kept pots 3 panStir rfl⟩

end Inheritance

end Commentary
