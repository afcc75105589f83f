import Commentary.Proofs.OriginalDoclets
import Mathlib.Data.List.Forall2

/-!
# What becomes of each request to borrow

Every request is met or reported, once and in order, and none is left (`resolve_accounts`).

A borrower keeps its requests until its turn, so while requests are met the catalog still holds
others. But a copy takes no requests along. So it makes no difference if all requests are taken out
of the catalog at first and then met in a row (`resolve_eq_meetAll`), and the catalog only grows
from there on.
-/

namespace Commentary

open Borrowing

/-- A change of the result leaves the notices alone. -/
theorem Noted.map_eq {α β : Type} (f : α → β) (m : Noted α) :
    f <$> m = { value := f m.value, notices := m.notices } := by
  show ({ value := f m.value, notices := m.notices ++ [] } : Noted β) = _
  rw [List.append_nil]

/-- What comes next hangs on the result alone. -/
theorem Noted.bind_congr_value {α β : Type} (m : Noted α) {f g : α → Noted β}
    (h : f m.value = g m.value) : m >>= f = m >>= g := by
  show ({ value := (f m.value).value, notices := m.notices ++ (f m.value).notices } : Noted β) = _
  rw [h]
  rfl

/-! ## Catalogs without requests -/

namespace Catalog

/-- The catalog with no request to borrow left in it. -/
def withoutBorrows (catalog : Catalog) : Catalog :=
  { catalog with doclets := catalog.doclets.map Doclet.withoutBorrows }

variable {catalog : Catalog}

@[simp]
theorem get?_withoutBorrows (catalog : Catalog) (id : Nat) :
    catalog.withoutBorrows.get? id = (catalog.get? id).map Doclet.withoutBorrows :=
  Array.getElem?_map

@[simp]
theorem lookup_withoutBorrows (catalog : Catalog) (longname : String) :
    catalog.withoutBorrows.lookup longname = catalog.lookup longname := rfl

@[simp]
theorem size_withoutBorrows (catalog : Catalog) : catalog.withoutBorrows.size = catalog.size :=
  Array.size_map

theorem named_withoutBorrows (catalog : Catalog) (longname : String) :
    catalog.withoutBorrows.named longname = (catalog.named longname).map Doclet.withoutBorrows := by
  rw [named, named, List.map_filterMap]
  simp

theorem eq_filterMap_range {α : Type} (l : List α) :
    l = (List.range l.length).filterMap (l[·]?) := by
  induction l with
  | nil => rfl
  | cons a l ih =>
    rw [List.length_cons, List.range_succ_eq_map, List.filterMap_cons, List.filterMap_map]
    exact congrArg (a :: ·) ih

theorem toList_eq (catalog : Catalog) :
    catalog.toList = (List.range catalog.size).filterMap catalog.get? := by
  have hrange := eq_filterMap_range catalog.doclets.toList
  simp only [Array.length_toList, Array.getElem?_toList] at hrange
  exact hrange

theorem ext_get? {catalog' : Catalog} (hget : ∀ id, catalog.get? id = catalog'.get? id)
    (hindex : catalog.byLongname = catalog'.byLongname) : catalog = catalog' := by
  obtain ⟨doclets, byLongname⟩ := catalog
  obtain ⟨doclets', byLongname'⟩ := catalog'
  obtain rfl : byLongname = byLongname' := hindex
  obtain rfl : doclets = doclets' := Array.ext_getElem? hget
  rfl

theorem withoutBorrows_insert (catalog : Catalog) (d : Doclet) :
    (catalog.insert d).withoutBorrows = catalog.withoutBorrows.insert d.withoutBorrows := by
  refine ext_get? (fun id => ?_) ?_
  · simp only [get?_withoutBorrows, get?_insert, size_withoutBorrows]
    split <;> rfl
  · show (catalog.insert d).byLongname = (catalog.withoutBorrows.insert d.withoutBorrows).byLongname
    rw [insert, insert, size_withoutBorrows]
    rfl

theorem withoutBorrows_insertAll (catalog : Catalog) (ds : List Doclet) :
    (catalog.insertAll ds).withoutBorrows =
      catalog.withoutBorrows.insertAll (ds.map Doclet.withoutBorrows) := by
  unfold insertAll
  induction ds generalizing catalog with
  | nil => rfl
  | cons d ds ih => rw [List.foldl_cons, ih, withoutBorrows_insert, List.map_cons, List.foldl_cons]

/-- Taking the requests out of a doclet is nothing new where none are left. -/
theorem withoutBorrows_modify (catalog : Catalog) (id : Nat) :
    (catalog.modify id ({ · with borrows := [] })).withoutBorrows = catalog.withoutBorrows := by
  refine ext_get? (fun i => ?_) rfl
  rw [get?_withoutBorrows, get?_withoutBorrows, get?_modify]
  split
  · rw [Option.map_map]
    rfl
  · rfl

theorem withoutBorrows_eq_self (h : ∀ id d, catalog.get? id = some d → d.borrows = []) :
    catalog.withoutBorrows = catalog := by
  refine ext_get? (fun id => ?_) rfl
  rw [get?_withoutBorrows]
  rcases hget : catalog.get? id with _ | d
  · rfl
  · rw [Option.map_some, Doclet.withoutBorrows, ← h id d hget]

theorem Indexed.withoutBorrows (h : catalog.Indexed) : catalog.withoutBorrows.Indexed where
  keys_nodup := h.keys_nodup
  positions_ne_nil := h.positions_ne_nil
  lookup_nodup := h.lookup_nodup
  mem_lookup := by
    intro longname id
    rw [lookup_withoutBorrows, h.mem_lookup, longnameAt?, longnameAt?, get?_withoutBorrows,
      Option.map_map]
    rfl

/-- The doclets of a longname stand at the positions that the index has for it. -/
theorem Indexed.forall₂_named (h : catalog.Indexed) (longname : String) :
    List.Forall₂ (fun id d => catalog.get? id = some d ∧ d.longname = longname)
      (catalog.lookup longname) (catalog.named longname) := by
  have hall : ∀ id ∈ catalog.lookup longname,
      ∃ d, catalog.get? id = some d ∧ d.longname = longname := by
    intro id hid
    exact Option.map_eq_some_iff.1 ((h.mem_lookup longname id).1 hid)
  unfold named
  generalize catalog.lookup longname = ids at hall
  induction ids with
  | nil => exact .nil
  | cons id ids ih =>
    rw [List.forall_mem_cons] at hall
    obtain ⟨⟨d, hd, hlongname⟩, hall⟩ := hall
    rw [List.filterMap_cons_some hd]
    exact .cons ⟨hd, hlongname⟩ (ih hall)

theorem Indexed.named_eq_nil_iff (h : catalog.Indexed) (longname : String) :
    catalog.named longname = [] ↔ ¬catalog.Carries longname := by
  rw [← h.contains_iff_carries, contains, Bool.not_eq_true, Bool.not_eq_false', List.isEmpty_iff]
  have hforall := h.forall₂_named longname
  constructor
  · intro hnil
    rw [hnil] at hforall
    exact List.forall₂_nil_right_iff.1 hforall
  · intro hnil
    rw [hnil] at hforall
    exact List.forall₂_nil_left_iff.1 hforall

end Catalog

namespace Borrowing

/-! ## Requests -/

/-- A request to borrow and who makes it. -/
structure Request where
  owner : String
  location : Location
  borrow : Borrow
deriving DecidableEq

namespace Request

/-- The longname of what is to be borrowed. -/
def source (request : Request) : String := request.borrow.source

/-- How the member of the borrower is to be called. -/
def target (request : Request) : String := request.borrow.target.getD request.borrow.source

/-- The report that there is nothing to be borrowed. -/
def problem (request : Request) : Problem :=
  .missingBorrowSource request.source request.target request.location

end Request

/-- The requests of a doclet. -/
def requestsOf (d : Doclet) : List Request := d.borrows.map (⟨d.longname, d.location, ·⟩)

/-- The requests in a catalog, doclet by doclet. -/
def requests (catalog : Catalog) : List Request := catalog.toList.flatMap requestsOf

/-- Meets a request. -/
def meet (outcome : Outcome) (request : Request) : Noted Outcome :=
  serve request.owner request.location outcome request.borrow

/-- The copies that meet a request. -/
def copiesFor (catalog : Catalog) (request : Request) : List Doclet :=
  (catalog.named request.source).map
    (copyFor request.owner (memberName request.target).1 (memberName request.target).2)

/-- What is reported of a request. -/
def reports (catalog : Catalog) (request : Request) : List Problem :=
  if copiesFor catalog request = [] then [request.problem] else []

/-- A request adds its copies or is reported, and that is also noted. -/
theorem meet_eq (outcome : Outcome) (request : Request) :
    meet outcome request =
      { value :=
          { catalog := outcome.catalog.insertAll (copiesFor outcome.catalog request)
            missing := outcome.missing ++ reports outcome.catalog request }
        notices := (reports outcome.catalog request).map (.missingBorrow request.owner) } := by
  unfold meet serve reports copiesFor Request.source
  cases outcome.catalog.named request.borrow.source with
  | nil => rfl
  | cons d ds =>
    simp only [List.map_cons, reduceCtorEq, if_false, List.append_nil, List.map_nil]
    rfl

/-! ## Requests that are left -/

/-- What has come of borrowing, with no request left in the catalog. -/
def Outcome.withoutBorrows (outcome : Outcome) : Outcome :=
  { outcome with catalog := outcome.catalog.withoutBorrows }

/-- A copy is the same whether or not its source has requests. -/
theorem copiesFor_withoutBorrows (catalog : Catalog) (request : Request) :
    copiesFor catalog.withoutBorrows request = copiesFor catalog request := by
  rw [copiesFor, Catalog.named_withoutBorrows, List.map_map]
  rfl

/-- A copy takes no requests along. -/
theorem map_withoutBorrows_copiesFor (catalog : Catalog) (request : Request) :
    (copiesFor catalog request).map Doclet.withoutBorrows = copiesFor catalog request := by
  rw [copiesFor, List.map_map]
  rfl

theorem reports_withoutBorrows (catalog : Catalog) (request : Request) :
    reports catalog.withoutBorrows request = reports catalog request := by
  rw [reports, copiesFor_withoutBorrows, reports]

/-- Meeting a request does not hang on the requests that are left. -/
theorem meet_withoutBorrows (outcome : Outcome) (request : Request) :
    meet outcome.withoutBorrows request = Outcome.withoutBorrows <$> meet outcome request := by
  rw [Noted.map_eq, meet_eq, meet_eq]
  simp only [Outcome.withoutBorrows, copiesFor_withoutBorrows, reports_withoutBorrows,
    Catalog.withoutBorrows_insertAll, map_withoutBorrows_copiesFor]

/-- Nor does meeting several. -/
theorem foldlM_meet_withoutBorrows (outcome : Outcome) (requests : List Request) :
    requests.foldlM meet outcome.withoutBorrows =
      Outcome.withoutBorrows <$> requests.foldlM meet outcome := by
  induction requests generalizing outcome with
  | nil => rw [List.foldlM_nil, List.foldlM_nil, map_pure]
  | cons request requests ih =>
    rw [List.foldlM_cons, List.foldlM_cons, meet_withoutBorrows, bind_map_left, map_bind]
    simp only [ih]

/-- The requests of the doclet at a position. -/
def requestsAt (catalog : Catalog) (id : Nat) : List Request :=
  ((catalog.get? id).map requestsOf).getD []

/-- The turn of a borrower, apart from the requests that it leaves behind. -/
theorem serveAll_eq (outcome : Outcome) (id : Nat) :
    Outcome.withoutBorrows <$> serveAll outcome id =
      (requestsAt outcome.catalog id).foldlM meet outcome.withoutBorrows := by
  unfold serveAll requestsAt
  rcases outcome.catalog.get? id with _ | d
  · rw [map_pure]
    rfl
  · have hcleared : ({ outcome with
          catalog := outcome.catalog.modify id
            ({ · with borrows := [] }) } : Outcome).withoutBorrows =
        outcome.withoutBorrows := by
      rw [Outcome.withoutBorrows, Catalog.withoutBorrows_modify, Outcome.withoutBorrows]
    rw [Option.map_some, Option.getD_some, ← hcleared, foldlM_meet_withoutBorrows, requestsOf,
      List.foldlM_map]
    rfl

/-- The turns of some borrowers that have not been served. -/
theorem foldlM_serveAll_eq {catalog : Catalog} {ids : List Nat} (hnodup : ids.Nodup)
    {outcome : Outcome}
    (h : ∀ id ∈ ids, ∃ d, catalog.get? id = some d ∧ outcome.catalog.get? id = some d) :
    Outcome.withoutBorrows <$> ids.foldlM serveAll outcome =
      (ids.flatMap (requestsAt catalog)).foldlM meet outcome.withoutBorrows := by
  induction ids generalizing outcome with
  | nil => rw [List.foldlM_nil, map_pure, List.flatMap_nil, List.foldlM_nil]
  | cons id ids ih =>
    rw [List.nodup_cons] at hnodup
    rw [List.forall_mem_cons] at h
    obtain ⟨⟨d, hd, hd'⟩, h⟩ := h
    have hsame : requestsAt outcome.catalog id = requestsAt catalog id := by
      rw [requestsAt, requestsAt, hd, hd']
    -- a turn leaves the other borrowers as they are
    have hrest : ∀ i ∈ ids, ∃ e, catalog.get? i = some e ∧
        (serveAll outcome id).value.catalog.get? i = some e := by
      intro i hi
      obtain ⟨e, he, he'⟩ := h i hi
      refine ⟨e, he, ?_⟩
      rw [get?_serveAll he', if_neg]
      rintro rfl
      exact hnodup.1 hi
    calc Outcome.withoutBorrows <$> (id :: ids).foldlM serveAll outcome
        = serveAll outcome id >>= fun next =>
            Outcome.withoutBorrows <$> ids.foldlM serveAll next := by
          rw [List.foldlM_cons, map_bind]
      _ = serveAll outcome id >>= fun next =>
            (ids.flatMap (requestsAt catalog)).foldlM meet next.withoutBorrows :=
          Noted.bind_congr_value _ (ih hnodup.2 hrest)
      _ = (requestsAt catalog id).foldlM meet outcome.withoutBorrows >>= fun next =>
            (ids.flatMap (requestsAt catalog)).foldlM meet next := by
          rw [← hsame, ← serveAll_eq, bind_map_left]
      _ = ((id :: ids).flatMap (requestsAt catalog)).foldlM meet outcome.withoutBorrows := by
          rw [List.flatMap_cons, List.foldlM_append]

/-- Doclets that do not borrow have no requests. -/
theorem flatMap_requestsAt_borrowers (catalog : Catalog) :
    (borrowers catalog).flatMap (requestsAt catalog) = requests catalog := by
  rw [requests, Catalog.toList_eq, borrowers]
  generalize List.range catalog.size = ids
  induction ids with
  | nil => rfl
  | cons id ids ih =>
    rw [List.filter_cons]
    rcases hget : catalog.get? id with _ | d
    · rw [List.filterMap_cons_none hget, ← ih]
      rfl
    · rw [List.filterMap_cons_some hget, List.flatMap_cons, ← ih, Option.any_some]
      split
      · rw [List.flatMap_cons, requestsAt, hget, Option.map_some, Option.getD_some]
      · rename_i hnone
        have hborrows : d.borrows = [] := by simpa using hnone
        rw [requestsOf, hborrows, List.map_nil, List.nil_append]

/-! ## Every request in its turn -/

/-- From a position on, no doclet has requests. -/
def NoneBorrowsFrom (start : Nat) (outcome : Outcome) : Prop :=
  ∀ id e, start ≤ id → outcome.catalog.get? id = some e → e.borrows = []

theorem NoneBorrowsFrom.meet {start : Nat} {outcome : Outcome} (h : NoneBorrowsFrom start outcome)
    (request : Request) : NoneBorrowsFrom start (meet outcome request).value := by
  rw [meet_eq]
  intro id e hid he
  rcases Catalog.get?_insertAll_cases he with hold | hnew
  · exact h id e hid hold
  · obtain ⟨source, -, rfl⟩ := List.mem_map.1 hnew
    rfl

theorem NoneBorrowsFrom.serveAll {start : Nat} {outcome : Outcome}
    (h : NoneBorrowsFrom start outcome) (borrower : Nat) :
    NoneBorrowsFrom start (serveAll outcome borrower).value := by
  unfold Borrowing.serveAll
  split
  · exact h
  · rename_i d _
    rw [Noted.value_foldlM]
    refine List.foldlRecOn d.borrows _ ?_ fun _ hserved borrow _ => hserved.meet ⟨_, _, borrow⟩
    intro id e hid he
    rw [Catalog.get?_modify] at he
    split at he
    · obtain ⟨d, -, rfl⟩ := Option.map_eq_some_iff.1 he
      rfl
    · exact h id e hid he

/-- No doclet is left with a request. -/
theorem borrows_resolve {catalog : Catalog} {id : Nat} {e : Doclet}
    (h : (resolve catalog).value.catalog.get? id = some e) : e.borrows = [] := by
  rcases hget : catalog.get? id with _ | d
  -- the doclets that came by borrowing never had any
  · have hstart : NoneBorrowsFrom catalog.size { catalog } := by
      intro id e hid he
      exact absurd (Catalog.lt_size_of_get? he) (Nat.not_lt.2 hid)
    have hend : NoneBorrowsFrom catalog.size (resolve catalog).value := by
      rw [resolve, Noted.value_foldlM]
      exact List.foldlRecOn (borrowers catalog) _ hstart fun _ hserved id _ => hserved.serveAll id
    exact hend id e (Catalog.get?_eq_none_iff.1 hget) h
  · rw [get?_resolve hget] at h
    cases h
    rfl

/-- Borrowing takes all requests out of the catalog and then meets them one after the other. -/
theorem resolve_eq_meetAll (catalog : Catalog) :
    resolve catalog =
      (requests catalog).foldlM meet { catalog := catalog.withoutBorrows } := by
  have hborrowers : ∀ id ∈ borrowers catalog,
      ∃ d, catalog.get? id = some d ∧ ({ catalog } : Outcome).catalog.get? id = some d := by
    intro id hid
    obtain ⟨d, hd⟩ := Catalog.lt_size_iff.1 (List.mem_range.1 (List.mem_of_mem_filter hid))
    exact ⟨d, hd, hd⟩
  have hnodup : (borrowers catalog).Nodup := List.nodup_range.filter _
  have hall := foldlM_serveAll_eq hnodup hborrowers
  rw [flatMap_requestsAt_borrowers, ← resolve] at hall
  have hself : Outcome.withoutBorrows <$> resolve catalog = resolve catalog := by
    rw [Noted.map_eq, Outcome.withoutBorrows,
      Catalog.withoutBorrows_eq_self fun _ _ => borrows_resolve]
  rw [← hself, hall]
  rfl

/-! ## The account of borrowing -/

/-- A request with the copies that were added for it. -/
structure Entry where
  request : Request
  copies : List Doclet

/-- A doclet is a copy for a borrower: it is borrowed, a member of the borrower and without
requests, may have another name, longname and scope, and is otherwise like its source. -/
def IsCopy (request : Request) (source copy : Doclet) : Prop :=
  copy = { source with
    name := copy.name
    longname := copy.longname
    memberof := some request.owner
    scope := copy.scope
    borrowed := true
    borrows := [] }

/-- An entry answers its request from a catalog: it has a copy of each doclet that carries the
longname asked for, in the order of the index, and so it has none exactly if no doclet carries
it. -/
structure Entry.Answers (entry : Entry) (catalog : Catalog) : Prop where
  indexed : catalog.Indexed
  copied : List.Forall₂
    (fun id copy => ∃ source, catalog.get? id = some source ∧
      source.longname = entry.request.source ∧ IsCopy entry.request source copy)
    (catalog.lookup entry.request.source) entry.copies
  unmet_iff : entry.copies = [] ↔ ¬catalog.Carries entry.request.source

/-- What borrowing comes to, request by request. -/
structure IsAccount (catalog : Catalog) (entries : List Entry) (outcome : Outcome) : Prop where
  /-- Each request has one entry: borrowers in the order of the catalog, and the requests of each in
  their order. -/
  requests : entries.map Entry.request = requests catalog
  /-- The requests are gone, the copies are added in order, and nothing else changes. -/
  catalog_eq : outcome.catalog = catalog.withoutBorrows.insertAll (entries.flatMap Entry.copies)
  /-- The entries without copies are reported in order. -/
  missing_eq : outcome.missing =
    (entries.filter (·.copies.isEmpty)).map (·.request.problem)
  /-- Each entry answers its request from what was there together with the copies that the entries
  before it added. -/
  answers : ∀ front entry back, entries = front ++ entry :: back →
    entry.Answers (catalog.withoutBorrows.insertAll (front.flatMap Entry.copies))

/-- The entries for some requests, where each finds the copies of those before it. -/
def accountFrom (catalog : Catalog) : List Request → List Entry
  | [] => []
  | request :: requests =>
    ⟨request, copiesFor catalog request⟩ ::
      accountFrom (catalog.insertAll (copiesFor catalog request)) requests

/-- The entries for the requests in a catalog. -/
def account (catalog : Catalog) : List Entry :=
  accountFrom catalog.withoutBorrows (requests catalog)

theorem map_request_accountFrom (catalog : Catalog) (requests : List Request) :
    (accountFrom catalog requests).map Entry.request = requests := by
  induction requests generalizing catalog with
  | nil => rfl
  | cons request requests ih => rw [accountFrom, List.map_cons, ih]

theorem insertAll_append (catalog : Catalog) (ds es : List Doclet) :
    catalog.insertAll (ds ++ es) = (catalog.insertAll ds).insertAll es :=
  List.foldl_append

/-- Meeting requests adds the copies of their entries, and reports the entries without copies. -/
theorem value_foldlM_meet (outcome : Outcome) (requests : List Request) :
    (requests.foldlM meet outcome).value =
      { catalog := outcome.catalog.insertAll
          ((accountFrom outcome.catalog requests).flatMap Entry.copies)
        missing := outcome.missing ++
          ((accountFrom outcome.catalog requests).filter (·.copies.isEmpty)).map
            (·.request.problem) } := by
  induction requests generalizing outcome with
  | nil => simp [accountFrom, Catalog.insertAll]
  | cons request requests ih =>
    rw [List.foldlM_cons, Noted.value_bind, ih, meet_eq, accountFrom, List.flatMap_cons,
      insertAll_append, List.filter_cons, reports]
    simp only [List.isEmpty_iff]
    split
    · rw [List.map_cons, List.append_assoc, List.singleton_append]
    · rw [List.append_nil]

/-- Every entry has the copies of what is there when its turn comes. -/
theorem copies_accountFrom {catalog : Catalog} {requests : List Request} {front back : List Entry}
    {entry : Entry} (h : accountFrom catalog requests = front ++ entry :: back) :
    entry.copies = copiesFor (catalog.insertAll (front.flatMap Entry.copies)) entry.request := by
  induction requests generalizing catalog front with
  | nil => simp [accountFrom] at h
  | cons request requests ih =>
    rw [accountFrom] at h
    cases front with
    | nil =>
      obtain ⟨rfl, -⟩ := List.cons.inj h
      rfl
    | cons first front =>
      rw [List.cons_append] at h
      obtain ⟨rfl, hrest⟩ := List.cons.inj h
      rw [ih hrest, List.flatMap_cons, insertAll_append]

/-- The copies for a request answer it. -/
theorem answers_copiesFor {catalog : Catalog} (h : catalog.Indexed) {entry : Entry}
    (hcopies : entry.copies = copiesFor catalog entry.request) : entry.Answers catalog where
  indexed := h
  copied := by
    rw [hcopies, copiesFor, List.forall₂_map_right_iff]
    refine (h.forall₂_named entry.request.source).imp ?_
    rintro id source ⟨hsource, hlongname⟩
    exact ⟨source, hsource, hlongname, rfl⟩
  unmet_iff := by
    rw [hcopies, copiesFor, List.map_eq_nil_iff, h.named_eq_nil_iff]

theorem isAccount_account {catalog : Catalog} (h : catalog.Indexed) :
    IsAccount catalog (account catalog) (resolve catalog).value := by
  have hvalue := value_foldlM_meet { catalog := catalog.withoutBorrows } (requests catalog)
  rw [← resolve_eq_meetAll] at hvalue
  refine ⟨map_request_accountFrom _ _, ?_, ?_, ?_⟩
  · rw [hvalue, account]
  · rw [hvalue, account, List.nil_append]
  · intro front entry back hentries
    exact answers_copiesFor (h.withoutBorrows.insertAll _) (copies_accountFrom hentries)

/-- Every request is accounted for. After borrowing no doclet has requests. The borrowers are served
in order with their requests in order, and each request is met by one copy of each doclet that then
carries the longname asked for, copies for earlier requests among them, or is reported once if there
is none. -/
theorem resolve_accounts {catalog : Catalog} (h : catalog.Indexed) :
    (∀ d ∈ (resolve catalog).value.catalog.toList, d.borrows = []) ∧
      ∃ entries, IsAccount catalog entries (resolve catalog).value := by
  refine ⟨fun d hd => ?_, account catalog, isAccount_account h⟩
  obtain ⟨id, hid⟩ := Catalog.mem_toList.1 hd
  exact borrows_resolve hid

/-- A symbol with two doclets, and a class that borrows it, then borrows what it has borrowed, and
then borrows something that is not there. -/
def kitchen : Catalog :=
  Catalog.empty.insertAll
    [{ name := "eat", longname := "Soup#eat", kind := some .function },
      { longname := "Stew", kind := some .class,
        borrows := [⟨"Soup#eat", some "#eat"⟩, ⟨"Stew#eat", some "#taste"⟩, ⟨"Pie#cut", none⟩] },
      { name := "eat", longname := "Soup#eat", kind := some .event }]

/-- The first two requests of the class are met twice each, and the third one is reported. -/
theorem resolve_accounts_kitchen :
    ((resolve kitchen).value.catalog.toList.map Doclet.longname =
          ["Soup#eat", "Stew", "Soup#eat", "Stew#eat", "Stew#eat", "Stew#taste", "Stew#taste"] ∧
        (resolve kitchen).value.missing = [.missingBorrowSource "Pie#cut" "Pie#cut" {}]) ∧
      kitchen.Indexed ∧ (∀ d ∈ (resolve kitchen).value.catalog.toList, d.borrows = []) ∧
      ∃ entries, IsAccount kitchen entries (resolve kitchen).value := by
  have hindexed : kitchen.Indexed := Catalog.Indexed.empty.insertAll _
  exact ⟨⟨by decide +kernel, by decide +kernel⟩, hindexed, resolve_accounts hindexed⟩

end Borrowing

end Commentary
