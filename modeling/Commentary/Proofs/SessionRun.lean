import Commentary.Proofs.OverloadRun
import Commentary.Proofs.Passes
import Commentary.Session

/-!
# Whole sessions

A session is used by calls that begin it, begin and end its files, and add comments and doclets.
Whatever the calls and the plugins, the session files some doclets one after the other
(`Session.HasFiled`), so all that holds of such runs holds of sessions: the index is in step
(`Session.index_inStep`), also through the end of the session, and a longname that is given to tell
functions apart is given to one doclet alone, with one exception
(`Session.track_unique_iff`).
-/

namespace Commentary

/-- Something that is done to a session before it is finished. -/
inductive Session.Call where
  | begin (files : List String)
  | beginFile
  | endFile
  | addComment (source : Doclet.Source)
  | addDoclet (d : Doclet)

namespace Session

variable {σ : Type}

/-- The session after a call. -/
def perform (session : Session σ) : Call → Session σ
  | .begin files => session.begin files
  | .beginFile => session.beginFile
  | .endFile => session.endFile
  | .addComment source => (session.addComment source).value.1
  | .addDoclet d => (session.addDoclet d).1

/-- A new session after some calls. -/
def afterCalls (dictionary : Dictionary) (plugins : List (Plugin σ)) (state : σ)
    (calls : List Call) : Session σ :=
  calls.foldl perform { dictionary, plugins, state }

/-- The session has filed some doclets one after the other, and done nothing else to its
catalog. -/
def HasFiled (session : Session σ) : Prop :=
  ∃ ds, (session.overloads, session.catalog) = Overloads.afterAll ds

/-! ## What calls keep -/

theorem HasFiled.addDoclet {session : Session σ} (h : session.HasFiled) (d : Doclet) :
    (session.addDoclet d).1.HasFiled := by
  obtain ⟨ds, hds⟩ := h
  unfold Session.addDoclet
  simp only
  split
  · exact ⟨ds, hds⟩
  -- the plugins may have changed the doclet, so it is the one they leave that arrives
  · refine ⟨ds ++ [(session.announce d).1.doclet], ?_⟩
    rw [Overloads.afterAll_concat, ← hds]
    rfl

theorem HasFiled.addPart {session : Session σ} (h : session.HasFiled) (source : Doclet.Source) :
    (session.addPart source).value.1.HasFiled := by
  unfold Session.addPart
  rw [Noted.value_bind, Noted.value_bind]
  split
  · exact h.addDoclet _
  · exact h

theorem HasFiled.addComment {session : Session σ} (h : session.HasFiled) (source : Doclet.Source) :
    (session.addComment source).value.1.HasFiled := by
  unfold Session.addComment
  rw [Noted.value_foldlM]
  exact List.foldlRecOn (motive := fun result : Session σ × List Nat => result.1.HasFiled)
    (parts source) _ h fun _ hresult part _ => hresult.addPart part

theorem HasFiled.perform {session : Session σ} (h : session.HasFiled) (call : Call) :
    (session.perform call).HasFiled := by
  cases call with
  | begin | beginFile | endFile => exact h
  | addComment source => exact h.addComment source
  | addDoclet d => exact h.addDoclet d

theorem hasFiled_afterCalls (dictionary : Dictionary) (plugins : List (Plugin σ)) (state : σ)
    (calls : List Call) : (afterCalls dictionary plugins state calls).HasFiled :=
  List.foldlRecOn calls Session.perform ⟨[], rfl⟩ fun _ h call _ => h.perform call

theorem HasFiled.indexed {session : Session σ} (h : session.HasFiled) :
    session.catalog.Indexed := by
  obtain ⟨ds, hds⟩ := h
  obtain ⟨-, hcatalog⟩ := Prod.mk.inj hds
  rw [hcatalog]
  exact Overloads.indexed_afterAll ds

theorem HasFiled.coherent {session : Session σ} (h : session.HasFiled) :
    Overloads.Coherent session.overloads session.catalog := by
  obtain ⟨ds, hds⟩ := h
  obtain ⟨hoverloads, hcatalog⟩ := Prod.mk.inj hds
  rw [hoverloads, hcatalog]
  exact Overloads.coherent_afterAll ds

/-! ## Tracking in a session -/

/-- What tracking a new doclet does in a session that has seen any calls: it carries out its
renamings, and gives a longname that another doclet carries exactly if it tells two functions apart
by names of which a third doclet carries one. -/
theorem track_unique_iff (dictionary : Dictionary) (plugins : List (Plugin σ)) (state : σ)
    (calls : List Call) (d : Doclet) :
    let session := afterCalls dictionary plugins state calls
    let catalog := session.catalog.insert d
    let id := session.catalog.size
    (session.overloads.track catalog id).2 =
        (session.overloads.renamings catalog id).foldl Overloads.Renaming.apply catalog ∧
      (Overloads.GivesUnique session.overloads catalog id ↔
        ¬Overloads.NameTaken session.overloads catalog id) := by
  intro session catalog id
  have hfiled : session.HasFiled := hasFiled_afterCalls dictionary plugins state calls
  exact ⟨Overloads.track_snd session.overloads catalog id,
    hfiled.coherent.givesUnique_iff hfiled.indexed d⟩

/-- A method that was named by hand as the one with parameter `x`, and another one with that
parameter. -/
def takenName : Session Unit :=
  afterCalls .empty [] ()
    [.addDoclet { Overloads.sampleMethod "Soup#eat(x)" "x" with variation := some "x" },
      .addDoclet (Overloads.sampleMethod "Soup#eat" "x")]

/-- The catalog of that session with a method that has another parameter. -/
def takenNext : Catalog := takenName.catalog.insert (Overloads.sampleMethod "Soup#eat" "y")

/-- When the last method is tracked, the second one gets the longname of the first. -/
theorem takenName_not_unique :
    (takenName.overloads.track takenNext 2).2.lookup "Soup#eat(x)" = [0, 1] ∧
      ¬Overloads.GivesUnique takenName.overloads takenNext 2 := by
  refine ⟨by decide, fun hunique => ?_⟩
  have hsame : 0 = 1 := hunique ⟨1, "Soup#eat", "x", .named⟩ (by decide) 0 (by decide)
  cases hsame

end Session

/-! ## Finishing -/

theorem Borrowing.indexed_serve {outcome : Outcome} (h : outcome.catalog.Indexed)
    (owner : String) (location : Location) (borrow : Borrow) :
    (serve owner location outcome borrow).value.catalog.Indexed := by
  unfold serve
  simp only
  split
  · exact h
  · exact h.insertAll _

theorem Borrowing.indexed_serveAll {outcome : Outcome} (h : outcome.catalog.Indexed) (id : Nat) :
    (serveAll outcome id).value.catalog.Indexed := by
  unfold serveAll
  split
  · exact h
  · rename_i borrower _
    rw [Noted.value_foldlM]
    exact List.foldlRecOn (motive := fun outcome : Outcome => outcome.catalog.Indexed)
      borrower.borrows _ (h.modify id fun _ => rfl)
      fun _ hserved borrow _ => indexed_serve hserved _ _ borrow

theorem Borrowing.indexed_resolve {catalog : Catalog} (h : catalog.Indexed) :
    (resolve catalog).value.catalog.Indexed := by
  unfold resolve
  rw [Noted.value_foldlM]
  exact List.foldlRecOn (motive := fun outcome : Outcome => outcome.catalog.Indexed)
    (borrowers catalog) _ h fun _ hserved id _ => indexed_serveAll hserved id

/-- The index is in step, and knows exactly the longnames that doclets carry. -/
def Catalog.InStep (catalog : Catalog) : Prop :=
  catalog.Indexed ∧
    ∀ longname, catalog.contains longname = true ↔ ∃ d ∈ catalog.toList, d.longname = longname

theorem Catalog.Indexed.inStep {catalog : Catalog} (h : catalog.Indexed) : catalog.InStep := by
  refine ⟨h, fun longname => ?_⟩
  rw [h.contains_iff]
  constructor
  · rintro ⟨id, hid⟩
    obtain ⟨d, hd, hname⟩ := Option.map_eq_some_iff.1 hid
    exact ⟨d, mem_toList.2 ⟨id, hd⟩, hname⟩
  · rintro ⟨d, hd, hname⟩
    obtain ⟨id, hid⟩ := mem_toList.1 hd
    exact ⟨id, by rw [longnameAt?, hid, Option.map_some, hname]⟩

/-- The index is in step after any calls, then when borrows are resolved, and then when all passes
have run, whether or not they succeed. -/
theorem Session.index_inStep {σ : Type} (dictionary : Dictionary) (plugins : List (Plugin σ))
    (state : σ) (calls : List Call) :
    let session := afterCalls dictionary plugins state calls
    let borrowed := (Borrowing.resolve session.catalog).value.catalog
    let augmented := (Inheritance.augmentAll borrowed).catalog
    session.catalog.InStep ∧ borrowed.InStep ∧ augmented.InStep := by
  intro session borrowed augmented
  have hsession : session.catalog.Indexed :=
    (hasFiled_afterCalls dictionary plugins state calls).indexed
  have hborrowed : borrowed.Indexed := Borrowing.indexed_resolve hsession
  exact ⟨hsession.inStep, hborrowed.inStep, (Inheritance.indexed_augmentAll hborrowed).inStep⟩

end Commentary
