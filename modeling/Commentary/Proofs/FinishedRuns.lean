import Commentary.Proofs.OverloadPlaces
import Commentary.Proofs.SessionRun

/-!
# Doclets of finished runs

Every doclet of a run was once a draft: what the tags of a comment made of it, or its alias or code,
right before it was last finished. If all drafts of a run are regular, every member in the finished
run sits below its owner, and its longname is its owner, its scope, its name and its variation
(`Session.finished_longname`). The one exception are borrowed doclets: borrowing drops the variation
from the longname and keeps it in its field (`Session.borrowed_variation`).
-/

namespace Commentary

open Longname

/-! ## Borrowing -/

namespace Borrowing

/-- A doclet in its place that asks only for members with names that can stand in a longname. -/
def IsBorrower (d : Doclet) : Prop := d.IsPlaced ∧ d.AsksForMembers

/-- All doclets of a catalog are in their places, and so will be what they borrow. -/
abbrev AllBorrowers (catalog : Catalog) : Prop :=
  ∀ id d, catalog.get? id = some d → IsBorrower d

theorem memberName_ne_global (target : String) : (memberName target).1 ≠ .global := by
  unfold memberName
  simp only
  split
  · simp
  · simp

/-- A copy has its place below the borrower, whatever it is a copy of. -/
theorem isBorrower_copyFor {owner target : String} (howner : IsPath owner.toList)
    (hname : IsSegment (memberName target).2.toList) (source : Doclet) :
    IsBorrower (copyFor owner (memberName target).1 (memberName target).2 source) := by
  have hscope := memberName_ne_global target
  refine ⟨⟨isPath_below howner hscope hname, ?_⟩, nofun⟩
  rintro _ ⟨⟩
  refine ⟨howner, _, _, rfl, hscope, hname, rfl, fun _ => ?_⟩
  simp [Doclet.segment, copyFor]

theorem allBorrowers_serve {outcome : Outcome} (h : AllBorrowers outcome.catalog)
    {owner : String} (howner : IsPath owner.toList) (location : Location) {borrow : Borrow}
    (hborrow : IsSegment (memberName (borrow.target.getD borrow.source)).2.toList) :
    AllBorrowers (serve owner location outcome borrow).value.catalog := by
  unfold serve
  simp only
  split
  · exact h
  · refine (Inheritance.steady_forall IsBorrower).insertAll h fun d hd => ?_
    obtain ⟨source, -, rfl⟩ := List.mem_map.1 hd
    exact isBorrower_copyFor howner hborrow source

theorem allBorrowers_serveAll {outcome : Outcome} (h : AllBorrowers outcome.catalog) (id : Nat) :
    AllBorrowers (serveAll outcome id).value.catalog := by
  unfold serveAll
  split
  · exact h
  · rename_i borrower hget
    obtain ⟨hplaced, hborrows⟩ := h id borrower hget
    have hserved : ∀ d, IsBorrower d → IsBorrower { d with borrows := [] } := fun d hd =>
      ⟨⟨hd.1.path, hd.1.below⟩, fun borrow hborrow => absurd hborrow List.not_mem_nil⟩
    rw [Noted.value_foldlM]
    exact List.foldlRecOn (motive := fun outcome : Outcome => AllBorrowers outcome.catalog)
      borrower.borrows _ ((Inheritance.steady_forall IsBorrower).modify h hserved id)
      fun _ hserved borrow hborrow =>
        allBorrowers_serve hserved hplaced.path _ (hborrows borrow hborrow)

/-- Borrowing keeps all doclets in their places. -/
theorem allBorrowers_resolve {catalog : Catalog} (h : AllBorrowers catalog) :
    AllBorrowers (resolve catalog).value.catalog := by
  unfold resolve
  rw [Noted.value_foldlM]
  exact List.foldlRecOn (motive := fun outcome : Outcome => AllBorrowers outcome.catalog)
    (borrowers catalog) _ h fun _ hserved id _ => allBorrowers_serveAll hserved id

end Borrowing

/-! ## Handing members on -/

namespace Inheritance

/-- A longname below another owner, and in another scope, keeps its last segment. -/
theorem join_moved {d : Doclet} {owner own : String} (h : d.SitsBelow d.longname own owner) :
    ∃ scope segment, d.scope = some scope ∧ scope ≠ .global ∧ IsSegment segment.toList ∧
      (¬d.HasNamespace → segment = own) ∧ ∀ owner' scope',
        { Longname.split d.longname with memberof := owner', scope := scope' }.join =
          owner' ++ scope'.punctuation ++ segment ∧
        (Longname.split d.longname).scope = scope := by
  obtain ⟨hpath, scope, segment, hscope, hne, hsegment, hlongname, hown⟩ := h
  obtain ⟨name, variation, happend, hsplit⟩ := split_below hpath hne hsegment
  refine ⟨scope, segment, hscope, hne, hsegment, hown, fun owner' scope' => ?_⟩
  rw [hlongname, hsplit, join, ← happend]
  simp only [String.append_assoc, and_self]

variable {consumer d : Doclet}

theorem isPlaced_mixedCopy (hconsumer : consumer.IsPlaced) (h : d.IsPlaced)
    (howned : d.memberof ≠ none) : (mixedCopy consumer.longname d).IsPlaced := by
  obtain ⟨owner, howner⟩ := Option.ne_none_iff_exists'.1 howned
  obtain ⟨scope, segment, -, -, hsegment, hown, hmoved⟩ := join_moved (h.below owner howner)
  have hlongname : (mixedCopy consumer.longname d).longname =
      consumer.longname ++ Scope.instance.punctuation ++ segment := (hmoved _ _).1
  have hscope : Scope.instance ≠ .global := by decide
  refine ⟨?_, ?_⟩
  · rw [hlongname]
    exact isPath_below hconsumer.path hscope hsegment
  · rintro _ ⟨⟩
    exact ⟨hconsumer.path, .instance, segment, rfl, hscope, hsegment, hlongname, hown⟩

/-- A doclet with another owner, and its longname below that. -/
theorem isPlaced_moved (hconsumer : consumer.IsPlaced) (h : d.IsPlaced)
    (howned : d.memberof ≠ none) :
    { d with
      memberof := some consumer.longname
      longname := changeOwner d.longname consumer.longname : Doclet }.IsPlaced := by
  obtain ⟨owner, howner⟩ := Option.ne_none_iff_exists'.1 howned
  obtain ⟨scope, segment, hscope, hne, hsegment, hown, hmoved⟩ := join_moved (h.below owner howner)
  have hlongname : changeOwner d.longname consumer.longname =
      consumer.longname ++ scope.punctuation ++ segment := by
    obtain ⟨hjoin, rfl⟩ := hmoved consumer.longname (Longname.split d.longname).scope
    exact hjoin
  refine ⟨?_, ?_⟩
  · rw [hlongname]
    exact isPath_below hconsumer.path hne hsegment
  · rintro _ ⟨⟩
    exact ⟨hconsumer.path, scope, segment, hscope, hne, hsegment, hlongname, hown⟩

/-- Handing members on keeps all doclets in their places. -/
theorem isPlaced_augmentAll {catalog : Catalog}
    (h : ∀ id d, catalog.get? id = some d → d.IsPlaced) :
    ∀ id d, (augmentAll catalog).catalog.get? id = some d → d.IsPlaced := by
  refine (steady_forall Doclet.IsPlaced).augmentAll ?_ ?_ ?_ ?_ ?_ ?_ ?_ h
  · exact fun consumer d => isPlaced_mixedCopy
  · intro consumer d hconsumer hd howned
    obtain ⟨hpath, hbelow⟩ := isPlaced_moved hconsumer hd howned
    exact ⟨hpath, hbelow⟩
  · intro consumer overrides d hconsumer hd howned
    obtain ⟨hpath, hbelow⟩ := isPlaced_moved hconsumer hd howned
    exact ⟨hpath, hbelow⟩
  · exact fun d hd => ⟨hd.path, hd.below⟩
  · exact fun d hd => ⟨hd.path, hd.below⟩
  · exact fun owner declared _ d hd => ⟨hd.path, hd.below⟩
  · exact fun longname d hd => ⟨hd.path, hd.below⟩

end Inheritance

/-! ## Drafts -/

namespace Session

variable {σ : Type} {config : Config} {session : Session σ}

/-- The doclet of a part of a comment as it is before it is finished for the last time: as its tags
make it, or if these do not name it, with the name that is found for it. -/
def draft? (session : Session σ) (source : Doclet.Source) : Option Doclet :=
  let tags := if source.tags.isEmpty then Comment.tags source.comment else source.tags
  let tagged := Doclet.unfinished session.dictionary source.comment tags source.origin
  let first := tagged.finish session.dictionary
  if first.name.isEmpty then (session.findName first).value else some tagged

/-- What a draft is filed as. -/
def IsArrivalOf (dictionary : Dictionary) (draft d : Doclet) : Prop :=
  d = draft.finish dictionary ∨
    (draft.finish dictionary).memberof = none ∧
      d = { draft.finish dictionary with scope := some .global }

/-- A doclet for which a name is found, or that has one, is what its draft is filed as. -/
theorem discover_eq_some {source : Doclet.Source} {d : Doclet}
    (h : (session.discover (Doclet.ofSource session.dictionary source).value).value = some d) :
    ∃ draft, session.draft? source = some draft ∧ IsArrivalOf session.dictionary draft d := by
  rw [Doclet.ofSource, Doclet.value_ofTags] at h
  unfold draft?
  simp only
  generalize Doclet.unfinished session.dictionary _ _ _ = tagged at h ⊢
  unfold discover at h
  cases hempty : (tagged.finish session.dictionary).name.isEmpty with
  | false =>
    rw [hempty] at h
    exact ⟨tagged, rfl, .inl (Option.some.inj h).symm⟩
  | true =>
    rw [hempty] at h
    obtain ⟨draft, hdraft, rfl⟩ := Option.map_eq_some_iff.1 h
    refine ⟨draft, hdraft, ?_⟩
    by_cases hunowned : (draft.finish session.dictionary).memberof.isNone = true
    · exact .inr ⟨by simpa using hunowned, if_pos hunowned⟩
    · exact .inl (if_neg hunowned)

/-- A part of a comment is given up, or what its draft is filed as is added. -/
theorem addPart_cases (session : Session σ) (source : Doclet.Source) :
    (session.addPart source).value.1 = session ∨
      ∃ draft d, session.draft? source = some draft ∧
        IsArrivalOf session.dictionary draft d ∧
        (session.addPart source).value.1 = (session.addDoclet d).1 := by
  unfold Session.addPart
  rw [Noted.value_bind, Noted.value_bind]
  cases hfound : (session.discover (Doclet.ofSource session.dictionary source).value).value with
  | none => exact .inl rfl
  | some d =>
    obtain ⟨draft, hdraft, harrival⟩ := discover_eq_some hfound
    exact .inr ⟨draft, d, hdraft, harrival, rfl⟩

/-- The drafts of some parts of comments that are added one after the other. -/
def partDrafts : Session σ → List Doclet.Source → List Doclet
  | _, [] => []
  | session, part :: rest =>
    (session.draft? part).toList ++ partDrafts (session.addPart part).value.1 rest

/-- The parts of the comment that a call adds. -/
def Call.parts : Call → List Doclet.Source
  | .addComment source => Session.parts source
  | _ => []

/-- The drafts of all comments that some calls add. -/
def drafts : Session σ → List Call → List Doclet
  | _, [] => []
  | session, call :: calls => session.partDrafts call.parts ++ drafts (session.perform call) calls

/-! ## Runs of regular drafts -/

/-- A session without plugins in which all doclets are filed. -/
structure InPlace (config : Config) (session : Session σ) : Prop where
  dictionary : session.dictionary = (Dictionary.ofConfig config).value
  plugins : session.plugins = []
  filed : Overloads.Filed session.overloads session.catalog
  coherent : Overloads.Coherent session.overloads session.catalog

theorem isFiled_arrival {draft d : Doclet} (hdraft : draft.IsRegular)
    (h : IsArrivalOf (Dictionary.ofConfig config).value draft d) : d.IsFiled := by
  have hfiled := hdraft.isFiled_finish config
  rcases h with rfl | ⟨hunowned, rfl⟩
  · exact hfiled
  · refine ⟨⟨hfiled.placed.path, fun owner howner => ?_⟩, hfiled.unborrowed, hfiled.name,
      hfiled.owner, hfiled.variation, hfiled.params, hfiled.borrows⟩
    exact absurd howner (by simp [hunowned])

theorem InPlace.addDoclet (h : InPlace config session) {d : Doclet} (hd : d.IsFiled) :
    InPlace config (session.addDoclet d).1 := by
  have hannounce : session.announce d = ({ doclet := d }, session.state) := by
    rw [announce, h.plugins]
    rfl
  unfold Session.addDoclet
  simp only [hannounce]
  split
  · exact ⟨h.dictionary, h.plugins, h.filed, h.coherent⟩
  · exact ⟨h.dictionary, h.plugins, h.filed.arrive h.coherent hd,
      Overloads.coherent_arrive h.coherent d⟩

theorem InPlace.addPart (h : InPlace config session) {source : Doclet.Source}
    (hregular : ∀ draft ∈ session.draft? source, draft.IsRegular) :
    InPlace config (session.addPart source).value.1 := by
  rcases session.addPart_cases source with heq | ⟨draft, d, hdraft, harrival, heq⟩
  · rw [heq]
    exact h
  · rw [heq]
    rw [h.dictionary] at harrival
    exact h.addDoclet (isFiled_arrival (hregular draft hdraft) harrival)

theorem InPlace.addParts (parts : List Doclet.Source) (h : InPlace config session)
    (hregular : ∀ draft ∈ session.partDrafts parts, draft.IsRegular) :
    InPlace config (parts.foldl (fun session part => (session.addPart part).value.1) session) := by
  induction parts generalizing session with
  | nil => exact h
  | cons part rest ih =>
    rw [partDrafts, List.forall_mem_append] at hregular
    rw [List.foldl_cons]
    exact ih (h.addPart fun draft hdraft => hregular.1 draft (by simpa using hdraft)) hregular.2

/-- Adding a comment adds its parts one after the other. -/
theorem addComment_eq_foldl (session : Session σ) (source : Doclet.Source) :
    (session.addComment source).value.1 =
      (parts source).foldl (fun session part => (session.addPart part).value.1) session := by
  unfold Session.addComment
  rw [Noted.value_foldlM]
  generalize ([] : List Nat) = ids
  induction parts source generalizing session ids with
  | nil => rfl
  | cons part rest ih =>
    rw [List.foldl_cons, List.foldl_cons]
    exact ih (session.addPart part).value.1 _

theorem InPlace.perform (h : InPlace config session) {call : Call}
    (hcall : ∀ d, call ≠ .addDoclet d)
    (hregular : ∀ draft ∈ session.partDrafts call.parts, draft.IsRegular) :
    InPlace config (session.perform call) := by
  cases call with
  | begin | beginFile | endFile => exact ⟨h.dictionary, h.plugins, h.filed, h.coherent⟩
  | addComment source =>
    rw [Session.perform, addComment_eq_foldl]
    exact h.addParts _ hregular
  | addDoclet d => exact absurd rfl (hcall d)

/-- A run of regular drafts keeps all doclets filed. -/
theorem InPlace.foldl_perform (calls : List Call) (h : InPlace config session)
    (hcalls : ∀ d, Call.addDoclet d ∉ calls)
    (hregular : ∀ draft ∈ session.drafts calls, draft.IsRegular) :
    InPlace config (calls.foldl Session.perform session) := by
  induction calls generalizing session with
  | nil => exact h
  | cons call calls ih =>
    rw [drafts, List.forall_mem_append] at hregular
    simp only [List.mem_cons, not_or] at hcalls
    rw [List.foldl_cons]
    have hnext := h.perform (fun d heq => (hcalls d).1 heq.symm) hregular.1
    exact ih hnext (fun d => (hcalls d).2) hregular.2

/-! ## Finishing -/

theorem catalog_of_finish {docset : Docset} (h : session.finish.value.1 = .ok docset) :
    docset.catalog =
      (Inheritance.augmentAll (Borrowing.resolve session.catalog).value.catalog).catalog := by
  unfold Session.finish at h
  rw [Noted.value_bind] at h
  simp only at h
  split at h
  · cases h
  · cases h
    rfl

/-- In a finished session all doclets are in their places. -/
theorem InPlace.isPlaced_finish (h : InPlace config session) {docset : Docset}
    (hfinish : session.finish.value.1 = .ok docset) : ∀ d ∈ docset.catalog.toList, d.IsPlaced := by
  have hborrowers : Borrowing.AllBorrowers session.catalog := fun id d hget =>
    ⟨(h.filed.all hget).placed, (h.filed.all hget).borrows⟩
  have hborrowed := Borrowing.allBorrowers_resolve hborrowers
  have hplaced := Inheritance.isPlaced_augmentAll fun id d hget => (hborrowed id d hget).1
  intro d hd
  rw [catalog_of_finish hfinish, Catalog.mem_toList] at hd
  obtain ⟨id, hget⟩ := hd
  exact hplaced id d hget

end Session

/-- The longname of a member in its place is the one that its fields make, unless the member is
borrowed and has a variation. -/
theorem Doclet.IsPlaced.longname_eq {d : Doclet} (h : d.IsPlaced) (hnamespace : ¬d.HasNamespace)
    {owner : String} (howner : d.memberof = some owner) :
    d.longname = owner ++ (d.scope.getD .global).punctuation ++ d.segment ∧
      (d.longname = owner ++ (d.scope.getD .global).punctuation ++ d.name ++
          variationSuffix d.variation ↔ ¬(d.borrowed = true ∧ d.variation ≠ none)) := by
  obtain ⟨-, scope, segment, hscope, -, -, hlongname, hown⟩ := h.below owner howner
  rw [hown hnamespace] at hlongname
  rw [hscope, Option.getD_some]
  refine ⟨hlongname, ?_⟩
  rw [hlongname, Doclet.segment, ← String.append_assoc, String.append_right_inj]
  cases d.borrowed with
  | false => simp
  | true =>
    cases d.variation with
    | none => simp [variationSuffix]
    | some variation => simp [variationSuffix]

namespace Session

variable {σ : Type}

/-- In every finished run of comments with regular drafts, a member whose kind is no namespace has
the longname of its owner, the delimiter of its scope and its name. Its variation stands behind
these exactly if the member is not borrowed. -/
theorem finished_longname (config : Config) (state : σ) (calls : List Call)
    (hcalls : ∀ d, Call.addDoclet d ∉ calls)
    (hregular : ∀ draft ∈ drafts { dictionary := (Dictionary.ofConfig config).value, state } calls,
      draft.IsRegular)
    (docset : Docset)
    (hfinish : (afterCalls (Dictionary.ofConfig config).value [] state calls).finish.value.1 =
      .ok docset) :
    ∀ d ∈ docset.catalog.toList, ¬d.HasNamespace → ∀ owner, d.memberof = some owner →
      d.longname = owner ++ (d.scope.getD .global).punctuation ++ d.segment ∧
        (d.longname = owner ++ (d.scope.getD .global).punctuation ++ d.name ++
            variationSuffix d.variation ↔ ¬(d.borrowed = true ∧ d.variation ≠ none)) := by
  intro d hd hnamespace owner howner
  have hstart : InPlace config
      ({ dictionary := (Dictionary.ofConfig config).value, state } : Session σ) := by
    have hnone : Overloads.Filed (Overloads.afterAll []).1 (Overloads.afterAll []).2 :=
      Overloads.filed_afterAll (by simp)
    exact ⟨rfl, rfl, hnone, Overloads.coherent_afterAll []⟩
  have hplaced := (hstart.foldl_perform calls hcalls hregular).isPlaced_finish hfinish d hd
  exact hplaced.longname_eq hnamespace howner

/-- A method with a variation, and a class that borrows it under another name. -/
def lendingCalls : List Call :=
  [.addComment { comment := "/** @function Soup#eat(2) */" },
    .addComment { comment := "/** @class Stew\n * @borrows Soup#eat(2) as #taste */" }]

/-- A draft to which tags gave a kind and a name, and perhaps something to borrow. -/
def namedDraft (comment : String) (kind : Kind) (name : String) (borrows : List Borrow) : Doclet :=
  { comment, kind := some kind, name, borrows }

/-- The draft of the method. -/
def lentDraft : Doclet := namedDraft "/** @function Soup#eat(2) */" .function "Soup#eat(2)" []

/-- The draft of the class. -/
def borrowerDraft : Doclet :=
  namedDraft "/** @class Stew\n * @borrows Soup#eat(2) as #taste */" .class "Stew"
    [⟨"Soup#eat(2)", some "#taste"⟩]

/-- The copy of the method that the class gets. -/
def lentCopy : Doclet :=
  { comment := "/** @function Soup#eat(2) */", kind := some .function, name := "taste"
    longname := "Stew#taste", memberof := some "Stew", scope := some .instance
    variation := some "2", borrowed := true }

/-- The drafts of these comments, and that the copy is among the doclets that they come to. -/
theorem lending_run :
    drafts { dictionary := (Dictionary.ofConfig {}).value, state := () } lendingCalls =
        [lentDraft, borrowerDraft] ∧
      ((afterCalls (Dictionary.ofConfig {}).value [] () lendingCalls).finish.value.1.toOption.map
        fun docset => docset.catalog.toList.contains lentCopy) = some true := by
  rw [Dictionary.value_ofConfig_lower]
  decide +kernel

theorem lending_finish :
    ∃ docset,
      (afterCalls (Dictionary.ofConfig {}).value [] () lendingCalls).finish.value.1 = .ok docset ∧
        lentCopy ∈ docset.catalog.toList := by
  obtain ⟨docset, hdocset, hcopy⟩ := Option.map_eq_some_iff.1 lending_run.2
  refine ⟨docset, ?_, List.contains_iff_mem.1 hcopy⟩
  revert hdocset
  cases (afterCalls (Dictionary.ofConfig {}).value [] () lendingCalls).finish.value.1 with
  | error problem => exact fun h => by cases h
  | ok docset' => exact fun h => by rw [Option.some.inj h]

theorem isProper_parts_lentDraft : lentDraft.parts.IsProper := by
  have hparts : lentDraft.parts = ⟨"Soup#eat(2)", "Soup", .instance, "eat", some "2"⟩ := by
    decide +kernel
  rw [hparts]
  refine ⟨IsPlain.isSegment (by decide), fun _ => .segment (IsPlain.isSegment (by decide)),
    by decide, ?_, by decide, by decide⟩
  rintro v ⟨⟩
  decide

theorem isProper_parts_borrowerDraft : borrowerDraft.parts.IsProper := by
  have hparts : borrowerDraft.parts = ⟨"Stew", "", .global, "Stew", none⟩ := by decide +kernel
  rw [hparts]
  exact ⟨IsPlain.isSegment (by decide), fun h => absurd rfl h, by decide, nofun, by decide,
    by decide⟩

theorem isRegular_namedDraft {comment name : String} {kind : Kind} {borrows : List Borrow}
    (hname : name ≠ "") (hproper : (namedDraft comment kind name borrows).parts.IsProper)
    (hborrows : (namedDraft comment kind name borrows).AsksForMembers) :
    (namedDraft comment kind name borrows).IsRegular where
  unresolved := rfl
  named := hname
  unborrowed := rfl
  unforced := rfl
  proper := hproper
  owned := fun _ h => nomatch h
  preserved := fun h => nomatch h
  enclosed := fun h => absurd rfl h
  joined := fun _ h => nomatch h
  variation := fun _ h => nomatch h
  params := fun _ h => nomatch h
  paramNames := fun _ h => nomatch h
  borrows := hborrows

theorem asksForMembers_borrowerDraft : borrowerDraft.AsksForMembers := by
  intro borrow hborrow
  obtain rfl := List.mem_singleton.1 hborrow
  have hname : (Borrowing.memberName "#taste").2 = "taste" := by decide +kernel
  rw [Option.getD_some, hname]
  exact IsPlain.isSegment (by decide)

theorem isRegular_lending :
    ∀ draft ∈ drafts { dictionary := (Dictionary.ofConfig {}).value, state := () } lendingCalls,
      draft.IsRegular := by
  rw [lending_run.1]
  simp only [List.forall_mem_cons]
  exact ⟨isRegular_namedDraft (by decide) isProper_parts_lentDraft (fun _ h => nomatch h),
    isRegular_namedDraft (by decide) isProper_parts_borrowerDraft asksForMembers_borrowerDraft,
    by simp⟩

/-- The drafts are regular, and the copy is found below its borrower by its name alone. -/
theorem finished_longname_lending :
    (∀ draft ∈ drafts { dictionary := (Dictionary.ofConfig {}).value, state := () } lendingCalls,
        draft.IsRegular) ∧
      ∃ docset,
        (afterCalls (Dictionary.ofConfig {}).value [] () lendingCalls).finish.value.1 =
            .ok docset ∧
          lentCopy ∈ docset.catalog.toList ∧
          lentCopy.longname = "Stew" ++ "#" ++ lentCopy.segment ∧
          (lentCopy.longname = "Stew" ++ "#" ++ lentCopy.name ++
              variationSuffix lentCopy.variation ↔
            ¬(lentCopy.borrowed = true ∧ lentCopy.variation ≠ none)) := by
  obtain ⟨docset, hfinish, hmem⟩ := lending_finish
  have hlongname := finished_longname {} () lendingCalls (by simp [lendingCalls]) isRegular_lending
    docset hfinish lentCopy hmem (by decide) "Stew" rfl
  exact ⟨isRegular_lending, docset, hfinish, hmem, hlongname⟩

/-- A borrowed doclet with a variation that its longname does not show. -/
theorem borrowed_variation :
    ∃ docset,
      (afterCalls (Dictionary.ofConfig {}).value [] () lendingCalls).finish.value.1 = .ok docset ∧
        ∃ d ∈ docset.catalog.toList, ¬d.HasNamespace ∧ d.kind ≠ some .file ∧
          d.memberof = some "Stew" ∧
          d.longname ≠ "Stew" ++ (d.scope.getD .global).punctuation ++ d.name ++
            variationSuffix d.variation := by
  obtain ⟨docset, hfinish, hmem⟩ := lending_finish
  exact ⟨docset, hfinish, lentCopy, hmem, by decide, by decide, rfl, by decide⟩

end Session

end Commentary
