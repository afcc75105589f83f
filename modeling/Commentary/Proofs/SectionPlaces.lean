import Commentary.Render.Markdown
import Commentary.Proofs.AnchorNumbers
import Mathlib.Data.List.Perm.Basic

/-!
# Places in the document

Every doclet has exactly one place in the document: it heads a section, or it is a member in the
first section that its owner heads (`arranges_sections`). What must not happen is that a doclet that
heads no section finds none either. It does not, because its owner is shown, and heads a section
since it has a member (`exists_head`).

The index, the anchors and the blocks go through the same places in the same order
(`markdown_places`).
-/

namespace Commentary.Render

/-! ## Heads and others -/

/-- The doclets that head a section, with their positions. -/
def heads (doclets : List Doclet) : List (Doclet × Nat) :=
  doclets.zipIdx.filter fun (d, _) => headsSection doclets d

/-- The doclets that head no section, with their positions. -/
def others (doclets : List Doclet) : List (Doclet × Nat) :=
  doclets.zipIdx.filter fun (d, _) => !headsSection doclets d

/-- The section that the doclet at a position heads. -/
def sectionAt (doclets : List Doclet) (i : Nat) : Section where
  owner := i
  members := ((others doclets).filter fun (d, _) => sectionOf (heads doclets) d == some i).map
    Prod.snd

theorem sections_eq (doclets : List Doclet) :
    sections doclets = (heads doclets).map fun head => sectionAt doclets head.2 := rfl

variable {doclets : List Doclet} {d : Doclet} {i : Nat}

theorem mem_heads : (d, i) ∈ heads doclets ↔
    doclets[i]? = some d ∧ headsSection doclets d = true := by
  rw [heads, List.mem_filter, List.mem_zipIdx_iff_getElem?]

theorem mem_others : (d, i) ∈ others doclets ↔
    doclets[i]? = some d ∧ headsSection doclets d = false := by
  rw [others, List.mem_filter, List.mem_zipIdx_iff_getElem?, Bool.not_eq_true']

/-- The positions of the doclets that are kept are in order. -/
theorem pairwise_positions (doclets : List Doclet) (keep : Doclet × Nat → Bool) :
    ((doclets.zipIdx.filter keep).map Prod.snd).Pairwise (· < ·) := by
  have hsub := (List.filter_sublist (p := keep) (l := doclets.zipIdx)).map Prod.snd
  rw [List.zipIdx_map_snd] at hsub
  exact List.Pairwise.sublist hsub List.pairwise_lt_range'

/-- A doclet that heads no section has an owner that heads one. -/
theorem exists_head (h : (d, i) ∈ others doclets) :
    ∃ owner, d.memberof = some owner ∧ ∃ head ∈ heads doclets, head.1.longname = owner := by
  obtain ⟨hd, hheads⟩ := mem_others.1 h
  rcases howner : d.memberof with _ | owner
  · simp [headsSection, howner] at hheads
  · simp only [headsSection, howner, Bool.or_eq_false_iff, Bool.not_eq_false',
      List.any_eq_true, beq_iff_eq] at hheads
    obtain ⟨⟨p, hp, hname⟩, -⟩ := hheads
    obtain ⟨j, hj⟩ := List.mem_iff_getElem?.1 hp
    refine ⟨owner, rfl, (p, j), mem_heads.2 ⟨hj, ?_⟩, hname⟩
    -- the owner has `d` for a member
    have hmember : doclets.any (·.memberof == some p.longname) = true :=
      List.any_eq_true.2 ⟨d, List.mem_of_getElem? hd, by rw [howner, hname, beq_self_eq_true]⟩
    rw [headsSection]
    split
    · rfl
    · rw [hmember, Bool.or_true]

theorem exists_sectionOf (h : (d, i) ∈ others doclets) :
    ∃ j ∈ (heads doclets).map Prod.snd, sectionOf (heads doclets) d = some j := by
  obtain ⟨owner, howner, head, hhead, hname⟩ := exists_head h
  rcases hfind : (heads doclets).find? fun (head, _) => d.memberof == some head.longname with
    _ | found
  · have hnone := List.find?_eq_none.1 hfind head hhead
    simp [howner, hname] at hnone
  · exact ⟨found.2, List.mem_map_of_mem (List.mem_of_find?_eq_some hfind),
      by rw [sectionOf, hfind, Option.map_some]⟩

/-! ## One place for each doclet -/

/-- Different keys take a list apart, if each entry has one of them. -/
theorem flatMap_filter_perm {α κ : Type} [DecidableEq κ] (key : α → Option κ) {keys : List κ}
    (hkeys : keys.Nodup) {xs : List α} (h : ∀ x ∈ xs, ∃ k ∈ keys, key x = some k) :
    (keys.flatMap fun k => xs.filter (key · == some k)).Perm xs := by
  induction keys generalizing xs with
  | nil =>
    have hnil : xs = [] := List.eq_nil_iff_forall_not_mem.2 fun x hx => by simpa using h x hx
    rw [hnil, List.flatMap_nil]
  | cons k keys ih =>
    obtain ⟨hk, hkeys⟩ := List.nodup_cons.1 hkeys
    have hlater : ∀ k' ∈ keys, xs.filter (key · == some k') =
        (xs.filter fun x => !(key x == some k)).filter (key · == some k') := by
      intro k' hk'
      rw [List.filter_filter]
      refine List.filter_congr fun x _ => ?_
      by_cases hx : key x = some k'
      · have hne : k' ≠ k := fun heq => hk (heq ▸ hk')
        simp [hx, hne]
      · simp [hx]
    have hrest : ∀ x ∈ xs.filter fun x => !(key x == some k), ∃ k' ∈ keys, key x = some k' := by
      intro x hx
      obtain ⟨hx, hne⟩ := List.mem_filter.1 hx
      obtain ⟨k', hk', hkey⟩ := h x hx
      rcases List.mem_cons.1 hk' with rfl | hk'
      · simp [hkey] at hne
      · exact ⟨k', hk', hkey⟩
    rw [List.flatMap_cons, List.flatMap_congr hlater]
    exact ((ih hkeys hrest).append_left _).trans (List.filter_append_perm _ xs)

/-- The positions in a section, that of its owner in front. -/
def Section.positions (s : Section) : List Nat := s.owner :: s.members

/-- Sections give each doclet exactly one place, in order: as the owner of a section, or as a
member in the first section of its owner. -/
structure Arranges (doclets : List Doclet) (sections : List Section) : Prop where
  once : (sections.flatMap Section.positions).Perm (List.range doclets.length)
  owners : (sections.map Section.owner).Pairwise (· < ·)
  members : ∀ s ∈ sections, s.members.Pairwise (· < ·)
  first : ∀ s ∈ sections, ∀ i ∈ s.members, ∃ d owner, doclets[i]? = some d ∧
    d.memberof = some owner ∧
      sections.find? (fun t => doclets[t.owner]?.any (·.longname == owner)) = some s

theorem map_owner_sections (doclets : List Doclet) :
    (sections doclets).map Section.owner = (heads doclets).map Prod.snd := by
  rw [sections_eq, List.map_map]
  rfl

theorem pairwise_members (doclets : List Doclet) (i : Nat) :
    (sectionAt doclets i).members.Pairwise (· < ·) := by
  rw [sectionAt, others, List.filter_filter]
  exact pairwise_positions doclets _

/-- Owners and members together are all positions. -/
theorem positions_perm (doclets : List Doclet) :
    ((sections doclets).flatMap Section.positions).Perm (List.range doclets.length) := by
  have hsplit : ((sections doclets).flatMap Section.positions).Perm
      ((heads doclets).map Prod.snd ++ (others doclets).map Prod.snd) := by
    have hnodup : ((heads doclets).map Prod.snd).Nodup :=
      (pairwise_positions doclets _).imp Nat.ne_of_lt
    have hmembers := flatMap_filter_perm (fun x => sectionOf (heads doclets) x.1) hnodup
      fun x (hx : x ∈ others doclets) => exists_sectionOf hx
    refine .trans ?_ ((hmembers.map Prod.snd).append_left _)
    rw [sections_eq, List.map_flatMap, List.flatMap_map, List.flatMap_map]
    exact (List.map_append_flatMap_perm (heads doclets) Prod.snd
      fun head => (sectionAt doclets head.2).members).symm
  have hall : ((heads doclets).map Prod.snd ++ (others doclets).map Prod.snd).Perm
      (doclets.zipIdx.map Prod.snd) := by
    rw [← List.map_append]
    exact (List.filter_append_perm _ doclets.zipIdx).map Prod.snd
  rw [List.zipIdx_map_snd, ← List.range_eq_range'] at hall
  exact hsplit.trans hall

/-- A member stands in the first section that its owner heads. -/
theorem find?_section {s : Section} (hs : s ∈ sections doclets) (hi : i ∈ s.members) :
    ∃ d owner, doclets[i]? = some d ∧ d.memberof = some owner ∧
      (sections doclets).find? (fun t => doclets[t.owner]?.any (·.longname == owner)) =
        some s := by
  rw [sections_eq] at hs
  obtain ⟨head, -, rfl⟩ := List.mem_map.1 hs
  obtain ⟨⟨d, i⟩, hmem, rfl⟩ := List.mem_map.1 hi
  obtain ⟨hother, hsection⟩ := List.mem_filter.1 hmem
  obtain ⟨owner, howner, -⟩ := exists_head hother
  refine ⟨d, owner, (mem_others.1 hother).1, howner, ?_⟩
  have hsame : (heads doclets).find? (fun head =>
      doclets[head.2]?.any (·.longname == owner)) =
        (heads doclets).find? fun (head, _) => d.memberof == some head.longname := by
    refine List.find?_congr fun head hhead => ?_
    rw [(mem_heads.1 hhead).1, Option.any_some, howner]
    simp [eq_comm]
  rw [beq_iff_eq, sectionOf, ← hsame, Option.map_eq_some_iff] at hsection
  obtain ⟨found, hfind, hfound⟩ := hsection
  rw [sections_eq, List.find?_map]
  simp only [Function.comp_def, sectionAt] at hfind ⊢
  rw [hfind, Option.map_some, hfound]

theorem arranges_sections (doclets : List Doclet) : Arranges doclets (sections doclets) where
  once := positions_perm doclets
  owners := map_owner_sections doclets ▸ pairwise_positions doclets _
  members := by
    intro s hs
    rw [sections_eq] at hs
    obtain ⟨head, -, rfl⟩ := List.mem_map.1 hs
    exact pairwise_members doclets head.2
  first := fun _ hs _ hi => find?_section hs hi

/-! ## The document -/

/-- A place in the document: a position, the doclet there with its level, and its anchor. -/
structure Place where
  position : Nat
  entry : Entry
  anchor : String

namespace Place

/-- The line of the index for a place. -/
def indexLine (p : Place) : String :=
  indexItem p.entry.doclet.longname p.anchor p.entry.level ++ "\n"

/-- What introduces the heading of a place. -/
def headingMark (p : Place) : String := if p.entry.level = 0 then "##" else "###"

/-- The heading of a place. -/
def heading (p : Place) : String :=
  p.headingMark ++ " " ++ escapeText p.entry.doclet.longname ++ "\n\n"

/-- What the block of a place says below its heading. -/
def body (p : Place) : String :=
  String.join ((blockLines p.headingMark p.entry.doclet).tail.map (· ++ "\n"))

/-- The block of a place is its heading and what is said below. -/
theorem block_eq (p : Place) : block p.entry = p.heading ++ p.body := by
  have hjoin : ∀ (line : String) (rest : List String),
      String.intercalate "\n" (line :: rest) ++ "\n" =
        line ++ "\n" ++ String.join (rest.map (· ++ "\n")) := by
    intro line rest
    induction rest generalizing line with
    | nil => simp
    | cons next rest ih =>
      rw [String.intercalate_cons_cons, String.append_assoc, ih]
      simp [String.append_assoc]
  have hlines : blockLines p.headingMark p.entry.doclet =
      (p.headingMark ++ " " ++ escapeText p.entry.doclet.longname ++ "\n") ::
        (blockLines p.headingMark p.entry.doclet).tail := by
    simp [blockLines]
  have hblock : block p.entry =
      String.intercalate "\n" (blockLines p.headingMark p.entry.doclet) ++ "\n" := rfl
  rw [hblock, hlines, hjoin]
  simp [heading, body, String.append_assoc]

end Place

/-- The places of a document: one for each position of the sections, in their order, with the doclet
that stands there, at the level of an owner or a member, and with the anchor that its longname
gets in its turn. -/
structure IsLaidOut (doclets : List Doclet) (places : List Place) : Prop where
  positions : places.map Place.position = (sections doclets).flatMap Section.positions
  docletAt : ∀ p ∈ places, doclets[p.position]? = some p.entry.doclet
  levels : ∀ p ∈ places, p.entry.level =
    if p.position ∈ (sections doclets).map Section.owner then 0 else 1
  anchors : places.map Place.anchor =
    ({} : Anchors).nextAll (places.map (·.entry.doclet.longname))

/-- The positions of the sections in their order, with their levels. -/
def slots (doclets : List Doclet) : List (Nat × Nat) :=
  (sections doclets).flatMap fun s => (s.owner, 0) :: s.members.map (·, 1)

theorem map_fst_slots (doclets : List Doclet) :
    (slots doclets).map Prod.fst = (sections doclets).flatMap Section.positions := by
  rw [slots, List.map_flatMap]
  refine List.flatMap_congr fun s _ => ?_
  simp [Section.positions, Function.comp_def]

theorem getElem?_of_mem_slots {slot : Nat × Nat} (h : slot ∈ slots doclets) :
    ∃ d, doclets[slot.1]? = some d := by
  have hmem : slot.1 ∈ (sections doclets).flatMap Section.positions :=
    map_fst_slots doclets ▸ List.mem_map_of_mem h
  rw [(positions_perm doclets).mem_iff, List.mem_range] at hmem
  exact ⟨_, List.getElem?_eq_getElem hmem⟩

/-- No member heads a section. -/
theorem level_of_mem_slots {slot : Nat × Nat} (h : slot ∈ slots doclets) :
    slot.2 = if slot.1 ∈ (sections doclets).map Section.owner then 0 else 1 := by
  obtain ⟨s, hs, hslot⟩ := List.mem_flatMap.1 h
  rcases List.mem_cons.1 hslot with rfl | hslot
  · rw [if_pos (List.mem_map_of_mem hs)]
  · obtain ⟨i, hi, rfl⟩ := List.mem_map.1 hslot
    rw [sections_eq] at hs
    obtain ⟨head, -, rfl⟩ := List.mem_map.1 hs
    obtain ⟨⟨d, i⟩, hother, rfl⟩ := List.mem_map.1 hi
    have hother := mem_others.1 (List.mem_filter.1 hother).1
    rw [if_neg]
    rw [map_owner_sections]
    intro howner
    obtain ⟨⟨d', i'⟩, hhead, rfl⟩ := List.mem_map.1 howner
    have hhead := mem_heads.1 hhead
    rw [hother.1] at hhead
    obtain ⟨hd, hheads⟩ := hhead
    cases hd
    rw [hother.2] at hheads
    cases hheads

/-- The entry for a position and a level. -/
def entryAt (doclets : List Doclet) (slot : Nat × Nat) : Entry :=
  ⟨doclets[slot.1]?.getD {}, slot.2⟩

theorem entries_eq (doclets : List Doclet) :
    entries doclets = (slots doclets).map (entryAt doclets) := by
  have hall : (slots doclets).map (entryAt doclets) = (slots doclets).filterMap fun slot =>
      doclets[slot.1]?.map (⟨·, slot.2⟩) := by
    rw [← List.filterMap_eq_map]
    refine List.filterMap_congr fun slot hslot => ?_
    obtain ⟨d, hd⟩ := getElem?_of_mem_slots hslot
    simp [entryAt, hd]
  rw [hall, entries, slots, List.filterMap_flatMap]
  refine List.flatMap_congr fun s _ => ?_
  rw [List.filterMap_cons, List.filterMap_map]
  rcases doclets[s.owner]? with _ | d <;> rfl

/-- The places of the document of some doclets. -/
def placesOf (doclets : List Doclet) : List Place :=
  ((slots doclets).zip (({} : Anchors).nextAll ((entries doclets).map (·.doclet.longname)))).map
    fun p => ⟨p.1.1, entryAt doclets p.1, p.2⟩

theorem map_placesOf {β : Type} (f : Nat × Nat → β) (g : Place → β)
    (h : ∀ slot anchor, g ⟨slot.1, entryAt doclets slot, anchor⟩ = f slot) :
    (placesOf doclets).map g = (slots doclets).map f := by
  have hlength : (slots doclets).length ≤
      (({} : Anchors).nextAll ((entries doclets).map (·.doclet.longname))).length := by
    rw [length_nextAll, entries_eq, List.length_map, List.length_map]
  rw [placesOf, List.map_map]
  have hfst := congrArg (List.map f) (List.map_fst_zip hlength)
  rw [List.map_map] at hfst
  rw [← hfst]
  exact List.map_congr_left fun p _ => h p.1 p.2

theorem map_entry_placesOf (doclets : List Doclet) :
    (placesOf doclets).map Place.entry = entries doclets := by
  rw [entries_eq]
  exact map_placesOf (entryAt doclets) Place.entry fun _ _ => rfl

theorem isLaidOut_placesOf (doclets : List Doclet) : IsLaidOut doclets (placesOf doclets) where
  positions := by
    rw [← map_fst_slots]
    exact map_placesOf Prod.fst Place.position fun _ _ => rfl
  docletAt := by
    intro p hp
    obtain ⟨⟨slot, anchor⟩, hmem, rfl⟩ := List.mem_map.1 hp
    obtain ⟨d, hd⟩ := getElem?_of_mem_slots (List.of_mem_zip hmem).1
    simp [entryAt, hd]
  levels := by
    intro p hp
    obtain ⟨⟨slot, anchor⟩, hmem, rfl⟩ := List.mem_map.1 hp
    exact level_of_mem_slots (List.of_mem_zip hmem).1
  anchors := by
    have hlength : (({} : Anchors).nextAll ((entries doclets).map (·.doclet.longname))).length ≤
        (slots doclets).length := by
      rw [length_nextAll, entries_eq, List.length_map, List.length_map]
    have hnames : (placesOf doclets).map (·.entry.doclet.longname) =
        (entries doclets).map (·.doclet.longname) := by
      rw [← map_entry_placesOf, List.map_map]
      rfl
    rw [hnames, placesOf, List.map_map]
    exact List.map_snd_zip hlength

theorem index_entries (doclets : List Doclet) :
    index (entries doclets) = String.join ((placesOf doclets).map Place.indexLine) := by
  rw [index, placesOf, List.map_map]
  conv_lhs => rw [entries_eq, List.zip_map_left, List.map_map, ← entries_eq]
  rfl

/-- Each doclet has one place in the document of some doclets, and the document consists of an index
with a line for each place and then of a block for each place, below its heading. -/
theorem markdown_places (doclets : List Doclet) :
    Arranges doclets (sections doclets) ∧
      ∃ places, IsLaidOut doclets places ∧
        markdown doclets =
          if places = [] then ""
          else "## Index\n\n" ++ String.join (places.map Place.indexLine) ++ "\n" ++
            String.join (places.map fun p => p.heading ++ p.body) := by
  refine ⟨arranges_sections doclets, placesOf doclets, isLaidOut_placesOf doclets, ?_⟩
  have hblocks : (entries doclets).map block =
      (placesOf doclets).map fun p => p.heading ++ p.body := by
    rw [← map_entry_placesOf, List.map_map]
    exact List.map_congr_left fun p _ => p.block_eq
  have hempty : (entries doclets).isEmpty = true ↔ placesOf doclets = [] := by
    rw [List.isEmpty_iff, ← map_entry_placesOf, List.map_eq_nil_iff]
  rw [markdown, index_entries, hblocks]
  simp only [hempty]

end Commentary.Render
