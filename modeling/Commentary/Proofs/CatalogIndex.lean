import Commentary.Catalog
import Commentary.Proofs.TableKeys

/-!
# The index of a catalog

A catalog keeps the longname of a doclet twice: in the doclet, and as the key under which its
position is filed. `Indexed` says that the two copies are in step. Every operation on catalogs keeps
them so, as long as a change of a doclet leaves its longname alone.

The operations are described by what they do to the doclet at each position (`get?_insert`,
`get?_modify`, `get?_rekey`) and to the positions of each longname (`lookup_insert`,
`lookup_modify`, `lookup_rekey`). No later proof looks into them.
-/

namespace Commentary.Catalog

/-- The longname of the doclet at a position. -/
def longnameAt? (catalog : Catalog) (id : Nat) : Option String :=
  (catalog.get? id).map Doclet.longname

/-- Each longname of the index has one list of positions, and that is not empty. -/
structure Filed (catalog : Catalog) : Prop where
  keys_nodup : catalog.byLongname.keys.Nodup
  positions_ne_nil : ∀ entry ∈ catalog.byLongname.entries, entry.2 ≠ []

/-- The index files each position once, under the longname of its doclet, and files nothing else. -/
structure Indexed (catalog : Catalog) : Prop extends catalog.Filed where
  /-- No position is filed twice under one longname. -/
  lookup_nodup : ∀ longname, (catalog.lookup longname).Nodup
  /-- A position is filed under a longname if and only if its doclet carries it. -/
  mem_lookup : ∀ longname id,
    id ∈ catalog.lookup longname ↔ catalog.longnameAt? id = some longname

/-! ## Positions -/

@[simp]
theorem get?_empty (id : Nat) : empty.get? id = none := rfl

theorem lt_size_iff {catalog : Catalog} {id : Nat} :
    id < catalog.size ↔ ∃ d, catalog.get? id = some d := by
  simp [get?, size, Array.getElem?_eq_some_iff]

theorem get?_eq_none_iff {catalog : Catalog} {id : Nat} :
    catalog.get? id = none ↔ catalog.size ≤ id :=
  Array.getElem?_eq_none_iff

theorem lt_size_of_get? {catalog : Catalog} {id : Nat} {d : Doclet}
    (h : catalog.get? id = some d) : id < catalog.size :=
  lt_size_iff.2 ⟨d, h⟩

/-- The doclets in order are the doclets at the positions. -/
theorem mem_toList {catalog : Catalog} {d : Doclet} :
    d ∈ catalog.toList ↔ ∃ id, catalog.get? id = some d := by
  rw [toList, List.mem_iff_getElem?]
  simp [get?]

@[simp]
theorem get?_insert (catalog : Catalog) (d : Doclet) (id : Nat) :
    (catalog.insert d).get? id = if id = catalog.size then some d else catalog.get? id :=
  Array.getElem?_push

@[simp]
theorem size_insert (catalog : Catalog) (d : Doclet) :
    (catalog.insert d).size = catalog.size + 1 := by
  simp [insert, size]

/-- Adding a doclet leaves those that are there alone. -/
theorem get?_insert_of_get? {catalog : Catalog} {d e : Doclet} {id : Nat}
    (h : catalog.get? id = some e) : (catalog.insert d).get? id = some e := by
  rw [get?_insert, if_neg (Nat.ne_of_lt (lt_size_of_get? h)), h]

@[simp]
theorem get?_modify (catalog : Catalog) (id : Nat) (change : Doclet → Doclet) (i : Nat) :
    (catalog.modify id change).get? i =
      if i = id then (catalog.get? i).map change else catalog.get? i := by
  simp only [modify, get?, Array.getElem?_modify, eq_comm]

@[simp]
theorem size_modify (catalog : Catalog) (id : Nat) (change : Doclet → Doclet) :
    (catalog.modify id change).size = catalog.size := by
  simp [modify, size]

@[simp]
theorem get?_file (catalog : Catalog) (longname : String) (id i : Nat) :
    (catalog.file longname id).get? i = catalog.get? i := rfl

@[simp]
theorem get?_unfile (catalog : Catalog) (longname : String) (id i : Nat) :
    (catalog.unfile longname id).get? i = catalog.get? i := by
  unfold unfile
  split <;> rfl

@[simp]
theorem get?_rekey (catalog : Catalog) (id : Nat) (longname : String) (i : Nat) :
    (catalog.rekey id longname).get? i =
      if i = id then (catalog.get? i).map ({ · with longname }) else catalog.get? i := by
  unfold rekey
  split
  · rename_i hnone
    split
    · rename_i hi
      rw [hi, hnone]
      rfl
    · rfl
  · simp

@[simp]
theorem size_rekey (catalog : Catalog) (id : Nat) (longname : String) :
    (catalog.rekey id longname).size = catalog.size := by
  unfold rekey
  split
  · rfl
  · rw [size_modify, size, size, file, unfile]
    split <;> rfl

/-! ## Longnames by position -/

@[simp]
theorem longnameAt?_insert (catalog : Catalog) (d : Doclet) (id : Nat) :
    (catalog.insert d).longnameAt? id =
      if id = catalog.size then some d.longname else catalog.longnameAt? id := by
  simp only [longnameAt?, get?_insert]
  split <;> rfl

theorem longnameAt?_modify (catalog : Catalog) (id : Nat) {change : Doclet → Doclet}
    (hchange : ∀ d, (change d).longname = d.longname) (i : Nat) :
    (catalog.modify id change).longnameAt? i = catalog.longnameAt? i := by
  have hcomp : Doclet.longname ∘ change = Doclet.longname := funext hchange
  simp only [longnameAt?, get?_modify]
  split
  · rw [Option.map_map, hcomp]
  · rfl

theorem longnameAt?_rekey {catalog : Catalog} {id : Nat} (hid : id < catalog.size)
    (longname : String) (i : Nat) :
    (catalog.rekey id longname).longnameAt? i =
      if i = id then some longname else catalog.longnameAt? i := by
  obtain ⟨d, hd⟩ := lt_size_iff.1 hid
  simp only [longnameAt?, get?_rekey]
  split
  · rename_i hi
    rw [hi, hd]
    rfl
  · rfl

theorem longnameAt?_size (catalog : Catalog) : catalog.longnameAt? catalog.size = none := by
  simp [longnameAt?, get?, size]

/-! ## Positions of a longname -/

@[simp]
theorem lookup_empty (longname : String) : empty.lookup longname = [] := rfl

@[simp]
theorem lookup_modify (catalog : Catalog) (id : Nat) (change : Doclet → Doclet)
    (longname : String) :
    (catalog.modify id change).lookup longname = catalog.lookup longname := rfl

@[simp]
theorem lookup_file (catalog : Catalog) (longname : String) (id : Nat) (l : String) :
    (catalog.file longname id).lookup l =
      if longname = l then catalog.lookup l ++ [id] else catalog.lookup l := by
  by_cases hl : longname = l
  · subst hl
    simp [file, lookup]
  · simp [file, lookup, hl]

@[simp]
theorem lookup_insert (catalog : Catalog) (d : Doclet) (l : String) :
    (catalog.insert d).lookup l =
      if d.longname = l then catalog.lookup l ++ [catalog.size] else catalog.lookup l :=
  lookup_file catalog d.longname catalog.size l

@[simp]
theorem lookup_unfile (catalog : Catalog) (longname : String) (id : Nat) (l : String) :
    (catalog.unfile longname id).lookup l =
      if longname = l then (catalog.lookup l).filter (· != id) else catalog.lookup l := by
  unfold unfile
  split
  · rename_i hnone
    by_cases hl : longname = l
    · subst hl
      simp [lookup, hnone]
    · simp [hl]
  · rename_i ids hids
    by_cases hl : longname = l
    · subst hl
      by_cases hnil : (ids.filter (· != id)).isEmpty = true
      · simp only [lookup, hids, hnil, if_true, Table.find?_erase, Option.getD_none,
          Option.getD_some]
        exact (List.isEmpty_iff.1 hnil).symm
      · simp [lookup, hids, hnil]
    · by_cases hnil : (ids.filter (· != id)).isEmpty = true <;> simp [lookup, hnil, hl]

/-- Moving a doclet takes its position from its old longname and files it under the new one. -/
theorem lookup_rekey {catalog : Catalog} {id : Nat} {d : Doclet} (h : catalog.get? id = some d)
    (longname l : String) :
    (catalog.rekey id longname).lookup l =
      (if d.longname = l then (catalog.lookup l).filter (· != id) else catalog.lookup l) ++
        (if longname = l then [id] else []) := by
  unfold rekey
  simp only [h, lookup_modify, lookup_file, lookup_unfile]
  by_cases hl : longname = l <;> simp [hl]

/-! ## The index stays in step -/

namespace Filed

variable {catalog : Catalog}

/-- Without repeated keys it is enough to look at what is found. -/
theorem of_find? (hkeys : catalog.byLongname.keys.Nodup)
    (hfind : ∀ longname, catalog.byLongname.find? longname ≠ some []) : catalog.Filed where
  keys_nodup := hkeys
  positions_ne_nil := by
    rintro ⟨longname, ids⟩ hentry hnil
    exact hfind longname ((Table.find?_eq_some_iff hkeys longname []).2 (hnil ▸ hentry))

theorem find?_ne_nil (h : catalog.Filed) (longname : String) :
    catalog.byLongname.find? longname ≠ some [] := fun hfind =>
  h.positions_ne_nil _ ((Table.find?_eq_some_iff h.keys_nodup longname []).1 hfind) rfl

theorem file (h : catalog.Filed) (longname : String) (id : Nat) :
    (catalog.file longname id).Filed := by
  refine of_find? (Table.nodup_keys_insert h.keys_nodup longname _) ?_
  intro l
  simp only [Catalog.file, Table.find?_insert]
  split
  · simp
  · exact h.find?_ne_nil l

theorem unfile (h : catalog.Filed) (longname : String) (id : Nat) :
    (catalog.unfile longname id).Filed := by
  unfold Catalog.unfile
  split
  · exact h
  · rename_i ids hids
    by_cases hnil : (ids.filter (· != id)).isEmpty = true
    · simp only [hnil, if_true]
      refine of_find? (Table.nodup_keys_erase h.keys_nodup longname) ?_
      intro l
      simp only [Table.find?_erase]
      split
      · simp
      · exact h.find?_ne_nil l
    · simp only [hnil]
      refine of_find? (Table.nodup_keys_insert h.keys_nodup longname _) ?_
      intro l
      simp only [Bool.false_eq_true, if_false, Table.find?_insert]
      split
      · simpa using hnil
      · exact h.find?_ne_nil l

end Filed

namespace Indexed

variable {catalog : Catalog}

theorem empty : Catalog.empty.Indexed where
  keys_nodup := List.nodup_nil
  positions_ne_nil := by
    intro entry hentry
    exact absurd hentry List.not_mem_nil
  lookup_nodup := fun _ => List.nodup_nil
  mem_lookup := by simp [longnameAt?]

theorem insert (h : catalog.Indexed) (d : Doclet) : (catalog.insert d).Indexed := by
  have hfiled := h.toFiled.file d.longname catalog.size
  -- there is no doclet at the new position yet, so no longname has it filed
  have hnew : ∀ l, catalog.size ∉ catalog.lookup l := by
    intro l
    rw [h.mem_lookup, longnameAt?_size]
    simp
  refine ⟨⟨hfiled.keys_nodup, hfiled.positions_ne_nil⟩, ?_, ?_⟩
  · intro l
    rw [lookup_insert]
    split
    · rw [← List.concat_eq_append]
      exact (h.lookup_nodup l).concat (hnew l)
    · exact h.lookup_nodup l
  · intro l id
    rw [lookup_insert, longnameAt?_insert]
    by_cases hid : id = catalog.size
    · subst hid
      by_cases hl : d.longname = l <;> simp [hl, hnew l]
    · by_cases hl : d.longname = l <;> simp [hid, hl, h.mem_lookup]

theorem insertAll (h : catalog.Indexed) (ds : List Doclet) : (catalog.insertAll ds).Indexed :=
  List.foldlRecOn ds Catalog.insert h fun _ hc d _ => hc.insert d

theorem modify (h : catalog.Indexed) (id : Nat) {change : Doclet → Doclet}
    (hchange : ∀ d, (change d).longname = d.longname) : (catalog.modify id change).Indexed where
  keys_nodup := h.keys_nodup
  positions_ne_nil := h.positions_ne_nil
  lookup_nodup := h.lookup_nodup
  mem_lookup := by
    intro l i
    rw [lookup_modify, longnameAt?_modify catalog id hchange, h.mem_lookup]

theorem rekey (h : catalog.Indexed) (id : Nat) (longname : String) :
    (catalog.rekey id longname).Indexed := by
  rcases hget : catalog.get? id with _ | d
  · simpa only [Catalog.rekey, hget] using h
  · have hid : id < catalog.size := lt_size_of_get? hget
    have hfiled := (h.toFiled.unfile d.longname id).file longname id
    have htable : (catalog.rekey id longname).byLongname =
        ((catalog.unfile d.longname id).file longname id).byLongname := by
      simp only [Catalog.rekey, hget]
      rfl
    -- the position leaves the only list it is in, so it can join any other
    have hold : ∀ l, d.longname ≠ l → id ∉ catalog.lookup l := by
      intro l hl
      rw [h.mem_lookup, longnameAt?, hget]
      simpa using hl
    refine ⟨⟨htable ▸ hfiled.keys_nodup, htable ▸ hfiled.positions_ne_nil⟩, ?_, ?_⟩
    · intro l
      have hfilter := (h.lookup_nodup l).filter (· != id)
      rw [lookup_rekey hget]
      by_cases hl : d.longname = l <;> by_cases hl' : longname = l
      · rw [if_pos hl, if_pos hl', ← List.concat_eq_append]
        exact hfilter.concat (by simp)
      · rw [if_pos hl, if_neg hl', List.append_nil]
        exact hfilter
      · rw [if_neg hl, if_pos hl', ← List.concat_eq_append]
        exact (h.lookup_nodup l).concat (hold l hl)
      · rw [if_neg hl, if_neg hl', List.append_nil]
        exact h.lookup_nodup l
    · intro l i
      rw [lookup_rekey hget, longnameAt?_rekey hid]
      by_cases hi : i = id
      · subst hi
        by_cases hl : d.longname = l <;> by_cases hl' : longname = l <;>
          simp [hl, hl', hold l]
      · by_cases hl : d.longname = l <;> by_cases hl' : longname = l <;>
          simp [hl, hl', hi, h.mem_lookup]

/-- A longname is there if and only if some doclet carries it. -/
theorem contains_iff (h : catalog.Indexed) (longname : String) :
    catalog.contains longname = true ↔ ∃ id, catalog.longnameAt? id = some longname := by
  simp only [contains, Bool.not_eq_true', List.isEmpty_eq_false_iff_exists_mem, h.mem_lookup]

theorem contains_eq_false_iff (h : catalog.Indexed) (longname : String) :
    catalog.contains longname = false ↔ ∀ id, catalog.longnameAt? id ≠ some longname := by
  rw [← Bool.not_eq_true, h.contains_iff, not_exists]

end Indexed

end Commentary.Catalog
