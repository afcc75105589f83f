import Commentary.Table
import Mathlib.Data.List.Nodup

/-!
# The keys of a table

Setting and removing entries never makes a key stand twice. As long as no key does, the entries of a
table and what is found in it say the same (`find?_eq_some_iff`).
-/

namespace Commentary.Table

variable {α β : Type} [DecidableEq α]

/-- What is found under a key stands among the entries. -/
theorem mem_of_lookup {key : α} {value : β} {entries : List (α × β)}
    (h : lookup key entries = some value) : (key, value) ∈ entries := by
  induction entries with
  | nil => simp [lookup] at h
  | cons entry rest ih =>
    obtain ⟨k, v⟩ := entry
    by_cases hk : k = key
    · subst hk
      simp only [lookup, if_true, Option.some.injEq] at h
      simp [h]
    · simp only [lookup, if_neg hk] at h
      exact List.mem_cons_of_mem _ (ih h)

/-- An entry is what is found under its key, if no key stands twice. -/
theorem lookup_of_mem {key : α} {value : β} {entries : List (α × β)}
    (hkeys : (entries.map Prod.fst).Nodup) (h : (key, value) ∈ entries) :
    lookup key entries = some value := by
  induction entries with
  | nil => simp at h
  | cons entry rest ih =>
    obtain ⟨k, v⟩ := entry
    rw [List.map_cons, List.nodup_cons] at hkeys
    rcases List.mem_cons.1 h with heq | hrest
    · cases heq
      simp [lookup]
    · have hmem : key ∈ rest.map Prod.fst := List.mem_map_of_mem (f := Prod.fst) hrest
      have hne : k ≠ key := fun hk => hkeys.1 (hk ▸ hmem)
      rw [lookup, if_neg hne]
      exact ih hkeys.2 hrest

/-- A table without a repeated key finds exactly its entries. -/
theorem find?_eq_some_iff {table : Table α β} (hkeys : table.keys.Nodup) (key : α) (value : β) :
    table.find? key = some value ↔ (key, value) ∈ table.entries :=
  ⟨mem_of_lookup, lookup_of_mem hkeys⟩

/-- A key under which something is found is one of the keys. -/
theorem mem_keys_of_find? {table : Table α β} {key : α} {value : β}
    (h : table.find? key = some value) : key ∈ table.keys :=
  List.mem_map_of_mem (mem_of_lookup h)

/-- A key is set if and only if it is one of the keys. -/
theorem contains_iff_mem_keys {table : Table α β} {key : α} :
    table.contains key = true ↔ key ∈ table.keys := by
  unfold contains find? keys
  induction table.entries with
  | nil => simp [lookup]
  | cons entry rest ih =>
    obtain ⟨k, v⟩ := entry
    by_cases hk : k = key
    · simp [lookup, hk]
    · simp [lookup, hk, Ne.symm hk, ih]

/-- Setting a key adds it at the end, unless it is there. -/
theorem keys_put (key : α) (value : β) (entries : List (α × β)) :
    (put key value entries).map Prod.fst =
      if key ∈ entries.map Prod.fst then entries.map Prod.fst
      else entries.map Prod.fst ++ [key] := by
  induction entries with
  | nil => simp [put]
  | cons entry rest ih =>
    obtain ⟨k, v⟩ := entry
    by_cases hk : k = key
    · subst hk
      simp [put]
    · rw [put, if_neg hk, List.map_cons, ih]
      by_cases hmem : key ∈ rest.map Prod.fst
      · rw [if_pos hmem, if_pos (by simpa using Or.inr (by simpa using hmem))]
        rfl
      · rw [if_neg hmem, if_neg (by simpa [Ne.symm hk] using hmem)]
        rfl

/-- Setting a key adds no other entry. -/
theorem mem_put {key : α} {value : β} {entries : List (α × β)} {entry : α × β}
    (h : entry ∈ put key value entries) : entry = (key, value) ∨ entry ∈ entries := by
  induction entries with
  | nil => exact .inl (List.mem_singleton.1 h)
  | cons first rest ih =>
    obtain ⟨k, v⟩ := first
    by_cases hk : k = key
    · rw [put, if_pos hk] at h
      rcases List.mem_cons.1 h with h | h
      · exact .inl h
      · exact .inr (List.mem_cons_of_mem _ h)
    · rw [put, if_neg hk] at h
      rcases List.mem_cons.1 h with h | h
      · exact .inr (h ▸ List.mem_cons_self)
      · exact (ih h).imp_right (List.mem_cons_of_mem _)

theorem nodup_keys_insert {table : Table α β} (hkeys : table.keys.Nodup) (key : α) (value : β) :
    (table.insert key value).keys.Nodup := by
  unfold keys insert
  rw [keys_put]
  split
  · exact hkeys
  · rename_i hkey
    exact List.nodup_append.2 ⟨hkeys, List.nodup_singleton key, by
      rintro k hk _ h rfl
      exact hkey (List.mem_singleton.1 h ▸ hk)⟩

theorem nodup_keys_erase {table : Table α β} (hkeys : table.keys.Nodup) (key : α) :
    (table.erase key).keys.Nodup :=
  hkeys.sublist (List.filter_sublist.map Prod.fst)

end Commentary.Table
