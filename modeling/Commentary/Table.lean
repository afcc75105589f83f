/-!
# Tables

A finite map from keys to values that remembers the order in which its keys came. A key that is set
again keeps its place. Looking up is pinned down by what was set last (`find?_insert`).
-/

namespace Commentary

/-- Entries in the order in which their keys came. -/
structure Table (α β : Type) where
  entries : List (α × β) := []
deriving Repr, DecidableEq, Inhabited

namespace Table

variable {α β : Type} [DecidableEq α]

/-- The table without entries. -/
def empty : Table α β := {}

/-- The value of a key among entries. -/
def lookup (key : α) : List (α × β) → Option β
  | [] => none
  | (k, v) :: rest => if k = key then some v else lookup key rest

/-- The entries with a key set, in its place if it has one and else at the end. -/
def put (key : α) (value : β) : List (α × β) → List (α × β)
  | [] => [(key, value)]
  | (k, v) :: rest => if k = key then (key, value) :: rest else (k, v) :: put key value rest

/-- The value of a key. -/
def find? (table : Table α β) (key : α) : Option β := lookup key table.entries

/-- Whether a key is set. -/
def contains (table : Table α β) (key : α) : Bool := (table.find? key).isSome

/-- Sets a key. -/
def insert (table : Table α β) (key : α) (value : β) : Table α β :=
  ⟨put key value table.entries⟩

/-- Removes a key. -/
def erase (table : Table α β) (key : α) : Table α β :=
  ⟨table.entries.filter fun (k, _) => k ≠ key⟩

/-- The keys in their order. -/
def keys (table : Table α β) : List α := table.entries.map Prod.fst

theorem lookup_put (key key' : α) (value : β) (entries : List (α × β)) :
    lookup key' (put key value entries) =
      if key = key' then some value else lookup key' entries := by
  induction entries with
  | nil => simp [put, lookup]
  | cons entry rest ih =>
    obtain ⟨k, v⟩ := entry
    by_cases hk : k = key
    · subst hk
      by_cases h : k = key' <;> simp [put, lookup, h]
    · by_cases h : k = key'
      · subst h
        simp [put, lookup, hk, Ne.symm hk]
      · simp [put, lookup, hk, h, ih]

/-- What was set last is found, and no other key is touched. -/
@[simp]
theorem find?_insert (table : Table α β) (key key' : α) (value : β) :
    (table.insert key value).find? key' = if key = key' then some value else table.find? key' :=
  lookup_put key key' value table.entries

@[simp]
theorem find?_empty (key : α) : (empty : Table α β).find? key = none := rfl

theorem lookup_filter (key key' : α) (entries : List (α × β)) :
    lookup key' (entries.filter fun (k, _) => k ≠ key) =
      if key = key' then none else lookup key' entries := by
  induction entries with
  | nil => simp [lookup]
  | cons entry rest ih =>
    obtain ⟨k, v⟩ := entry
    by_cases hk : k = key
    · subst hk
      by_cases h : k = key' <;> simp_all [lookup]
    · by_cases h : k = key'
      · subst h
        simp_all [lookup, Ne.symm hk]
      · simp_all [lookup]

/-- A removed key is not found, and no other key is touched. -/
@[simp]
theorem find?_erase (table : Table α β) (key key' : α) :
    (table.erase key).find? key' = if key = key' then none else table.find? key' :=
  lookup_filter key key' table.entries

end Table

end Commentary
