/-!
# Tables

A `Table key` holds entries, of which no two have the same key.  To insert an entry is to
put it in the place of the one that has its key, if there is one.  So nothing that is
inserted is ever refused; of several entries with one key, the last one stays, and the
table is as large as the number of keys.

## Main definitions

* `Table.insert`, `Table.find?` - put an entry in, and look up a key.
* `Table.ofList` - insert the entries of a list one after another.

## Main statements

* `find?_insert` - what is found after an entry has been inserted.
* `find?_ofList` - of several entries with one key, the last one is found.
* `entries_ofList` - if all keys are distinct nothing is lost.

## Design notes

**Overwriting is part of the type.**  Nothing in a table says that an entry was ever
replaced.  Whoever needs that none was has to know that the keys were distinct, and for
a registry this is one of the rules of registration.

**Entries keep their places.**  A new entry comes last, and one that replaces another
stands in its place.  The order is of no importance for what is found, but it makes the
entries of a table from distinct keys the very list that was inserted.
-/

namespace RuleEngine

/-- Entries with distinct keys. -/
structure Table {α κ : Type} (key : α → κ) where
  /-- The entries. -/
  entries : List α
  /-- No two entries have the same key. -/
  distinct : (entries.map key).Nodup

namespace Table

variable {α κ : Type} [DecidableEq κ] {key : α → κ}

instance : Membership α (Table key) :=
  ⟨fun table a => a ∈ table.entries⟩

/-! ### Operations on the list of entries -/

/-- Put an entry in the place of the one with its key, or behind all others. -/
def putEntry (key : α → κ) (a : α) : List α → List α
  | [] => [a]
  | b :: rest => if key b = key a then a :: rest else b :: putEntry key a rest

theorem keys_putEntry (a : α) (entries : List α) :
    (putEntry key a entries).map key =
      if key a ∈ entries.map key then entries.map key else entries.map key ++ [key a] := by
  induction entries with
  | nil => rfl
  | cons b rest ih =>
    rw [putEntry]
    by_cases same : key b = key a
    · simp [same]
    · simp only [if_neg same, List.map_cons, ih, List.mem_cons, Ne.symm same, false_or]
      split <;> rfl

theorem distinct_putEntry (a : α) {entries : List α} (distinct : (entries.map key).Nodup) :
    ((putEntry key a entries).map key).Nodup := by
  rw [keys_putEntry]
  split
  · exact distinct
  · rename_i fresh
    exact List.nodup_append.mpr ⟨distinct, List.pairwise_singleton _ _, by
      rintro k mem k' mem' rfl
      exact fresh (List.mem_singleton.mp mem' ▸ mem)⟩

theorem putEntry_of_fresh {a : α} {entries : List α} (fresh : key a ∉ entries.map key) :
    putEntry key a entries = entries ++ [a] := by
  induction entries with
  | nil => rfl
  | cons b rest ih =>
    rw [List.map_cons, List.mem_cons, not_or] at fresh
    rw [putEntry, if_neg (Ne.symm fresh.1), ih fresh.2, List.cons_append]

theorem find?_putEntry (a : α) (entries : List α) (k : κ) :
    (putEntry key a entries).find? (key · = k) =
      if key a = k then some a else entries.find? (key · = k) := by
  induction entries with
  | nil => by_cases found : key a = k <;> simp [putEntry, found]
  | cons b rest ih =>
    rw [putEntry]
    by_cases same : key b = key a
    · by_cases found : key a = k <;> simp [same, found]
    · rw [if_neg same]
      by_cases found : key b = k
      · have other : key a ≠ k := fun h => same (found.trans h.symm)
        simp [found, other]
      · simp [found, ih]

/-! ### Tables -/

/-- The table without entries. -/
def empty : Table key :=
  ⟨[], .nil⟩

/-- Put an entry in, in the place of the one with its key. -/
def insert (table : Table key) (a : α) : Table key :=
  ⟨putEntry key a table.entries, distinct_putEntry a table.distinct⟩

/-- The entry with this key. -/
def find? (table : Table key) (k : κ) : Option α :=
  table.entries.find? (key · = k)

/-- The number of entries, which is that of the keys. -/
def size (table : Table key) : Nat :=
  table.entries.length

/-- The entries of a list, inserted one after another. -/
def ofList (key : α → κ) (entries : List α) : Table key :=
  entries.foldl insert empty

theorem find?_insert (table : Table key) (a : α) (k : κ) :
    (table.insert a).find? k = if key a = k then some a else table.find? k :=
  find?_putEntry a table.entries k

theorem mem_of_find? {table : Table key} {k : κ} {a : α} (h : table.find? k = some a) :
    a ∈ table :=
  List.mem_of_find?_eq_some h

theorem key_of_find? {table : Table key} {k : κ} {a : α} (h : table.find? k = some a) :
    key a = k := by
  simpa using List.find?_some h

/-! ### Lists of entries -/

/-- The last entry with a key counts, and before all of them what was there. -/
theorem find?_foldl_insert (entries : List α) (table : Table key) (k : κ) :
    (entries.foldl insert table).find? k =
      (entries.reverse.find? (key · = k)).or (table.find? k) := by
  induction entries generalizing table with
  | nil => rfl
  | cons first rest ih =>
    rw [List.foldl_cons, ih, find?_insert, List.reverse_cons, List.find?_append]
    by_cases same : key first = k
    · cases rest.reverse.find? (key · = k) <;> simp [same]
    · simp [same]

theorem find?_ofList (entries : List α) (k : κ) :
    (ofList key entries).find? k = entries.reverse.find? (key · = k) := by
  rw [ofList, find?_foldl_insert]
  exact Option.or_none

theorem entries_foldl_insert {entries : List α} {table : Table key}
    (distinct : ((table.entries ++ entries).map key).Nodup) :
    (entries.foldl insert table).entries = table.entries ++ entries := by
  induction entries generalizing table with
  | nil => exact (List.append_nil _).symm
  | cons first rest ih =>
    have fresh : key first ∉ table.entries.map key := by
      rw [List.map_append, List.map_cons] at distinct
      intro mem
      exact (List.nodup_append.mp distinct).2.2 _ mem _ List.mem_cons_self rfl
    have added : (table.insert first).entries = table.entries ++ [first] := putEntry_of_fresh fresh
    rw [List.foldl_cons, ih, added, List.append_assoc, List.singleton_append]
    rw [added, List.append_assoc, List.singleton_append]
    exact distinct

/-- **Nothing is lost if all keys are distinct.** -/
theorem entries_ofList {entries : List α} (distinct : (entries.map key).Nodup) :
    (ofList key entries).entries = entries :=
  @entries_foldl_insert _ _ _ key entries empty distinct

end Table

end RuleEngine
