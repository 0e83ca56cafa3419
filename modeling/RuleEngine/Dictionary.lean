/-!
# Dictionaries

A `Dictionary α` maps names to values of type `α` and is kept in the order of
its names (by code point, which is also the order of their UTF-8 bytes).  Two
dictionaries with the same content are therefore equal, and listing one needs
no further sorting.

## Main definitions

* `Dictionary.get?`, `Dictionary.insert`, `Dictionary.erase` - look up, set and
  remove a name.
* `Dictionary.ofList` - set the pairs of a list one after another.
* `Dictionary.keys`, `Dictionary.size` - the names, and their number.

## Main statements

* `get?_insert`, `get?_erase` - what a name maps to after each change.
* `get?_ofList` - of several pairs with one name, the last one counts.
* `ofList_entries` - a dictionary is made again from its entries.

## Design notes

The order is part of the type.  The list operations `insertEntry` and
`eraseEntry` come with the lemma that they keep it.

**Equality of dictionaries is equality of contents.**  Host data and environments are
compared as values are, and it must not matter in which order names were set.  With the
entries in order there is one dictionary for each content, and structural equality will
do.
-/

namespace RuleEngine

/-- A finite map from names to values, in the order of the names. -/
structure Dictionary (α : Type) where
  /-- Names and their values. -/
  entries : List (String × α)
  /-- Each name stands before the greater ones, and only once. -/
  sorted : entries.Pairwise (·.1 < ·.1)
  deriving DecidableEq

namespace Dictionary

variable {α : Type}

/-! ### Operations on the list of entries -/

/-- Put `name` in its place, replacing what was there. -/
def insertEntry (name : String) (value : α) : List (String × α) → List (String × α)
  | [] => [(name, value)]
  | entry :: rest =>
    if name < entry.1 then (name, value) :: entry :: rest
    else if entry.1 < name then entry :: insertEntry name value rest
    else (name, value) :: rest

/-- Drop `name`, if it is there. -/
def eraseEntry (name : String) (entries : List (String × α)) : List (String × α) :=
  entries.filter (·.1 ≠ name)

/-- What `name` stands beside, if it is there. -/
def lookupEntry (name : String) : List (String × α) → Option α
  | [] => none
  | entry :: rest => if entry.1 = name then some entry.2 else lookupEntry name rest

theorem eq_of_not_lt {a b : String} (hab : ¬a < b) (hba : ¬b < a) : a = b :=
  String.le_antisymm (String.not_lt.mp hba) (String.not_lt.mp hab)

theorem mem_insertEntry {name : String} {value : α} {entries : List (String × α)}
    {entry : String × α} (h : entry ∈ insertEntry name value entries) :
    entry = (name, value) ∨ entry ∈ entries := by
  induction entries with
  | nil => simpa [insertEntry] using h
  | cons head rest ih =>
    rw [insertEntry] at h
    split at h
    · simpa using h
    · split at h
      · rcases List.mem_cons.mp h with rfl | h
        · simp
        · rcases ih h with rfl | h
          · exact .inl rfl
          · exact .inr (List.mem_cons_of_mem _ h)
      · rcases List.mem_cons.mp h with rfl | h
        · exact .inl rfl
        · exact .inr (List.mem_cons_of_mem _ h)

theorem sorted_insertEntry (name : String) (value : α) {entries : List (String × α)}
    (h : entries.Pairwise (·.1 < ·.1)) :
    (insertEntry name value entries).Pairwise (·.1 < ·.1) := by
  induction entries with
  | nil => simp [insertEntry]
  | cons head rest ih =>
    obtain ⟨first, others⟩ := List.pairwise_cons.mp h
    rw [insertEntry]
    split
    · rename_i before
      refine List.pairwise_cons.mpr ⟨?_, h⟩
      intro entry hentry
      rcases List.mem_cons.mp hentry with rfl | hentry
      · exact before
      · exact String.lt_trans before (first entry hentry)
    · split
      · rename_i after
        refine List.pairwise_cons.mpr ⟨?_, ih others⟩
        intro entry hentry
        rcases mem_insertEntry hentry with rfl | hentry
        · exact after
        · exact first entry hentry
      · rename_i notBefore notAfter
        obtain rfl := eq_of_not_lt notBefore notAfter
        exact List.pairwise_cons.mpr ⟨first, others⟩

/-- A name after all others comes last. -/
theorem insertEntry_of_forall_lt {name : String} {entries : List (String × α)} (value : α)
    (h : ∀ entry ∈ entries, entry.1 < name) :
    insertEntry name value entries = entries ++ [(name, value)] := by
  induction entries with
  | nil => rfl
  | cons head rest ih =>
    have before := h head List.mem_cons_self
    have later := ih fun entry mem => h entry (List.mem_cons_of_mem head mem)
    rw [insertEntry, if_neg (String.lt_asymm before), if_pos before, later, List.cons_append]

theorem lookupEntry_insertEntry (name other : String) (value : α)
    (entries : List (String × α)) :
    lookupEntry other (insertEntry name value entries) =
      if name = other then some value else lookupEntry other entries := by
  induction entries with
  | nil => simp [insertEntry, lookupEntry]
  | cons head rest ih =>
    rw [insertEntry]
    split
    · simp [lookupEntry]
    · split
      · rename_i after
        simp only [lookupEntry, ih]
        by_cases same : head.1 = other
        · have : name ≠ other := by
            rintro rfl
            exact String.lt_irrefl _ (same ▸ after)
          simp [same, this]
        · simp [same]
      · rename_i notBefore notAfter
        have same := eq_of_not_lt notBefore notAfter
        simp only [lookupEntry, ← same]
        split <;> rfl

theorem lookupEntry_eraseEntry (name other : String) (entries : List (String × α)) :
    lookupEntry other (eraseEntry name entries) =
      if name = other then none else lookupEntry other entries := by
  induction entries with
  | nil => simp [eraseEntry, lookupEntry]
  | cons head rest ih =>
    rw [eraseEntry] at ih ⊢
    by_cases dropped : head.1 = name
    · rw [List.filter_cons_of_neg (by simp [dropped]), ih, lookupEntry, dropped]
      split <;> rfl
    · rw [List.filter_cons_of_pos (by simp [dropped]), lookupEntry, lookupEntry, ih]
      by_cases same : head.1 = other
      · have : name ≠ other := fun h => dropped (same.trans h.symm)
        simp [same, this]
      · simp [same]

/-! ### Dictionaries -/

/-- The dictionary without entries. -/
def empty : Dictionary α :=
  ⟨[], .nil⟩

/-- What `name` maps to. -/
def get? (d : Dictionary α) (name : String) : Option α :=
  lookupEntry name d.entries

/-- Whether `name` maps to anything. -/
def contains (d : Dictionary α) (name : String) : Bool :=
  (d.get? name).isSome

/-- Let `name` map to `value`. -/
def insert (d : Dictionary α) (name : String) (value : α) : Dictionary α :=
  ⟨insertEntry name value d.entries, sorted_insertEntry name value d.sorted⟩

/-- Let `name` map to nothing. -/
def erase (d : Dictionary α) (name : String) : Dictionary α :=
  ⟨eraseEntry name d.entries, d.sorted.filter _⟩

/-- The pairs of a list, set one after another: the last one of a name stays. -/
def ofList (pairs : List (String × α)) : Dictionary α :=
  pairs.foldl (fun d pair => d.insert pair.1 pair.2) empty

/-- The names, in order. -/
def keys (d : Dictionary α) : List String :=
  d.entries.map (·.1)

/-- The number of names. -/
def size (d : Dictionary α) : Nat :=
  d.entries.length

/-- Whether there is no entry. -/
def isEmpty (d : Dictionary α) : Bool :=
  d.entries.isEmpty

@[ext] theorem ext {a b : Dictionary α} (h : a.entries = b.entries) : a = b := by
  cases a; cases b; simp_all

@[simp] theorem get?_empty (name : String) : (empty : Dictionary α).get? name = none := rfl

theorem get?_insert (d : Dictionary α) (name other : String) (value : α) :
    (d.insert name value).get? other = if name = other then some value else d.get? other :=
  lookupEntry_insertEntry name other value d.entries

theorem get?_erase (d : Dictionary α) (name other : String) :
    (d.erase name).get? other = if name = other then none else d.get? other :=
  lookupEntry_eraseEntry name other d.entries

/-! ### Lists of pairs -/

/-- The last pair with a name counts, and before all pairs what was there. -/
theorem get?_foldl_insert (pairs : List (String × α)) (d : Dictionary α) (name : String) :
    (pairs.foldl (fun d pair => d.insert pair.1 pair.2) d).get? name =
      ((pairs.reverse.find? (·.1 = name)).map (·.2)).or (d.get? name) := by
  induction pairs generalizing d with
  | nil => rfl
  | cons first rest ih =>
    rw [List.foldl_cons, ih, get?_insert, List.reverse_cons, List.find?_append]
    by_cases same : first.1 = name
    · cases rest.reverse.find? (·.1 = name) <;> simp [same]
    · simp [same]

theorem get?_ofList (pairs : List (String × α)) (name : String) :
    (ofList pairs).get? name = (pairs.reverse.find? (·.1 = name)).map (·.2) := by
  rw [ofList, get?_foldl_insert, get?_empty, Option.or_none]

theorem mem_of_mem_foldl_insert {pairs : List (String × α)} {d : Dictionary α}
    {entry : String × α}
    (h : entry ∈ (pairs.foldl (fun d pair => d.insert pair.1 pair.2) d).entries) :
    entry ∈ pairs ∨ entry ∈ d.entries := by
  induction pairs generalizing d with
  | nil => exact .inr h
  | cons first rest ih =>
    rcases ih h with later | here
    · exact .inl (List.mem_cons_of_mem first later)
    · rcases mem_insertEntry here with rfl | before
      · exact .inl List.mem_cons_self
      · exact .inr before

theorem mem_of_mem_ofList {pairs : List (String × α)} {entry : String × α}
    (h : entry ∈ (ofList pairs).entries) : entry ∈ pairs := by
  rcases mem_of_mem_foldl_insert h with mem | mem
  · exact mem
  · cases mem

/-- Pairs that are in order, after all entries, are put behind them. -/
theorem entries_foldl_insert {pairs : List (String × α)} {d : Dictionary α}
    (sorted : (d.entries ++ pairs).Pairwise (·.1 < ·.1)) :
    (pairs.foldl (fun d pair => d.insert pair.1 pair.2) d).entries = d.entries ++ pairs := by
  induction pairs generalizing d with
  | nil => exact (List.append_nil d.entries).symm
  | cons first rest ih =>
    have last : ∀ entry ∈ d.entries, entry.1 < first.1 := fun entry mem =>
      (List.pairwise_append.mp sorted).2.2 entry mem first List.mem_cons_self
    have added : (d.insert first.1 first.2).entries = d.entries ++ [first] :=
      insertEntry_of_forall_lt first.2 last
    rw [List.foldl_cons, ih, added, List.append_assoc, List.singleton_append]
    rw [added, List.append_assoc, List.singleton_append]
    exact sorted

theorem ofList_entries (d : Dictionary α) : ofList d.entries = d :=
  ext (entries_foldl_insert d.sorted)

end Dictionary

end RuleEngine
