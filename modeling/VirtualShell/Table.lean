/-!
# Tables

A table maps keys to values and keeps its entries in the order in which the keys came in. A new
value for a key it has takes the place of the old one; a key that was erased and comes back goes to
the end. No key stands twice.

`get?` is the view through which the operations are described.
-/

namespace VirtualShell

/-- Entries with distinct keys, oldest first. -/
structure Table (κ ν : Type) where
  entries : List (κ × ν)
  nodup : (entries.map Prod.fst).Nodup
  deriving DecidableEq

namespace Table

variable {κ ν : Type}

/-- The table without entries. -/
def empty : Table κ ν := ⟨[], List.nodup_nil⟩

instance : Inhabited (Table κ ν) := ⟨empty⟩

/-- The keys, oldest first. -/
def keys (t : Table κ ν) : List κ := t.entries.map Prod.fst

variable [DecidableEq κ]

/-- The value of the first entry of a key. -/
def lookup (k : κ) : List (κ × ν) → Option ν
  | [] => none
  | (k', v) :: rest => if k' = k then some v else lookup k rest

/-- Give a key a value, in its place when it has one and at the end otherwise. -/
def put (k : κ) (v : ν) : List (κ × ν) → List (κ × ν)
  | [] => [(k, v)]
  | (k', v') :: rest => if k' = k then (k, v) :: rest else (k', v') :: put k v rest

/-- **Putting adds no second entry.** The keys stay as they are, or the new one comes last. -/
theorem mem_keys_put {k k' : κ} {v : ν} {entries : List (κ × ν)} :
    k' ∈ (put k v entries).map Prod.fst ↔ k' = k ∨ k' ∈ entries.map Prod.fst := by
  induction entries with
  | nil => simp [put]
  | cons e rest ih =>
    obtain ⟨a, b⟩ := e
    by_cases h : a = k
    · simp [put, h]
    · simp only [put, h, if_false, List.map_cons, List.mem_cons, ih]
      constructor
      · rintro (rfl | rfl | h') <;> simp_all
      · rintro (rfl | rfl | h') <;> simp_all

theorem nodup_put {k : κ} {v : ν} {entries : List (κ × ν)}
    (h : (entries.map Prod.fst).Nodup) : ((put k v entries).map Prod.fst).Nodup := by
  induction entries with
  | nil => simp [put]
  | cons e rest ih =>
    obtain ⟨a, b⟩ := e
    simp only [List.map_cons, List.nodup_cons] at h
    by_cases hk : a = k
    · subst hk
      simpa [put] using h
    · rw [put, if_neg hk, List.map_cons, List.nodup_cons, mem_keys_put]
      exact ⟨fun h' => h'.elim hk h.1, ih h.2⟩

/-- The value of a key. -/
def get? (t : Table κ ν) (k : κ) : Option ν := lookup k t.entries

/-- The table has the key. -/
def contains (t : Table κ ν) (k : κ) : Bool := (t.get? k).isSome

/-- The table with a value for a key. -/
def insert (t : Table κ ν) (k : κ) (v : ν) : Table κ ν := ⟨put k v t.entries, nodup_put t.nodup⟩

/-- The entries of the keys that a test keeps. -/
def keep (t : Table κ ν) (test : κ → Bool) : Table κ ν :=
  ⟨t.entries.filter fun e => test e.1, t.nodup.sublist ((List.filter_sublist ..).map _)⟩

/-- The table without a key. -/
def erase (t : Table κ ν) (k : κ) : Table κ ν := t.keep (· ≠ k)

/-- Entries taken in one by one. -/
def ofList (entries : List (κ × ν)) : Table κ ν :=
  entries.foldl (fun t e => t.insert e.1 e.2) empty

/-! ## The operations through the view -/

@[simp] theorem get?_empty (k : κ) : (empty : Table κ ν).get? k = none := rfl

theorem lookup_put (k k' : κ) (v : ν) (entries : List (κ × ν)) :
    lookup k' (put k v entries) = if k = k' then some v else lookup k' entries := by
  induction entries with
  | nil => simp [put, lookup]
  | cons e rest ih =>
    obtain ⟨a, b⟩ := e
    by_cases h : a = k
    · by_cases h' : k = k' <;> simp [put, lookup, h, h']
    · by_cases h' : k = k'
      · subst h'
        simp [put, lookup, h, ih]
      · simp [put, lookup, h, ih, h']

/-- After an insertion the key has the new value and every other key the old one. -/
theorem get?_insert (t : Table κ ν) (k k' : κ) (v : ν) :
    (t.insert k v).get? k' = if k = k' then some v else t.get? k' :=
  lookup_put k k' v t.entries

@[simp] theorem get?_insert_self (t : Table κ ν) (k : κ) (v : ν) :
    (t.insert k v).get? k = some v := by
  simp [get?_insert]

theorem put_put (k : κ) (v w : ν) (entries : List (κ × ν)) :
    put k w (put k v entries) = put k w entries := by
  induction entries with
  | nil => simp [put]
  | cons e rest ih =>
    obtain ⟨a, b⟩ := e
    by_cases h : a = k
    · simp [put, h]
    · simp [put, h, ih]

/-- Of two values for a key the later one stays, in the place of the earlier. -/
@[simp] theorem insert_insert (t : Table κ ν) (k : κ) (v w : ν) :
    (t.insert k v).insert k w = t.insert k w := by
  simp only [insert, put_put]

/-- Values that look alike leave entries that look alike. -/
theorem map_entries_insert {α : Type} {look : κ × ν → α} (t : Table κ ν) (k : κ) {v w : ν}
    (h : look (k, v) = look (k, w)) :
    (t.insert k v).entries.map look = (t.insert k w).entries.map look := by
  obtain ⟨entries, hnodup⟩ := t
  simp only [insert]
  clear hnodup
  induction entries with
  | nil => simpa [put] using h
  | cons e rest ih =>
    obtain ⟨a, b⟩ := e
    by_cases ha : a = k
    · simpa [put, ha] using h
    · simpa [put, ha] using ih

theorem lookup_filter (test : κ → Bool) (k : κ) (entries : List (κ × ν)) :
    lookup k (entries.filter fun e => test e.1) = if test k then lookup k entries else none := by
  induction entries with
  | nil => simp [lookup]
  | cons e rest ih =>
    obtain ⟨a, b⟩ := e
    by_cases h : a = k
    · subst h
      by_cases ht : test a <;> simp [lookup, ht, ih]
    · by_cases ht : test a <;> simp [lookup, h, ht, ih]

/-- The keys that a test keeps have their old values and the others none. -/
theorem get?_keep (t : Table κ ν) (test : κ → Bool) (k : κ) :
    (t.keep test).get? k = if test k then t.get? k else none :=
  lookup_filter test k t.entries

/-- After an erasure the key has no value and every other key the old one. -/
theorem get?_erase (t : Table κ ν) (k k' : κ) :
    (t.erase k).get? k' = if k = k' then none else t.get? k' := by
  by_cases h : k = k'
  · simp [erase, get?_keep, h]
  · simp [erase, get?_keep, h, Ne.symm h]

@[simp] theorem get?_erase_self (t : Table κ ν) (k : κ) : (t.erase k).get? k = none := by
  simp [get?_erase]

/-- The keys of a table are those with a value. -/
theorem mem_keys_iff (t : Table κ ν) (k : κ) : k ∈ t.keys ↔ (t.get? k).isSome := by
  obtain ⟨entries, h⟩ := t
  simp only [keys, get?]
  clear h
  induction entries with
  | nil => simp [lookup]
  | cons e rest ih =>
    obtain ⟨a, b⟩ := e
    by_cases h : a = k
    · simp [lookup, h]
    · simp [lookup, h, ih, Ne.symm h]

end Table

end VirtualShell
