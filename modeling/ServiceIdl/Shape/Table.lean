/-!
# Tables in order of arrival

A table remembers the order in which its keys first arrived. Writing to a key
that is present replaces the value and moves nothing.
-/

namespace ServiceIdl

/-- A table from keys to values. -/
structure Table (κ α : Type) where
  entries : List (κ × α)
deriving Repr

namespace Table

variable {κ α : Type} [DecidableEq κ]

/-- A table without entries. -/
def empty : Table κ α := ⟨[]⟩

/-- Changes the value of a key, or puts a new key at the end. -/
def alterEntries (key : κ) (change : Option α → α) : List (κ × α) → List (κ × α)
  | [] => [(key, change none)]
  | (k, a) :: rest =>
    if k = key then (k, change (some a)) :: rest else (k, a) :: alterEntries key change rest

/-- Changes the value of a key by a function of what is there. -/
def alter (table : Table κ α) (key : κ) (change : Option α → α) : Table κ α :=
  ⟨alterEntries key change table.entries⟩

/-- Writes a value. -/
def insert (table : Table κ α) (key : κ) (value : α) : Table κ α :=
  table.alter key fun _ => value

/-- The value of a key. -/
def get? (table : Table κ α) (key : κ) : Option α :=
  (table.entries.find? (·.1 = key)).map Prod.snd

section

omit [DecidableEq κ]

/-- The keys in the order in which they first arrived. -/
def keys (table : Table κ α) : List κ := table.entries.map Prod.fst

/-- How many keys are present. -/
def size (table : Table κ α) : Nat := table.entries.length

end

/-! ## Reading after writing -/

@[simp] theorem get?_empty (key : κ) : (empty : Table κ α).get? key = none := rfl

@[simp] theorem get?_alter_self (table : Table κ α) (key : κ) (change : Option α → α) :
    (table.alter key change).get? key = some (change (table.get? key)) := by
  obtain ⟨entries⟩ := table
  simp only [alter, get?]
  induction entries with
  | nil => simp [alterEntries]
  | cons entry rest ih =>
    obtain ⟨k, a⟩ := entry
    by_cases same : k = key
    · simp [alterEntries, same]
    · simpa [alterEntries, same] using ih

/-- A change at one key leaves all others alone. -/
theorem get?_alter_of_ne {key other : κ} (different : other ≠ key) (table : Table κ α)
    (change : Option α → α) : (table.alter key change).get? other = table.get? other := by
  obtain ⟨entries⟩ := table
  simp only [alter, get?]
  induction entries with
  | nil => simp [alterEntries, Ne.symm different]
  | cons entry rest ih =>
    obtain ⟨k, a⟩ := entry
    by_cases same : k = key
    · simp [alterEntries, same, Ne.symm different]
    · by_cases found : k = other
      · subst found
        simp [alterEntries, different]
      · simpa [alterEntries, same, found] using ih

/-- The keys of the entries after a change: the old ones, and a new one behind them. -/
theorem fst_alterEntries (key : κ) (change : Option α → α) (entries : List (κ × α)) :
    (alterEntries key change entries).map Prod.fst =
      if key ∈ entries.map Prod.fst then entries.map Prod.fst
      else entries.map Prod.fst ++ [key] := by
  induction entries with
  | nil => simp [alterEntries]
  | cons entry rest ih =>
    obtain ⟨k, a⟩ := entry
    by_cases same : k = key
    · simp [alterEntries, same]
    · simp only [alterEntries, same, ↓reduceIte, List.map_cons, ih, List.mem_cons,
        Ne.symm same, false_or, List.cons_append]
      split <;> rfl

/-- A key that is present keeps its place, and a new one comes last. -/
theorem keys_alter (table : Table κ α) (key : κ) (change : Option α → α) :
    (table.alter key change).keys =
      if key ∈ table.keys then table.keys else table.keys ++ [key] :=
  fst_alterEntries key change table.entries

/-- No key is present twice. -/
theorem nodup_keys_alter {table : Table κ α} (distinct : table.keys.Nodup) (key : κ)
    (change : Option α → α) : (table.alter key change).keys.Nodup := by
  rw [keys_alter]
  split
  · exact distinct
  · rename_i absent
    rw [List.nodup_append]
    refine ⟨distinct, by simp, ?_⟩
    rintro k present _ last rfl
    rw [List.mem_singleton.mp last] at present
    exact absent present

/-- What is in a table after an insertion was there before, or is new. -/
theorem mem_entries_insert {table : Table κ α} {key : κ} {value : α} {entry : κ × α}
    (member : entry ∈ (table.insert key value).entries) :
    entry ∈ table.entries ∨ entry = (key, value) := by
  rcases table with ⟨entries⟩
  change entry ∈ alterEntries key (fun _ => value) entries at member
  change entry ∈ entries ∨ entry = (key, value)
  induction entries with
  | nil => exact .inr (List.mem_singleton.mp member)
  | cons head rest ih =>
    rcases head with ⟨k, a⟩
    by_cases same : k = key
    · rw [alterEntries, if_pos same] at member
      rcases List.mem_cons.mp member with here | later
      · exact .inr (by rw [here, same])
      · exact .inl (List.mem_cons_of_mem _ later)
    · rw [alterEntries, if_neg same] at member
      rcases List.mem_cons.mp member with here | later
      · exact .inl (by rw [here]; exact List.mem_cons_self)
      · rcases ih later with old | new
        · exact .inl (List.mem_cons_of_mem _ old)
        · exact .inr new

/-- What a look-up finds is in the table. -/
theorem mem_entries_of_get? {table : Table κ α} {key : κ} {value : α}
    (found : table.get? key = some value) : (key, value) ∈ table.entries := by
  obtain ⟨entry, first, rfl⟩ := Option.map_eq_some_iff.mp found
  have same : entry.1 = key := by simpa using List.find?_some first
  rw [← same]
  exact List.mem_of_find?_eq_some first

/-- If no key is present twice, a key has the value of every entry with it. -/
theorem get?_eq_some_iff {table : Table κ α} (distinct : table.keys.Nodup) {key : κ} {a : α} :
    table.get? key = some a ↔ (key, a) ∈ table.entries := by
  refine ⟨mem_entries_of_get?, ?_⟩
  rcases table with ⟨entries⟩
  change (entries.map Prod.fst).Nodup at distinct
  change (key, a) ∈ entries → (entries.find? (·.1 = key)).map Prod.snd = some a
  intro member
  induction entries with
  | nil => cases member
  | cons head rest ih =>
    obtain ⟨absent, distinct⟩ := List.nodup_cons.mp distinct
    rcases List.mem_cons.mp member with rfl | later
    · rw [List.find?_cons_of_pos (by simp)]
      rfl
    · have different : head.1 ≠ key := by
        rintro rfl
        exact absent (List.mem_map.mpr ⟨_, later, rfl⟩)
      rw [List.find?_cons_of_neg (by simpa using different)]
      exact ih distinct later

/-- If no key is present twice, the order of the entries does not matter to a look-up. -/
theorem get?_eq_of_perm {table other : Table κ α} (distinct : table.keys.Nodup)
    (order : table.entries.Perm other.entries) (key : κ) :
    table.get? key = other.get? key := by
  have distinct' : other.keys.Nodup := (order.map Prod.fst).nodup_iff.mp distinct
  refine Option.ext fun a => ?_
  rw [get?_eq_some_iff distinct, get?_eq_some_iff distinct', order.mem_iff]

end Table

end ServiceIdl
