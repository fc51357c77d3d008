/-! # Tables

    A table maps names to values and remembers the order in which the names came. Writing a name
    again changes its value and leaves it in its place. No name occurs twice, and the type says so.

    * `Table.get?` and `Table.insert` obey the laws of a map (`get?_insert_self`,
      `get?_insert_of_ne`);
    * `keys_insert_of_mem` and `keys_insert_of_notMem` say what happens to the order.
-/

namespace PulseTrain

/-- Values under distinct names, in the order in which the names were first written. -/
structure Table (α : Type) where
  entries : List (String × α)
  nodup : (entries.map Prod.fst).Nodup
deriving DecidableEq

namespace Table

variable {α : Type}

/-- A table shows its entries. -/
instance [Repr α] : Repr (Table α) := ⟨fun t => reprPrec t.entries⟩

def empty : Table α := ⟨[], by simp⟩

instance : Inhabited (Table α) := ⟨empty⟩

def keys (t : Table α) : List String := t.entries.map Prod.fst

/-- The values in the order of their names. -/
def values (t : Table α) : List α := t.entries.map Prod.snd

def size (t : Table α) : Nat := t.entries.length

def isEmpty (t : Table α) : Bool := t.entries.isEmpty

/-! ## Looking up -/

/-- The value paired with a key in a list of pairs, the first if there are several. -/
def lookup? (key : String) : List (String × α) → Option α
  | [] => none
  | (k, v) :: rest => if k = key then some v else lookup? key rest

def get? (t : Table α) (key : String) : Option α := lookup? key t.entries

def contains (t : Table α) (key : String) : Bool := (t.get? key).isSome

theorem lookup?_isSome_iff {key : String} {entries : List (String × α)} :
    (lookup? key entries).isSome = true ↔ key ∈ entries.map Prod.fst := by
  induction entries with
  | nil => simp [lookup?]
  | cons entry rest ih =>
    obtain ⟨k, v⟩ := entry
    by_cases h : k = key
    · simp [lookup?, h]
    · have h' : ¬key = k := fun e => h e.symm
      simp [lookup?, h, h', ih]

theorem contains_iff {t : Table α} {key : String} : t.contains key = true ↔ key ∈ t.keys :=
  lookup?_isSome_iff

/-! ## Writing -/

/-- Replaces the value of a key in its place, or adds the pair at the end. -/
def put (key : String) (value : α) : List (String × α) → List (String × α)
  | [] => [(key, value)]
  | (k, v) :: rest => if k = key then (k, value) :: rest else (k, v) :: put key value rest

theorem keys_put (key : String) (value : α) (entries : List (String × α)) :
    (put key value entries).map Prod.fst =
      if key ∈ entries.map Prod.fst then entries.map Prod.fst
      else entries.map Prod.fst ++ [key] := by
  induction entries with
  | nil => simp [put]
  | cons entry rest ih =>
    obtain ⟨k, v⟩ := entry
    by_cases h : k = key
    · simp [put, h]
    · have h' : ¬key = k := fun e => h e.symm
      by_cases hm : key ∈ rest.map Prod.fst
      · simp only [put, h, if_false, List.map_cons, ih, if_pos hm]
        rw [if_pos (List.mem_cons_of_mem _ hm)]
      · simp only [put, h, if_false, List.map_cons, ih, if_neg hm]
        rw [if_neg (by simp only [List.mem_cons, not_or]; exact ⟨h', hm⟩)]
        rfl

theorem nodup_keys_put (key : String) (value : α) {entries : List (String × α)}
    (h : (entries.map Prod.fst).Nodup) : ((put key value entries).map Prod.fst).Nodup := by
  rw [keys_put]
  split
  · exact h
  · rename_i hm
    exact List.nodup_append.2 ⟨h, by simp, fun a ha b hb => by
      rw [List.mem_singleton] at hb; exact fun e => hm (hb ▸ e ▸ ha)⟩

/-- Writes a value under a name. A name that is there keeps its place, a new one comes last. -/
def insert (t : Table α) (key : String) (value : α) : Table α :=
  ⟨put key value t.entries, nodup_keys_put key value t.nodup⟩

theorem lookup?_put_self (key : String) (value : α) (entries : List (String × α)) :
    lookup? key (put key value entries) = some value := by
  induction entries with
  | nil => simp [put, lookup?]
  | cons entry rest ih =>
    obtain ⟨k, v⟩ := entry
    by_cases h : k = key <;> simp [put, lookup?, h, ih]

theorem lookup?_put_of_ne {key other : String} (hne : other ≠ key) (value : α)
    (entries : List (String × α)) :
    lookup? other (put key value entries) = lookup? other entries := by
  induction entries with
  | nil => simp [put, lookup?, hne.symm]
  | cons entry rest ih =>
    obtain ⟨k, v⟩ := entry
    by_cases h : k = key
    · subst h
      simp [put, lookup?, hne.symm]
    · simp [put, lookup?, h, ih]

@[simp] theorem get?_insert_self (t : Table α) (key : String) (value : α) :
    (t.insert key value).get? key = some value :=
  lookup?_put_self key value t.entries

theorem get?_insert_of_ne (t : Table α) {key other : String} (h : other ≠ key) (value : α) :
    (t.insert key value).get? other = t.get? other :=
  lookup?_put_of_ne h value t.entries

theorem put_of_lookup? {key : String} {value : α} {entries : List (String × α)}
    (h : lookup? key entries = some value) : put key value entries = entries := by
  induction entries with
  | nil => simp [lookup?] at h
  | cons entry rest ih =>
    obtain ⟨k, v⟩ := entry
    by_cases hk : k = key
    · simp_all [put, lookup?]
    · simp_all [put, lookup?]

/-- Writing what is there changes nothing. -/
theorem insert_of_get? {t : Table α} {key : String} {value : α} (h : t.get? key = some value) :
    t.insert key value = t := by
  obtain ⟨entries, nodup⟩ := t
  simp only [insert, mk.injEq]
  exact put_of_lookup? h

/-- Writing a known name keeps the order. -/
theorem keys_insert_of_mem (t : Table α) {key : String} (h : key ∈ t.keys) (value : α) :
    (t.insert key value).keys = t.keys := by
  unfold keys at h
  simp only [insert, keys, keys_put, if_pos h]

/-- A new name comes last. -/
theorem keys_insert_of_notMem (t : Table α) {key : String} (h : key ∉ t.keys) (value : α) :
    (t.insert key value).keys = t.keys ++ [key] := by
  unfold keys at h
  simp only [insert, keys, keys_put, if_neg h]

/-- The table of a list of pairs, a later pair replacing an earlier one of the same name. -/
def ofList (pairs : List (String × α)) : Table α :=
  pairs.foldl (fun t pair => t.insert pair.1 pair.2) empty

end Table

end PulseTrain
