import Mathlib.Data.List.Nodup
import PulseTrain.Table

/-! # Entries of a table

    A name that is written for the first time comes behind all others, and a name that is known
    keeps its place. No name occurs twice, so an entry is found under its name.

    * **Writing**: `put_of_notMem` for a new name, `put_eq_map` for a known one, `insert_comm` for
      two known ones, and `entries_ofList` for names that are all new;
    * **Looking up**: `get?_eq_some_iff`, and `forall_get?_insert` for what holds of all entries.
-/

namespace PulseTrain.Table

variable {α : Type}

/-! ## Writing -/

/-- A name that is new is written behind all others. -/
theorem put_of_notMem {key : String} (value : α) {entries : List (String × α)}
    (h : key ∉ entries.map Prod.fst) : put key value entries = entries ++ [(key, value)] := by
  induction entries with
  | nil => rfl
  | cons entry rest ih =>
    rw [List.map_cons, List.mem_cons, not_or] at h
    unfold put
    rw [if_neg (Ne.symm h.1), ih h.2, List.cons_append]

/-- A name that is new to a table comes last. -/
theorem entries_insert_of_new {t : Table α} {key : String} (h : t.contains key = false)
    (value : α) : (t.insert key value).entries = t.entries ++ [(key, value)] := by
  apply put_of_notMem
  rw [← lookup?_isSome_iff, Bool.not_eq_true]
  exact h

/-- Names that are written for the first time come one after another. -/
theorem entries_ofList {pairs : List (String × α)}
    (hnodup : (pairs.map Prod.fst).Nodup) : (ofList pairs).entries = pairs := by
  -- for any table without these names, since the fold goes on with what it has put in
  have hfold : ∀ t : Table α, (∀ key ∈ pairs.map Prod.fst, key ∉ t.keys) →
      (pairs.foldl (fun t pair => t.insert pair.1 pair.2) t).entries = t.entries ++ pairs := by
    induction pairs with
    | nil =>
      intro t _
      exact (List.append_nil _).symm
    | cons pair rest ih =>
      intro t hnew
      obtain ⟨hpair, hrest⟩ := List.nodup_cons.mp hnodup
      have hhere := hnew pair.1 List.mem_cons_self
      rw [List.foldl_cons, ih hrest]
      · show put pair.1 pair.2 t.entries ++ rest = _
        rw [put_of_notMem pair.2 hhere, List.append_assoc]
        rfl
      · intro key hkey
        rw [keys_insert_of_notMem t hhere, List.mem_append, List.mem_singleton, not_or]
        exact ⟨hnew key (List.mem_cons_of_mem _ hkey), fun heq => hpair (heq ▸ hkey)⟩
  exact hfold .empty fun key _ hkey => by cases hkey

/-- Writing a known name changes its entry and no other. -/
theorem put_eq_map {key : String} {value : α} {entries : List (String × α)}
    (hnodup : (entries.map Prod.fst).Nodup) (hkey : key ∈ entries.map Prod.fst) :
    put key value entries = entries.map fun e => if e.1 = key then (key, value) else e := by
  induction entries with
  | nil => cases hkey
  | cons entry rest ih =>
    obtain ⟨hentry, hrest⟩ := List.nodup_cons.mp hnodup
    unfold put
    by_cases heq : entry.1 = key
    · -- the name does not come again
      have hsame : (rest.map fun e => if e.1 = key then (key, value) else e) = rest := by
        refine (List.map_congr_left fun e he => if_neg fun h => hentry ?_).trans (List.map_id _)
        rw [heq, ← h]
        exact List.mem_map_of_mem he
      rw [if_pos heq, List.map_cons, if_pos heq, hsame, heq]
    · have hlater : key ∈ rest.map Prod.fst := by
        rw [List.map_cons, List.mem_cons] at hkey
        exact hkey.resolve_left (Ne.symm heq)
      rw [if_neg heq, List.map_cons, if_neg heq, ih hrest hlater]

/-- Two known names are written in any order. -/
theorem insert_comm {t : Table α} {key other : String} (hne : key ≠ other)
    (hkey : key ∈ t.keys) (hother : other ∈ t.keys) (x y : α) :
    (t.insert key x).insert other y = (t.insert other y).insert key x := by
  -- both names are there already, so writing one of them moves no entry
  have hfirst : other ∈ (t.insert key x).keys := by rwa [keys_insert_of_mem t hkey]
  have hsecond : key ∈ (t.insert other y).keys := by rwa [keys_insert_of_mem t hother]
  have hentries : ((t.insert key x).insert other y).entries =
      ((t.insert other y).insert key x).entries := by
    calc ((t.insert key x).insert other y).entries
      _ = (put key x t.entries).map fun e => if e.1 = other then (other, y) else e :=
          put_eq_map (t.insert key x).nodup hfirst
      _ = (put other y t.entries).map fun e => if e.1 = key then (key, x) else e := by
          rw [put_eq_map t.nodup hkey, put_eq_map t.nodup hother, List.map_map, List.map_map]
          apply List.map_congr_left
          intro e _
          -- an entry is under one of the two names at most
          by_cases hek : e.1 = key
          · have heo : e.1 ≠ other := hek ▸ hne
            simp [hek, hne]
          · by_cases heo : e.1 = other
            · simp [heo, hne.symm]
            · simp [hek, heo]
      _ = ((t.insert other y).insert key x).entries :=
          (put_eq_map (t.insert other y).nodup hsecond).symm
  cases h : (t.insert key x).insert other y
  cases h' : (t.insert other y).insert key x
  rw [h, h'] at hentries
  cases hentries
  rfl

/-! ## Looking up -/

/-- An entry is found under its name. -/
theorem get?_eq_some_iff {t : Table α} {key : String} {value : α} :
    t.get? key = some value ↔ (key, value) ∈ t.entries := by
  obtain ⟨entries, hnodup⟩ := t
  show lookup? key entries = some value ↔ (key, value) ∈ entries
  induction entries with
  | nil => simp [lookup?]
  | cons entry rest ih =>
    obtain ⟨hentry, hrest⟩ := List.nodup_cons.mp hnodup
    unfold lookup?
    by_cases heq : entry.1 = key
    · rw [if_pos heq, Option.some.injEq, List.mem_cons]
      constructor
      · rintro rfl
        exact Or.inl (by rw [← heq])
      · rintro (rfl | hmem)
        · rfl
        · -- the key does not come again
          exact absurd (List.mem_map_of_mem (f := Prod.fst) hmem) (heq ▸ hentry)
    · rw [if_neg heq, ih hrest, List.mem_cons]
      have hne : (key, value) ≠ entry := by
        rintro rfl
        exact heq rfl
      simp [hne]

/-- What holds of all entries holds of them with one that is written. -/
theorem forall_get?_insert {Q : String → α → Prop} {t : Table α} {key : String} {value : α}
    (ht : ∀ name a, t.get? name = some a → Q name a) (hnew : Q key value) :
    ∀ name a, (t.insert key value).get? name = some a → Q name a := by
  intro name a ha
  by_cases hname : name = key
  · rw [hname, get?_insert_self, Option.some.injEq] at ha
    rw [hname, ← ha]
    exact hnew
  · rw [get?_insert_of_ne _ hname] at ha
    exact ht name a ha

end PulseTrain.Table
