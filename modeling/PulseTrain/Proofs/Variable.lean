import Mathlib.Data.List.Induction
import Mathlib.Data.List.ReduceOption
import PulseTrain.Variable

/-! # Walks over the values of a variable

    A walk returns the values of a variable one by one and may be sent back to the start at any
    time. Only the calls since then count: the walk has gone through the scan points in their order
    and stands still at the end, and how many values are to come is known throughout.

    * **Values**: there is one for each step, `valueAt?_isSome_iff`;
    * **Step**: `Cursor.next_cases` says all that asking for a value can do, and what it does to
      the values to come;
    * **Run**: `History` records the answers since the last return to the start, and
      `tracks_history` says what they are after any calls;
    * **Collection**: `Cursor.Gives` asks until there is no value, which comes to the values of all
      points, `gives_iff` and `getElem?_rest`;
    * **Result**: `restartable`.
-/

namespace PulseTrain.Variable

variable {v : Variable} {w : Cursor}

/-! ## Values -/

/-- There is a value for each of the steps of a variable. -/
theorem valueAt?_isSome_iff (v : Variable) (k : ℕ) :
    (v.valueAt? k).isSome = true ↔ k < v.size := by
  unfold valueAt?
  split
  · simp only [Option.isSome_none, Bool.false_eq_true, false_iff]
    omega
  · split
    · simp only [Option.isSome_some, true_iff]
      omega
    · split
      · simp only [Option.isSome_some, true_iff]
        omega
      · simp only [Option.isSome_some, true_iff]
        omega

theorem valueAt?_eq_none_iff (v : Variable) (k : ℕ) : v.valueAt? k = none ↔ v.size ≤ k := by
  rw [← Option.not_isSome_iff_eq_none, valueAt?_isSome_iff, Nat.not_lt]

/-- A single step is the start. -/
theorem valueAt?_single (h : v.size = 1) : v.valueAt? 0 = some v.start := by
  unfold valueAt?
  rw [if_neg (by omega), if_pos h]

/-- The last of several steps is the stop, whatever the ones before it are rounded to. -/
theorem valueAt?_last (h : 2 ≤ v.size) : v.valueAt? (v.size - 1) = some v.stop := by
  unfold valueAt?
  rw [if_neg (by omega), if_neg (by omega), if_pos rfl]

/-! ## Steps -/

/-- **Step**: a walk returns the value at its index and moves on, or it is at the end and stays. -/
theorem Cursor.next_cases (w : Cursor) :
    (∃ x, w.index < w.source.size ∧ w.source.valueAt? w.index = some x ∧
      w.next = (some x, ⟨w.source, w.index + 1⟩) ∧
      w.rest = x :: (Cursor.mk w.source (w.index + 1)).rest) ∨
    (w.source.size ≤ w.index ∧ w.next = (none, w) ∧ w.rest = []) := by
  cases hvalue : w.source.valueAt? w.index with
  | some x =>
    have hlt : w.index < w.source.size := by
      rw [← valueAt?_isSome_iff, hvalue]
      rfl
    -- a value that is given leaves one fewer to come
    have hremaining : w.remaining = (Cursor.mk w.source (w.index + 1)).remaining + 1 := by
      unfold Cursor.remaining
      simp only
      omega
    refine .inl ⟨x, hlt, rfl, ?_, ?_⟩
    · unfold Cursor.next
      rw [hvalue]
    · unfold Cursor.rest
      rw [hremaining, List.range'_succ, List.filterMap_cons_some hvalue]
  | none =>
    have hge : w.source.size ≤ w.index := (valueAt?_eq_none_iff _ _).mp hvalue
    refine .inr ⟨hge, ?_, ?_⟩
    · unfold Cursor.next
      rw [hvalue]
    · unfold Cursor.rest Cursor.remaining
      rw [Nat.sub_eq_zero_of_le hge]
      rfl

/-! ## Runs -/

/-- What a walk can be asked to do. -/
inductive Call where
  | next
  | rewind

/-- A walk with its answers since it began or was last sent back. -/
structure History where
  walk : Cursor
  answers : List (Option Float)

/-- The history after one more call. -/
def History.call (h : History) : Call → History
  | .next => ⟨h.walk.next.2, h.answers ++ [h.walk.next.1]⟩
  | .rewind => ⟨h.walk.rewind, []⟩

/-- The history of a walk over the values after some calls. -/
def history (v : Variable) (calls : List Call) : History :=
  calls.foldl History.call ⟨v.cursor, []⟩

/-- The number of values among the answers. -/
def History.returned (h : History) : ℕ := h.answers.reduceOption.length

variable {h : History}

/-- The answers are those for the points from the first on, and the index keeps count of them up to
    the end. -/
structure Tracks (v : Variable) (h : History) : Prop where
  source : h.walk.source = v
  index : h.walk.index = min h.answers.length v.size
  answers : h.answers = (List.range h.answers.length).map v.valueAt?

/-- The next answer is that for the point after those that have been answered, also at the end,
    where there is no value for it. -/
theorem Tracks.next_eq (htracks : Tracks v h) :
    h.walk.next = (v.valueAt? h.answers.length, ⟨v, min (h.answers.length + 1) v.size⟩) := by
  obtain ⟨⟨source, index⟩, answers⟩ := h
  obtain ⟨rfl, hindex, _⟩ := htracks
  simp only at hindex ⊢
  obtain ⟨x, hlt, hvalue, hnext, _⟩ | ⟨hend, hnext, _⟩ := (Cursor.mk source index).next_cases
  · -- before the end all answers were values, and the index has counted every one of them
    simp only at hlt hvalue
    have hlength : answers.length = index := by omega
    have hmoved : min (index + 1) source.size = index + 1 := by omega
    rw [hnext, hlength, hvalue, hmoved]
  · -- at the end the answers may be more than the points
    simp only at hend
    have hnone : source.valueAt? answers.length = none := by
      rw [valueAt?_eq_none_iff]
      omega
    have hstays : min (answers.length + 1) source.size = index := by omega
    rw [hnext, hnone, hstays]

/-- **Step**: every call keeps track. -/
theorem Tracks.call (htracks : Tracks v h) (call : Call) : Tracks v (h.call call) := by
  cases call with
  | rewind => exact ⟨htracks.source, (Nat.zero_min _).symm, rfl⟩
  | next =>
    simp only [History.call, htracks.next_eq]
    refine ⟨rfl, ?_, ?_⟩
    · rw [List.length_append, List.length_singleton]
    · rw [List.length_append, List.length_singleton, List.range_succ, List.map_append,
        ← htracks.answers, List.map_singleton]

/-- **Run**: the history keeps track of any calls. -/
theorem tracks_history (v : Variable) (calls : List Call) : Tracks v (v.history calls) := by
  -- from the last call backwards, since the history is put together from the first one on
  induction calls using List.reverseRecOn with
  | nil => exact ⟨rfl, (Nat.zero_min _).symm, rfl⟩
  | append_singleton calls call ih =>
    unfold history at ih ⊢
    rw [List.foldl_append]
    exact ih.call call

/-- Among the answers for the first points are as many values as there are points. -/
theorem length_reduceOption_values (v : Variable) (n : ℕ) :
    ((List.range n).map v.valueAt?).reduceOption.length = min n v.size := by
  induction n with
  | zero => simp
  | succ n ih =>
    rw [List.range_succ, List.map_append, List.reduceOption_append, List.length_append, ih]
    by_cases hn : n < v.size
    · obtain ⟨x, hx⟩ := Option.isSome_iff_exists.mp ((valueAt?_isSome_iff v n).mpr hn)
      simp [hx]
      omega
    · have hnone := (valueAt?_eq_none_iff v n).mpr (Nat.not_lt.mp hn)
      simp [hnone]
      omega

/-- The index is the number of values that have been returned. -/
theorem Tracks.index_eq (htracks : Tracks v h) : h.walk.index = h.returned := by
  rw [History.returned, htracks.answers, length_reduceOption_values]
  exact htracks.index

/-! ## Collection -/

/-- A walk gives some values if it is asked for one after the other until there is none. -/
inductive Cursor.Gives : Cursor → List Float → Prop where
  | done {w : Cursor} (hnext : w.next.1 = none) : Gives w []
  | more {w w' : Cursor} {x : Float} {xs : List Float} (hnext : w.next = (some x, w'))
      (hrest : Gives w' xs) : Gives w (x :: xs)

theorem Cursor.Gives.eq_rest {xs : List Float} (hgives : w.Gives xs) : xs = w.rest := by
  induction hgives with
  | @done w hnone =>
    obtain ⟨x, _, _, hnext, _⟩ | ⟨_, _, hrest⟩ := w.next_cases
    · rw [hnext] at hnone
      cases hnone
    · exact hrest.symm
  | @more w w' x xs hsome _ ih =>
    obtain ⟨x', _, _, hnext, hrest⟩ | ⟨_, hnext, _⟩ := w.next_cases
    · rw [hnext] at hsome
      cases hsome
      rw [hrest, ih]
    · rw [hnext] at hsome
      cases hsome

theorem Cursor.gives_rest (w : Cursor) : w.Gives w.rest := by
  generalize hvalues : w.rest = values
  -- by induction on the values to come, in step with the calls that give them
  induction values generalizing w with
  | nil =>
    obtain ⟨x, _, _, _, hrest⟩ | ⟨_, hnext, _⟩ := w.next_cases
    · rw [hrest] at hvalues
      cases hvalues
    · exact .done (by rw [hnext])
  | cons x values ih =>
    obtain ⟨x', _, _, hnext, hrest⟩ | ⟨_, _, hrest⟩ := w.next_cases
    · rw [hrest] at hvalues
      cases hvalues
      exact .more hnext (ih _ rfl)
    · rw [hrest] at hvalues
      cases hvalues

/-- What a walk gives are the values to come, and nothing else. -/
theorem Cursor.gives_iff {xs : List Float} : w.Gives xs ↔ xs = w.rest := by
  constructor
  · exact Gives.eq_rest
  · rintro rfl
    exact w.gives_rest

/-- The values to come are those of the points from the index on. -/
theorem Cursor.getElem?_rest (w : Cursor) (k : ℕ) :
    w.rest[k]? = w.source.valueAt? (w.index + k) := by
  induction k generalizing w with
  | zero =>
    obtain ⟨x, _, hvalue, _, hrest⟩ | ⟨hend, _, hrest⟩ := w.next_cases
    · rw [hrest]
      exact hvalue.symm
    · rw [hrest]
      exact ((valueAt?_eq_none_iff _ _).mpr hend).symm
  | succ k ih =>
    obtain ⟨x, _, _, _, hrest⟩ | ⟨hend, _, hrest⟩ := w.next_cases
    · rw [hrest, List.getElem?_cons_succ, ih, Nat.add_right_comm, Nat.add_assoc]
    · rw [hrest, (valueAt?_eq_none_iff _ _).mpr (Nat.le_add_right_of_le hend)]
      rfl

/-- There are as many values to come as the walk says. -/
theorem Cursor.length_rest (w : Cursor) : w.rest.length = w.remaining := by
  unfold rest
  rw [List.filterMap_length_eq_length.mpr, List.length_range']
  intro k hk
  rw [valueAt?_isSome_iff]
  rw [List.mem_range'_1] at hk
  unfold remaining at hk
  omega

/-! ## Result -/

/-- What a walk over the values promises after any calls. -/
structure Exact (v : Variable) (h : History) : Prop where
  /-- The `k`-th answer since the start is the value of the `k`-th point. -/
  answers : ∀ k < h.answers.length, h.answers[k]? = some (v.valueAt? k)
  /-- All steps of which no value has been returned are to come. -/
  remaining : h.walk.remaining = v.size - h.returned
  index_eq : h.walk.index = h.returned
  index_le : h.walk.index ≤ v.size
  /-- As many answers as there are steps exhaust the values. -/
  exhausted : v.size ≤ h.answers.length → h.walk.index = v.size
  /-- At the end there is no value, and the walk stays where it is. -/
  stays : h.walk.index = v.size → h.walk.next = (none, h.walk)

theorem Tracks.exact (htracks : Tracks v h) : Exact v h where
  answers k hk := by
    have hget : h.answers[k]? = ((List.range h.answers.length).map v.valueAt?)[k]? := by
      rw [← htracks.answers]
    rw [hget, List.getElem?_map, List.getElem?_range hk]
    rfl
  remaining := by
    unfold Cursor.remaining
    rw [htracks.source, htracks.index_eq]
  index_eq := htracks.index_eq
  index_le := by
    rw [htracks.index]
    exact Nat.min_le_right _ _
  exhausted hlength := by
    rw [htracks.index]
    exact Nat.min_eq_right hlength
  -- at the end another call gives nothing and moves nothing
  stays hend := by
    obtain ⟨_, hlt, _, _⟩ | ⟨_, hnext, _⟩ := h.walk.next_cases
    · rw [htracks.source] at hlt
      omega
    · exact hnext

/-- What the values of a variable promise to whoever walks over them. -/
structure Restartable (v : Variable) : Prop where
  /-- The history of any calls is exact. -/
  run : ∀ calls, Exact v (v.history calls)
  /-- Asking until there is no value gives the values of a walk that has not begun. -/
  collected : ∀ values, v.cursor.Gives values ↔ values = v.cursor.rest
  value : ∀ k, v.cursor.rest[k]? = v.valueAt? k
  length : v.cursor.rest.length = v.size
  single : v.size = 1 → v.cursor.rest.head? = some v.start
  last : 2 ≤ v.size → v.cursor.rest.getLast? = some v.stop

/-- **Restartable**: a walk goes through the points in their order, and from the first one again
    whenever it is sent back. -/
theorem restartable (v : Variable) : v.Restartable := by
  -- a cursor that has not moved gives the values from the first on
  have hvalue : ∀ k, v.cursor.rest[k]? = v.valueAt? k := by
    intro k
    rw [Cursor.getElem?_rest]
    exact congrArg v.valueAt? (Nat.zero_add k)
  have hlength : v.cursor.rest.length = v.size := v.cursor.length_rest
  exact {
    run := fun calls => (tracks_history v calls).exact
    collected := fun _ => Cursor.gives_iff
    value := hvalue
    length := hlength
    single := by
      intro hsize
      rw [List.head?_eq_getElem?, hvalue, valueAt?_single hsize]
    last := by
      intro hsize
      rw [List.getLast?_eq_getElem?, hlength, hvalue, valueAt?_last hsize] }

/-- The values are exhausted, and the walk begins anew. -/
example :
    let h := history ⟨"gain", 1.0, 0.1, 2, .voltage⟩ [.next, .rewind, .next, .next, .next]
    h.answers = [some 1.0, some 0.1, none] ∧ h.walk.index = 2 ∧
      (h.call .rewind).walk.remaining = 2 := by
  decide +kernel

end PulseTrain.Variable
