import Mathlib.Data.List.DropRight
import PulseTrain.Proofs.Decimal.Arithmetic
import PulseTrain.Proofs.Scan.TimeOrder

/-! # The latest of some times

    The latest of some times is found by going through them and keeping the later of two. A NaN is
    neither before nor after any time, so of a NaN and another time the one that comes second is
    kept: a NaN takes the place of what was found before it, and what comes behind it takes its
    place in turn. What is left at the end is the latest of the times behind the last NaN.

    * **Step**: `extent_max` for two numbers, `max_of_not_isNumber_left` and
      `max_of_not_isNumber_right` for a NaN;
    * **Run**: `foldl_max_of_numbers`, a maximum of numbers is one of them and none is later;
    * **Result**: `forall_not_latest_lt_iff`, when it is the latest of all.
-/

namespace PulseTrain.Duration

open Decimal

variable {a b : Duration} {ts : List Duration}

/-! ## Step -/

theorem isNumber_of_lt (h : a < b) : a.IsNumber ∧ b.IsNumber := isNaN_of_lt h

theorem max_of_not_isNumber_left (h : ¬a.IsNumber) (b : Duration) : max a b = b :=
  if_neg fun hlt => h (isNumber_of_lt hlt).2

theorem max_of_not_isNumber_right (a : Duration) (h : ¬b.IsNumber) : max a b = b :=
  if_neg fun hlt => h (isNumber_of_lt hlt).1

/-- The later of two times is one of them. -/
theorem max_eq_or (a b : Duration) : max a b = a ∨ max a b = b := by
  change (if b < a then a else b) = a ∨ (if b < a then a else b) = b
  split
  · exact Or.inl rfl
  · exact Or.inr rfl

theorem isNumber_max (ha : a.IsNumber) (hb : b.IsNumber) : (max a b).IsNumber := by
  rcases max_eq_or a b with h | h
  · rw [h]
    exact ha
  · rw [h]
    exact hb

theorem extent_max (ha : a.IsNumber) (hb : b.IsNumber) :
    (max a b).extent = max a.extent b.extent := by
  change (if b < a then a else b).extent = _
  split
  · next hlt => exact (max_eq_left ((lt_iff_extent_lt hb ha).mp hlt).le).symm
  · next hlt =>
    rw [lt_iff_extent_lt hb ha, not_lt] at hlt
    exact (max_eq_right hlt).symm

/-! ## Run -/

theorem foldl_max_eq_or_mem (ts : List Duration) (a : Duration) :
    ts.foldl max a = a ∨ ts.foldl max a ∈ ts := by
  induction ts generalizing a with
  | nil => exact Or.inl rfl
  | cons t rest ih =>
    rw [List.foldl_cons]
    rcases ih (max a t) with h | h
    · rw [h]
      rcases max_eq_or a t with hmax | hmax
      · exact Or.inl hmax
      · rw [hmax]
        exact Or.inr List.mem_cons_self
    · exact Or.inr (List.mem_cons_of_mem t h)

/-- **Run**: if there is no NaN, no time is after the one that is left. -/
theorem foldl_max_of_numbers (ha : a.IsNumber) (hts : ∀ t ∈ ts, t.IsNumber) :
    (ts.foldl max a).IsNumber ∧ a.extent ≤ (ts.foldl max a).extent ∧
      ∀ t ∈ ts, t.extent ≤ (ts.foldl max a).extent := by
  -- by induction on the times, with the latest one so far
  induction ts generalizing a with
  | nil => exact ⟨ha, le_refl _, fun t ht => by cases ht⟩
  | cons t rest ih =>
    have ht := hts t List.mem_cons_self
    obtain ⟨hnumber, hmax, hrest⟩ := ih (isNumber_max ha ht) fun u hu =>
      hts u (List.mem_cons_of_mem t hu)
    rw [extent_max ha ht, max_le_iff] at hmax
    rw [List.foldl_cons]
    refine ⟨hnumber, hmax.1, ?_⟩
    intro u hu
    rcases List.mem_cons.mp hu with rfl | hu
    · exact hmax.2
    · exact hrest u hu

/-! ## Result -/

/-- The times behind the last one that is NaN. -/
def behindNaN (ts : List Duration) : List Duration := ts.rtakeWhile (·.IsNumber)

theorem isNumber_of_mem_behindNaN {t : Duration} (h : t ∈ behindNaN ts) : t.IsNumber :=
  of_decide_eq_true (List.mem_rtakeWhile_imp (p := fun t : Duration => decide t.IsNumber) h)

theorem not_lt_self (a : Duration) : ¬a < a := by
  intro h
  obtain ⟨ha, _⟩ := isNumber_of_lt h
  exact absurd ((lt_iff_extent_lt ha ha).mp h) (lt_irrefl _)

/-- **Run** from a NaN: what is left is one of the times, and none is after it. -/
theorem foldl_max_of_not_isNumber (ha : ¬a.IsNumber) (hts : ∀ t ∈ ts, t.IsNumber) (hne : ts ≠ []) :
    ts.foldl max a ∈ ts ∧ ∀ t ∈ ts, t.extent ≤ (ts.foldl max a).extent := by
  obtain ⟨t, rest, rfl⟩ := List.exists_cons_of_ne_nil hne
  obtain ⟨_, hfirst, hrest⟩ := foldl_max_of_numbers (hts t List.mem_cons_self) fun u hu =>
    hts u (List.mem_cons_of_mem t hu)
  -- the first time takes the place of what is no number
  rw [List.foldl_cons, max_of_not_isNumber_left ha]
  refine ⟨List.mem_cons.mpr (foldl_max_eq_or_mem rest t), ?_⟩
  intro u hu
  rcases List.mem_cons.mp hu with rfl | hu
  · exact hfirst
  · exact hrest u hu

/-- Either no time is NaN, or what is left is found from a NaN on. -/
theorem foldl_max_cases (ts : List Duration) : behindNaN ts = ts ∨
    ∃ q, ¬q.IsNumber ∧ ts.foldl max zero = (behindNaN ts).foldl max q := by
  have hsplit : ts.rdropWhile (·.IsNumber) ++ behindNaN ts = ts :=
    List.rdropWhile_append_rtakeWhile
  by_cases hnone : ts.rdropWhile (·.IsNumber) = []
  · rw [hnone, List.nil_append] at hsplit
    exact Or.inl hsplit
  · right
    -- the last NaN is what the fold has at this point, whatever stood before it
    have hlast := List.rdropWhile_last_not (fun t : Duration => decide t.IsNumber) ts hnone
    rw [decide_eq_true_eq] at hlast
    refine ⟨_, hlast, ?_⟩
    conv_lhs => rw [← hsplit, List.foldl_append, ← List.dropLast_append_getLast hnone,
      List.foldl_append]
    rw [List.foldl_cons, List.foldl_nil, max_of_not_isNumber_right _ hlast]

/-- **Result**: no time is after the one that is left exactly if each time has one behind the last
    NaN that it is not after, or there is none behind the last NaN. -/
theorem forall_not_latest_lt_iff (ts : List Duration) : (∀ t ∈ ts, ¬ts.foldl max zero < t) ↔
    behindNaN ts = [] ∨ ∀ t ∈ ts, ∃ u ∈ behindNaN ts, ¬u < t := by
  -- behind the last NaN there are only numbers, and they are compared by their extents
  have hbehind : ∀ t ∈ behindNaN ts, t.IsNumber := fun t ht => isNumber_of_mem_behindNaN ht
  rcases foldl_max_cases ts with hall | ⟨q, hq, hlatest⟩
  · -- no NaN among the times: the fold is a maximum in the order of extents
    rw [hall] at hbehind ⊢
    refine iff_of_true ?_ (Or.inr fun t ht => ⟨t, ht, not_lt_self t⟩)
    intro t ht
    obtain ⟨hnumber, _, hle⟩ := foldl_max_of_numbers (a := zero) (by decide +kernel) hbehind
    rw [lt_iff_extent_lt hnumber (hbehind t ht), not_lt]
    exact hle t ht
  · -- a NaN among the times: it swallows all times before it, and the fold begins anew behind it
    by_cases hnone : behindNaN ts = []
    · refine iff_of_true ?_ (Or.inl hnone)
      intro t _ hlt
      rw [hlatest, hnone] at hlt
      exact hq (isNumber_of_lt hlt).1
    · obtain ⟨hmem, hle⟩ := foldl_max_of_not_isNumber hq hbehind hnone
      rw [← hlatest] at hmem hle
      constructor
      · intro h
        exact Or.inr fun t ht => ⟨_, hmem, h t ht⟩
      · intro h t ht hlt
        obtain ⟨u, hu, hnot⟩ := (h.resolve_left hnone) t ht
        obtain ⟨hnumber, htNumber⟩ := isNumber_of_lt hlt
        rw [lt_iff_extent_lt (hbehind u hu) htNumber, not_lt] at hnot
        rw [lt_iff_extent_lt hnumber htNumber] at hlt
        exact absurd (hnot.trans (hle u hu)) (not_le.mpr hlt)

end PulseTrain.Duration
