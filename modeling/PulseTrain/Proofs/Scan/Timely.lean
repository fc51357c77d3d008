import PulseTrain.Proofs.Decimal.Unsigned
import PulseTrain.Proofs.Scan.Reach
import PulseTrain.Proofs.Scan.Requests

/-! # Times that stay at or after zero

    Where no value is put in, no pulse becomes longer, and the walk moves pulses by sums of
    differences of a time and itself. Such a difference is zero, or NaN if the time is infinite, and
    so no pulse is moved to a time before zero. Neither does an iteration of a loop begin before
    zero. So a point without a value cannot fail because of a negative time, and what is left is
    that a time has no sample or that pulses overlap.

    * **Times**: `Pulse.Timely` and `Sequence.Timely` have no negative times;
    * **Step**: `Walk.Timely.step`, whatever has been visited before;
    * **Run**: `played_timely`, for all pulses of a point;
    * **Result**: `buildTimeline_failsOnly` for a point, and `buildAll_error` for the points of a
      scan.
-/

namespace PulseTrain

open Decimal

/-! ## Times -/

namespace Duration

variable {a b : Duration}

theorem isNegative_eq_false_iff : a.isNegative = false ↔ ¬a.seconds < 0.0 := by
  unfold isNegative
  rw [decide_eq_false_iff_not]

theorem isNegative_zero : zero.isNegative = false := by decide +kernel

/-- The sign of a zero does not matter. -/
theorem isNegative_congr (h : a.sameTime b = true) (hb : b.isNegative = false) :
    a.isNegative = false := by
  obtain ⟨han, hbn⟩ := isNaN_of_beq h
  rw [isNegative_eq_false_iff, not_negative_iff] at hb ⊢
  intro _
  rw [(beq_iff_extended_eq han hbn).mp h]
  exact hb hbn

theorem isNegative_add (ha : a.isNegative = false) (hb : b.isNegative = false) :
    (a + b).isNegative = false := by
  rw [isNegative_eq_false_iff] at ha hb ⊢
  exact not_negative_add ha hb

theorem isNegative_sub (h : ¬a < b) : (a - b).isNegative = false :=
  isNegative_eq_false_iff.mpr (not_negative_sub h)

/-- A time less itself is zero or NaN. -/
theorem isNegative_sub_self (a : Duration) : (a - a).isNegative = false := by
  apply isNegative_sub
  intro hlt
  obtain ⟨ha, _⟩ := isNaN_of_lt hlt
  exact not_lt_of_le (le_refl_of_isNaN ha) hlt

theorem isNegative_mul_ofNat (ha : a.isNegative = false) (n : ℕ) :
    (a * Float.ofNat n).isNegative = false := by
  rw [isNegative_eq_false_iff] at ha ⊢
  exact not_negative_mul_ofNat ha n

end Duration

open Duration

/-- A pulse whose start and duration are not negative. NaN is not negative, nor is an infinity. -/
structure Pulse.Timely (p : Pulse) : Prop where
  starts : p.timing.isNegative = false
  lasts : p.duration.isNegative = false

/-- A sequence of such pulses, whose loops do not run backwards. -/
structure Sequence.Timely (s : Sequence) : Prop where
  pulses : ∀ p ∈ s.pulses, p.Timely
  loops : ∀ l ∈ s.loops, l.period.isNegative = false ∧ ∀ p ∈ l.pulses, p.Timely

namespace Scan

variable {s : Sequence} {settings : BuildSettings} {p : Pulse} {rate : Float} {k : ℕ}

/-! ## Step -/

/-- A walk that moves no pulse backwards. -/
structure Walk.Timely (w : Walk) : Prop where
  shift : w.shift.isNegative = false
  presentShift : w.presentShift.isNegative = false

theorem Walk.Timely.start : Walk.start.Timely := ⟨isNegative_zero, isNegative_zero⟩

theorem Walk.Timely.arrive {w : Walk} (h : w.Timely) (time : Duration) :
    (w.arrive time).Timely := by
  constructor
  · rw [shift_arrive]
    exact h.shift
  · rw [presentShift_arrive]
    split
    · exact h.presentShift
    · exact h.shift

/-- **Step**: a visit of a pulse as it is described adds nothing negative to the shift, and the
    shift with which it moves the pulse is not negative. -/
theorem Walk.Timely.step {w : Walk} (h : w.Timely) (i : ℕ) (hp : p.Timely) :
    (w.step ⟨i, p, p⟩).1.Timely ∧ (w.step ⟨i, p, p⟩).2.Timely := by
  have harrive := h.arrive p.timing
  have hgrowth := isNegative_sub_self p.duration
  simp only [Walk.step]
  by_cases hbinds : p.binds .timing = true
  · -- the shift begins anew, with the difference of a time and itself
    rw [if_pos hbinds]
    refine ⟨⟨?_, harrive.presentShift⟩, hp⟩
    exact isNegative_add (isNegative_sub_self p.timing) hgrowth
  · rw [if_neg hbinds]
    refine ⟨⟨isNegative_add harrive.shift hgrowth, harrive.presentShift⟩, ?_⟩
    by_cases hfixed : p.isFixed = true
    · simp only [if_pos hfixed]
      exact hp
    · simp only [if_neg hfixed]
      exact ⟨isNegative_add hp.starts harrive.presentShift, hp.lasts⟩

/-! ## Run -/

theorem moved_timely (h : s.Timely) : ∀ q ∈ moved s none, q.Timely := by
  have hmoved : List.Forall₂ (fun _ q => q.Timely) s.pulses (moved s none) :=
    moveAlong_forall₂_of_invariant s.pulses (bindTo none) Walk.Timely.start
      fun w i p hp hw => hw.step i (h.pulses p hp)
  intro q hq
  obtain ⟨i, hi, rfl⟩ := List.getElem_of_mem hq
  exact hmoved.get (hmoved.length_eq ▸ hi) hi

theorem unrolled_timely (h : s.Timely) : ∀ q ∈ unrolled s none, q.Timely := by
  intro q hq
  obtain ⟨l, hl, hq⟩ := List.mem_flatMap.mp hq
  obtain ⟨i, _, hq⟩ := List.mem_flatMap.mp hq
  obtain ⟨p, hp, rfl⟩ := List.mem_map.mp hq
  obtain ⟨hperiod, hpulses⟩ := h.loops l hl
  refine ⟨?_, (hpulses p hp).lasts⟩
  exact isNegative_add (hpulses p hp).starts (isNegative_mul_ofNat hperiod i)

/-- **Run**: no pulse of a point without a value has a negative time. -/
theorem played_timely (h : s.Timely) : ∀ q ∈ played s settings none, q.Timely := by
  intro q hq
  rcases List.mem_append.mp hq with hq | hq
  · exact moved_timely h q hq
  · split at hq
    · exact unrolled_timely h q hq
    · cases hq

/-! ## Result -/

/-- The errors of a point that have nothing to do with negative times. -/
inductive ScanError.Unavoidable (k : ℕ) : ScanError → Prop where
  | offGrid (pulse : String) (overflow : OffGrid) : Unavoidable k (.pulseOffGrid k pulse overflow)
  | overlap (channel : UInt16) (first second : String) (firstEnd secondStart : Samples) :
      Unavoidable k (.overlap k channel first second firstEnd secondStart)

/-- **Point**: a point without a value fails because a time has no sample or pulses overlap. -/
theorem buildTimeline_failsOnly (h : s.Timely) (length : Samples) :
    FailsOnly (ScanError.Unavoidable k) (buildTimeline s settings length k none).result := by
  refine buildTimeline_failsOnly_of ?_ ScanError.Unavoidable.overlap length
  rw [placeAll_eq]
  refine .mapM fun q hq => ?_
  obtain ⟨hstarts, hlasts⟩ := played_timely h q hq
  refine place_failsOnly_of q ?_ ?_ (.offGrid q.name)
  · intro hnegative
    rw [hstarts] at hnegative
    cases hnegative
  · intro hnegative
    rw [hlasts] at hnegative
    cases hnegative

/-- A scan that fails has not been started or has come to a point that fails. -/
theorem buildAll_error {e : ScanError} (h : (buildAll s settings).result = .error e) :
    Scan.start? s settings = .error e ∨ ∃ length k, k < pointCount s ∧
      (buildTimeline s settings length k (valueOf? s k)).result = .error e := by
  unfold buildAll at h
  cases hstart : Scan.start? s settings with
  | error e' =>
    rw [hstart] at h
    cases h
    exact .inl rfl
  | ok scan =>
    rw [hstart] at h
    obtain ⟨hover, hindex⟩ := over_points hstart
    obtain ⟨notes, result, _, hcollects, _, hcollect⟩ := hover.collect_eq
    rw [hindex] at hcollects
    simp only [hcollect] at h
    obtain ⟨j, point, hfirst⟩ := (hcollects.eq_error_iff e).mp h
    -- the table has the point of each index in its place
    obtain ⟨hj, hpoint⟩ := List.getElem?_eq_some_iff.mp hfirst.point_eq
    unfold points at hj hpoint
    rw [List.length_map, List.length_range] at hj
    rw [List.getElem_map, List.getElem_range] at hpoint
    refine .inr ⟨scan.length, j, hj, ?_⟩
    rw [hpoint]
    exact hfirst.fails

end Scan

end PulseTrain
