import PulseTrain.Proofs.Decimal.Arithmetic
import PulseTrain.Proofs.Scan.TimeOrder

/-! # The sample of a time

    At a positive finite rate a later time has no earlier sample, and equal times have one sample,
    whatever the sign of a zero.

    * **Times**: `Duration.NoLater`, the order of two times that are numbers;
    * **Samples**: `ofDuration_ok` says what the sample of a time is, `ofDuration_mono` and
      `ofDuration_congr` compare those of two times.
-/

namespace PulseTrain

open Decimal

/-! ## Times -/

namespace Duration

/-- A time that is at or before another, both being numbers. -/
def NoLater (a b : Duration) : Prop := a.seconds ≤ b.seconds

instance (a b : Duration) : Decidable (a.NoLater b) := inferInstanceAs (Decidable (_ ≤ _))

variable {a b c d : Duration}

theorem NoLater.refl (h : a.IsNumber) : a.NoLater a := le_refl_of_isNaN h

theorem NoLater.add (hab : a.NoLater b) (hcd : c.NoLater d) (h : (a + c).IsNumber)
    (h' : (b + d).IsNumber) : (a + c).NoLater (b + d) :=
  Decimal.add_le_add hab hcd h h'

theorem NoLater.sub (hab : a.NoLater b) (h : (a - c).IsNumber) (h' : (b - c).IsNumber) :
    (a - c).NoLater (b - c) :=
  Decimal.sub_le_sub_right hab h h'

/-- What is no later does not come after in the order of times. -/
theorem order_ne_gt (h : a.IsNumber → b.IsNumber → a.NoLater b) : a.order b ≠ .gt := by
  have hlt : ¬b < a := by
    intro hlt
    obtain ⟨hb, ha⟩ := isNaN_of_lt hlt
    exact not_lt_of_le (h ha hb) hlt
  unfold order
  rw [if_neg hlt]
  split
  · exact Ordering.noConfusion
  · exact Ordering.noConfusion

theorem noLater_iff_value_le (ha : a.IsFinite) (hb : b.IsFinite) :
    a.NoLater b ↔ a.value ≤ b.value := by
  unfold NoLater value
  rw [le_iff_extended_le (isNaN_of_isFinite ha) (isNaN_of_isFinite hb), extended_of_finite ha,
    extended_of_finite hb]
  exact_mod_cast Iff.rfl

end Duration

/-! ## Samples -/

/-- A time has the sample that is nearest to it, if the number of this sample fits into a word. -/
theorem ofDuration_ok {a : Duration} {rate : Float} {n : Samples} :
    Samples.ofDuration a rate = .ok n ↔
      nearestInteger? (a.seconds * rate) = some n ∧ Samples.inRange n = true := by
  unfold Samples.ofDuration
  cases nearestInteger? (a.seconds * rate) with
  | none => simp
  | some m =>
    -- the nearest integer is taken only if it is a number of samples
    by_cases hrange : Samples.inRange m = true
    · simp only [hrange, if_true, Except.ok.injEq, Option.some.injEq]
      exact ⟨fun h => ⟨h, h ▸ hrange⟩, And.left⟩
    · simp only [hrange, Bool.false_eq_true, if_false, reduceCtorEq, Option.some.injEq, false_iff]
      rintro ⟨rfl, hm⟩
      exact hrange hm

/-- The sample of a later time is not an earlier one. -/
theorem ofDuration_mono {a b : Duration} {rate : Float} {m n : Samples}
    (hrate : rate.isFinite = true ∧ 0.0 < rate) (hab : a.IsNumber → b.IsNumber → a.NoLater b)
    (hm : Samples.ofDuration a rate = .ok m) (hn : Samples.ofDuration b rate = .ok n) : m ≤ n := by
  have hnumber : ∀ {c : Duration} {j : Samples},
      nearestInteger? (c.seconds * rate) = some j → c.IsNumber := fun hj =>
    isNaN_of_mul (isNaN_of_isFinite (nearestInteger?_eq.mp hj).1)
  obtain ⟨hx, _⟩ := ofDuration_ok.mp hm
  obtain ⟨hy, _⟩ := ofDuration_ok.mp hn
  have hle := hab (hnumber hx) (hnumber hy)
  exact nearestInteger?_mono (Decimal.mul_le_mul_right hle hrate.1 hrate.2) hx hy

/-- The sign of a zero does not matter to the sample. -/
theorem ofDuration_congr {a b : Duration} {rate : Float} {n : Samples}
    (hrate : rate.isFinite = true ∧ 0.0 < rate) (hab : a.sameTime b = true)
    (hn : Samples.ofDuration b rate = .ok n) : Samples.ofDuration a rate = .ok n := by
  obtain ⟨hnearest, hrange⟩ := ofDuration_ok.mp hn
  have hproduct := mul_eq_mul_right hab hrate.1 hrate.2
  exact ofDuration_ok.mpr ⟨nearestInteger?_congr hproduct hnearest, hrange⟩

/-- The first sample is at time zero. -/
theorem ofDuration_zero {rate : Float} (hrate : rate.isFinite = true ∧ 0.0 < rate) :
    Samples.ofDuration .zero rate = .ok 0 := by
  have hproduct : (0.0 * rate == 0.0) = true := by
    obtain ⟨hnumber, hvalue⟩ := extended_mul (x := 0.0) (by decide +kernel) hrate.1 hrate.2
    rw [beq_zero_iff hnumber, hvalue, extended_zero, zero_mul]
    exact (if_pos le_rfl).trans roundNonneg_zero
  exact ofDuration_ok.mpr ⟨nearestInteger?_congr hproduct (by decide +kernel), by decide⟩

end PulseTrain
