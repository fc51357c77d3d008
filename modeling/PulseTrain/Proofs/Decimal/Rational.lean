import Mathlib.Algebra.Order.Field.Power
import Mathlib.Algebra.Order.Ring.Rat
import Mathlib.Tactic.Positivity
import Mathlib.Tactic.Ring
import PulseTrain.Duration

/-! # The rational value of a double

    A finite double stands for a rational number, and `rational` is this number. Doubles are
    compared by exponent and significand, which for the canonical form in which they are kept
    is the comparison of the numbers.

    * **Canonical form**: `canonical_of_unpack`, a case for each kind of double;
    * **Order**: `compare_unpack`, with `lt_iff_rational_lt` and `beq_iff_rational_eq` as the two
      comparisons that are used.
-/

namespace PulseTrain.Decimal

open Float.Model Float.Model.UnpackedFloat

/-! ## The value -/

/-- The number with its sign, as a fraction. -/
def Binary.toRat (b : Binary) : ℚ :=
  mkRat (if b.negative then -(b.numerator : ℤ) else b.numerator) b.denominator

/-- The number for which a finite double stands. Infinities and NaN stand for none, and count as
    zero. -/
def rational (x : Float) : ℚ := ((Binary.ofFloat? x).map Binary.toRat).getD 0

/-- The magnitude is the significand scaled by the power of two, whatever its sign. -/
theorem Binary.toRat_eq (b : Binary) :
    b.toRat = (if b.negative then -1 else 1) * (b.significand * 2 ^ b.exponent) := by
  have hfrac : (b.numerator : ℚ) / b.denominator = b.significand * 2 ^ b.exponent := by
    unfold numerator denominator
    -- the power of two stands above or below the line of the fraction
    rcases Int.le_total 0 b.exponent with h | h
    · obtain ⟨n, hn⟩ := Int.eq_ofNat_of_zero_le h
      rw [hn]
      simp
    · obtain ⟨n, hn⟩ := Int.eq_ofNat_of_zero_le (by omega : 0 ≤ -b.exponent)
      rw [hn, show b.exponent = -(n : ℤ) by omega]
      simp [div_eq_mul_inv]
  unfold toRat
  rw [Rat.mkRat_eq_div, ← hfrac]
  split
  · push_cast
    ring
  · push_cast
    ring

theorem rational_of_zero {x : Float} {s} (h : x.toModel.unpack = .zero s) : rational x = 0 := by
  unfold rational Binary.ofFloat?
  rw [h]
  cases s with
  | positive => exact (Binary.toRat_eq _).trans (by simp)
  | negative => exact (Binary.toRat_eq _).trans (by simp)

theorem rational_of_positive {x : Float} {m e h} (hu : x.toModel.unpack = .finite .positive m e h) :
    rational x = m * 2 ^ e := by
  unfold rational Binary.ofFloat?
  rw [hu]
  exact (Binary.toRat_eq _).trans (by simp)

theorem rational_of_negative {x : Float} {m e h} (hu : x.toModel.unpack = .finite .negative m e h) :
    rational x = -(m * 2 ^ e) := by
  unfold rational Binary.ofFloat?
  rw [hu]
  exact (Binary.toRat_eq _).trans (by simp)

example : rational 0.75 = 3 / 4 := by decide +kernel

/-! ## Canonical form -/

/-- A significand and an exponent in the form in which a double keeps them: the significand has at
    most 53 bits, and exactly 53 unless the exponent is the least. -/
structure Canonical (m : ℕ) (e : ℤ) : Prop where
  pos : 0 < m
  lt : m < 2 ^ 53
  least : -1074 ≤ e
  full : 2 ^ 52 ≤ m ∨ e = -1074

/-- Doubles are kept in canonical form. -/
theorem canonical_of_unpack {v : Float.Model} {s m e h} (hu : v.unpack = .finite s m e h) :
    Canonical m e := by
  unfold Float.Model.unpack UnpackedFloat.unpack at hu
  dsimp only at hu
  by_cases hones : @unpackExponent Format.binary64 v.toBits.toBitVec = -1#_
  · -- all bits of the exponent set: an infinity or NaN
    rw [if_pos hones] at hu
    by_cases hmantissa : @unpackMantissa Format.binary64 v.toBits.toBitVec = 0#_
    · rw [if_pos hmantissa] at hu
      cases hu
    · rw [if_neg hmantissa] at hu
      cases hu
  · rw [if_neg hones] at hu
    by_cases hzero : @unpackExponent Format.binary64 v.toBits.toBitVec = 0#_
    · rw [if_pos hzero] at hu
      by_cases hmantissa : @unpackMantissa Format.binary64 v.toBits.toBitVec = 0#_
      · rw [dif_pos hmantissa] at hu
        cases hu
      · -- a subnormal number has the least exponent
        rw [dif_neg hmantissa] at hu
        cases hu
        have hbits := (@unpackMantissa Format.binary64 v.toBits.toBitVec).isLt
        simp only at hbits
        refine ⟨h, by omega, ?_, Or.inr ?_⟩
        · rw [hzero]
          decide
        · rw [hzero]
          decide
    · rw [if_neg hzero] at hu
      cases hu
      -- a normal number has the leading bit put back
      have hexp : (@unpackExponent Format.binary64 v.toBits.toBitVec).toNat ≠ 0 := by
        intro hz
        exact hzero (BitVec.eq_of_toNat_eq (by simpa using hz))
      refine ⟨h, ?_, ?_, Or.inl ?_⟩
      · exact (1#1 ++ @unpackMantissa Format.binary64 v.toBits.toBitVec).isLt
      · have hbias : ((Format.exponentBias .binary64 : ℕ) : ℤ) = 1023 := by decide
        show (-1074 : ℤ) ≤ _ - ((Format.exponentBias .binary64 : ℕ) + (52 : ℕ) : ℤ)
        rw [hbias]
        omega
      · rw [BitVec.toNat_append]
        exact Nat.left_le_or

/-- A smaller exponent means a smaller number, as the significand of the larger one is full. -/
theorem Canonical.lt_of_exponent_lt {m n : ℕ} {e f : ℤ} (hm : Canonical m e) (hn : Canonical n f)
    (hef : e < f) : (m : ℚ) * 2 ^ e < n * 2 ^ f := by
  -- the larger exponent is not the least one, so its significand has the leading bit
  have hfull : 2 ^ 52 ≤ n := hn.full.resolve_right (by have := hm.least; omega)
  have hpow : (0 : ℚ) < 2 ^ e := by positivity
  calc (m : ℚ) * 2 ^ e < 2 ^ 53 * 2 ^ e := by
        apply mul_lt_mul_of_pos_right _ hpow
        exact_mod_cast hm.lt
    _ = 2 ^ 52 * 2 ^ (e + 1) := by rw [zpow_add₀ (by norm_num)]; ring
    _ ≤ 2 ^ 52 * 2 ^ f := by
        apply mul_le_mul_of_nonneg_left _ (by positivity)
        exact zpow_le_zpow_right₀ (by norm_num) (by omega)
    _ ≤ n * 2 ^ f := by
        apply mul_le_mul_of_nonneg_right _ (by positivity)
        exact_mod_cast hfull

/-- Canonical numbers are ordered by their exponents, then by their significands. -/
theorem compare_canonical {m₁ m₂ : ℕ} {e₁ e₂ : ℤ} (h₁ : Canonical m₁ e₁) (h₂ : Canonical m₂ e₂) :
    (compare e₁ e₂).then (compare m₁ m₂) = compare ((m₁ : ℚ) * 2 ^ e₁) (m₂ * 2 ^ e₂) := by
  -- a canonical number of a smaller exponent is smaller whatever its significand
  rcases lt_trichotomy e₁ e₂ with h | h | h
  · rw [compare_lt_iff_lt.mpr h, compare_lt_iff_lt.mpr (h₁.lt_of_exponent_lt h₂ h)]
    rfl
  · subst h
    have hpow : (0 : ℚ) < 2 ^ e₁ := by positivity
    rw [compare_eq_iff_eq.mpr rfl]
    show compare m₁ m₂ = _
    rcases lt_trichotomy m₁ m₂ with hm | hm | hm
    · rw [compare_lt_iff_lt.mpr hm, compare_lt_iff_lt.mpr]
      exact mul_lt_mul_of_pos_right (by exact_mod_cast hm) hpow
    · subst hm
      rw [compare_eq_iff_eq.mpr rfl, compare_eq_iff_eq.mpr rfl]
    · rw [compare_gt_iff_gt.mpr hm, compare_gt_iff_gt.mpr]
      exact mul_lt_mul_of_pos_right (by exact_mod_cast hm) hpow
  · rw [compare_gt_iff_gt.mpr h, compare_gt_iff_gt.mpr (h₂.lt_of_exponent_lt h₁ h)]
    rfl

/-! ## Order -/

/-- Negation turns a comparison around. -/
theorem swap_compare (a b : ℚ) : (compare a b).swap = compare (-a) (-b) := by
  rcases lt_trichotomy a b with hlt | rfl | hgt
  · rw [compare_lt_iff_lt.mpr hlt, compare_gt_iff_gt.mpr (neg_lt_neg hlt)]
    rfl
  · rw [compare_eq_iff_eq.mpr rfl, compare_eq_iff_eq.mpr rfl]
    rfl
  · rw [compare_gt_iff_gt.mpr hgt, compare_lt_iff_lt.mpr (neg_lt_neg hgt)]
    rfl

/-- Finite doubles are compared as the numbers they stand for. -/
theorem compare_unpack {x y : Float} (hx : x.isFinite = true) (hy : y.isFinite = true) :
    x.toModel.unpack.compare y.toModel.unpack = some (compare (rational x) (rational y)) := by
  have pos : ∀ {m : ℕ} {e : ℤ}, 0 < m → (0 : ℚ) < m * 2 ^ e := by
    intro m e hm
    have : (0 : ℚ) < m := by exact_mod_cast hm
    positivity
  change x.toModel.unpack.isFinite = true at hx
  change y.toModel.unpack.isFinite = true at hy
  -- unpacked doubles are compared by sign, exponent and significand, so every pair of signs
  -- is a case of its own
  match hu : x.toModel.unpack, hv : y.toModel.unpack with
  | .notANumber, _ => rw [hu] at hx; cases hx
  | .infinity _, _ => rw [hu] at hx; cases hx
  | _, .notANumber => rw [hv] at hy; cases hy
  | _, .infinity _ => rw [hv] at hy; cases hy
  | .zero _, .zero _ =>
    rw [rational_of_zero hu, rational_of_zero hv, compare_eq_iff_eq.mpr rfl]
    rfl
  | .zero _, .finite .positive m e h =>
    rw [rational_of_zero hu, rational_of_positive hv, compare_lt_iff_lt.mpr (pos h)]
    rfl
  | .zero _, .finite .negative m e h =>
    rw [rational_of_zero hu, rational_of_negative hv,
      compare_gt_iff_gt.mpr (neg_lt_zero.mpr (pos h))]
    rfl
  | .finite .positive m e h, .zero _ =>
    rw [rational_of_positive hu, rational_of_zero hv, compare_gt_iff_gt.mpr (pos h)]
    rfl
  | .finite .negative m e h, .zero _ =>
    rw [rational_of_negative hu, rational_of_zero hv,
      compare_lt_iff_lt.mpr (neg_lt_zero.mpr (pos h))]
    rfl
  | .finite .positive m e h, .finite .negative m' e' h' =>
    rw [rational_of_positive hu, rational_of_negative hv, compare_gt_iff_gt.mpr
      (lt_trans (neg_lt_zero.mpr (pos h')) (pos h))]
    rfl
  | .finite .negative m e h, .finite .positive m' e' h' =>
    rw [rational_of_negative hu, rational_of_positive hv, compare_lt_iff_lt.mpr
      (lt_trans (neg_lt_zero.mpr (pos h)) (pos h'))]
    rfl
  | .finite .positive m e h, .finite .positive m' e' h' =>
    rw [rational_of_positive hu, rational_of_positive hv,
      ← compare_canonical (canonical_of_unpack hu) (canonical_of_unpack hv)]
    rfl
  -- of two negative numbers the one of the larger magnitude is smaller
  | .finite .negative m e h, .finite .negative m' e' h' =>
    rw [rational_of_negative hu, rational_of_negative hv]
    show some ((compare e e').then (compare m m')).swap = _
    rw [compare_canonical (canonical_of_unpack hu) (canonical_of_unpack hv), swap_compare]

/-- One finite double is less than another if its value is. -/
theorem lt_iff_rational_lt {x y : Float} (hx : x.isFinite = true) (hy : y.isFinite = true) :
    x < y ↔ rational x < rational y := by
  show decide ((x.toModel.unpack.compare y.toModel.unpack == some .lt) = true) = true ↔ _
  rw [compare_unpack hx hy, decide_eq_true_iff]
  simp [compare_lt_iff_lt]

/-- Finite doubles are equal as numbers if their values are: the two zeros are. -/
theorem beq_iff_rational_eq {x y : Float} (hx : x.isFinite = true) (hy : y.isFinite = true) :
    (x == y) = true ↔ rational x = rational y := by
  show (x.toModel.unpack.compare y.toModel.unpack == some .eq) = true ↔ _
  rw [compare_unpack hx hy]
  simp

end PulseTrain.Decimal
