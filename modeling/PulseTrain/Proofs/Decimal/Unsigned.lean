import PulseTrain.Proofs.Decimal.Scientific

/-! # Doubles that are not negative

    NaN is not below zero and neither is the negative zero, so a double is not negative exactly if
    it stands for no negative number. Such doubles are closed under sums, under products with
    natural numbers, under halving, and under differences in which no more is taken away than is
    there. In all of these an infinity may turn into NaN, and no result is below zero.

    * `not_negative_iff` says it of the number for which a double stands;
    * `not_negative_add`, `not_negative_sub`, `not_negative_mul_ofNat` and `not_negative_half` are
      the closure.
-/

namespace PulseTrain.Decimal

open Float.Model Float.Model.UnpackedFloat

variable {x y : Float}

/-- A double is below zero exactly if it is a number and stands for a negative one. -/
theorem not_negative_iff : ¬x < 0.0 ↔ (x.isNaN = false → 0 ≤ extended x) := by
  have hzero : (0.0 : Float).isNaN = false := by decide +kernel
  constructor
  · intro h hx
    rw [lt_iff_extended_lt hx hzero, extended_zero] at h
    exact not_lt.mp h
  · intro h hlt
    obtain ⟨hx, _⟩ := isNaN_of_lt hlt
    rw [lt_iff_extended_lt hx hzero, extended_zero] at hlt
    exact absurd hlt (not_lt.mpr (h hx))

/-- A finite number with a negative sign is below zero, since a zero is not among the finite ones.
    -/
theorem unpackedValue_negative_lt (m : ℕ) (e : ℤ) (hm : 0 < m) :
    unpackedValue (.finite .negative m e hm) < 0 := by
  have hmagnitude : (0 : ℝ) < m * 2 ^ e := by positivity
  change -((m * 2 ^ e : ℝ) : EReal) < 0
  rw [← EReal.coe_neg, EReal.coe_neg', neg_lt_zero]
  exact hmagnitude

theorem rounded_nonneg {a : EReal} (h : 0 ≤ a) : 0 ≤ rounded a := by
  unfold rounded
  rw [if_pos h]
  exact roundNonneg_nonneg a

theorem not_negative_add (hx : ¬x < 0.0) (hy : ¬y < 0.0) : ¬x + y < 0.0 := by
  rw [not_negative_iff] at hx hy ⊢
  intro hsum
  obtain ⟨hxn, hyn⟩ := isNaN_of_add hsum
  rw [extended_add hsum]
  exact rounded_nonneg (add_nonneg (hx hxn) (hy hyn))

/-! ## Differences -/

theorem toModel_sub (x y : Float) : (x - y).toModel =
    Float.Model.pack (UnpackedFloat.add .binary64 x.toModel.unpack y.toModel.unpack.neg) := by
  rw [← sub_eq_add_neg]
  rfl

/-- The terms of a difference that is a number are numbers. -/
theorem isNaN_of_sub (h : (x - y).isNaN = false) : x.isNaN = false ∧ y.isNaN = false := by
  have hdifference := ne_notANumber_of_pack (toModel_sub x y) h
  rw [isNaN_eq_false_iff, isNaN_eq_false_iff]
  constructor
  · intro hx
    rw [hx] at hdifference
    exact hdifference rfl
  · intro hy
    rw [hy] at hdifference
    apply hdifference
    cases x.toModel.unpack <;> rfl

/-- One of the terms of a difference that is a number is finite, or they are opposite infinities. -/
theorem extended_ne_of_sub (h : (x - y).isNaN = false) :
    (extended x ≠ ⊤ ∨ extended y ≠ ⊤) ∧ (extended x ≠ ⊥ ∨ extended y ≠ ⊥) := by
  obtain ⟨hx, hy⟩ := isNaN_of_sub h
  have hfinite : ∀ {z : Float}, z.isFinite = true → extended z ≠ ⊤ ∧ extended z ≠ ⊥ := by
    intro z hz
    rw [extended_of_finite hz]
    exact ⟨EReal.coe_ne_top _, EReal.coe_ne_bot _⟩
  rcases isFinite_or_infinity hx with hx | ⟨s, hs⟩
  · exact ⟨.inl (hfinite hx).1, .inl (hfinite hx).2⟩
  · rcases isFinite_or_infinity hy with hy | ⟨t, ht⟩
    · exact ⟨.inr (hfinite hy).1, .inr (hfinite hy).2⟩
    · -- an infinity less itself is no number
      have hdifference := ne_notANumber_of_pack (toModel_sub x y) h
      rw [hs, ht] at hdifference
      rw [extended_of_infinity hs, extended_of_infinity ht]
      cases s with
      | positive =>
        cases t with
        | positive => exact absurd rfl hdifference
        | negative => exact ⟨.inr (by simp), .inl (by simp)⟩
      | negative =>
        cases t with
        | positive => exact ⟨.inl (by simp), .inr (by simp)⟩
        | negative => exact absurd rfl hdifference

theorem not_negative_sub (h : ¬x < y) : ¬x - y < 0.0 := by
  rw [not_negative_iff]
  intro hdifference
  obtain ⟨hx, hy⟩ := isNaN_of_sub hdifference
  rw [lt_iff_extended_lt hx hy, not_lt] at h
  obtain ⟨htop, hbot⟩ := extended_ne_of_sub hdifference
  rw [extended_sub hdifference]
  exact rounded_nonneg ((EReal.sub_nonneg htop hbot).mpr h)

/-! ## Products -/

/-- A product of numbers that are not negative is rounded from such a number, unless it is NaN. -/
theorem exists_packsTo_mul {u v : UnpackedFloat} {a : EReal} (hu : Packable u) (hv : Packable v)
    (hnumber : UnpackedFloat.mul .binary64 u v ≠ .notANumber) (hvalue : 0 ≤ unpackedValue u)
    (hpositive : Holds v .positive a) :
    ∃ b, 0 ≤ b ∧ PacksTo (UnpackedFloat.mul .binary64 u v) (rounded b) := by
  match v, hpositive with
  | .finite _ m e hm, ⟨rfl, _⟩ =>
    have hfactor : u ≠ .notANumber := by
      rintro rfl
      exact hnumber rfl
    refine ⟨_, mul_nonneg hvalue ?_, packsTo_mul hu hfactor hv.1⟩
    have hmagnitude : (0 : ℝ) ≤ m * 2 ^ e := by positivity
    exact_mod_cast hmagnitude
  | .zero _, ⟨rfl, _⟩ =>
    match u with
    | .notANumber => exact absurd rfl hnumber
    | .infinity _ => exact absurd rfl hnumber
    | .zero _ => exact ⟨0, le_rfl, .zero rfl⟩
    | .finite _ _ _ _ => exact ⟨0, le_rfl, .zero rfl⟩
  | .infinity _, ⟨rfl, _⟩ =>
    match u with
    | .notANumber => exact absurd rfl hnumber
    | .zero _ => exact absurd rfl hnumber
    | .infinity .positive => exact ⟨⊤, le_top, .infinity rfl⟩
    | .finite .positive _ _ _ => exact ⟨⊤, le_top, .infinity rfl⟩
    | .infinity .negative => simp [unpackedValue] at hvalue
    | .finite .negative m e hm =>
      -- the value of the other factor is below zero
      exact absurd hvalue (unpackedValue_negative_lt m e hm).not_ge

/-- A product with a number that is not negative is negative only if the other factor is. -/
theorem not_negative_mul {a : EReal} (hx : ¬x < 0.0) (hy : Holds y.toModel.unpack .positive a) :
    ¬x * y < 0.0 := by
  rw [not_negative_iff] at hx ⊢
  intro hproduct
  have hunpack : (x * y).toModel =
      Float.Model.pack (UnpackedFloat.mul .binary64 x.toModel.unpack y.toModel.unpack) := rfl
  obtain ⟨b, hb, hpacks⟩ := exists_packsTo_mul (packable_unpack _) (packable_unpack _)
    (ne_notANumber_of_pack hunpack hproduct) (hx (isNaN_of_mul hproduct)) hy
  rw [(hpacks.double hunpack).2]
  exact rounded_nonneg hb

theorem not_negative_mul_ofNat (hx : ¬x < 0.0) (n : ℕ) : ¬x * Float.ofNat n < 0.0 :=
  not_negative_mul hx (holds_ofScientific n 0)

/-! ## Quotients -/

/-- Half of a number that is not negative is not negative. -/
theorem not_negative_half (hfinite : x.isFinite = true) (h : ¬x < 0.0) : ¬x / 2.0 < 0.0 := by
  obtain ⟨hm, htwo⟩ : ∃ hm, (2.0 : Float).toModel.unpack = .finite .positive (2 ^ 52) (-51) hm :=
    ⟨by decide, rfl⟩
  -- only a zero may have the other sign
  have hparts : ∃ s r, Holds x.toModel.unpack s ((r : ℝ) : EReal) ∧
      (s = .positive ∨ r = 0) := by
    rw [not_negative_iff] at h
    have hvalue : 0 ≤ unpackedValue x.toModel.unpack := h (isNaN_of_isFinite hfinite)
    change x.toModel.unpack.isFinite = true at hfinite
    match x.toModel.unpack, hfinite, hvalue with
    | .zero s, _, _ => exact ⟨s, 0, ⟨rfl, rfl⟩, .inr rfl⟩
    | .finite .positive m e hm, _, _ => exact ⟨.positive, m * 2 ^ e, ⟨rfl, rfl⟩, .inl rfl⟩
    | .finite .negative m e hm, _, hvalue =>
      exact absurd hvalue (unpackedValue_negative_lt m e hm).not_ge
  obtain ⟨s, r, hholds, hsign⟩ := hparts
  obtain ⟨_, hhalf⟩ := (hholds.div htwo).extended
  rw [not_negative_iff, hhalf]
  intro _
  obtain rfl | rfl := hsign
  · exact saturate_nonneg (roundMagnitude_nonneg _)
  · rw [zero_div, roundMagnitude_zero, saturate_zero]
    cases s <;> simp [signed]

end PulseTrain.Decimal
