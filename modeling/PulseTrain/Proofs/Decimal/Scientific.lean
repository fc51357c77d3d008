import PulseTrain.Proofs.Decimal.Arithmetic

/-! # The double of a decimal

    A number that is written as digits and a power of ten is read as the double nearest to it.
    Small numbers are read by one operation on doubles that are exact, the others by a division or
    multiplication of integers that is rounded once, and powers of ten that are out of the range of
    doubles are not computed at all. The result is the same in all cases.

    * **Division**: `Locates.fraction` for the quotient of two integers and `denotes_div`;
    * **Results**: `Holds` says which double of a given sign is meant, and `eq_of_holds` that there
      is only one;
    * **Cases**: `holds_small`, `holds_large`, `holds_infinity` and `holds_zero`;
    * **Reading**: `holds_ofScientific`, so that `ofScientific_congr` finds the same double for all
      ways to write a number.
-/

namespace PulseTrain.Decimal

open Float.Model Float.Model.UnpackedFloat

/-! ## Division -/

/-- A quotient of integers is located by the integer part and what the remainder says of the rest.
    -/
theorem Locates.fraction (n : ℕ) {d : ℕ} (hd : 0 < d) :
    Locates (.ofMantissaAndAccuracy (n / d) (accuracyOfFraction (n % d) d)) ((n : ℝ) / d) := by
  have hpos : (0 : ℝ) < d := by exact_mod_cast hd
  -- the quotient is its whole part and what the remainder adds to it, which is below one
  have hparts : (n : ℝ) / d = (n / d : ℕ) + ((n % d : ℕ) : ℝ) / d := by
    have hdiv : (n : ℝ) = d * (n / d : ℕ) + (n % d : ℕ) := by
      exact_mod_cast (Nat.div_add_mod n d).symm
    rw [hdiv, add_div, mul_div_cancel_left₀ _ hpos.ne']
  have hlt : ((n % d : ℕ) : ℝ) / d < 1 := by
    rw [div_lt_one hpos]
    exact_mod_cast Nat.mod_lt n hd
  unfold accuracyOfFraction
  by_cases hzero : n % d = 0
  · rw [if_pos hzero]
    rw [hzero, Nat.cast_zero, zero_div, add_zero] at hparts
    exact hparts
  · rw [if_neg hzero]
    have hrest : (0 : ℝ) < ((n % d : ℕ) : ℝ) / d := by
      have : 0 < n % d := Nat.pos_of_ne_zero hzero
      positivity
    -- twice the remainder is compared with the divisor to find the half
    rcases lt_trichotomy (2 * (n % d)) d with h | h | h
    · rw [compare_lt_iff_lt.mpr h]
      have hhalf : ((n % d : ℕ) : ℝ) / d < 1 / 2 := by
        rw [div_lt_div_iff₀ hpos (by norm_num)]
        exact_mod_cast (by omega : n % d * 2 < 1 * d)
      exact ⟨by linarith, by linarith⟩
    · rw [compare_eq_iff_eq.mpr h]
      have hhalf : ((n % d : ℕ) : ℝ) / d = 1 / 2 := by
        rw [div_eq_div_iff hpos.ne' (by norm_num)]
        exact_mod_cast (by omega : n % d * 2 = 1 * d)
      exact hparts.trans (by rw [hhalf])
    · rw [compare_gt_iff_gt.mpr h]
      have hhalf : 1 / 2 < ((n % d : ℕ) : ℝ) / d := by
        rw [div_lt_div_iff₀ (by norm_num) hpos]
        exact_mod_cast (by omega : 1 * d < n % d * 2)
      exact ⟨by linarith, by linarith⟩

/-- The exponent that is aimed at for a quotient is fine enough for it. -/
theorem targetExponent_div_le {m₁ m₂ : ℕ} (h₁ : 0 < m₁) (h₂ : 0 < m₂) (e₁ e₂ : ℤ) :
    Format.binary64.targetExponent (totalExponent m₁ e₁ - totalExponent m₂ e₂) ≤
      gridExponent (m₁ * 2 ^ e₁ / (m₂ * 2 ^ e₂)) := by
  have hlog₁ := log_natCast_mul_zpow h₁ e₁
  have hlog₂ := log_natCast_mul_zpow h₂ e₂
  have ha : (0 : ℝ) < m₁ * 2 ^ e₁ := by positivity
  have hb : (0 : ℝ) < m₂ * 2 ^ e₂ := by positivity
  -- the logarithm of a quotient is at least the difference, less one for the divisor
  have hquotient : (m₁.log2 + e₁) - (m₂.log2 + e₂ + 1) ≤
      Int.log 2 ((m₁ : ℝ) * 2 ^ e₁ / (m₂ * 2 ^ e₂)) := by
    rw [← Int.zpow_le_iff_le_log (by norm_num) (by positivity), le_div_iff₀ hb]
    calc ((2 : ℕ) : ℝ) ^ ((m₁.log2 + e₁) - (m₂.log2 + e₂ + 1) : ℤ) * (m₂ * 2 ^ e₂)
        ≤ ((2 : ℕ) : ℝ) ^ ((m₁.log2 + e₁) - (m₂.log2 + e₂ + 1) : ℤ) *
            ((2 : ℕ) : ℝ) ^ (m₂.log2 + e₂ + 1 : ℤ) := by
          gcongr
          rw [← hlog₂]
          exact (Int.lt_zpow_succ_log_self (by norm_num) _).le
      _ = ((2 : ℕ) : ℝ) ^ (m₁.log2 + e₁ : ℤ) := by
          rw [← zpow_add₀ (by norm_num)]
          congr 1
          omega
      _ ≤ m₁ * 2 ^ e₁ := by
          rw [← hlog₁]
          exact Int.zpow_log_le_self (by norm_num) ha
  -- both exponents are that of the logarithm less the digits there are room for
  unfold Format.targetExponent totalExponent gridExponent
  show max ((m₁.log2 : ℤ) + 1 + e₁ - (m₂.log2 + 1 + e₂) - (53 : ℕ)) (-1074) ≤ _
  omega

/-- A quotient is the exact quotient, rounded. -/
theorem denotes_div (s : Sign) {m₁ m₂ : ℕ} (h₁ : 0 < m₁) (h₂ : 0 < m₂) (e₁ e₂ : ℤ) :
    Denotes (UnpackedFloat.div .binary64 (.finite s m₁ e₁ h₁) (.finite .positive m₂ e₂ h₂)) s
      (roundMagnitude (m₁ * 2 ^ e₁ / (m₂ * 2 ^ e₂))) := by
  -- the dividend is shifted until the integer quotient is as fine as the grid
  set t := min (e₁ - e₂)
    (Format.binary64.targetExponent (totalExponent m₁ e₁ - totalExponent m₂ e₂)) with ht
  set k := (e₁ - e₂ - t).toNat with hk
  have hexp : (k : ℤ) + t = e₁ - e₂ := by omega
  have hvalue : ((m₁ <<< k : ℕ) : ℝ) / m₂ * 2 ^ t = m₁ * 2 ^ e₁ / (m₂ * 2 ^ e₂) := by
    calc ((m₁ <<< k : ℕ) : ℝ) / m₂ * 2 ^ t = m₁ * (2 ^ (k : ℤ) * 2 ^ t) / m₂ := by
          rw [Nat.shiftLeft_eq]
          push_cast
          rw [zpow_natCast]
          ring
      _ = m₁ * 2 ^ e₁ / (m₂ * 2 ^ e₂) := by
          rw [← zpow_add₀ (by norm_num), hexp, zpow_sub₀ (by norm_num)]
          field_simp
  have hpos : (0 : ℝ) < ((m₁ <<< k : ℕ) : ℝ) / m₂ := by
    rw [Nat.shiftLeft_eq]
    positivity
  have hsign : s / .positive = s := by
    cases s <;> rfl
  -- the quotient is at least as fine as its grid, so locating it there loses nothing
  have hgrid : t ≤ gridExponent (((m₁ <<< k : ℕ) : ℝ) / m₂ * 2 ^ t) := by
    rw [hvalue]
    exact (min_le_right _ _).trans (targetExponent_div_le h₁ h₂ e₁ e₂)
  have hdenotes := denotes_of_locates s hpos (Locates.fraction _ h₂) hgrid
  rw [hvalue] at hdenotes
  show Denotes (roundWithAccuracy .binary64 (s / .positive) _ _ _) s _
  rw [hsign]
  exact hdenotes

/-! ## The double of a sign and a magnitude -/

variable {u v : UnpackedFloat} {s : Sign} {a : EReal}

/-- What is rounded and packed is held, or an infinity in its place. -/
theorem Denotes.holds {r : ℝ} (h : Denotes u s r) :
    Holds (Float.Model.pack u).unpack s (saturate r) := by
  match u, h with
  | .zero t, h =>
    obtain ⟨rfl, rfl⟩ := h
    rw [unpack_pack_zero]
    exact ⟨rfl, saturate_zero⟩
  | .finite _ m e hm, h =>
    obtain ⟨rfl, hc, rfl⟩ := h
    by_cases he : e ≤ 971
    · rw [saturate_of_canonical hc he, unpack_pack_canonical hc he]
      exact ⟨rfl, rfl⟩
    · rw [saturate_of_overflow hc (not_le.mp he), unpack_pack_overflow hm (not_le.mp he)]
      exact ⟨rfl, rfl⟩

theorem canonical_inj {m₁ m₂ : ℕ} {e₁ e₂ : ℤ} (h₁ : Canonical m₁ e₁) (h₂ : Canonical m₂ e₂)
    (h : (m₁ : ℝ) * 2 ^ e₁ = m₂ * 2 ^ e₂) : m₁ = m₂ ∧ e₁ = e₂ := by
  have he : e₁ = e₂ := by
    rw [← gridExponent_of_canonical h₁, ← gridExponent_of_canonical h₂, h]
  subst he
  have hm : (m₁ : ℝ) = m₂ := mul_right_cancel₀ (by positivity) h
  exact ⟨by exact_mod_cast hm, rfl⟩

/-- Sign and magnitude determine what is held. -/
theorem Holds.eq (hu : Packable u) (hv : Packable v) (h : Holds u s a) (h' : Holds v s a) :
    u = v := by
  have hpos : ∀ {m : ℕ} {e : ℤ}, 0 < m → ((m * 2 ^ e : ℝ) : EReal) ≠ 0 := by
    intro m e hm
    have hne : (m * 2 ^ e : ℝ) ≠ 0 := by positivity
    exact_mod_cast hne
  -- different kinds stand for different numbers, and canonical forms are unique
  match u, v with
  | .notANumber, _ => cases h
  | _, .notANumber => cases h'
  | .zero _, .zero _ => rw [h.1, h'.1]
  | .infinity _, .infinity _ => rw [h.1, h'.1]
  | .zero _, .infinity _ => exact absurd (h.2.symm.trans h'.2) EReal.zero_ne_top
  | .infinity _, .zero _ => exact absurd (h'.2.symm.trans h.2) EReal.zero_ne_top
  | .zero _, .finite _ m e hm => exact absurd (h'.2.symm.trans h.2) (hpos hm)
  | .finite _ m e hm, .zero _ => exact absurd (h.2.symm.trans h'.2) (hpos hm)
  | .infinity _, .finite _ m e _ => exact absurd (h'.2.symm.trans h.2) (EReal.coe_ne_top _)
  | .finite _ m e _, .infinity _ => exact absurd (h.2.symm.trans h'.2) (EReal.coe_ne_top _)
  | .finite _ m₁ e₁ _, .finite _ m₂ e₂ _ =>
    have hvalue : (m₁ : ℝ) * 2 ^ e₁ = m₂ * 2 ^ e₂ := by
      exact_mod_cast h.2.symm.trans h'.2
    obtain ⟨rfl, rfl⟩ := canonical_inj hu.1 hv.1 hvalue
    obtain ⟨rfl, _⟩ := h
    obtain ⟨rfl, _⟩ := h'
    rfl

/-- A double is known by what it unpacks to. -/
theorem eq_of_unpack {x y : Float} (h : x.toModel.unpack = y.toModel.unpack) : x = y := by
  have hmodel : x.toModel = y.toModel := by
    rw [← pack_unpack_eq x.toModel, h, pack_unpack_eq]
  obtain ⟨_⟩ := x
  obtain ⟨_⟩ := y
  exact congrArg Float.ofModel hmodel

/-- There is only one double of a sign and a magnitude. -/
theorem eq_of_holds {x y : Float} (h : Holds x.toModel.unpack s a)
    (h' : Holds y.toModel.unpack s a) : x = y :=
  eq_of_unpack (Holds.eq (packable_unpack _) (packable_unpack _) h h')

/-- What is held is the number for which the double stands. -/
theorem Holds.extended {x : Float} (h : Holds x.toModel.unpack s a) :
    x.isNaN = false ∧ extended x = signed s a := by
  unfold Decimal.extended
  rw [isNaN_eq_false_iff]
  match x.toModel.unpack, h with
  | .zero t, h =>
    obtain ⟨rfl, rfl⟩ := h
    exact ⟨UnpackedFloat.noConfusion, by cases t <;> simp [unpackedValue]⟩
  | .infinity _, h =>
    obtain ⟨rfl, rfl⟩ := h
    exact ⟨UnpackedFloat.noConfusion, rfl⟩
  | .finite _ _ _ _, h =>
    obtain ⟨rfl, rfl⟩ := h
    exact ⟨UnpackedFloat.noConfusion, rfl⟩

/-- Doubles of the same sign that are equal as numbers are the same. -/
theorem Holds.eq_of_beq {x y : Float} {b : EReal} (hx : Holds x.toModel.unpack .positive a)
    (hy : Holds y.toModel.unpack .positive b) (h : (x == y) = true) : x = y := by
  obtain ⟨hxn, hxa⟩ := hx.extended
  obtain ⟨hyn, hyb⟩ := hy.extended
  rw [beq_iff_extended_eq hxn hyn, hxa, hyb] at h
  rw [signed_positive, signed_positive] at h
  subst h
  exact eq_of_holds hx hy

/-! ## Cases -/

/-- A natural number of few bits is a double. -/
theorem roundMagnitude_natCast {n : ℕ} (h : n < 2 ^ 53) : roundMagnitude (n : ℝ) = n := by
  rcases n.eq_zero_or_pos with rfl | hn
  · rw [Nat.cast_zero, roundMagnitude_zero]
  · have hlog : Int.log 2 (n : ℝ) = n.log2 := by
      have hlog := log_natCast_mul_zpow hn 0
      simpa using hlog
    have hbits : n.log2 < 53 := (Nat.log2_lt hn.ne').mpr h
    have hgrid : gridExponent (n : ℝ) ≤ 0 := by
      unfold gridExponent
      omega
    -- on its grid the number is an integer, so nothing is rounded away
    have hscaled : (n : ℝ) / 2 ^ gridExponent (n : ℝ) =
        ((n * 2 ^ (-gridExponent (n : ℝ)).toNat : ℕ) : ℝ) := by
      rw [div_eq_mul_inv, ← zpow_neg]
      push_cast
      rw [← zpow_natCast, Int.toNat_of_nonneg (by omega)]
    unfold roundMagnitude
    rw [hscaled, nearestEven_natCast, ← hscaled, div_mul_cancel₀ _ (by positivity)]

/-- A natural number of few bits is converted as it is. -/
theorem unpack_toFloat {n : ℕ} (h : n < 2 ^ 53) :
    Holds n.toUInt64.toFloat.toModel.unpack .positive ((n : ℝ) : EReal) := by
  have hword : n.toUInt64.toNat = n := by
    show n % 2 ^ 64 = n
    omega
  have hnormalize : n.toUInt64.toFloat.toModel =
      Float.Model.pack (UnpackedFloat.normalize .binary64 n 0 .positive) := by
    show Float.Model.pack (UnpackedFloat.normalize .binary64 (n.toUInt64.toNat : ℤ) 0 .positive) = _
    rw [hword]
  rw [hnormalize]
  unfold UnpackedFloat.normalize
  -- normalizing treats zero apart
  rcases n.eq_zero_or_pos with rfl | hn
  · rw [compare_eq_iff_eq.mpr Nat.cast_zero]
    dsimp only
    rw [unpack_pack_zero]
    exact ⟨rfl, by simp⟩
  · rw [compare_gt_iff_gt.mpr (by exact_mod_cast hn)]
    have hholds := (denotes_round .positive hn 0).holds
    rw [zpow_zero, mul_one, roundMagnitude_natCast h] at hholds
    -- a number of 53 bits is far below what is too large for a double
    have hsaturate : saturate (n : ℝ) = ((n : ℝ) : EReal) := by
      unfold saturate
      rw [if_pos]
      calc (n : ℝ) < 2 ^ 53 := by exact_mod_cast h
        _ ≤ 2 ^ 1024 := by gcongr <;> norm_num
    rwa [hsaturate] at hholds

/-- The powers of ten that are doubles. -/
theorem exists_powerOfTen {e : ℕ} (he : e ≤ 22) :
    ∃ m f, ∃ hc : Canonical m f,
      (getElem Float.exactlyRepresentablePowersOfTen e (Nat.lt_succ_of_le he)).toModel.unpack =
        .finite .positive m f hc.pos ∧ (m : ℝ) * 2 ^ f = 10 ^ e := by
  have htable : ∀ i : Fin 23, Float.exactlyRepresentablePowersOfTen[i].isFinite = true ∧
      0.0 < Float.exactlyRepresentablePowersOfTen[i] ∧
      rational Float.exactlyRepresentablePowersOfTen[i] = 10 ^ i.val := by
    decide +kernel
  obtain ⟨hfinite, hpos, hvalue⟩ := htable ⟨e, Nat.lt_succ_of_le he⟩
  obtain ⟨m, f, hc, hunpack⟩ := exists_of_positive_finite hfinite hpos
  refine ⟨m, f, hc, hunpack, ?_⟩
  rw [rational_of_positive hunpack] at hvalue
  have hreal := congrArg (Rat.cast : ℚ → ℝ) hvalue
  push_cast at hreal
  exact hreal

theorem canonical_one : Canonical (2 ^ 52) (-52) :=
  ⟨by norm_num, by norm_num, by norm_num, Or.inl le_rfl⟩

theorem unpack_one :
    (1.0 : Float).toModel.unpack = .finite .positive (2 ^ 52) (-52) canonical_one.pos := by
  obtain ⟨m, f, hc, hunpack, hvalue⟩ := exists_powerOfTen (Nat.zero_le 22)
  have hone : ((2 ^ 52 : ℕ) : ℝ) * 2 ^ (-52 : ℤ) = 10 ^ 0 := by norm_num
  obtain ⟨rfl, rfl⟩ := canonical_inj hc canonical_one (hvalue.trans hone.symm)
  exact hunpack

/-- A product with one is the double itself. -/
theorem mul_one_eq (x : Float) : x * 1.0 = x := by
  apply eq_of_unpack
  have hpackable := packable_unpack x.toModel
  show (Float.Model.pack (UnpackedFloat.mul .binary64 x.toModel.unpack
    (1.0 : Float).toModel.unpack)).unpack = _
  rw [unpack_one]
  -- all but the finite doubles are multiplied by sign alone
  match x.toModel.unpack, hpackable with
  | .notANumber, _ => exact unpack_pack_notANumber
  | .infinity .positive, _ => exact unpack_pack_infinity _
  | .infinity .negative, _ => exact unpack_pack_infinity _
  | .zero .positive, _ => exact unpack_pack_zero _
  | .zero .negative, _ => exact unpack_pack_zero _
  | .finite s m e hm, hpackable =>
    have hholds := (denotes_mul s hm canonical_one.pos
      (hpackable.1.mul_exponent_le canonical_one)).holds
    rw [show ((2 ^ 52 : ℕ) : ℝ) * 2 ^ (-52 : ℤ) = 1 by norm_num, mul_one,
      roundMagnitude_of_canonical hpackable.1, saturate_of_canonical hpackable.1 hpackable.2]
      at hholds
    exact hholds.eq (packable_unpack _) hpackable ⟨rfl, rfl⟩

/-- A number that is held exactly may be divided by one that is above zero. -/
theorem Holds.div {x y : Float} {r : ℝ} {m : ℕ} {f : ℤ} {hm : 0 < m}
    (hx : Holds x.toModel.unpack s r) (hy : y.toModel.unpack = .finite .positive m f hm) :
    Holds (x / y).toModel.unpack s (saturate (roundMagnitude (r / (m * 2 ^ f)))) := by
  have hsign : s / .positive = s := by
    cases s <;> rfl
  show Holds (Float.Model.pack (UnpackedFloat.div .binary64 x.toModel.unpack
    y.toModel.unpack)).unpack _ _
  rw [hy]
  match x.toModel.unpack, hx with
  | .zero _, hx =>
    obtain ⟨rfl, hzero⟩ := hx
    have hr : r = 0 := by exact_mod_cast hzero
    rw [hr, zero_div, roundMagnitude_zero]
    exact Denotes.holds (u := .zero _) ⟨hsign, rfl⟩
  | .infinity _, hx => exact absurd hx.2 (EReal.coe_ne_top _)
  | .finite _ n e hn, hx =>
    -- two finite numbers are divided bit by bit, and the quotient is rounded
    obtain ⟨rfl, hvalue⟩ := hx
    have hr : r = n * 2 ^ e := by exact_mod_cast hvalue
    rw [hr]
    exact (denotes_div _ hn hm e f).holds

/-- A number that is not negative and that is held exactly may be multiplied. -/
theorem Holds.mul {x y : Float} {r : ℝ} {m : ℕ} {f : ℤ} (hc : Canonical m f)
    (hx : Holds x.toModel.unpack .positive r)
    (hy : y.toModel.unpack = .finite .positive m f hc.pos) :
    Holds (x * y).toModel.unpack .positive (saturate (roundMagnitude (r * (m * 2 ^ f)))) := by
  have hpackable := packable_unpack x.toModel
  show Holds (Float.Model.pack (UnpackedFloat.mul .binary64 x.toModel.unpack
    y.toModel.unpack)).unpack _ _
  rw [hy]
  match x.toModel.unpack, hx, hpackable with
  | .zero _, hx, _ =>
    obtain ⟨rfl, hzero⟩ := hx
    have hr : r = 0 := by exact_mod_cast hzero
    rw [hr, zero_mul, roundMagnitude_zero]
    exact Denotes.holds (u := .zero .positive) ⟨rfl, rfl⟩
  | .infinity _, hx, _ => exact absurd hx.2 (EReal.coe_ne_top _)
  | .finite _ n e hn, hx, hpackable =>
    -- two finite numbers are multiplied exactly, and the product is rounded
    obtain ⟨rfl, hvalue⟩ := hx
    have hr : r = n * 2 ^ e := by exact_mod_cast hvalue
    rw [hr]
    exact (denotes_mul .positive hn hc.pos (hpackable.1.mul_exponent_le hc)).holds

/-- Small numbers are read by one operation on two exact doubles. -/
theorem holds_small {m : ℕ} (hm : m < 2 ^ 53) {scale : ℤ} (hscale : scale.natAbs ≤ 22) :
    Holds (Float.ofScientific m (decide (scale < 0)) scale.natAbs).toModel.unpack .positive
      (saturate (roundMagnitude (m * 10 ^ scale))) := by
  obtain ⟨n, f, hc, hpower, hvalue⟩ := exists_powerOfTen hscale
  have hwhole := unpack_toFloat hm
  unfold Float.ofScientific
  rw [dif_pos ⟨hm, hscale⟩]
  -- the power of ten is a double itself, so one rounding is all there is
  by_cases hneg : scale < 0
  · have hpow : (m : ℝ) * 10 ^ scale = m / (n * 2 ^ f) := by
      rw [hvalue, show scale = -(scale.natAbs : ℤ) by omega, zpow_neg, zpow_natCast,
        div_eq_mul_inv, Int.natAbs_neg, Int.natAbs_natCast]
    rw [hpow, if_pos (decide_eq_true hneg)]
    exact hwhole.div hpower
  · have hpow : (m : ℝ) * 10 ^ scale = m * (n * 2 ^ f) := by
      rw [hvalue, ← zpow_natCast, Int.natAbs_of_nonneg (not_lt.mp hneg)]
    rw [hpow, if_neg (by simpa using hneg)]
    exact hwhole.mul hc hpower

/-- The powers of ten that are computed at all. -/
theorem exponentRange : (2 : ℤ) ^ Format.binary64.exponentBits = 2048 := rfl

/-- A multiplication by a power of ten. The mantissa is shifted first, so that no bit of the product
    lies below the grid. -/
theorem denotes_scaleUp {m : ℕ} (hm : 0 < m) {scale : ℤ} (hscale : 0 ≤ scale)
    (hbits : 0 < m <<< 53) (hpower : 0 < 10 ^ scale.toNat) :
    Denotes (UnpackedFloat.mul .binary64 (.finite .positive (m <<< 53) (-53) hbits)
      (.finite .positive (10 ^ scale.toNat) 0 hpower)) .positive
        (roundMagnitude (m * 10 ^ scale)) := by
  have hmantissa : ((m <<< 53 : ℕ) : ℝ) * 2 ^ (-53 : ℤ) = m := by
    rw [Nat.shiftLeft_eq, Nat.cast_mul, Nat.cast_pow, Nat.cast_ofNat, zpow_neg, zpow_ofNat,
      mul_inv_cancel_right₀ (by positivity)]
  have hten : ((10 ^ scale.toNat : ℕ) : ℝ) * 2 ^ (0 : ℤ) = 10 ^ scale := by
    rw [zpow_zero, mul_one]
    push_cast
    rw [← zpow_natCast, Int.toNat_of_nonneg hscale]
  have hproduct : ((m <<< 53 * 10 ^ scale.toNat : ℕ) : ℝ) * 2 ^ (-53 + 0 : ℤ) =
      (m * 10 ^ scale.toNat : ℕ) * 2 ^ (0 : ℤ) := by
    rw [Nat.cast_mul, Nat.cast_mul, add_zero, mul_right_comm, hmantissa, zpow_zero, mul_one]
  -- the product is an integer after the shift, so its last bit is not below the grid
  have hgrid : (-53 + 0 : ℤ) ≤
      gridExponent ((m <<< 53 * 10 ^ scale.toNat : ℕ) * 2 ^ (-53 + 0 : ℤ)) := by
    rw [hproduct]
    have hlog := log_natCast_mul_zpow (Nat.mul_pos hm hpower) 0
    unfold gridExponent
    omega
  have hdenotes := denotes_mul .positive hbits hpower hgrid
  rwa [hmantissa, hten] at hdenotes

/-- A division by a power of ten. -/
theorem denotes_scaleDown {m : ℕ} (hm : 0 < m) {scale : ℤ} (hscale : scale ≤ 0)
    (hpower : 0 < 10 ^ (-scale).toNat) :
    Denotes (UnpackedFloat.div .binary64 (.finite .positive m 0 hm)
      (.finite .positive (10 ^ (-scale).toNat) 0 hpower)) .positive
        (roundMagnitude (m * 10 ^ scale)) := by
  have hquotient : (m : ℝ) * 2 ^ (0 : ℤ) / ((10 ^ (-scale).toNat : ℕ) * 2 ^ (0 : ℤ)) =
      m * 10 ^ scale := by
    rw [zpow_zero, mul_one, mul_one, div_eq_mul_inv]
    push_cast
    rw [← zpow_natCast, Int.toNat_of_nonneg (by omega), zpow_neg, inv_inv]
  have hdenotes := denotes_div .positive hm hpower 0 0
  rwa [hquotient] at hdenotes

/-- Other numbers are read by one division or multiplication of integers. -/
theorem holds_large {m : ℕ} (hm : 0 < m) {scale : ℤ} (hover : scale ≤ 2048)
    (hunder : -(2048 + (m.log2 : ℤ)) ≤ scale) :
    Holds (Float.Model.ofScientific m scale).unpack .positive
      (saturate (roundMagnitude (m * 10 ^ scale))) := by
  unfold Float.Model.ofScientific UnpackedFloat.ofScientific
  rw [exponentRange, dif_neg hm.ne', if_neg (not_lt.mpr hover), if_neg (not_lt.mpr hunder)]
  by_cases hscale : 0 ≤ scale
  · rw [if_pos hscale]
    exact (denotes_scaleUp hm hscale _ _).holds
  · rw [if_neg hscale]
    exact (denotes_scaleDown hm (not_le.mp hscale).le _).holds

/-- A magnitude above all doubles is infinite. -/
theorem saturate_roundMagnitude_of_le {a : ℝ} (h : (2 : ℝ) ^ 1024 ≤ a) :
    saturate (roundMagnitude a) = ⊤ := by
  have hcanonical : Canonical (2 ^ 52) 972 := ⟨by norm_num, by norm_num, by norm_num, Or.inl le_rfl⟩
  have hpower : ((2 ^ 52 : ℕ) : ℝ) * 2 ^ (972 : ℤ) = 2 ^ 1024 := by
    rw [Nat.cast_pow, Nat.cast_ofNat, zpow_ofNat, ← pow_add]
  have hround := roundMagnitude_of_canonical hcanonical
  rw [hpower] at hround
  have hmono := roundMagnitude_mono (by positivity) h
  rw [hround] at hmono
  unfold saturate
  rw [if_neg (not_lt.mpr hmono)]

/-- A magnitude below half the least double is zero. -/
theorem roundMagnitude_eq_zero {a : ℝ} (ha : 0 < a) (h : a < 2 ^ (-1075 : ℤ)) :
    roundMagnitude a = 0 := by
  have hlog : Int.log 2 a < -1075 := by
    rw [← Int.lt_zpow_iff_log_lt (by norm_num) ha]
    exact_mod_cast h
  have hgrid : gridExponent a = -1074 := by
    unfold gridExponent
    omega
  -- on the finest grid the number is less than half a step
  have hhalf : a / 2 ^ (-1074 : ℤ) < 1 / 2 := by
    rw [div_lt_iff₀ (by positivity)]
    calc a < 2 ^ (-1075 : ℤ) := h
      _ = 1 / 2 * 2 ^ (-1074 : ℤ) := by
        rw [show (-1075 : ℤ) = -1 + -1074 by norm_num, zpow_add₀ (by norm_num)]
        norm_num
  have hnearest : nearestEven (a / 2 ^ (-1074 : ℤ)) = 0 := by
    have hfloor : ⌊a / 2 ^ (-1074 : ℤ)⌋₊ = 0 := Nat.floor_eq_zero.mpr (by linarith)
    unfold nearestEven
    rw [hfloor, Nat.cast_zero, zero_add, if_pos hhalf]
  unfold roundMagnitude
  rw [hgrid, hnearest, Nat.cast_zero, zero_mul]

/-- Beyond the range the number is above all doubles. -/
theorem holds_infinity {m : ℕ} (hm : 0 < m) {scale : ℤ} (hover : 2048 < scale) :
    Holds (Float.Model.ofScientific m scale).unpack .positive
      (saturate (roundMagnitude (m * 10 ^ scale))) := by
  have hlarge : (2 : ℝ) ^ 1024 ≤ m * 10 ^ scale := by
    calc (2 : ℝ) ^ 1024 = 1 * 2 ^ (1024 : ℤ) := by rw [one_mul, zpow_ofNat]
      _ ≤ 1 * 2 ^ scale := by
        gcongr
        · norm_num
        · omega
      _ ≤ m * 10 ^ scale := by
        have hone : (1 : ℝ) ≤ m := by exact_mod_cast hm
        have hpower : (2 : ℝ) ^ scale ≤ 10 ^ scale :=
          zpow_le_zpow_left₀ (by omega) (by norm_num) (by norm_num)
        gcongr
  -- the reader does not even scale such a number
  unfold Float.Model.ofScientific UnpackedFloat.ofScientific
  rw [exponentRange, dif_neg hm.ne', if_pos hover, unpack_pack_infinity,
    saturate_roundMagnitude_of_le hlarge]
  exact ⟨rfl, rfl⟩

/-- Beyond the range the number is below all doubles. -/
theorem holds_zero {m : ℕ} (hm : 0 < m) {scale : ℤ} (hunder : scale < -(2048 + (m.log2 : ℤ))) :
    Holds (Float.Model.ofScientific m scale).unpack .positive
      (saturate (roundMagnitude (m * 10 ^ scale))) := by
  have hsmall : (m : ℝ) * 10 ^ scale < 2 ^ (-1075 : ℤ) := by
    have hmantissa : (m : ℝ) < 2 ^ (m.log2 + 1 : ℤ) := by
      exact_mod_cast Nat.lt_log2_self (n := m)
    -- a negative power of ten is below the same power of two
    have hpower : (10 : ℝ) ^ scale ≤ 2 ^ scale := by
      obtain ⟨n, rfl⟩ : ∃ n : ℕ, scale = -(n : ℤ) := ⟨scale.natAbs, by omega⟩
      rw [zpow_neg, zpow_neg, zpow_natCast, zpow_natCast]
      gcongr
      norm_num
    calc (m : ℝ) * 10 ^ scale < 2 ^ (m.log2 + 1 : ℤ) * 2 ^ scale := by
          apply mul_lt_mul hmantissa hpower <;> positivity
      _ = 2 ^ (m.log2 + 1 + scale : ℤ) := by rw [← zpow_add₀ (by norm_num)]
      _ ≤ 2 ^ (-1075 : ℤ) := by
        gcongr
        · norm_num
        · omega
  have hround := roundMagnitude_eq_zero (by positivity) hsmall
  unfold Float.Model.ofScientific UnpackedFloat.ofScientific
  rw [exponentRange, dif_neg hm.ne', if_neg (by omega), if_pos hunder, unpack_pack_zero, hround]
  exact ⟨rfl, saturate_zero⟩

/-- **Reading**: digits and a power of ten are read as the double nearest to the number. -/
theorem holds_ofScientific (m : ℕ) (scale : ℤ) :
    Holds (Float.ofScientific m (decide (scale < 0)) scale.natAbs).toModel.unpack .positive
      (saturate (roundMagnitude (m * 10 ^ scale))) := by
  by_cases hsmall : m < 2 ^ 53 ∧ scale.natAbs ≤ 22
  · exact holds_small hsmall.1 hsmall.2
  · have hmodel : (Float.ofScientific m (decide (scale < 0)) scale.natAbs).toModel =
        Float.Model.ofScientific m scale := by
      have hsign : (if decide (scale < 0) = true then Int.negOfNat scale.natAbs
          else Int.ofNat scale.natAbs) = scale := by
        by_cases hneg : scale < 0
        · rw [if_pos (decide_eq_true hneg), Int.negOfNat_eq, Int.ofNat_eq_natCast]
          omega
        · rw [if_neg (by simpa using hneg), Int.ofNat_eq_natCast]
          omega
      unfold Float.ofScientific
      rw [dif_neg hsmall]
      dsimp only
      rw [hsign]
    rw [hmodel]
    -- the cases of the algorithm, by the size of the power of ten
    rcases m.eq_zero_or_pos with rfl | hm
    · rw [Nat.cast_zero, zero_mul, roundMagnitude_zero]
      exact Denotes.holds (u := .zero .positive) ⟨rfl, rfl⟩
    · rcases lt_or_ge 2048 scale with hover | hover
      · exact holds_infinity hm hover
      · rcases lt_or_ge scale (-(2048 + (m.log2 : ℤ))) with hunder | hunder
        · exact holds_zero hm hunder
        · exact holds_large hm hover hunder

/-- However a number is written, it is read as the same double. -/
theorem ofScientific_congr {m n : ℕ} {e f : ℤ} (h : (m : ℝ) * 10 ^ e = n * 10 ^ f) :
    Float.ofScientific m (decide (e < 0)) e.natAbs =
      Float.ofScientific n (decide (f < 0)) f.natAbs := by
  have hm := holds_ofScientific m e
  rw [h] at hm
  exact eq_of_holds hm (holds_ofScientific n f)

end PulseTrain.Decimal
