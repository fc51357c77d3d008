import Mathlib.Data.EReal.Operations
import Mathlib.Data.Int.Log
import PulseTrain.Proofs.Decimal.Rational

/-! # Rounding to a double

    The exact result of an operation on doubles is shifted to the grid of doubles of its size and
    rounded there to the nearest, a half going to the even one. `roundMagnitude` says what becomes
    of a real number, and it never puts a larger number below a smaller one.

    * **The grid**: `nearestEven` on the integers and `gridExponent` for the scale;
    * **Order**: `roundMagnitude_mono`, where two numbers on different grids are kept apart by the
      power of two between them;
    * **Numbers**: `unpackedValue` is the number for which a double stands, and `Holds` what a
      double keeps, the sign of a zero included;
    * **The algorithm**: `Locates` ties a mantissa and its two residual bits to the number they
      stand for and survives every shift, so that `denotes_round` finds the rounded number in
      canonical form.
-/

namespace PulseTrain.Decimal

open Float.Model Float.Model.UnpackedFloat

/-! ## Rounding to an integer -/

/-- The natural number nearest to a number that is not negative, a half going to the even one. -/
noncomputable def nearestEven (x : ℝ) : ℕ :=
  if x < ⌊x⌋₊ + 1 / 2 then ⌊x⌋₊
  else if x = ⌊x⌋₊ + 1 / 2 then ⌊x⌋₊ + ⌊x⌋₊ % 2
  else ⌊x⌋₊ + 1

theorem floor_le_nearestEven (x : ℝ) : ⌊x⌋₊ ≤ nearestEven x := by
  unfold nearestEven
  split
  · exact le_refl _
  · split
    · exact Nat.le_add_right _ _
    · exact Nat.le_succ _

theorem nearestEven_le_floor (x : ℝ) : nearestEven x ≤ ⌊x⌋₊ + 1 := by
  unfold nearestEven
  split
  · exact Nat.le_succ _
  · split
    · omega
    · exact le_refl _

@[simp] theorem nearestEven_natCast (n : ℕ) : nearestEven (n : ℝ) = n := by
  unfold nearestEven
  rw [Nat.floor_natCast, if_pos (by linarith)]

theorem nearestEven_mono {x y : ℝ} (h : x ≤ y) : nearestEven x ≤ nearestEven y := by
  rcases (Nat.floor_mono h).eq_or_lt with heq | hlt
  · -- both lie in the same gap between integers, where the step comes at the middle
    unfold nearestEven
    rw [heq]
    split
    · split
      · exact le_refl _
      · split
        · exact Nat.le_add_right _ _
        · exact Nat.le_succ _
    · next hx =>
      have hy : ¬y < ⌊y⌋₊ + 1 / 2 := by linarith
      rw [if_neg hy]
      split
      · split
        · exact le_refl _
        · omega
      · next hx' =>
        have hxgt : (⌊y⌋₊ : ℝ) + 1 / 2 < x := lt_of_le_of_ne (not_lt.mp hx) (Ne.symm hx')
        rw [if_neg (by linarith)]
  · -- an integer lies between them, and neither is rounded past it
    calc nearestEven x ≤ ⌊x⌋₊ + 1 := nearestEven_le_floor x
      _ ≤ ⌊y⌋₊ := hlt
      _ ≤ nearestEven y := floor_le_nearestEven y

/-! ## Rounding to a double -/

/-- The exponent of the grid on which doubles of about the size of a number lie. -/
noncomputable def gridExponent (a : ℝ) : ℤ := max (Int.log 2 a - 52) (-1074)

theorem le_gridExponent (a : ℝ) : -1074 ≤ gridExponent a := le_max_right _ _

/-- A number that is not negative, rounded to the grid of its size. -/
noncomputable def roundMagnitude (a : ℝ) : ℝ :=
  nearestEven (a / 2 ^ gridExponent a) * 2 ^ gridExponent a

theorem roundMagnitude_nonneg (a : ℝ) : 0 ≤ roundMagnitude a := by
  unfold roundMagnitude
  positivity

theorem roundMagnitude_zero : roundMagnitude 0 = 0 := by
  unfold roundMagnitude
  rw [zero_div, ← Nat.cast_zero, nearestEven_natCast, Nat.cast_zero, zero_mul]

/-- Below the next power of two a number has at most 53 bits on its grid. -/
theorem nearestEven_grid_le (a : ℝ) : nearestEven (a / 2 ^ gridExponent a) ≤ 2 ^ 53 := by
  have hpow : (0 : ℝ) < 2 ^ gridExponent a := by positivity
  -- on its grid a number has at most 53 bits before the point
  have hlt : a / 2 ^ gridExponent a ≤ ((2 ^ 53 : ℕ) : ℝ) := by
    rw [div_le_iff₀ hpow]
    calc a ≤ (2 : ℝ) ^ (Int.log 2 a + 1) := (Int.lt_zpow_succ_log_self (by norm_num) a).le
      _ ≤ 2 ^ (53 + gridExponent a) := by
        apply zpow_le_zpow_right₀ (by norm_num)
        unfold gridExponent
        omega
      _ = ((2 ^ 53 : ℕ) : ℝ) * 2 ^ gridExponent a := by
        rw [zpow_add₀ (by norm_num)]
        norm_num
  calc nearestEven (a / 2 ^ gridExponent a) ≤ nearestEven ((2 ^ 53 : ℕ) : ℝ) := nearestEven_mono hlt
    _ = 2 ^ 53 := nearestEven_natCast _

/-- Above the finest grid a number has at least 53 bits on its grid. -/
theorem le_nearestEven_grid {a : ℝ} (ha : 0 < a) (hgrid : gridExponent a ≠ -1074) :
    2 ^ 52 ≤ nearestEven (a / 2 ^ gridExponent a) := by
  have hpow : (0 : ℝ) < 2 ^ gridExponent a := by positivity
  have hlog : gridExponent a + 52 = Int.log 2 a := by
    unfold gridExponent at hgrid ⊢
    omega
  -- off the finest grid it has no fewer than 53
  have hle : ((2 ^ 52 : ℕ) : ℝ) ≤ a / 2 ^ gridExponent a := by
    rw [le_div_iff₀ hpow]
    calc ((2 ^ 52 : ℕ) : ℝ) * 2 ^ gridExponent a = (2 : ℝ) ^ (gridExponent a + 52) := by
          rw [zpow_add₀ (by norm_num), mul_comm]
          norm_num
      _ = (2 : ℝ) ^ Int.log 2 a := by rw [hlog]
      _ ≤ a := Int.zpow_log_le_self (by norm_num) ha
  calc 2 ^ 52 = nearestEven ((2 ^ 52 : ℕ) : ℝ) := (nearestEven_natCast _).symm
    _ ≤ nearestEven (a / 2 ^ gridExponent a) := nearestEven_mono hle

theorem roundMagnitude_mono {a b : ℝ} (ha : 0 ≤ a) (hab : a ≤ b) :
    roundMagnitude a ≤ roundMagnitude b := by
  rcases ha.eq_or_lt with rfl | ha
  · rw [roundMagnitude_zero]
    exact roundMagnitude_nonneg b
  have hgrid : gridExponent a ≤ gridExponent b := by
    have hlog := Int.log_mono_right (b := 2) ha hab
    unfold gridExponent
    omega
  unfold roundMagnitude
  rcases hgrid.eq_or_lt with heq | hlt
  · -- both are rounded on the same grid
    rw [heq]
    have hpow : (0 : ℝ) < 2 ^ gridExponent b := by positivity
    have hdiv : a / 2 ^ gridExponent b ≤ b / 2 ^ gridExponent b :=
      div_le_div_of_nonneg_right hab hpow.le
    exact mul_le_mul_of_nonneg_right (by exact_mod_cast nearestEven_mono hdiv) hpow.le
  · -- the power of two that starts the coarser grid lies on both grids
    have hfine : gridExponent b ≠ -1074 := by
      have hleast := le_gridExponent a
      omega
    have hupper : (nearestEven (a / 2 ^ gridExponent a) : ℝ) ≤ 2 ^ 53 := by
      exact_mod_cast nearestEven_grid_le a
    have hlower : (2 : ℝ) ^ 52 ≤ nearestEven (b / 2 ^ gridExponent b) := by
      exact_mod_cast le_nearestEven_grid (ha.trans_le hab) hfine
    calc (nearestEven (a / 2 ^ gridExponent a) : ℝ) * 2 ^ gridExponent a
        ≤ 2 ^ 53 * 2 ^ gridExponent a := by gcongr
      _ = 2 ^ 52 * 2 ^ (gridExponent a + 1) := by
        rw [zpow_add₀ (by norm_num)]
        ring
      _ ≤ 2 ^ 52 * 2 ^ gridExponent b := by
        gcongr
        · norm_num
        · omega
      _ ≤ nearestEven (b / 2 ^ gridExponent b) * 2 ^ gridExponent b := by gcongr

/-! ## Magnitude and sign -/

/-- A magnitude that is too large for a double counts as infinite. -/
noncomputable def saturate (a : ℝ) : EReal := if a < 2 ^ 1024 then (a : EReal) else ⊤

noncomputable def signed (s : Sign) (a : EReal) : EReal :=
  match s with
  | .positive => a
  | .negative => -a

@[simp] theorem signed_positive (a : EReal) : signed .positive a = a := rfl

@[simp] theorem signed_negative (a : EReal) : signed .negative a = -a := rfl

/-- The number for which an unpacked double stands. NaN stands for none, and counts as zero. -/
noncomputable def unpackedValue : UnpackedFloat → EReal
  | .notANumber => 0
  | .infinity s => signed s ⊤
  | .zero _ => 0
  | .finite s m e _ => signed s ((m * 2 ^ e : ℝ) : EReal)

/-- A number that is kept in a double, of the given sign and magnitude. -/
def Holds (u : UnpackedFloat) (s : Sign) (a : EReal) : Prop :=
  match u with
  | .zero t => t = s ∧ a = 0
  | .finite t m e _ => t = s ∧ a = ((m * 2 ^ e : ℝ) : EReal)
  | .infinity t => t = s ∧ a = ⊤
  | .notANumber => False

/-! ## The mantissa -/

/-- A mantissa with its two residual bits tells where a number lies: on the mantissa, on the middle
    between it and the next, or in one of the two gaps. -/
def Locates (em : ExtendedMantissa) (x : ℝ) : Prop :=
  match em with
  | ⟨m, false, false⟩ => x = m
  | ⟨m, false, true⟩ => (m : ℝ) < x ∧ x < m + 1 / 2
  | ⟨m, true, false⟩ => x = m + 1 / 2
  | ⟨m, true, true⟩ => (m : ℝ) + 1 / 2 < x ∧ x < m + 1

theorem Locates.exact (m : ℕ) : Locates (.ofMantissaAndAccuracy m .exact) m := rfl

theorem Locates.floor {em : ExtendedMantissa} {x : ℝ} (h : Locates em x) :
    ⌊x⌋₊ = em.mantissa := by
  have hbounds : (em.mantissa : ℝ) ≤ x ∧ x < em.mantissa + 1 := by
    -- the two bits place the number in one half of the gap or at its ends
    match em, h with
    | ⟨m, false, false⟩, h => exact ⟨h.ge, by rw [h]; exact lt_add_one _⟩
    | ⟨m, false, true⟩, h => exact ⟨h.1.le, by linarith [h.2]⟩
    | ⟨m, true, false⟩, h => exact ⟨by rw [h]; simp, by rw [h]; simp; norm_num⟩
    | ⟨m, true, true⟩, h => exact ⟨by linarith [h.1], h.2⟩
  rw [Nat.floor_eq_iff (le_trans (Nat.cast_nonneg _) hbounds.1)]
  exact hbounds

/-- The residual bits are all that is needed to round. -/
theorem Locates.roundedMantissa {em : ExtendedMantissa} {x : ℝ} (h : Locates em x) :
    em.roundedMantissa = nearestEven x := by
  have hfloor := h.floor
  unfold nearestEven
  rw [hfloor]
  -- the two residual bits tell where between two integers the number lies
  match em, h with
  | ⟨m, false, false⟩, h =>
    rw [if_pos (by rw [h]; simp)]
    rfl
  | ⟨m, false, true⟩, h =>
    rw [if_pos h.2]
    rfl
  | ⟨m, true, false⟩, h =>
    have hx : x = m + 1 / 2 := h
    rw [if_neg (by rw [hx]; exact lt_irrefl _), if_pos hx]
    rfl
  | ⟨m, true, true⟩, h =>
    rw [if_neg (not_lt.mpr h.1.le), if_neg h.1.ne']
    rfl

/-- The bit that is shifted out becomes the first residual bit. -/
theorem Locates.shiftRightOne {em : ExtendedMantissa} {x : ℝ} (h : Locates em x) :
    Locates em.shiftRightOne (x / 2) := by
  obtain ⟨m, roundBit, stickyBit⟩ := em
  have hparts : (m : ℝ) = 2 * (m / 2 : ℕ) + (m % 2 : ℕ) := by
    exact_mod_cast (Nat.div_add_mod m 2).symm
  unfold ExtendedMantissa.shiftRightOne
  -- the last bit becomes the round bit, and what was behind it is kept by the sticky one
  rcases Nat.mod_two_eq_zero_or_one m with hbit | hbit
  · rw [hbit] at hparts ⊢
    cases roundBit <;> cases stickyBit <;> simp [Locates] at h ⊢ <;> grind
  · rw [hbit] at hparts ⊢
    cases roundBit <;> cases stickyBit <;> simp [Locates] at h ⊢ <;> grind

theorem Locates.shiftRight {em : ExtendedMantissa} {x : ℝ} (h : Locates em x) (k : ℕ) :
    Locates (em >>> k) (x / 2 ^ k) := by
  show Locates (k.repeat ExtendedMantissa.shiftRightOne em) (x / 2 ^ k)
  induction k with
  | zero =>
    rw [pow_zero, div_one]
    exact h
  | succ k ih =>
    rw [pow_succ, ← div_div]
    exact ih.shiftRightOne

/-! ## The rounded double -/

/-- The power of two below a number is told by the bits before the point. -/
theorem log_mul_zpow {x : ℝ} (hx : 1 ≤ x) (e : ℤ) : Int.log 2 (x * 2 ^ e) = ⌊x⌋₊.log2 + e := by
  have hfloor : ⌊x⌋₊ ≠ 0 := (Nat.floor_pos.mpr hx).ne'
  have hpos : (0 : ℝ) < x * 2 ^ e := by positivity
  have hlower : ((2 : ℕ) : ℝ) ^ ((⌊x⌋₊.log2 : ℤ) + e) ≤ x * 2 ^ e := by
    have hpow : ((2 ^ ⌊x⌋₊.log2 : ℕ) : ℝ) ≤ x :=
      (Nat.le_floor_iff (by linarith)).mp (Nat.log2_self_le hfloor)
    rw [zpow_add₀ (by norm_num), zpow_natCast]
    push_cast at hpow ⊢
    gcongr
  have hupper : x * 2 ^ e < ((2 : ℕ) : ℝ) ^ ((⌊x⌋₊.log2 : ℤ) + e + 1) := by
    have hpow : x < ((2 ^ (⌊x⌋₊.log2 + 1) : ℕ) : ℝ) :=
      (Nat.floor_lt (by linarith)).mp Nat.lt_log2_self
    rw [add_right_comm, zpow_add₀ (by norm_num),
      show ((⌊x⌋₊.log2 : ℤ) + 1) = ((⌊x⌋₊.log2 + 1 : ℕ) : ℤ) by push_cast; rfl, zpow_natCast]
    push_cast at hpow ⊢
    gcongr
  -- the logarithm is pinned between two neighbouring powers of two
  have h1 := (Int.zpow_le_iff_le_log (by norm_num) hpos).mp hlower
  have h2 := (Int.lt_zpow_iff_log_lt (by norm_num) hpos).mp hupper
  omega

theorem log_natCast_mul_zpow {m : ℕ} (hm : 0 < m) (e : ℤ) :
    Int.log 2 ((m : ℝ) * 2 ^ e) = m.log2 + e := by
  have hlog := log_mul_zpow (x := m) (by exact_mod_cast hm) e
  rwa [Nat.floor_natCast] at hlog

/-- The exponent that the format asks for is the one of the grid. A fraction of the mantissa that
    has been cut off does not matter to it. -/
theorem targetExponent_floor {x : ℝ} (hx : 1 ≤ x) (e : ℤ) :
    Format.binary64.targetExponent (totalExponent ⌊x⌋₊ e) = gridExponent (x * 2 ^ e) := by
  unfold Format.targetExponent totalExponent gridExponent
  rw [log_mul_zpow hx]
  show max ((⌊x⌋₊.log2 : ℤ) + 1 + e - (53 : ℕ)) (-1074) = _
  congr 1
  push_cast
  ring

theorem targetExponent_eq {m : ℕ} (hm : 0 < m) (e : ℤ) :
    Format.binary64.targetExponent (totalExponent m e) = gridExponent (m * 2 ^ e) := by
  have hfloor := targetExponent_floor (x := m) (by exact_mod_cast hm) e
  rwa [Nat.floor_natCast] at hfloor

/-- A number below one has no bit before the point, which does no harm on the finest grid. -/
theorem targetExponent_of_le {x : ℝ} (hx : 0 < x) {e : ℤ} (he : e ≤ gridExponent (x * 2 ^ e)) :
    Format.binary64.targetExponent (totalExponent ⌊x⌋₊ e) = gridExponent (x * 2 ^ e) := by
  rcases le_or_gt 1 x with hone | hone
  · exact targetExponent_floor hone e
  · -- below one there is no bit before the point, and the grid is the finest there is
    have hlog : Int.log 2 (x * 2 ^ e) < e := by
      rw [← Int.lt_zpow_iff_log_lt (by norm_num) (by positivity)]
      calc x * 2 ^ e < 1 * 2 ^ e := by gcongr
        _ = ((2 : ℕ) : ℝ) ^ e := by rw [one_mul]; norm_num
    have hgrid : gridExponent (x * 2 ^ e) = -1074 := by
      unfold gridExponent at he ⊢
      omega
    rw [hgrid] at he ⊢
    rw [Nat.floor_eq_zero.mpr hone]
    unfold Format.targetExponent totalExponent
    show max (((0 : ℕ).log2 : ℤ) + 1 + e - (53 : ℕ)) (-1074) = -1074
    rw [show (0 : ℕ).log2 = 0 from rfl]
    omega

/-- A canonical number lies on the grid of its size. -/
theorem gridExponent_of_canonical {m : ℕ} {e : ℤ} (hc : Canonical m e) :
    gridExponent (m * 2 ^ e) = e := by
  rw [← targetExponent_eq hc.pos]
  have hupper := (Nat.log2_lt hc.pos.ne').mpr hc.lt
  have hleast := hc.least
  show max ((m.log2 : ℤ) + 1 + e - (53 : ℕ)) (-1074) = e
  rcases hc.full with hfull | hexp
  · have hlower := (Nat.le_log2 hc.pos.ne').mpr hfull
    omega
  · omega

theorem roundMagnitude_of_canonical {m : ℕ} {e : ℤ} (hc : Canonical m e) :
    roundMagnitude (m * 2 ^ e) = m * 2 ^ e := by
  unfold roundMagnitude
  rw [gridExponent_of_canonical hc, mul_div_cancel_right₀ _ (by positivity), nearestEven_natCast]

/-- A double without infinities: a zero, or a canonical number, of the given sign and magnitude. -/
def Denotes (u : UnpackedFloat) (s : Sign) (a : ℝ) : Prop :=
  match u with
  | .zero s' => s' = s ∧ a = 0
  | .finite s' m e _ => s' = s ∧ Canonical m e ∧ a = m * 2 ^ e
  | _ => False

theorem shiftToExponent_of_le (m : ℕ) {e t : ℤ} (h : t ≤ e) :
    shiftToExponent m e .exact t = (⟨m, false, false⟩, e) := by
  unfold shiftToExponent
  rw [Int.toNat_of_nonpos (by omega)]
  simp
  rfl

/-- A rounded mantissa is put into canonical form by the second shift, which is of one bit at most
    and drops none. -/
theorem shiftToTargetExponent_carry {r : ℕ} {t : ℤ} (hle : r ≤ 2 ^ 53) (hleast : -1074 ≤ t)
    (hfull : 2 ^ 52 ≤ r ∨ t = -1074) :
    ∃ m e, shiftToTargetExponent .binary64 r t .exact = (⟨m, false, false⟩, e) ∧
      (m : ℝ) * 2 ^ e = r * 2 ^ t ∧ (m ≠ 0 → Canonical m e) := by
  rcases hle.lt_or_eq with hlt | rfl
  · -- the mantissa fits as it is
    refine ⟨r, t, shiftToExponent_of_le r ?_, rfl,
      fun hr => ⟨Nat.pos_of_ne_zero hr, hlt, hleast, hfull⟩⟩
    have hlog : r.log2 < 53 := by
      rcases r.eq_zero_or_pos with rfl | hr
      · decide
      · exact (Nat.log2_lt hr.ne').mpr hlt
    show max ((r.log2 : ℤ) + 1 + t - (53 : ℕ)) (-1074) ≤ t
    omega
  · -- rounding has carried into one bit more, and the last of its bits is zero
    refine ⟨2 ^ 52, t + 1, ?_, ?_, fun _ => ⟨by norm_num, by norm_num, by omega, Or.inl le_rfl⟩⟩
    · have htarget : Format.binary64.targetExponent (totalExponent (2 ^ 53) t) = t + 1 := by
        show max (((2 ^ 53 : ℕ).log2 : ℤ) + 1 + t - (53 : ℕ)) (-1074) = t + 1
        rw [Nat.log2_two_pow]
        omega
      unfold shiftToTargetExponent shiftToExponent
      dsimp only
      rw [htarget, show (t + 1 - t).toNat = 1 by omega]
      rfl
    · rw [zpow_add₀ (by norm_num)]
      push_cast
      ring

/-- A number that is located by its mantissa is rounded to the magnitude of the grid. -/
theorem denotes_of_locates (s : Sign) {m : ℕ} {e : ℤ} {accuracy : Accuracy} {x : ℝ} (hx : 0 < x)
    (hlocates : Locates (.ofMantissaAndAccuracy m accuracy) x)
    (he : e ≤ gridExponent (x * 2 ^ e)) :
    Denotes (roundWithAccuracy .binary64 s m e accuracy) s (roundMagnitude (x * 2 ^ e)) := by
  have hfloor : ⌊x⌋₊ = m := by
    rw [hlocates.floor]
    match accuracy with
    | .exact => rfl
    | .inexact .lt => rfl
    | .inexact .eq => rfl
    | .inexact .gt => rfl
  have htarget := targetExponent_of_le hx he
  rw [hfloor] at htarget
  set a : ℝ := x * 2 ^ e with ha
  have hpos : 0 < a := by positivity
  set k := (gridExponent a - e).toNat with hk
  have hexp : e + k = gridExponent a := by omega
  have hscaled : x / 2 ^ k = a / 2 ^ gridExponent a := by
    rw [← hexp, zpow_add₀ (by norm_num), zpow_natCast, ha, mul_comm x,
      mul_div_mul_left _ _ (by positivity)]
  -- the first shift goes to the grid and leaves the rest of the number in the residual bits
  have hfirst : shiftToTargetExponent .binary64 m e accuracy =
      (ExtendedMantissa.ofMantissaAndAccuracy m accuracy >>> k, gridExponent a) := by
    unfold shiftToTargetExponent shiftToExponent
    dsimp only
    rw [htarget, ← hk, hexp]
  have hrounded : (ExtendedMantissa.ofMantissaAndAccuracy m accuracy >>> k).roundedMantissa =
      nearestEven (a / 2 ^ gridExponent a) := by
    rw [← hscaled]
    exact (hlocates.shiftRight k).roundedMantissa
  have hfull : 2 ^ 52 ≤ nearestEven (a / 2 ^ gridExponent a) ∨ gridExponent a = -1074 := by
    by_cases hgrid : gridExponent a = -1074
    · exact Or.inr hgrid
    · exact Or.inl (le_nearestEven_grid hpos hgrid)
  -- rounding up may carry into one more bit, which is what the second shift is for
  obtain ⟨m', e', hsecond, hvalue, hcanonical⟩ :=
    shiftToTargetExponent_carry (nearestEven_grid_le a) (le_gridExponent a) hfull
  unfold roundWithAccuracy
  rw [hfirst]
  dsimp only
  rw [hrounded, hsecond]
  dsimp only
  unfold roundMagnitude
  rw [← hvalue]
  by_cases hz : m' = 0
  · rw [dif_pos hz]
    refine ⟨rfl, ?_⟩
    rw [hz, Nat.cast_zero, zero_mul]
  · rw [dif_neg hz]
    exact ⟨rfl, hcanonical hz, rfl⟩

theorem denotes_roundWithAccuracy (s : Sign) {m : ℕ} {e : ℤ} (hm : 0 < m)
    (he : e ≤ gridExponent (m * 2 ^ e)) :
    Denotes (roundWithAccuracy .binary64 s m e .exact) s (roundMagnitude (m * 2 ^ e)) :=
  denotes_of_locates s (by exact_mod_cast hm) (Locates.exact m) he

/-- Lowering the exponent keeps the number. -/
theorem decreaseExponent_value (m : ℕ) (e t : ℤ) :
    ((decreaseExponent m e t).1 : ℝ) * 2 ^ (decreaseExponent m e t).2 = m * 2 ^ e := by
  unfold decreaseExponent
  dsimp only
  rw [Nat.shiftLeft_eq, Nat.cast_mul, Nat.cast_pow, Nat.cast_ofNat, mul_assoc, ← zpow_natCast,
    ← zpow_add₀ (by norm_num), add_sub_cancel]

theorem decreaseExponent_le (m : ℕ) (e t : ℤ) : (decreaseExponent m e t).2 ≤ t := by
  unfold decreaseExponent
  dsimp only
  omega

theorem decreaseExponent_pos {m : ℕ} (hm : 0 < m) (e t : ℤ) : 0 < (decreaseExponent m e t).1 := by
  unfold decreaseExponent
  dsimp only
  rw [Nat.shiftLeft_eq]
  positivity

theorem denotes_round (s : Sign) {m : ℕ} (hm : 0 < m) (e : ℤ) :
    Denotes (UnpackedFloat.round .binary64 s m e) s (roundMagnitude (m * 2 ^ e)) := by
  have hvalue := decreaseExponent_value m e (gridExponent (m * 2 ^ e))
  have hle := decreaseExponent_le m e (gridExponent (m * 2 ^ e))
  have hpos := decreaseExponent_pos hm e (gridExponent (m * 2 ^ e))
  have hround : UnpackedFloat.round .binary64 s m e = roundWithAccuracy .binary64 s
      (decreaseExponent m e (gridExponent (m * 2 ^ e))).1
      (decreaseExponent m e (gridExponent (m * 2 ^ e))).2 .exact := by
    rw [← targetExponent_eq hm]
    rfl
  generalize decreaseExponent m e (gridExponent (m * 2 ^ e)) = p at hvalue hle hpos hround
  rw [hround]
  rw [← hvalue] at hle ⊢
  exact denotes_roundWithAccuracy s hpos hle

/-- Multiplying two canonical numbers gives at least as many bits as the grid asks for. -/
theorem Canonical.mul_exponent_le {m₁ m₂ : ℕ} {e₁ e₂ : ℤ} (h₁ : Canonical m₁ e₁)
    (h₂ : Canonical m₂ e₂) : e₁ + e₂ ≤ gridExponent ((m₁ * m₂ : ℕ) * 2 ^ (e₁ + e₂)) := by
  rw [← targetExponent_eq (Nat.mul_pos h₁.pos h₂.pos)]
  show _ ≤ max (((m₁ * m₂).log2 : ℤ) + 1 + (e₁ + e₂) - (53 : ℕ)) (-1074)
  have full : ∀ {n m : ℕ}, 0 < m → 2 ^ 52 ≤ n → 52 ≤ (n * m).log2 := by
    intro n m hm hn
    exact (Nat.le_log2 (by positivity)).mpr (hn.trans (Nat.le_mul_of_pos_right n hm))
  -- one significand with its leading bit makes the product long enough
  rcases h₁.full with hfull | hexp₁
  · have := full h₂.pos hfull
    omega
  · rcases h₂.full with hfull | hexp₂
    · have := full h₁.pos hfull
      rw [mul_comm] at this
      omega
    · omega

/-- A product is the exact product, rounded, if its factors have bits enough. -/
theorem denotes_mul (s : Sign) {m₁ m₂ : ℕ} (h₁ : 0 < m₁) (h₂ : 0 < m₂) {e₁ e₂ : ℤ}
    (he : e₁ + e₂ ≤ gridExponent ((m₁ * m₂ : ℕ) * 2 ^ (e₁ + e₂))) :
    Denotes (UnpackedFloat.mul .binary64 (.finite s m₁ e₁ h₁) (.finite .positive m₂ e₂ h₂)) s
      (roundMagnitude (m₁ * 2 ^ e₁ * (m₂ * 2 ^ e₂))) := by
  have hvalue : ((m₁ * m₂ : ℕ) : ℝ) * 2 ^ (e₁ + e₂) = m₁ * 2 ^ e₁ * (m₂ * 2 ^ e₂) := by
    rw [zpow_add₀ (by norm_num)]
    push_cast
    ring
  have hsign : s * .positive = s := by
    cases s <;> rfl
  have hdenotes := denotes_roundWithAccuracy s (Nat.mul_pos h₁ h₂) he
  rw [hvalue] at hdenotes
  show Denotes (roundWithAccuracy .binary64 (s * .positive) _ _ _) s _
  rw [hsign]
  exact hdenotes

end PulseTrain.Decimal
