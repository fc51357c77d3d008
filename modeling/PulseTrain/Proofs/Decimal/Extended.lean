import Mathlib
import PulseTrain.Proofs.Decimal.Rounding

/-! # Doubles as extended numbers

    A double that is not NaN stands for a real number or for one of the two infinities, and
    `extended` is what it stands for. Doubles are compared as these numbers, and `rounded` is the
    double nearest to a number.

    * **Packing**: a canonical number is kept in the bits as it is, unless it is too large and an
      infinity takes its place;
    * **Rounding**: `rounded_mono`, and `Packable.rounded_value` for what is a double already;
    * **Order**: `compare_extended`, with `lt_iff_extended_lt`, `le_iff_extended_le` and
      `beq_iff_extended_eq` as the comparisons that are used.

    The facts about packing and unpacking a double come with no single module of Mathlib, so
    the whole library is imported here.
-/

namespace PulseTrain.Decimal

open Float.Model Float.Model.UnpackedFloat

/-! ## Packing -/

theorem unpack_pack_zero (s : Sign) : (Float.Model.pack (.zero s)).unpack = .zero s :=
  unpack_packedZero

theorem unpack_pack_notANumber : (Float.Model.pack .notANumber).unpack = .notANumber :=
  unpack_packedNaN

theorem unpack_packedInfinity (s : Sign) :
    UnpackedFloat.unpack .binary64 (packedInfinity .binary64 s) = .infinity s := by
  unfold UnpackedFloat.unpack packedInfinity
  simp

theorem unpack_pack_infinity (s : Sign) : (Float.Model.pack (.infinity s)).unpack = .infinity s :=
  unpack_packedInfinity s

/-- The bits of a normal number leave out the leading one of the significand. -/
theorem unpack_normal (s : Sign) (exponent : BitVec 11) (fraction : BitVec 52)
    (hzero : exponent ≠ 0#11) (hones : exponent ≠ -1#11) :
    UnpackedFloat.unpack .binary64 (packComponents .binary64 s exponent fraction) =
      .finite s (2 ^ 52 + fraction.toNat) (exponent.toNat - 1075) (by positivity) := by
  have hfraction : (1#1 ++ fraction).toNat = 2 ^ 52 + fraction.toNat := by
    rw [BitVec.toNat_append]
    exact (Nat.two_pow_add_eq_or_of_lt fraction.isLt 1).symm
  unfold UnpackedFloat.unpack
  simp only [unpackMantissa_packComponents, unpackExponent_packComponents,
    unpackSign_packComponents, Sign.ofBitVec_toBitVec]
  rw [if_neg hones, if_neg hzero]
  simp only [hfraction]
  rfl

theorem unpack_subnormal (s : Sign) (fraction : BitVec 52) (h : 0 < fraction.toNat) :
    UnpackedFloat.unpack .binary64 (packComponents .binary64 s 0#11 fraction) =
      .finite s fraction.toNat (-1074) h := by
  have hne : fraction ≠ 0#52 := by
    rintro rfl
    exact h.ne' rfl
  unfold UnpackedFloat.unpack
  simp only [unpackMantissa_packComponents, unpackExponent_packComponents,
    unpackSign_packComponents, Sign.ofBitVec_toBitVec]
  rw [if_neg (by decide), if_pos trivial, dif_neg hne]
  rfl

/-- A canonical number whose exponent is too large is packed as an infinity. -/
theorem unpack_pack_overflow {s : Sign} {m : ℕ} {e : ℤ} (h : 0 < m) (he : 971 < e) :
    (Float.Model.pack (.finite s m e h)).unpack = .infinity s := by
  show UnpackedFloat.unpack .binary64 (UnpackedFloat.pack .binary64 (.finite s m e h)) = _
  unfold UnpackedFloat.pack
  rw [if_pos, unpack_packedInfinity]
  show (2048 : ℕ) ≤ (e + (1023 : ℕ) + (52 : ℕ)).toNat + 1
  omega

/-- A number of at most 53 bits has all of them from the half of the largest on. -/
theorem bits_eq_iff {m : ℕ} (hpos : 0 < m) (hlt : m < 2 ^ 53) : m.log2 + 1 = 53 ↔ 2 ^ 52 ≤ m := by
  have hupper := (Nat.log2_lt hpos.ne').mpr hlt
  rw [← Nat.le_log2 hpos.ne']
  omega

/-- Any other canonical number is packed as it is. -/
theorem unpack_pack_canonical {s : Sign} {m : ℕ} {e : ℤ} (hc : Canonical m e) (he : e ≤ 971) :
    (Float.Model.pack (.finite s m e hc.pos)).unpack = .finite s m e hc.pos := by
  show UnpackedFloat.unpack .binary64 (UnpackedFloat.pack .binary64 (.finite s m e hc.pos)) = _
  have hleast := hc.least
  have hlt := hc.lt
  have hbias : (e + (Format.exponentBias .binary64 : ℕ) + (52 : ℕ)).toNat =
      (e + 1075).toNat := by
    show (e + (1023 : ℕ) + (52 : ℕ)).toNat = _
    omega
  unfold UnpackedFloat.pack
  simp only [hbias]
  rw [if_neg (by omega)]
  split
  · next hnormal =>
    have hfull : 2 ^ 52 ≤ m := (bits_eq_iff hc.pos hlt).mp hnormal
    have hexp : (BitVec.ofNat 11 (e + 1075).toNat).toNat = (e + 1075).toNat := by
      rw [BitVec.toNat_ofNat, Nat.mod_eq_of_lt (by omega)]
    -- all zeros and all ones are the exponents of other numbers
    have hproper : ∀ c : BitVec 11, c.toNat = 0 ∨ c.toNat = 2047 →
        BitVec.ofNat 11 (e + 1075).toNat ≠ c := by
      rintro c hother rfl
      rw [hexp] at hother
      omega
    have hfraction : 2 ^ 52 + (BitVec.ofNat 52 m).toNat = m := by
      rw [BitVec.toNat_ofNat]
      omega
    rw [unpack_normal s _ _ (hproper _ (Or.inl rfl)) (hproper _ (Or.inr rfl))]
    simp only [hexp, hfraction]
    congr 1
    omega
  · next hsubnormal =>
    -- a significand without its leading bit is kept with the least exponent only
    have hsmall : m < 2 ^ 52 := not_le.mp (mt (bits_eq_iff hc.pos hlt).mpr hsubnormal)
    have hfraction : (BitVec.ofNat 52 m).toNat = m := by
      rw [BitVec.toNat_ofNat, Nat.mod_eq_of_lt hsmall]
    have hexp : e = -1074 := hc.full.resolve_left (by omega)
    rw [unpack_subnormal _ _ (by rw [hfraction]; exact hc.pos)]
    simp only [hfraction, hexp]

/-- The bits of a double keep all of it. -/
theorem pack_unpack_eq (v : Float.Model) : Float.Model.pack v.unpack = v := by
  obtain ⟨bits, valid⟩ := v
  unfold Float.Model.pack Float.Model.unpack
  simp only [pack_unpack_of_valid valid]

/-- The exponent of a double is not too large to be packed. -/
theorem exponent_le_of_unpack {v : Float.Model} {s m e h} (hu : v.unpack = .finite s m e h) :
    e ≤ 971 := by
  by_contra hlarge
  have hpacked := unpack_pack_overflow (s := s) h (not_le.mp hlarge)
  rw [← hu, pack_unpack_eq, hu] at hpacked
  cases hpacked

/-- The numbers that a double can keep. -/
def Packable (u : UnpackedFloat) : Prop :=
  match u with
  | .finite _ m e _ => Canonical m e ∧ e ≤ 971
  | _ => True

theorem packable_unpack (v : Float.Model) : Packable v.unpack := by
  cases hu : v.unpack with
  | finite s m e h => exact ⟨canonical_of_unpack hu, exponent_le_of_unpack hu⟩
  | _ => trivial

theorem Packable.unpack_pack {u : UnpackedFloat} (h : Packable u) :
    (Float.Model.pack u).unpack = u := by
  cases u with
  | zero s => exact unpack_pack_zero s
  | infinity s => exact unpack_pack_infinity s
  | notANumber => exact unpack_pack_notANumber
  | finite s m e hm => exact unpack_pack_canonical h.1 h.2

theorem Packable.neg {u : UnpackedFloat} (h : Packable u) : Packable u.neg := by
  cases u with
  | finite s m e hm => exact h
  | _ => trivial

/-! ## Extended numbers -/

/-- The number for which a double stands, an infinity included. -/
noncomputable def extended (x : Float) : EReal := unpackedValue x.toModel.unpack

/-- The magnitude of the double nearest to a number that is not negative. -/
noncomputable def roundNonneg (x : EReal) : EReal :=
  if x = ⊤ then ⊤ else saturate (roundMagnitude x.toReal)

/-- The double nearest to a number, an infinity if the number is too large. -/
noncomputable def rounded (x : EReal) : EReal :=
  if 0 ≤ x then roundNonneg x else -roundNonneg (-x)

theorem saturate_mono {a b : ℝ} (h : a ≤ b) : saturate a ≤ saturate b := by
  unfold saturate
  split
  · split
    · exact_mod_cast h
    · exact le_top
  · next ha => rw [if_neg (fun hb => ha (h.trans_lt hb))]

theorem saturate_nonneg {a : ℝ} (h : 0 ≤ a) : 0 ≤ saturate a := by
  unfold saturate
  split
  · exact_mod_cast h
  · exact le_top

@[simp] theorem saturate_zero : saturate 0 = 0 := if_pos (by positivity)

theorem roundNonneg_nonneg (x : EReal) : 0 ≤ roundNonneg x := by
  unfold roundNonneg
  split
  · exact le_top
  · exact saturate_nonneg (roundMagnitude_nonneg _)

theorem roundNonneg_mono {x y : EReal} (hx : 0 ≤ x) (h : x ≤ y) :
    roundNonneg x ≤ roundNonneg y := by
  unfold roundNonneg
  -- nothing lies above infinity, and below it both numbers are finite
  by_cases hy : y = ⊤
  · rw [if_pos hy]
    exact le_top
  · have hxtop : x ≠ ⊤ := fun hxtop => hy (top_le_iff.mp (hxtop ▸ h))
    rw [if_neg hy, if_neg hxtop]
    apply saturate_mono
    apply roundMagnitude_mono (EReal.toReal_nonneg hx)
    exact EReal.toReal_le_toReal h (fun hbot => by simp [hbot] at hx) hy

@[simp] theorem roundNonneg_zero : roundNonneg 0 = 0 := by
  unfold roundNonneg
  simp [roundMagnitude_zero]

@[simp] theorem rounded_top : rounded ⊤ = ⊤ := by
  unfold rounded roundNonneg
  rw [if_pos le_top, if_pos rfl]

@[simp] theorem rounded_bot : rounded ⊥ = ⊥ := by
  unfold rounded roundNonneg
  rw [if_neg (by simp), EReal.neg_bot, if_pos rfl, EReal.neg_top]

/-- A larger number is not rounded to a smaller one. -/
theorem rounded_mono {x y : EReal} (h : x ≤ y) : rounded x ≤ rounded y := by
  unfold rounded
  by_cases hx : 0 ≤ x
  · rw [if_pos hx, if_pos (hx.trans h)]
    exact roundNonneg_mono hx h
  · rw [if_neg hx]
    have hneg : -roundNonneg (-x) ≤ 0 := by
      rw [EReal.neg_le, neg_zero]
      exact roundNonneg_nonneg _
    -- a number below zero is rounded by its magnitude, so the order turns around
    by_cases hy : 0 ≤ y
    · rw [if_pos hy]
      exact hneg.trans (roundNonneg_nonneg y)
    · rw [if_neg hy, EReal.neg_le_neg_iff]
      apply roundNonneg_mono
      · exact EReal.neg_nonneg.mpr (not_le.mp hy).le
      · exact EReal.neg_le_neg_iff.mpr h

/-- Rounding treats the two signs alike. -/
theorem rounded_signed (s : Sign) {a : EReal} (h : 0 ≤ a) :
    rounded (signed s a) = signed s (roundNonneg a) := by
  cases s with
  | positive => exact if_pos h
  | negative =>
    unfold rounded signed
    dsimp only
    rcases h.eq_or_lt with rfl | hpos
    · simp
    · rw [if_neg (by simpa using hpos), neg_neg]

theorem roundNonneg_coe (a : ℝ) : roundNonneg (a : EReal) = saturate (roundMagnitude a) := by
  unfold roundNonneg
  rw [if_neg (EReal.coe_ne_top a), EReal.toReal_coe]

theorem saturate_of_canonical {m : ℕ} {e : ℤ} (hc : Canonical m e) (he : e ≤ 971) :
    saturate (m * 2 ^ e) = ((m * 2 ^ e : ℝ) : EReal) := by
  unfold saturate
  rw [if_pos]
  -- 53 bits at the exponent 971 stay just below what is too large
  calc (m : ℝ) * 2 ^ e < 2 ^ 53 * 2 ^ e := by
        apply mul_lt_mul_of_pos_right _ (by positivity)
        exact_mod_cast hc.lt
    _ ≤ 2 ^ 53 * 2 ^ (971 : ℤ) := by
        gcongr
        norm_num
    _ = 2 ^ 1024 := by rw [zpow_ofNat, ← pow_add]

theorem saturate_of_overflow {m : ℕ} {e : ℤ} (hc : Canonical m e) (he : 971 < e) :
    saturate (m * 2 ^ e) = ⊤ := by
  -- above the least exponent the significand has its leading bit
  have hfull : 2 ^ 52 ≤ m := hc.full.resolve_right (by omega)
  unfold saturate
  rw [if_neg]
  rw [not_lt]
  calc (2 : ℝ) ^ 1024 = 2 ^ 52 * 2 ^ (972 : ℤ) := by rw [zpow_ofNat, ← pow_add]
    _ ≤ 2 ^ 52 * 2 ^ e := by
        gcongr
        · norm_num
        · omega
    _ ≤ m * 2 ^ e := by
        apply mul_le_mul_of_nonneg_right _ (by positivity)
        exact_mod_cast hfull

/-- A number that a double can keep is not changed by rounding. -/
theorem Packable.rounded_value {u : UnpackedFloat} (h : Packable u) :
    rounded (unpackedValue u) = unpackedValue u := by
  cases u with
  | zero s => exact (if_pos le_rfl).trans roundNonneg_zero
  | notANumber => exact (if_pos le_rfl).trans roundNonneg_zero
  | infinity s => exact (rounded_signed s le_top).trans (congrArg (signed s) (if_pos rfl))
  | finite s m e hm =>
    have hpos : (0 : ℝ) ≤ m * 2 ^ e := by positivity
    unfold unpackedValue
    dsimp only
    rw [rounded_signed s (by exact_mod_cast hpos), roundNonneg_coe,
      roundMagnitude_of_canonical h.1, saturate_of_canonical h.1 h.2]

/-! ## Order -/

theorem extended_of_finite {x : Float} (h : x.isFinite = true) :
    extended x = ((rational x : ℝ) : EReal) := by
  change x.toModel.unpack.isFinite = true at h
  unfold extended
  match hu : x.toModel.unpack with
  | .notANumber => rw [hu] at h; cases h
  | .infinity _ => rw [hu] at h; cases h
  | .zero s =>
    -- on a finite double both readings are the same expression, up to the casts
    rw [rational_of_zero hu]
    exact_mod_cast rfl
  | .finite .positive m e hm =>
    rw [rational_of_positive hu]
    push_cast
    rfl
  | .finite .negative m e hm =>
    rw [rational_of_negative hu]
    push_cast
    rfl

theorem isFinite_or_infinity {x : Float} (h : x.isNaN = false) :
    x.isFinite = true ∨ ∃ s, x.toModel.unpack = .infinity s := by
  change x.toModel.unpack.isNaN = false at h
  show x.toModel.unpack.isFinite = true ∨ _
  match hu : x.toModel.unpack with
  | .notANumber => rw [hu] at h; cases h
  | .infinity s => exact Or.inr ⟨s, rfl⟩
  | .zero _ => exact Or.inl rfl
  | .finite _ _ _ _ => exact Or.inl rfl

theorem compare_finite_infinity {u : UnpackedFloat} (h : u.isFinite = true) :
    u.compare (.infinity .positive) = some .lt ∧ u.compare (.infinity .negative) = some .gt := by
  match u with
  | .notANumber => cases h
  | .infinity _ => cases h
  | .zero _ => exact ⟨rfl, rfl⟩
  | .finite .positive _ _ _ => exact ⟨rfl, rfl⟩
  | .finite .negative _ _ _ => exact ⟨rfl, rfl⟩

theorem compare_infinity_finite {u : UnpackedFloat} (h : u.isFinite = true) :
    (UnpackedFloat.infinity .positive).compare u = some .gt ∧
      (UnpackedFloat.infinity .negative).compare u = some .lt := by
  match u with
  | .notANumber => cases h
  | .infinity _ => cases h
  | .zero _ => exact ⟨rfl, rfl⟩
  | .finite _ _ _ _ => exact ⟨rfl, rfl⟩

theorem extended_of_infinity {x : Float} {s : Sign} (h : x.toModel.unpack = .infinity s) :
    extended x = signed s ⊤ := congrArg unpackedValue h

/-- Doubles that are numbers are compared as the numbers they stand for. -/
theorem compare_extended {x y : Float} (hx : x.isNaN = false) (hy : y.isNaN = false) :
    x.toModel.unpack.compare y.toModel.unpack = some (compare (extended x) (extended y)) := by
  -- two finite doubles are compared as rationals, and an infinity with anything by its sign
  rcases isFinite_or_infinity hx with hfx | ⟨s, hs⟩
  · rcases isFinite_or_infinity hy with hfy | ⟨t, ht⟩
    · rw [compare_unpack hfx hfy, extended_of_finite hfx, extended_of_finite hfy]
      congr 1
      rcases lt_trichotomy (rational x) (rational y) with h | h | h
      · rw [compare_lt_iff_lt.mpr h, compare_lt_iff_lt.mpr]
        exact_mod_cast h
      · rw [h, compare_eq_iff_eq.mpr rfl, compare_eq_iff_eq.mpr rfl]
      · rw [compare_gt_iff_gt.mpr h, compare_gt_iff_gt.mpr]
        exact_mod_cast h
    · rw [extended_of_finite hfx, extended_of_infinity ht, ht]
      cases t with
      | positive =>
        rw [(compare_finite_infinity hfx).1, signed_positive,
          compare_lt_iff_lt.mpr (EReal.coe_lt_top _)]
      | negative =>
        rw [(compare_finite_infinity hfx).2, signed_negative, EReal.neg_top,
          compare_gt_iff_gt.mpr (EReal.bot_lt_coe _)]
  · rcases isFinite_or_infinity hy with hfy | ⟨t, ht⟩
    · rw [extended_of_finite hfy, extended_of_infinity hs, hs]
      cases s with
      | positive =>
        rw [(compare_infinity_finite hfy).1, signed_positive,
          compare_gt_iff_gt.mpr (EReal.coe_lt_top _)]
      | negative =>
        rw [(compare_infinity_finite hfy).2, signed_negative, EReal.neg_top,
          compare_lt_iff_lt.mpr (EReal.bot_lt_coe _)]
    · rw [extended_of_infinity hs, extended_of_infinity ht, hs, ht]
      -- two infinities are compared by their signs
      cases s <;> cases t
      · rw [compare_eq_iff_eq.mpr rfl]
        rfl
      · rw [signed_positive, signed_negative, EReal.neg_top, compare_lt_iff_lt.mpr bot_lt_top]
        rfl
      · rw [signed_positive, signed_negative, EReal.neg_top, compare_gt_iff_gt.mpr bot_lt_top]
        rfl
      · rw [compare_eq_iff_eq.mpr rfl]
        rfl

theorem lt_iff_extended_lt {x y : Float} (hx : x.isNaN = false) (hy : y.isNaN = false) :
    x < y ↔ extended x < extended y := by
  show decide ((x.toModel.unpack.compare y.toModel.unpack == some .lt) = true) = true ↔ _
  rw [compare_extended hx hy, decide_eq_true_iff]
  simp [compare_lt_iff_lt]

theorem le_iff_extended_le {x y : Float} (hx : x.isNaN = false) (hy : y.isNaN = false) :
    x ≤ y ↔ extended x ≤ extended y := by
  show decide (((x.toModel.unpack.compare y.toModel.unpack).any (·.isLE)) = true) = true ↔ _
  rw [compare_extended hx hy, decide_eq_true_iff]
  simp [← Ordering.ne_gt_iff_isLE, compare_le_iff_le]

theorem beq_iff_extended_eq {x y : Float} (hx : x.isNaN = false) (hy : y.isNaN = false) :
    (x == y) = true ↔ extended x = extended y := by
  show (x.toModel.unpack.compare y.toModel.unpack == some .eq) = true ↔ _
  rw [compare_extended hx hy]
  simp

end PulseTrain.Decimal
