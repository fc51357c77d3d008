import PulseTrain.Proofs.Decimal.Scientific

/-! # Signed zeros

    The two zeros are equal as numbers, and yet a sum may tell them apart: the positive zero makes
    the negative one positive. To every other double it adds nothing, and the negative zero adds
    nothing to any double. A negative zero comes about only from zeros: a sum of doubles that is
    not exactly zero is at least as large as the smallest double, and one that is exactly zero is
    positive.

    * **Zeros as terms**: `add_posZero`, `posZero_add`, `add_negZero` and `negZero_add`;
    * **Exact differences**: `sub_self_eq`;
    * **Negative zero as result**: `eq_negZero_of_add` and `eq_negZero_of_sub`.
-/

namespace PulseTrain.Decimal

open Float.Model Float.Model.UnpackedFloat

variable {x y : Float}

theorem unpack_posZero : (0.0 : Float).toModel.unpack = .zero .positive := rfl

theorem unpack_negZero : (-0.0 : Float).toModel.unpack = .zero .negative := rfl

theorem eq_posZero_iff : x = 0.0 ↔ x.toModel.unpack = .zero .positive := by
  constructor
  · rintro rfl
    exact unpack_posZero
  · intro h
    exact eq_of_unpack (h.trans unpack_posZero.symm)

theorem eq_negZero_iff : x = -0.0 ↔ x.toModel.unpack = .zero .negative := by
  constructor
  · rintro rfl
    exact unpack_negZero
  · intro h
    exact eq_of_unpack (h.trans unpack_negZero.symm)

/-- A double that equals zero is one of the two zeros. -/
theorem beq_posZero_iff : (x == 0.0) = true ↔ x = 0.0 ∨ x = -0.0 := by
  rw [eq_posZero_iff, eq_negZero_iff]
  show (x.toModel.unpack.compare (.zero .positive) == some .eq) = true ↔ _
  cases x.toModel.unpack with
  | notANumber => simp [UnpackedFloat.compare]
  | zero s => cases s <;> simp [UnpackedFloat.compare]
  | infinity s => cases s <;> simp [UnpackedFloat.compare]
  | finite s m e hm => cases s <;> simp [UnpackedFloat.compare]

theorem unpack_add (x y : Float) : (x + y).toModel.unpack =
    (Float.Model.pack (UnpackedFloat.add .binary64 x.toModel.unpack y.toModel.unpack)).unpack :=
  rfl

theorem unpack_sub (x y : Float) : (x - y).toModel.unpack =
    (Float.Model.pack
      (UnpackedFloat.add .binary64 x.toModel.unpack y.toModel.unpack.neg)).unpack := by
  rw [← sub_eq_add_neg]
  rfl

/-! ## Zeros as terms -/

/-- A double that is the exact sum of two others is their sum. -/
theorem add_eq_of_unpack {z : Float}
    (h : UnpackedFloat.add .binary64 x.toModel.unpack y.toModel.unpack = z.toModel.unpack) :
    x + y = z := by
  apply eq_of_unpack
  rw [unpack_add, h, (packable_unpack _).unpack_pack]

/-- A zero adds nothing, unless it is the positive one and makes the negative one positive. -/
theorem add_zero_unpacked {s : Sign} {u : UnpackedFloat} (h : u = .zero .negative → s = .negative) :
    UnpackedFloat.add .binary64 u (.zero s) = u ∧ UnpackedFloat.add .binary64 (.zero s) u = u := by
  cases u with
  | notANumber => exact ⟨rfl, rfl⟩
  | infinity t => exact ⟨rfl, rfl⟩
  | finite t m e hm => exact ⟨rfl, rfl⟩
  | zero t =>
    cases t with
    | positive => cases s <;> exact ⟨rfl, rfl⟩
    | negative =>
      rw [h rfl]
      exact ⟨rfl, rfl⟩

theorem add_posZero (h : x ≠ -0.0) : x + 0.0 = x :=
  add_eq_of_unpack (add_zero_unpacked fun hx => absurd (eq_negZero_iff.mpr hx) h).1

theorem posZero_add (h : x ≠ -0.0) : 0.0 + x = x :=
  add_eq_of_unpack (add_zero_unpacked fun hx => absurd (eq_negZero_iff.mpr hx) h).2

theorem add_negZero (x : Float) : x + -0.0 = x :=
  add_eq_of_unpack (add_zero_unpacked fun _ => rfl).1

theorem negZero_add (x : Float) : -0.0 + x = x :=
  add_eq_of_unpack (add_zero_unpacked fun _ => rfl).2

/-! ## Exact differences -/

/-- A finite double less itself is the positive zero. -/
theorem sub_self_eq (h : x.isFinite = true) : x - x = 0.0 := by
  rw [eq_posZero_iff, unpack_sub]
  change x.toModel.unpack.isFinite = true at h
  cases hx : x.toModel.unpack with
  | notANumber =>
    rw [hx] at h
    cases h
  | infinity s =>
    rw [hx] at h
    cases h
  | zero s => cases s <;> exact unpack_pack_zero .positive
  | finite s m e hm =>
    -- the significands cancel exactly, and the sum of such a pair is given a positive sign
    have hsum : UnpackedFloat.add .binary64 (.finite s m e hm) (UnpackedFloat.finite s m e hm).neg =
        .zero .positive := by
      unfold UnpackedFloat.add UnpackedFloat.neg
      dsimp only
      rw [apply_neg, ← Int.sub_eq_add_neg, sub_self]
      rfl
    rw [hsum, unpack_pack_zero]

/-! ## Negative zero as result -/

/-- A number that is at least as large as the smallest double is not rounded to zero. -/
theorem roundMagnitude_pos {n : ℕ} (hn : 0 < n) {e : ℤ} (he : -1074 ≤ e) :
    0 < roundMagnitude (n * 2 ^ e) := by
  -- the smallest double stays what it is, and the number is no smaller
  have hsmallest : Canonical 1 (-1074) := ⟨one_pos, by norm_num, le_rfl, Or.inr rfl⟩
  have hle : ((1 : ℕ) : ℝ) * 2 ^ (-1074 : ℤ) ≤ n * 2 ^ e := by
    apply mul_le_mul
    · exact_mod_cast hn
    · exact zpow_le_zpow_right₀ (by norm_num) he
    · positivity
    · positivity
  calc (0 : ℝ) < ((1 : ℕ) : ℝ) * 2 ^ (-1074 : ℤ) := by positivity
    _ = roundMagnitude ((1 : ℕ) * 2 ^ (-1074 : ℤ)) := (roundMagnitude_of_canonical hsmallest).symm
    _ ≤ roundMagnitude (n * 2 ^ e) := roundMagnitude_mono (by positivity) hle

/-- What is packed from a magnitude that is not zero is no zero. -/
theorem Denotes.unpack_ne_zero {u : UnpackedFloat} {s t : Sign} {a : ℝ} (h : Denotes u s a)
    (ha : 0 < a) : (Float.Model.pack u).unpack ≠ .zero t := by
  intro hzero
  have hvalue := h.packsTo.value
  rw [hzero] at hvalue
  have hsaturate : saturate a ≠ 0 := by
    unfold saturate
    split
    · exact_mod_cast ha.ne'
    · exact EReal.top_ne_zero
  cases s with
  | positive => exact hsaturate hvalue.symm
  | negative => exact hsaturate (EReal.neg_eq_zero_iff.mp hvalue.symm)

theorem unpack_normalize_ne_negZero (k : ℤ) {e : ℤ} (he : -1074 ≤ e) :
    (Float.Model.pack (UnpackedFloat.normalize .binary64 k e .positive)).unpack ≠
      .zero .negative := by
  unfold UnpackedFloat.normalize
  -- only a sum of zero gives a zero, and it gives the positive one
  rcases lt_trichotomy k 0 with hk | hk | hk
  · rw [compare_lt_iff_lt.mpr hk]
    have hn : 0 < (-k).toNat := by omega
    exact (denotes_round .negative hn e).unpack_ne_zero (roundMagnitude_pos hn he)
  · rw [compare_eq_iff_eq.mpr hk]
    show (Float.Model.pack (.zero .positive)).unpack ≠ _
    rw [unpack_pack_zero]
    simp
  · rw [compare_gt_iff_gt.mpr hk]
    have hn : 0 < k.toNat := by omega
    exact (denotes_round .positive hn e).unpack_ne_zero (roundMagnitude_pos hn he)

/-- Only negative zeros add up to the negative zero. -/
theorem negZero_of_add {u v : UnpackedFloat} (hu : Packable u) (hv : Packable v)
    (h : (Float.Model.pack (UnpackedFloat.add .binary64 u v)).unpack = .zero .negative) :
    u = .zero .negative ∧ v = .zero .negative := by
  -- a sum that is packed as it is would be the negative zero itself
  have hkept : ∀ w : UnpackedFloat, Packable w → w ≠ .zero .negative →
      (Float.Model.pack w).unpack ≠ .zero .negative := by
    intro w hw hne
    rwa [hw.unpack_pack]
  have hnumber := hkept .notANumber trivial UnpackedFloat.noConfusion
  have hinfinity := fun s => hkept (.infinity s) trivial UnpackedFloat.noConfusion
  have hpositive := hkept (.zero .positive) trivial (by simp)
  match u, v with
  | .notANumber, _ => exact absurd h hnumber
  | .infinity _, .notANumber => exact absurd h hnumber
  | .zero _, .notANumber => exact absurd h hnumber
  | .finite _ _ _ _, .notANumber => exact absurd h hnumber
  | .infinity .positive, .infinity .positive => exact absurd h (hinfinity _)
  | .infinity .positive, .infinity .negative => exact absurd h hnumber
  | .infinity .negative, .infinity .positive => exact absurd h hnumber
  | .infinity .negative, .infinity .negative => exact absurd h (hinfinity _)
  | .infinity _, .zero _ => exact absurd h (hinfinity _)
  | .zero _, .infinity _ => exact absurd h (hinfinity _)
  | .infinity _, .finite _ _ _ _ => exact absurd h (hinfinity _)
  | .finite _ _ _ _, .infinity _ => exact absurd h (hinfinity _)
  | .zero .negative, .zero .negative => exact ⟨rfl, rfl⟩
  | .zero .negative, .zero .positive => exact absurd h hpositive
  | .zero .positive, .zero .negative => exact absurd h hpositive
  | .zero .positive, .zero .positive => exact absurd h hpositive
  | .zero _, .finite t n f hn =>
    exact absurd h (hkept (.finite t n f hn) hv UnpackedFloat.noConfusion)
  | .finite s m e hm, .zero _ =>
    exact absurd h (hkept (.finite s m e hm) hu UnpackedFloat.noConfusion)
  | .finite s m e hm, .finite t n f hn =>
    have hleast : -1074 ≤ min e f := le_min hu.1.least hv.1.least
    exact absurd h (unpack_normalize_ne_negZero _ hleast)

theorem eq_negZero_of_add (h : x + y = -0.0) : x = -0.0 ∧ y = -0.0 := by
  rw [eq_negZero_iff, unpack_add] at h
  rw [eq_negZero_iff, eq_negZero_iff]
  exact negZero_of_add (packable_unpack _) (packable_unpack _) h

theorem eq_negZero_of_sub (h : x - y = -0.0) : x = -0.0 ∧ y = 0.0 := by
  rw [eq_negZero_iff, unpack_sub] at h
  rw [eq_negZero_iff, eq_posZero_iff]
  obtain ⟨hx, hy⟩ := negZero_of_add (packable_unpack _) (packable_unpack _).neg h
  refine ⟨hx, ?_⟩
  -- the opposite of the other zero is the only negative zero
  cases hu : y.toModel.unpack with
  | zero s =>
    rw [hu] at hy
    cases s with
    | positive => rfl
    | negative => cases hy
  | notANumber =>
    rw [hu] at hy
    cases hy
  | infinity s =>
    rw [hu] at hy
    cases hy
  | finite s m e hm =>
    rw [hu] at hy
    cases hy

end PulseTrain.Decimal
