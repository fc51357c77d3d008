import PulseTrain.Proofs.Decimal.Extended
import PulseTrain.Samples

/-! # Arithmetic of doubles

    Addition, subtraction and multiplication by a positive double give the exact result, rounded.
    So they keep the order of their operands, and lose nothing where the exact result is a double.

    * **Operations**: `PacksTo` says which number is packed; `packsTo_add` goes through the kinds
      of operands, and subtraction is the addition of the opposite number;
    * **Order**: `add_le_add`, `sub_le_sub_right` and `mul_le_mul_right`, for results that are
      numbers;
    * **Exact results**: `sub_eq_zero_of_eq` and `add_zero_eq`;
    * **Integers**: `nearest_mono`, since a half goes away from zero on both sides of it.
-/

namespace PulseTrain.Decimal

open Float.Model Float.Model.UnpackedFloat

/-! ## Packed results -/

/-- What is packed is a number, and the one given. -/
structure PacksTo (u : UnpackedFloat) (x : EReal) : Prop where
  number : (Float.Model.pack u).unpack ≠ .notANumber
  value : unpackedValue (Float.Model.pack u).unpack = x

theorem PacksTo.ne_notANumber {u : UnpackedFloat} {x : EReal} (h : PacksTo u x) :
    u ≠ .notANumber := by
  rintro rfl
  exact h.number unpack_pack_notANumber

/-- An operation whose exact result is a double gives it. -/
theorem PacksTo.exact {u : UnpackedFloat} {x : EReal} (hu : Packable u)
    (hnumber : u ≠ .notANumber) (h : unpackedValue u = x) : PacksTo u (rounded x) := by
  constructor
  · rw [hu.unpack_pack]
    exact hnumber
  · rw [hu.unpack_pack, ← h, hu.rounded_value]

theorem PacksTo.infinity {s : Sign} {x : EReal} (h : signed s ⊤ = x) :
    PacksTo (.infinity s) (rounded x) :=
  .exact trivial UnpackedFloat.noConfusion h

theorem PacksTo.zero {s : Sign} {x : EReal} (h : 0 = x) : PacksTo (.zero s) (rounded x) :=
  .exact trivial UnpackedFloat.noConfusion h

/-- What is packed is the magnitude that is denoted, or an infinity. -/
theorem Denotes.packsTo {u : UnpackedFloat} {s : Sign} {a : ℝ} (h : Denotes u s a) :
    PacksTo u (signed s (saturate a)) := by
  match u, h with
  | .zero t, h =>
    obtain ⟨rfl, rfl⟩ := h
    constructor
    · rw [unpack_pack_zero]
      exact UnpackedFloat.noConfusion
    · rw [unpack_pack_zero]
      unfold saturate
      cases t <;> simp [unpackedValue]
  | .finite _ m e hm, h =>
    obtain ⟨rfl, hc, rfl⟩ := h
    -- above this exponent there is no room in a double, and an infinity is packed
    by_cases he : e ≤ 971
    · rw [saturate_of_canonical hc he]
      constructor
      · rw [unpack_pack_canonical hc he]
        exact UnpackedFloat.noConfusion
      · rw [unpack_pack_canonical hc he]
        rfl
    · have hoverflow := not_le.mp he
      rw [saturate_of_overflow hc hoverflow]
      constructor
      · rw [unpack_pack_overflow hm hoverflow]
        exact UnpackedFloat.noConfusion
      · rw [unpack_pack_overflow hm hoverflow]
        rfl

/-- The magnitude that is denoted after rounding is that of the rounded number. -/
theorem Denotes.packsTo_rounded {u : UnpackedFloat} {s : Sign} {a : ℝ} (ha : 0 ≤ a)
    (h : Denotes u s (roundMagnitude a)) : PacksTo u (rounded (signed s a)) := by
  rw [rounded_signed s (by exact_mod_cast ha), roundNonneg_coe]
  exact h.packsTo

theorem signed_mul_coe (s : Sign) (k : ℕ) (p : ℝ) :
    signed s ((k * p : ℝ) : EReal) = ((s.apply k * p : ℝ) : EReal) := by
  cases s <;> simp [Sign.apply]

theorem unpackedValue_finite (s : Sign) (m : ℕ) (e : ℤ) (hm : 0 < m) :
    unpackedValue (.finite s m e hm) = ((s.apply m * 2 ^ e : ℝ) : EReal) :=
  signed_mul_coe s m (2 ^ e)

/-- An exact result is put in the form of a double by rounding it. -/
theorem packsTo_normalize (k e : ℤ) :
    PacksTo (UnpackedFloat.normalize .binary64 k e .positive)
      (rounded ((k * 2 ^ e : ℝ) : EReal)) := by
  -- rounding is known for magnitudes, so a sign is taken off the sum first
  have hround : ∀ (s : Sign) (n : ℕ), 0 < n → k = s.apply n →
      PacksTo (UnpackedFloat.round .binary64 s n e) (rounded ((k * 2 ^ e : ℝ) : EReal)) := by
    intro s n hn hk
    have hpos : (0 : ℝ) ≤ n * 2 ^ e := by positivity
    rw [hk, ← signed_mul_coe]
    exact (denotes_round s hn e).packsTo_rounded hpos
  unfold UnpackedFloat.normalize
  rcases lt_trichotomy k 0 with hk | hk | hk
  · rw [compare_lt_iff_lt.mpr hk]
    apply hround .negative (-k).toNat (by omega)
    show k = -((-k).toNat : ℤ)
    omega
  · rw [compare_eq_iff_eq.mpr hk]
    apply PacksTo.zero
    rw [hk]
    simp
  · rw [compare_gt_iff_gt.mpr hk]
    apply hround .positive k.toNat (by omega)
    show k = (k.toNat : ℤ)
    omega

/-! ## Operations -/

/-- Written with the exponent of a finer grid, the number is the same. -/
theorem apply_decreaseExponent (s : Sign) (m : ℕ) {e t : ℤ} (h : t ≤ e) :
    ((s.apply (decreaseExponent m e t).1 : ℤ) : ℝ) * 2 ^ t = s.apply m * 2 ^ e := by
  have hexp : (decreaseExponent m e t).2 = t := by
    unfold decreaseExponent
    dsimp only
    omega
  have hvalue := decreaseExponent_value m e t
  rw [hexp] at hvalue
  -- the magnitude keeps its value, and the sign is put in front of it
  cases s with
  | positive => exact hvalue
  | negative =>
    show ((-((decreaseExponent m e t).1 : ℤ) : ℤ) : ℝ) * 2 ^ t = ((-(m : ℤ) : ℤ) : ℝ) * 2 ^ e
    push_cast
    rw [neg_mul, neg_mul, hvalue]

/-- **Addition**: a sum is the exact sum, rounded. -/
theorem packsTo_add {u v : UnpackedFloat} (hu : Packable u) (hv : Packable v)
    (hnumber : UnpackedFloat.add .binary64 u v ≠ .notANumber) :
    PacksTo (UnpackedFloat.add .binary64 u v) (rounded (unpackedValue u + unpackedValue v)) := by
  match u, v with
  | .notANumber, _ => exact absurd rfl hnumber
  | .infinity _, .notANumber => exact absurd rfl hnumber
  | .zero _, .notANumber => exact absurd rfl hnumber
  | .finite _ _ _ _, .notANumber => exact absurd rfl hnumber
  | .infinity s, .infinity t =>
    -- opposite infinities have no sum
    cases s <;> cases t
    · exact .infinity rfl
    · exact absurd rfl hnumber
    · exact absurd rfl hnumber
    · exact .infinity rfl
  | .infinity s, .zero t => exact .infinity (add_zero _).symm
  | .zero s, .infinity t => exact .infinity (zero_add _).symm
  | .infinity s, .finite t n f hn =>
    apply PacksTo.infinity
    rw [unpackedValue_finite]
    cases s with
    | positive => exact (EReal.top_add_coe _).symm
    | negative => exact (EReal.bot_add _).symm
  | .finite s m e hm, .infinity t =>
    apply PacksTo.infinity
    rw [unpackedValue_finite]
    cases t with
    | positive => exact (EReal.coe_add_top _).symm
    | negative => exact (EReal.add_bot _).symm
  | .zero s, .zero t =>
    have hzero : ∃ r, UnpackedFloat.add .binary64 (.zero s) (.zero t) = .zero r := by
      cases s <;> cases t <;> exact ⟨_, rfl⟩
    obtain ⟨r, hr⟩ := hzero
    rw [hr]
    exact .zero (add_zero 0).symm
  | .zero s, .finite t n f hn => exact .exact hv UnpackedFloat.noConfusion (zero_add _).symm
  | .finite s m e hm, .zero t => exact .exact hu UnpackedFloat.noConfusion (add_zero _).symm
  | .finite s m e hm, .finite t n f hn =>
    -- two finite numbers are added at the smaller exponent, where both are whole
    have hsum := packsTo_normalize (s.apply (decreaseExponent m e (min e f)).1 +
      t.apply (decreaseExponent n f (min e f)).1) (min e f)
    rw [Int.cast_add, add_mul, apply_decreaseExponent s m (min_le_left e f),
      apply_decreaseExponent t n (min_le_right e f)] at hsum
    rw [unpackedValue_finite, unpackedValue_finite, ← EReal.coe_add]
    exact hsum

theorem apply_neg (s : Sign) (n : ℤ) : (-s).apply n = -s.apply n := by
  cases s with
  | positive => rfl
  | negative => exact (neg_neg n).symm

theorem unpackedValue_neg (u : UnpackedFloat) : unpackedValue u.neg = -unpackedValue u := by
  have hsign : ∀ (s : Sign) (a : EReal), signed (-s) a = -signed s a := by
    intro s a
    cases s with
    | positive => rfl
    | negative => exact (neg_neg a).symm
  cases u with
  | notANumber => exact neg_zero.symm
  | zero s => exact neg_zero.symm
  | infinity s => exact hsign s ⊤
  | finite s m e h => exact hsign s _

/-- **Subtraction** is the addition of the opposite number. -/
theorem sub_eq_add_neg (u v : UnpackedFloat) :
    UnpackedFloat.sub .binary64 u v = UnpackedFloat.add .binary64 u v.neg := by
  cases u with
  | notANumber => rfl
  | infinity s => cases v <;> rfl
  | zero s => cases v <;> rfl
  | finite s m e hm =>
    cases v with
    | notANumber => rfl
    | infinity t => rfl
    | zero t => rfl
    | finite t n f hn =>
      unfold UnpackedFloat.sub UnpackedFloat.add UnpackedFloat.neg
      dsimp only
      rw [apply_neg, ← Int.sub_eq_add_neg]

/-- **Multiplication** by a positive finite double gives the exact product, rounded. -/
theorem packsTo_mul {u : UnpackedFloat} {m : ℕ} {e : ℤ} (hu : Packable u)
    (hnumber : u ≠ .notANumber) (hc : Canonical m e) :
    PacksTo (UnpackedFloat.mul .binary64 u (.finite .positive m e hc.pos))
      (rounded (unpackedValue u * ((m * 2 ^ e : ℝ) : EReal))) := by
  have hpos : (0 : ℝ) < m * 2 ^ e := by
    have := hc.pos
    positivity
  match u with
  | .notANumber => exact absurd rfl hnumber
  | .infinity .positive => exact .infinity (EReal.top_mul_coe_of_pos hpos).symm
  | .infinity .negative => exact .infinity (EReal.bot_mul_coe_of_pos hpos).symm
  | .zero s => exact .zero (zero_mul _).symm
  | .finite s n f hn =>
    -- only two finite numbers are multiplied bit by bit, and that product has still to be rounded
    have hdenotes := denotes_mul s hn hc.pos (hu.1.mul_exponent_le hc)
    have hpacks := hdenotes.packsTo_rounded (by positivity)
    rw [mul_assoc, signed_mul_coe, ← mul_assoc, EReal.coe_mul] at hpacks
    rw [unpackedValue_finite]
    exact hpacks

/-! ## Doubles -/

theorem isNaN_iff {x : Float} : x.isNaN = true ↔ x.toModel.unpack = .notANumber := by
  show x.toModel.unpack.isNaN = true ↔ _
  cases x.toModel.unpack <;> simp [UnpackedFloat.isNaN]

theorem isNaN_eq_false_iff {x : Float} : x.isNaN = false ↔ x.toModel.unpack ≠ .notANumber := by
  rw [← Bool.not_eq_true, isNaN_iff]

/-- The double that is packed is a number, and the one given. -/
theorem PacksTo.double {z : Float} {u : UnpackedFloat} {x : EReal} (h : PacksTo u x)
    (hz : z.toModel = Float.Model.pack u) : z.isNaN = false ∧ extended z = x := by
  constructor
  · rw [isNaN_eq_false_iff, hz]
    exact h.number
  · unfold extended
    rw [hz]
    exact h.value

/-- A result that is a number was not packed from NaN. -/
theorem ne_notANumber_of_pack {z : Float} {u : UnpackedFloat}
    (hz : z.toModel = Float.Model.pack u) (h : z.isNaN = false) : u ≠ .notANumber := by
  rintro rfl
  rw [isNaN_eq_false_iff, hz] at h
  exact h unpack_pack_notANumber

theorem extended_add {x y : Float} (h : (x + y).isNaN = false) :
    extended (x + y) = rounded (extended x + extended y) :=
  ((packsTo_add (packable_unpack _) (packable_unpack _) (ne_notANumber_of_pack rfl h)).double
    rfl).2

theorem extended_sub {x y : Float} (h : (x - y).isNaN = false) :
    extended (x - y) = rounded (extended x - extended y) := by
  have hpack : (x - y).toModel =
      Float.Model.pack (UnpackedFloat.add .binary64 x.toModel.unpack y.toModel.unpack.neg) := by
    rw [← sub_eq_add_neg]
    rfl
  have hsum := packsTo_add (packable_unpack _) (packable_unpack _).neg
    (ne_notANumber_of_pack hpack h)
  rw [(hsum.double hpack).2, unpackedValue_neg]
  rfl

/-- The terms of a sum that is a number are numbers. -/
theorem isNaN_of_add {x y : Float} (h : (x + y).isNaN = false) :
    x.isNaN = false ∧ y.isNaN = false := by
  have hsum := ne_notANumber_of_pack rfl h
  rw [isNaN_eq_false_iff, isNaN_eq_false_iff]
  constructor
  · intro hx
    rw [hx] at hsum
    exact hsum rfl
  · intro hy
    rw [hy] at hsum
    apply hsum
    cases x.toModel.unpack <;> rfl

theorem isNaN_of_mul {x y : Float} (h : (x * y).isNaN = false) : x.isNaN = false := by
  have hproduct := ne_notANumber_of_pack rfl h
  rw [isNaN_eq_false_iff]
  intro hx
  rw [hx] at hproduct
  exact hproduct rfl

/-- A finite number may be added to any other. -/
theorem add_ne_notANumber {u v : UnpackedFloat} (hu : u.isFinite = true) (hv : v ≠ .notANumber) :
    UnpackedFloat.add .binary64 u v ≠ .notANumber := by
  -- only opposite infinities have no sum, and a finite number is neither of them
  match u, v with
  | .notANumber, _ => cases hu
  | .infinity _, _ => cases hu
  | _, .notANumber => exact absurd rfl hv
  | .zero s, .zero t => cases s <;> cases t <;> exact UnpackedFloat.noConfusion
  | .zero _, .infinity _ => exact UnpackedFloat.noConfusion
  | .zero _, .finite _ _ _ _ => exact UnpackedFloat.noConfusion
  | .finite _ _ _ _, .infinity _ => exact UnpackedFloat.noConfusion
  | .finite _ _ _ _, .zero _ => exact UnpackedFloat.noConfusion
  | .finite s m e hm, .finite t n f hn => exact (packsTo_normalize _ _).ne_notANumber

theorem isNaN_finite_add {x y : Float} (hx : x.isFinite = true) (hy : y.isNaN = false) :
    (x + y).isNaN = false := by
  have hsum := add_ne_notANumber hx (isNaN_eq_false_iff.mp hy)
  exact ((packsTo_add (packable_unpack _) (packable_unpack _) hsum).double rfl).1

theorem isNaN_finite_sub {x y : Float} (hx : x.isFinite = true) (hy : y.isNaN = false) :
    (x - y).isNaN = false := by
  have hneg : y.toModel.unpack.neg ≠ .notANumber := by
    rw [isNaN_eq_false_iff] at hy
    cases hu : y.toModel.unpack with
    | notANumber => exact absurd hu hy
    | _ => exact UnpackedFloat.noConfusion
  have hsum := add_ne_notANumber hx hneg
  refine ((packsTo_add (packable_unpack _) (packable_unpack _).neg hsum).double ?_).1
  rw [← sub_eq_add_neg]
  rfl

theorem isNaN_of_isFinite {x : Float} (h : x.isFinite = true) : x.isNaN = false := by
  change x.toModel.unpack.isFinite = true at h
  rw [isNaN_eq_false_iff]
  intro hu
  rw [hu] at h
  cases h

/-- A sum is NaN if it is unpacked as one. -/
theorem isNaN_add {x y : Float} : (x + y).isNaN = true ↔
    UnpackedFloat.add .binary64 x.toModel.unpack y.toModel.unpack = .notANumber := by
  constructor
  · intro h
    by_contra hsum
    have hnumber : (x + y).isNaN = false :=
      ((packsTo_add (packable_unpack _) (packable_unpack _) hsum).double rfl).1
    rw [h] at hnumber
    cases hnumber
  · intro h
    have hpack : (x + y).toModel = Float.Model.pack .notANumber := congrArg Float.Model.pack h
    rw [isNaN_iff, hpack]
    exact unpack_pack_notANumber

/-- A number is finite unless it is one of the two infinities. -/
theorem isFinite_iff {x : Float} (h : x.isNaN = false) :
    x.isFinite = true ↔ extended x ≠ ⊤ ∧ extended x ≠ ⊥ := by
  rcases isFinite_or_infinity h with hfinite | ⟨s, hs⟩
  · rw [extended_of_finite hfinite]
    exact iff_of_true hfinite ⟨EReal.coe_ne_top _, EReal.coe_ne_bot _⟩
  · have hnot : ¬x.isFinite = true := by
      change ¬x.toModel.unpack.isFinite = true
      rw [hs]
      exact Bool.false_ne_true
    refine iff_of_false hnot ?_
    rw [extended_of_infinity hs]
    cases s with
    | positive => exact fun hne => hne.1 rfl
    | negative => exact fun hne => hne.2 rfl

theorem isFinite_eq_false_iff {x : Float} (h : x.isNaN = false) :
    x.isFinite = false ↔ extended x = ⊤ ∨ extended x = ⊥ := by
  rw [← Bool.not_eq_true, isFinite_iff h]
  tauto

/-- A sum of numbers is NaN only if they are opposite infinities. -/
theorem isNaN_add_iff {x y : Float} (hx : x.isNaN = false) (hy : y.isNaN = false) :
    (x + y).isNaN = true ↔
      extended x = ⊤ ∧ extended y = ⊥ ∨ extended x = ⊥ ∧ extended y = ⊤ := by
  rw [isNaN_add]
  -- with a finite number the sum is a number, whatever the other one is
  rcases isFinite_or_infinity hx with hfx | ⟨s, hs⟩
  · exact iff_of_false (add_ne_notANumber hfx (isNaN_eq_false_iff.mp hy))
      (by simp [(isFinite_iff hx).mp hfx])
  · rw [hs, extended_of_infinity hs]
    rcases isFinite_or_infinity hy with hfy | ⟨t, ht⟩
    · refine iff_of_false ?_ (by simp [(isFinite_iff hy).mp hfy])
      change y.toModel.unpack.isFinite = true at hfy
      cases hu : y.toModel.unpack with
      | notANumber => rw [hu] at hfy; cases hfy
      | infinity t => rw [hu] at hfy; cases hfy
      | zero t => exact UnpackedFloat.noConfusion
      | finite t m e hm => exact UnpackedFloat.noConfusion
    · rw [ht, extended_of_infinity ht]
      -- of the four pairs of infinities the opposite ones cancel
      cases s with
      | positive =>
        cases t with
        | positive => exact iff_of_false UnpackedFloat.noConfusion (by simp)
        | negative => exact iff_of_true rfl (by simp)
      | negative =>
        cases t with
        | positive => exact iff_of_true rfl (by simp)
        | negative => exact iff_of_false UnpackedFloat.noConfusion (by simp)

/-- The terms of a finite sum are finite, because an infinity is not left by adding a number. -/
theorem isFinite_of_add {x y : Float} (h : (x + y).isFinite = true) :
    x.isFinite = true ∧ y.isFinite = true := by
  have hnumber := isNaN_of_isFinite h
  obtain ⟨hx, hy⟩ := isNaN_of_add hnumber
  -- an infinity and its opposite have no sum
  have hopposite : ¬(extended x = ⊤ ∧ extended y = ⊥ ∨ extended x = ⊥ ∧ extended y = ⊤) := by
    rw [← isNaN_add_iff hx hy, hnumber]
    exact Bool.false_ne_true
  rw [not_or, not_and, not_and] at hopposite
  rw [isFinite_iff hnumber, extended_add hnumber] at h
  rw [isFinite_iff hx, isFinite_iff hy]
  -- an infinity on either side would be the sum
  refine ⟨⟨?_, ?_⟩, ?_, ?_⟩
  · intro htop
    apply h.1
    rw [htop, EReal.top_add_of_ne_bot (hopposite.1 htop), rounded_top]
  · intro hbot
    apply h.2
    rw [hbot, EReal.bot_add, rounded_bot]
  · intro htop
    apply h.1
    rw [htop, EReal.add_top_of_ne_bot fun hbot => hopposite.2 hbot htop, rounded_top]
  · intro hbot
    apply h.2
    rw [hbot, EReal.add_bot, rounded_bot]

/-! ### Order -/

/-- Only numbers can be compared. -/
theorem isNaN_of_compare {x y : Float} {o : Ordering}
    (h : x.toModel.unpack.compare y.toModel.unpack = some o) :
    x.isNaN = false ∧ y.isNaN = false := by
  rw [isNaN_eq_false_iff, isNaN_eq_false_iff]
  constructor
  · intro hx
    rw [hx] at h
    cases h
  · intro hy
    rw [hy] at h
    cases hu : x.toModel.unpack <;> rw [hu] at h <;> cases h

theorem isNaN_of_le {x y : Float} (h : x ≤ y) : x.isNaN = false ∧ y.isNaN = false := by
  change decide (((x.toModel.unpack.compare y.toModel.unpack).any (·.isLE)) = true) = true at h
  rw [decide_eq_true_iff, Option.any_eq_true] at h
  obtain ⟨o, ho, _⟩ := h
  exact isNaN_of_compare ho

theorem isNaN_of_lt {x y : Float} (h : x < y) : x.isNaN = false ∧ y.isNaN = false := by
  change decide ((x.toModel.unpack.compare y.toModel.unpack == some .lt) = true) = true at h
  rw [decide_eq_true_iff] at h
  exact isNaN_of_compare (eq_of_beq h)

theorem isNaN_of_beq {x y : Float} (h : (x == y) = true) : x.isNaN = false ∧ y.isNaN = false := by
  change (x.toModel.unpack.compare y.toModel.unpack == some .eq) = true at h
  exact isNaN_of_compare (eq_of_beq h)

theorem le_refl_of_isNaN {x : Float} (h : x.isNaN = false) : x ≤ x :=
  (le_iff_extended_le h h).mpr (le_refl _)

theorem not_lt_of_le {x y : Float} (h : x ≤ y) : ¬y < x := by
  obtain ⟨hx, hy⟩ := isNaN_of_le h
  rw [le_iff_extended_le hx hy] at h
  rw [lt_iff_extended_lt hy hx]
  exact not_lt.mpr h

/-- A larger term does not make a sum smaller. -/
theorem add_le_add {x x' y y' : Float} (hx : x ≤ x') (hy : y ≤ y') (h : (x + y).isNaN = false)
    (h' : (x' + y').isNaN = false) : x + y ≤ x' + y' := by
  rw [le_iff_extended_le h h', extended_add h, extended_add h']
  obtain ⟨hxn, hxn'⟩ := isNaN_of_le hx
  obtain ⟨hyn, hyn'⟩ := isNaN_of_le hy
  rw [le_iff_extended_le hxn hxn'] at hx
  rw [le_iff_extended_le hyn hyn'] at hy
  exact rounded_mono (by gcongr)

/-- A larger number does not make a difference smaller. -/
theorem sub_le_sub_right {x x' y : Float} (hx : x ≤ x') (h : (x - y).isNaN = false)
    (h' : (x' - y).isNaN = false) : x - y ≤ x' - y := by
  rw [le_iff_extended_le h h', extended_sub h, extended_sub h']
  obtain ⟨hxn, hxn'⟩ := isNaN_of_le hx
  rw [le_iff_extended_le hxn hxn'] at hx
  exact rounded_mono (EReal.sub_le_sub hx (le_refl _))

theorem extended_zero : extended 0.0 = 0 := by
  have hzero : rational (0.0 : Float) = 0 := by decide +kernel
  rw [extended_of_finite (by decide +kernel), hzero]
  norm_num

theorem exists_of_positive_finite {x : Float} (hfinite : x.isFinite = true) (hpos : 0.0 < x) :
    ∃ m e, ∃ hc : Canonical m e, x.toModel.unpack = .finite .positive m e hc.pos := by
  have hzero : rational (0.0 : Float) = 0 := by decide +kernel
  -- the comparison of doubles becomes one of rationals, whose sign the constructor shows
  rw [lt_iff_rational_lt (by decide +kernel) hfinite, hzero] at hpos
  change x.toModel.unpack.isFinite = true at hfinite
  match hu : x.toModel.unpack with
  | .notANumber => rw [hu] at hfinite; cases hfinite
  | .infinity _ => rw [hu] at hfinite; cases hfinite
  | .zero _ =>
    rw [rational_of_zero hu] at hpos
    exact absurd hpos (lt_irrefl _)
  | .finite .negative m e h =>
    rw [rational_of_negative hu] at hpos
    have : (0 : ℚ) ≤ m * 2 ^ e := by positivity
    linarith
  | .finite .positive m e h => exact ⟨m, e, canonical_of_unpack hu, rfl⟩

/-- A product with a positive finite double is rounded from the exact one, and is no NaN. -/
theorem extended_mul {x r : Float} (hx : x.isNaN = false) (hfinite : r.isFinite = true)
    (hpos : 0.0 < r) :
    (x * r).isNaN = false ∧ extended (x * r) = rounded (extended x * extended r) := by
  obtain ⟨m, e, hc, hr⟩ := exists_of_positive_finite hfinite hpos
  have hvalue : extended r = ((m * 2 ^ e : ℝ) : EReal) := congrArg unpackedValue hr
  rw [hvalue]
  apply (packsTo_mul (packable_unpack _) (isNaN_eq_false_iff.mp hx) hc).double
  rw [← hr]
  rfl

/-- A larger number does not make a product with a positive finite one smaller. -/
theorem mul_le_mul_right {x x' r : Float} (hx : x ≤ x') (hfinite : r.isFinite = true)
    (hpos : 0.0 < r) : x * r ≤ x' * r := by
  obtain ⟨hxn, hxn'⟩ := isNaN_of_le hx
  obtain ⟨hnumber, hvalue⟩ := extended_mul hxn hfinite hpos
  obtain ⟨hnumber', hvalue'⟩ := extended_mul hxn' hfinite hpos
  have hfactor : 0 ≤ extended r := by
    rw [← extended_zero]
    exact ((lt_iff_extended_lt (by decide +kernel) (isNaN_of_isFinite hfinite)).mp hpos).le
  rw [le_iff_extended_le hnumber hnumber', hvalue, hvalue']
  rw [le_iff_extended_le hxn hxn'] at hx
  exact rounded_mono (mul_le_mul_of_nonneg_right hx hfactor)

/-- Equal numbers have equal products with a positive finite double. -/
theorem mul_eq_mul_right {x x' r : Float} (hx : (x == x') = true) (hfinite : r.isFinite = true)
    (hpos : 0.0 < r) : (x * r == x' * r) = true := by
  obtain ⟨hxn, hxn'⟩ := isNaN_of_beq hx
  obtain ⟨hnumber, hvalue⟩ := extended_mul hxn hfinite hpos
  obtain ⟨hnumber', hvalue'⟩ := extended_mul hxn' hfinite hpos
  rw [beq_iff_extended_eq hxn hxn'] at hx
  rw [beq_iff_extended_eq hnumber hnumber', hvalue, hvalue', hx]

/-! ### Exact results -/

theorem beq_zero_iff {x : Float} (h : x.isNaN = false) : (x == 0.0) = true ↔ extended x = 0 := by
  rw [beq_iff_extended_eq h (by decide +kernel), extended_zero]

/-- The difference of equal finite doubles is zero. -/
theorem sub_eq_zero_of_eq {x y : Float} (hx : x.isFinite = true) (hy : y.isFinite = true)
    (h : (x == y) = true) : (x - y == 0.0) = true := by
  have hnumber := isNaN_finite_sub hx (isNaN_of_isFinite hy)
  rw [beq_iff_extended_eq (isNaN_of_isFinite hx) (isNaN_of_isFinite hy)] at h
  rw [beq_zero_iff hnumber, extended_sub hnumber, h, extended_of_finite hy, ← EReal.coe_sub,
    sub_self]
  exact (if_pos le_rfl).trans roundNonneg_zero

/-- A zero that is added to a finite double changes nothing. -/
theorem add_zero_eq {x z : Float} (hx : x.isFinite = true) (hz : (z == 0.0) = true) :
    (x + z == x) = true := by
  have hzn := (isNaN_of_beq hz).1
  have hnumber := isNaN_finite_add hx hzn
  rw [beq_zero_iff hzn] at hz
  rw [beq_iff_extended_eq hnumber (isNaN_of_isFinite hx), extended_add hnumber, hz, add_zero]
  exact (packable_unpack _).rounded_value

/-- What equals a finite double is finite. -/
theorem isFinite_of_beq {x y : Float} (h : (x == y) = true) (hy : y.isFinite = true) :
    x.isFinite = true := by
  have hx := (isNaN_of_beq h).1
  have hyn := isNaN_of_isFinite hy
  rw [beq_iff_extended_eq hx hyn] at h
  rw [isFinite_iff hx, h]
  exact (isFinite_iff hyn).mp hy

/-- The sum of two zeros is zero. -/
theorem add_eq_zero {x y : Float} (hx : (x == 0.0) = true) (hy : (y == 0.0) = true) :
    (x + y == 0.0) = true := by
  have hfinite := isFinite_of_beq hx (by decide +kernel)
  have hsame := add_zero_eq hfinite hy
  have hnumber := (isNaN_of_beq hsame).1
  rw [beq_iff_extended_eq hnumber (isNaN_of_isFinite hfinite)] at hsame
  rw [beq_zero_iff (isNaN_of_isFinite hfinite)] at hx
  rw [beq_zero_iff hnumber, hsame, hx]

/-! ### Integers -/

/-- The integer nearest to a number, a half going away from zero. -/
def awayFromZero (q : ℚ) : ℤ := if q < 0 then -⌊-q + 1 / 2⌋ else ⌊q + 1 / 2⌋

theorem awayFromZero_mono {p q : ℚ} (h : p ≤ q) : awayFromZero p ≤ awayFromZero q := by
  have hnonneg : ∀ {r : ℚ}, 0 ≤ r → 0 ≤ ⌊r + 1 / 2⌋ := fun hr => Int.floor_nonneg.mpr (by linarith)
  unfold awayFromZero
  -- a number rounds by its sign, so the two signs give the cases, and between them lies zero
  by_cases hp : p < 0
  · rw [if_pos hp]
    have hpn := hnonneg (r := -p) (by linarith)
    by_cases hq : q < 0
    · rw [if_pos hq]
      have := Int.floor_mono (show -q + 1 / 2 ≤ -p + 1 / 2 by linarith)
      omega
    · rw [if_neg hq]
      have := hnonneg (not_lt.mp hq)
      omega
  · rw [if_neg hp, if_neg (not_lt.mpr ((not_lt.mp hp).trans h))]
    exact Int.floor_mono (by linarith)

/-- The rounding in natural numbers, where a half goes up, is done on the magnitude. -/
theorem Binary.nearest_eq (b : Binary) : b.nearest = awayFromZero b.toRat := by
  have hd := b.denominator_pos
  set a : ℚ := b.numerator / b.denominator with ha
  have hnonneg : 0 ≤ a := by positivity
  -- half a denominator is added before the division, so a half is rounded up
  have hmagnitude : (b.nearestMagnitude : ℤ) = ⌊a + 1 / 2⌋ := by
    have hsum : a + 1 / 2 = ((2 * b.numerator + b.denominator : ℕ) : ℤ) /
        ((2 * b.denominator : ℕ) : ℚ) := by
      rw [ha]
      push_cast
      field_simp
    rw [hsum, Rat.floor_intCast_div_natCast]
    rfl
  have hvalue : b.toRat = if b.negative then -a else a := by
    unfold toRat
    rw [Rat.mkRat_eq_div]
    split
    · push_cast
      rw [neg_div]
    · rfl
  unfold nearest awayFromZero
  rw [hvalue, hmagnitude]
  split
  · rcases hnonneg.eq_or_lt with hzero | hpos
    · -- the negative zero is not below zero, and both sides are zero
      rw [← hzero]
      norm_num
    · rw [if_pos (by linarith), neg_neg]
  · rw [if_neg (not_lt.mpr hnonneg)]

theorem isFinite_of_ofFloat? {x : Float} {b : Binary} (h : Binary.ofFloat? x = some b) :
    x.isFinite = true := by
  show x.toModel.unpack.isFinite = true
  unfold Binary.ofFloat? at h
  match hu : x.toModel.unpack with
  | .notANumber => rw [hu] at h; cases h
  | .infinity _ => rw [hu] at h; cases h
  | .zero _ => rfl
  | .finite _ _ _ _ => rfl

theorem exists_ofFloat? {x : Float} (hx : x.isFinite = true) :
    ∃ b, Binary.ofFloat? x = some b := by
  change x.toModel.unpack.isFinite = true at hx
  unfold Binary.ofFloat?
  match x.toModel.unpack, hx with
  | .zero .negative, _ => exact ⟨_, rfl⟩
  | .zero .positive, _ => exact ⟨_, rfl⟩
  | .finite .negative _ _ _, _ => exact ⟨_, rfl⟩
  | .finite .positive _ _ _, _ => exact ⟨_, rfl⟩

/-- A finite double has a nearest integer, and no other double has one. -/
theorem nearestInteger?_eq {x : Float} {n : ℤ} :
    nearestInteger? x = some n ↔ x.isFinite = true ∧ n = awayFromZero (rational x) := by
  have hvalue : ∀ {b : Binary}, Binary.ofFloat? x = some b →
      b.nearest = awayFromZero (rational x) := by
    intro b hb
    unfold rational
    rw [hb, b.nearest_eq]
    rfl
  constructor
  · intro h
    obtain ⟨b, hb, rfl⟩ := Option.map_eq_some_iff.mp h
    exact ⟨isFinite_of_ofFloat? hb, hvalue hb⟩
  · rintro ⟨hfinite, rfl⟩
    obtain ⟨b, hb⟩ := exists_ofFloat? hfinite
    exact Option.map_eq_some_iff.mpr ⟨b, hb, hvalue hb⟩

/-- A larger finite double is not rounded to a smaller integer. -/
theorem nearestInteger?_mono {x y : Float} {m n : ℤ} (h : x ≤ y) (hm : nearestInteger? x = some m)
    (hn : nearestInteger? y = some n) : m ≤ n := by
  obtain ⟨hx, rfl⟩ := nearestInteger?_eq.mp hm
  obtain ⟨hy, rfl⟩ := nearestInteger?_eq.mp hn
  rw [le_iff_extended_le (isNaN_of_isFinite hx) (isNaN_of_isFinite hy), extended_of_finite hx,
    extended_of_finite hy] at h
  exact awayFromZero_mono (by exact_mod_cast h)

/-- The sign of a zero does not matter to the nearest integer. -/
theorem nearestInteger?_congr {x y : Float} {n : ℤ} (h : (x == y) = true)
    (hy : nearestInteger? y = some n) : nearestInteger? x = some n := by
  obtain ⟨hfinite, rfl⟩ := nearestInteger?_eq.mp hy
  have hx := isFinite_of_beq h hfinite
  rw [beq_iff_rational_eq hx hfinite] at h
  exact nearestInteger?_eq.mpr ⟨hx, by rw [h]⟩

end PulseTrain.Decimal
