import PulseTrain.Decimal.Numeral
import PulseTrain.Proofs.Decimal.Scientific

/-! # Written numbers read back

    A finite double is written with digits that read back as the double, and a numeral that is put
    before other text is read up to its end. So what was written is what is read, to the last bit
    and with the sign of a zero.

    * **Digits**: `Digits.Exact` says of some digits that they are those of a number;
      `exact_ofScaled` for digits whose zeros at the end have been dropped;
    * **Shortest**: `shortest_readsBack`, a case for a zero, for a point of some grid and for all
      digits;
    * **Layout**: `read?_parts` for a numeral part by part, `read?_writeScientific` and
      `read?_writePositional` for the two layouts;
    * **Round trip**: `read?_chars`.
-/

namespace PulseTrain.Decimal

open Float.Model Float.Model.UnpackedFloat

/-! ## Digits -/

theorem digitsValue_eq (ds : List Char) : digitsValue ds = Nat.ofDigitChars 10 ds 0 := rfl

/-- Zeros at the end are a power of ten. -/
theorem digitsValue_append_zeros (ds : List Char) (k : ℕ) :
    digitsValue (ds ++ List.replicate k '0') = digitsValue ds * 10 ^ k := by
  rw [digitsValue_eq, digitsValue_eq, Nat.ofDigitChars_append, Nat.ofDigitChars_replicate_zero,
    mul_comm]

/-- Zeros at the start are nothing. -/
theorem digitsValue_zeros_append (k : ℕ) (ds : List Char) :
    digitsValue (List.replicate k '0' ++ ds) = digitsValue ds := by
  rw [digitsValue_eq, digitsValue_eq, Nat.ofDigitChars_append, Nat.ofDigitChars_replicate_zero,
    mul_zero]

theorem digitsValue_toDigits (n : ℕ) : digitsValue (Nat.toDigits 10 n) = n :=
  Nat.ofDigitChars_toDigits (by norm_num) le_rfl

theorem isDigit_toDigits {n : ℕ} {c : Char} (hc : c ∈ Nat.toDigits 10 n) : c.isDigit = true :=
  Nat.isDigit_of_mem_toDigits (by norm_num) le_rfl hc

def Digits.scale (d : Digits) : ℤ := d.point - d.digits.length

/-- Digits, at least one, that stand for a given number. -/
structure Digits.Exact (d : Digits) (a : ℝ) : Prop where
  nonempty : d.digits ≠ []
  isDigit : ∀ c ∈ d.digits, c.isDigit = true
  value : digitsValue d.digits * (10 : ℝ) ^ d.scale = a

/-- What is dropped at the end are zeros. -/
theorem exists_append_zeros (ds : List Char) :
    ∃ k, ds = (ds.reverse.dropWhile (· = '0')).reverse ++ List.replicate k '0' := by
  have hzeros : ds.rtakeWhile (· = '0') =
      List.replicate (ds.rtakeWhile (· = '0')).length '0' :=
    List.eq_replicate_iff.mpr ⟨rfl, fun c hc => by simpa using List.mem_rtakeWhile_imp hc⟩
  refine ⟨(ds.rtakeWhile (· = '0')).length, ?_⟩
  rw [← hzeros]
  exact List.rdropWhile_append_rtakeWhile.symm

/-- A number keeps its value when zeros at the end are dropped. -/
theorem exact_ofScaled {n : ℕ} (hn : n ≠ 0) (scale : ℤ) :
    (Digits.ofScaled n scale).Exact (n * 10 ^ scale) := by
  set all := Nat.toDigits 10 n with hall
  set kept := (all.reverse.dropWhile (· = '0')).reverse with hkept
  -- the dropped zeros are a power of ten, which moves into the scale
  obtain ⟨k, hk⟩ : ∃ k, all = kept ++ List.replicate k '0' := exists_append_zeros all
  have hvalue : n = digitsValue kept * 10 ^ k := by
    rw [← digitsValue_append_zeros, ← hk, hall, digitsValue_toDigits]
  have hlength : (all.length : ℤ) = kept.length + k := by
    rw [hk, List.length_append, List.length_replicate]
    push_cast
    rfl
  refine ⟨?_, ?_, ?_⟩
  · -- a number that is not zero keeps a digit
    intro hnil
    apply hn
    rw [hvalue, show kept = [] from hnil]
    exact zero_mul _
  · intro c hc
    apply isDigit_toDigits (n := n)
    rw [← hall, hk]
    exact List.mem_append_left _ hc
  · show (digitsValue kept : ℝ) * 10 ^ ((all.length + scale) - kept.length : ℤ) = n * 10 ^ scale
    rw [hlength, show (kept.length + k + scale - kept.length : ℤ) = k + scale by omega,
      zpow_add₀ (by norm_num), zpow_natCast, ← mul_assoc]
    congr 1
    conv_rhs => rw [hvalue]
    push_cast
    rfl

/-! ## The shortest digits -/

/-- The magnitude of a double. -/
theorem unpack_abs (x : Float) : x.abs.toModel.unpack = x.toModel.unpack.abs := by
  show (Float.Model.pack x.toModel.unpack.abs).unpack = _
  have hpackable := packable_unpack x.toModel
  apply Packable.unpack_pack
  match x.toModel.unpack, hpackable with
  | .finite _ _ _ _, hpackable => exact hpackable
  | .zero _, _ => trivial
  | .infinity _, _ => trivial
  | .notANumber, _ => trivial

theorem unpack_neg (x : Float) : (-x).toModel.unpack = x.toModel.unpack.neg :=
  (packable_unpack x.toModel).neg.unpack_pack

theorem isNaN_neg (x : Float) : (-x).isNaN = x.isNaN := by
  rw [Bool.eq_iff_iff, isNaN_iff, isNaN_iff, unpack_neg]
  cases x.toModel.unpack <;> simp [Float.Model.UnpackedFloat.neg]

variable {x : Float} {b : Binary}

/-- A finite double is a magnitude and a sign. -/
theorem eq_of_ofFloat? (h : Binary.ofFloat? x = some b) :
    x = if b.negative then -x.abs else x.abs := by
  apply eq_of_unpack
  unfold Binary.ofFloat? at h
  -- numbers and zeros of either sign; NaN and the infinities have no magnitude
  split at h
  case h_1 hu =>
    cases h
    rw [if_pos rfl, unpack_neg, unpack_abs, hu]
    rfl
  case h_2 hu =>
    cases h
    rw [if_neg Bool.false_ne_true, unpack_abs, hu]
    rfl
  case h_3 hu =>
    cases h
    rw [if_pos rfl, unpack_neg, unpack_abs, hu]
    rfl
  case h_4 hu =>
    cases h
    rw [if_neg Bool.false_ne_true, unpack_abs, hu]
    rfl
  · cases h
  · cases h

/-- The magnitude of a finite double is a zero or canonical. -/
theorem unpack_abs_of_ofFloat? (h : Binary.ofFloat? x = some b) :
    x.toModel.unpack.abs = .zero .positive ∧ b.significand = 0 ∨
      ∃ hm, x.toModel.unpack.abs = .finite .positive b.significand b.exponent hm ∧
        Canonical b.significand b.exponent ∧ b.exponent ≤ 971 := by
  unfold Binary.ofFloat? at h
  -- the sign is dropped, so the two cases of a number agree, and so do those of a zero
  split at h
  case h_1 m e hm hu =>
    cases h
    exact Or.inr ⟨hm, by rw [hu]; rfl, canonical_of_unpack hu, exponent_le_of_unpack hu⟩
  case h_2 m e hm hu =>
    cases h
    exact Or.inr ⟨hm, by rw [hu]; rfl, canonical_of_unpack hu, exponent_le_of_unpack hu⟩
  case h_3 hu =>
    cases h
    exact Or.inl ⟨by rw [hu]; rfl, rfl⟩
  case h_4 hu =>
    cases h
    exact Or.inl ⟨by rw [hu]; rfl, rfl⟩
  · cases h
  · cases h

/-- The magnitude is held as it is, and is in the range of doubles. -/
theorem holds_of_ofFloat? (h : Binary.ofFloat? x = some b) :
    Holds x.abs.toModel.unpack .positive ((b.significand * 2 ^ b.exponent : ℝ) : EReal) ∧
      roundMagnitude (b.significand * 2 ^ b.exponent) = b.significand * 2 ^ b.exponent ∧
      saturate (b.significand * 2 ^ b.exponent) =
        ((b.significand * 2 ^ b.exponent : ℝ) : EReal) := by
  rw [unpack_abs]
  rcases unpack_abs_of_ofFloat? h with ⟨hu, hzero⟩ | ⟨hm, hu, hc, he⟩
  · rw [hu, hzero, Nat.cast_zero, zero_mul]
    exact ⟨⟨rfl, rfl⟩, roundMagnitude_zero, saturate_zero⟩
  · rw [hu]
    exact ⟨⟨rfl, rfl⟩, roundMagnitude_of_canonical hc, saturate_of_canonical hc he⟩

/-- Digits that read back as a given double. -/
def Digits.ReadsBack (d : Digits) (x : Float) : Prop :=
  Float.ofScientific (digitsValue d.digits) (decide (d.scale < 0)) d.scale.natAbs = x

/-- It is enough that digits of the same number read back. -/
theorem Digits.Exact.readsBack {d : Digits} {n : ℕ} {scale : ℤ} {x : Float}
    (hd : d.Exact (n * 10 ^ scale))
    (h : Float.ofScientific n (decide (scale < 0)) scale.natAbs = x) : d.ReadsBack x :=
  (ofScientific_congr hd.value).trans h

/-- All digits of a double are those of its exact value. -/
theorem allDigits_value (b : Binary) :
    ((b.numerator * Nat.pow 5 (-b.exponent).toNat : ℕ) : ℝ) * 10 ^ min b.exponent 0 =
      b.significand * 2 ^ b.exponent := by
  unfold Binary.numerator
  -- with a negative exponent the powers of five make up for those of ten
  rcases le_total 0 b.exponent with h | h
  · obtain ⟨n, hn⟩ := Int.eq_ofNat_of_zero_le h
    rw [hn]
    simp
  · obtain ⟨n, hn⟩ : ∃ n : ℕ, b.exponent = -(n : ℤ) := ⟨b.exponent.natAbs, by omega⟩
    have hten : (10 : ℝ) ^ n = 5 ^ n * 2 ^ n := by
      rw [← mul_pow]
      norm_num
    rw [hn, min_eq_left (by omega)]
    simp [hten]
    field_simp

/-- A grid point that is chosen reads back. -/
theorem gridPoint?_readsBack {b : Binary} {x : Float} {scale : ℤ} {n : ℕ}
    (h : b.gridPoint? x scale = some n) :
    (Float.ofScientific n (decide (scale < 0)) scale.natAbs == x) = true := by
  unfold Binary.gridPoint? at h
  dsimp only at h
  -- of the two neighbours on the grid only one that reads back is taken
  split at h
  · next hbelow habove =>
    split at h
    · cases h
      exact hbelow
    · cases h
      exact habove
  · next hbelow _ =>
    cases h
    exact hbelow
  · next habove =>
    cases h
    exact habove
  · cases h

section shortest

variable {x : Float} {b : Binary}

/-- A grid point that is chosen for a number is not zero, and its digits read back. -/
theorem gridDigits_readsBack (h : Binary.ofFloat? x = some b) (hzero : b.significand ≠ 0)
    {scale : ℤ} {n : ℕ} (hn : b.gridPoint? x.abs scale = some n) :
    (∃ a, (Digits.ofScaled n scale).Exact a) ∧ (Digits.ofScaled n scale).ReadsBack x.abs := by
  obtain ⟨habs, _, _⟩ := holds_of_ofFloat? h
  have hread := holds_ofScientific n scale
  -- the grid points are compared as numbers, where a zero would count as its negative
  have hsame := hread.eq_of_beq habs (gridPoint?_readsBack hn)
  have hnonzero : n ≠ 0 := by
    rintro rfl
    rw [Nat.cast_zero, zero_mul, roundMagnitude_zero, saturate_zero, hsame] at hread
    have hvalue := hread.extended.2.symm.trans habs.extended.2
    rw [signed_positive, signed_positive] at hvalue
    have hmagnitude : (b.significand : ℝ) * 2 ^ b.exponent = 0 := by
      exact_mod_cast hvalue.symm
    have hpos : (b.significand : ℝ) * 2 ^ b.exponent ≠ 0 := by positivity
    exact hpos hmagnitude
  have hexact := exact_ofScaled hnonzero scale
  exact ⟨⟨_, hexact⟩, hexact.readsBack hsame⟩

/-- All digits of a number have its value, which is a double and rounds to itself. -/
theorem allDigits_readsBack (h : Binary.ofFloat? x = some b) (hzero : b.significand ≠ 0) :
    (∃ a, (Digits.ofScaled (b.numerator * Nat.pow 5 (-b.exponent).toNat)
        (min b.exponent 0)).Exact a) ∧
      (Digits.ofScaled (b.numerator * Nat.pow 5 (-b.exponent).toNat)
        (min b.exponent 0)).ReadsBack x.abs := by
  obtain ⟨habs, hround, hsaturate⟩ := holds_of_ofFloat? h
  have hnumerator : b.numerator * Nat.pow 5 (-b.exponent).toNat ≠ 0 := by
    unfold Binary.numerator
    simp [hzero]
  have hexact := exact_ofScaled hnumerator (min b.exponent 0)
  refine ⟨⟨_, hexact⟩, hexact.readsBack (eq_of_holds (holds_ofScientific _ _) ?_)⟩
  rw [allDigits_value, hround, hsaturate]
  exact habs

/-- **Shortest**: the digits that are chosen read back, whether they were found on some grid or are
    all there are. -/
theorem shortest_readsBack (h : Binary.ofFloat? x = some b) :
    (∃ a, (shortest b x).Exact a) ∧ (shortest b x).ReadsBack x.abs := by
  unfold shortest
  by_cases hzero : b.significand = 0
  · obtain ⟨habs, _, _⟩ := holds_of_ofFloat? h
    rw [if_pos hzero]
    rw [hzero, Nat.cast_zero, zero_mul] at habs
    have hdigits : Digits.Exact ⟨['0'], 1⟩ ((0 : ℕ) * 10 ^ (0 : ℤ)) :=
      ⟨by simp, by simp, by simp [Digits.scale, digitsValue]⟩
    refine ⟨⟨_, hdigits⟩, hdigits.readsBack (eq_of_holds (holds_ofScientific 0 0) ?_)⟩
    rw [Nat.cast_zero, zero_mul, roundMagnitude_zero, saturate_zero]
    exact habs
  · rw [if_neg hzero]
    dsimp only
    -- the grids are tried from coarse to fine, and all digits are written where none will do
    cases hfound : (List.range 17).findSome? fun k =>
        (b.gridPoint? x.abs (b.decimalPoint - (k + 1 : ℕ))).map
          (Digits.ofScaled · (b.decimalPoint - (k + 1 : ℕ))) with
    | some d =>
      obtain ⟨k, _, hpoint⟩ := List.exists_of_findSome?_eq_some hfound
      obtain ⟨n, hn, rfl⟩ := Option.map_eq_some_iff.mp hpoint
      exact gridDigits_readsBack h hzero hn
    | none => exact allDigits_readsBack h hzero

end shortest

/-! ## Layout -/

/-- A text that does not go on with a numeral that stands before it. -/
def Ends (rest : List Char) : Prop :=
  ∀ c ∈ rest.head?, c.isDigit = false ∧ c ≠ '.' ∧ c ≠ 'e' ∧ c ≠ 'E'

/-- A run of digits is taken up to its end. -/
theorem takeWhile_digits {ds rest : List Char} (hds : ∀ c ∈ ds, c.isDigit = true)
    (hrest : ∀ c ∈ rest.head?, c.isDigit = false) :
    (ds ++ rest).takeWhile Char.isDigit = ds ∧ (ds ++ rest).dropWhile Char.isDigit = rest := by
  rw [List.takeWhile_append_of_pos hds, List.dropWhile_append_of_pos hds]
  cases rest with
  | nil => exact ⟨List.append_nil _, rfl⟩
  | cons c rest =>
    have hc : c.isDigit = false := hrest c rfl
    rw [List.takeWhile_cons, List.dropWhile_cons, hc]
    exact ⟨List.append_nil _, rfl⟩

/-- The sign of a number that is written with a minus or without a sign. -/
def signChars (negative : Bool) : List Char := if negative then ['-'] else []

theorem readSign_append {negative : Bool} {s : List Char} (hs : ∀ c ∈ s.head?, c.isDigit = true) :
    Numeral.readSign (signChars negative ++ s) = (negative, s) := by
  cases negative with
  | true => rfl
  | false =>
    match s with
    | [] => rfl
    | c :: s =>
      -- a digit is neither of the two signs, so the reader takes none
      have hc : c.isDigit = true := hs c rfl
      show Numeral.readSign (c :: s) = (false, c :: s)
      unfold Numeral.readSign
      split
      · next heq =>
        rw [(List.cons.inj heq).1] at hc
        cases hc
      · next heq =>
        rw [(List.cons.inj heq).1] at hc
        cases hc
      · rfl

/-- The digits after the point, with the point. -/
def pointed (fraction : List Char) : List Char :=
  if fraction.isEmpty then [] else '.' :: fraction

theorem readFraction_pointed {fraction tail : List Char}
    (hfraction : ∀ c ∈ fraction, c.isDigit = true)
    (htail : ∀ c ∈ tail.head?, c.isDigit = false ∧ c ≠ '.') :
    Numeral.readFraction (pointed fraction ++ tail) = (fraction, tail) := by
  unfold pointed
  cases fraction with
  | nil =>
    show Numeral.readFraction tail = ([], tail)
    unfold Numeral.readFraction
    split
    · next rest => exact absurd rfl (htail '.' rfl).2
    · rfl
  | cons c fraction =>
    obtain ⟨htake, hdrop⟩ := takeWhile_digits hfraction fun d hd => (htail d hd).1
    show ((c :: fraction ++ tail).takeWhile Char.isDigit,
      (c :: fraction ++ tail).dropWhile Char.isDigit) = (c :: fraction, tail)
    rw [htake, hdrop]

/-- **Parts**: a numeral with its sign, its digits and its exponent. -/
theorem read?_parts (negative : Bool) {whole fraction tail : List Char} (hwhole : whole ≠ [])
    (hdigits : ∀ c ∈ whole ++ fraction, c.isDigit = true)
    (htail : ∀ c ∈ tail.head?, c.isDigit = false ∧ c ≠ '.') :
    Numeral.read? (signChars negative ++ (whole ++ (pointed fraction ++ tail))) =
      some (⟨negative, digitsValue (whole ++ fraction),
        (Numeral.readExponent tail).1 - fraction.length⟩, (Numeral.readExponent tail).2) := by
  have hw : ∀ c ∈ whole, c.isDigit = true := fun c hc => hdigits c (List.mem_append_left _ hc)
  have hf : ∀ c ∈ fraction, c.isDigit = true := fun c hc => hdigits c (List.mem_append_right _ hc)
  -- a digit run ends where it is cut: at the point, or at the tail if there is no point
  have hafter : ∀ c ∈ (pointed fraction ++ tail).head?, c.isDigit = false := by
    unfold pointed
    cases fraction with
    | nil => exact fun c hc => (htail c hc).1
    | cons d fraction =>
      rintro c ⟨⟩
      rfl
  obtain ⟨htake, hdrop⟩ := takeWhile_digits hw hafter
  have hsign : ∀ c ∈ (whole ++ (pointed fraction ++ tail)).head?, c.isDigit = true := by
    cases whole with
    | nil => exact absurd rfl hwhole
    | cons d whole =>
      rintro c ⟨⟩
      exact hw _ List.mem_cons_self
  -- sign, whole part and fraction are taken off one after the other
  unfold Numeral.read?
  rw [readSign_append hsign]
  dsimp only
  rw [htake, hdrop, readFraction_pointed hf htail]
  have hnonempty : ¬(whole.isEmpty && fraction.isEmpty) = true := by
    simp [hwhole]
  dsimp only
  rw [if_neg hnonempty]

theorem integerText_eq (n : ℤ) :
    integerText n = signChars (decide (n < 0)) ++ Nat.toDigits 10 n.natAbs := by
  unfold integerText signChars
  by_cases h : n < 0 <;> simp [h]

/-- A written exponent is read up to its end. -/
theorem readExponent_integerText {rest : List Char}
    (hrest : ∀ c ∈ rest.head?, c.isDigit = false) (n : ℤ) :
    Numeral.readExponent ('e' :: (integerText n ++ rest)) = (n, rest) := by
  have hdigits : ∀ c ∈ Nat.toDigits 10 n.natAbs, c.isDigit = true := fun c hc => isDigit_toDigits hc
  obtain ⟨htake, hdrop⟩ := takeWhile_digits hdigits hrest
  have hnonempty : (Nat.toDigits 10 n.natAbs).isEmpty = false := by
    simp [Nat.toDigits_ne_nil]
  -- the digits do not begin with a sign, so the sign that is read is the one written
  have hsign : ∀ c ∈ (Nat.toDigits 10 n.natAbs ++ rest).head?, c.isDigit = true := by
    cases hall : Nat.toDigits 10 n.natAbs with
    | nil => exact absurd hall Nat.toDigits_ne_nil
    | cons d ds =>
      rintro c ⟨⟩
      exact hdigits _ (hall ▸ List.mem_cons_self)
  unfold Numeral.readExponent
  dsimp only
  rw [if_pos (Or.inl rfl), integerText_eq, List.append_assoc, readSign_append hsign]
  dsimp only
  rw [htake, hdrop, hnonempty, digitsValue_toDigits]
  by_cases h : n < 0
  · simp only [h, decide_true, if_true, Bool.false_eq_true, if_false]
    rw [show -(n.natAbs : ℤ) = n by omega]
  · simp only [h, decide_false, Bool.false_eq_true, if_false]
    rw [show (n.natAbs : ℤ) = n by omega]

/-- Without a letter for it there is no exponent. -/
theorem readExponent_of_ends {rest : List Char} (h : Ends rest) :
    Numeral.readExponent rest = (0, rest) := by
  cases rest with
  | nil => rfl
  | cons c rest =>
    obtain ⟨_, _, he, hE⟩ := h c rfl
    unfold Numeral.readExponent
    dsimp only
    rw [if_neg (not_or.mpr ⟨he, hE⟩)]

/-- A numeral that is a given number. -/
structure Numeral.Exact (n : Numeral) (negative : Bool) (a : ℝ) : Prop where
  negative : n.negative = negative
  value : n.digits * (10 : ℝ) ^ n.scale = a

/-- Zeros that are written at the end of the digits are made up for by the scale. -/
theorem Digits.Exact.numeral {d : Digits} {a : ℝ} (hd : d.Exact a) (negative : Bool) {value k : ℕ}
    (hvalue : value = digitsValue d.digits * 10 ^ k) {scale : ℤ} (hscale : k + scale = d.scale) :
    Numeral.Exact ⟨negative, value, scale⟩ negative a := by
  refine ⟨rfl, ?_⟩
  rw [← hd.value, ← hscale, zpow_add₀ (by norm_num), zpow_natCast, ← mul_assoc, hvalue]
  push_cast
  rfl

/-- One digit before the point, and an exponent. -/
theorem read?_writeScientific {d : Digits} {a : ℝ} (hd : d.Exact a) (negative : Bool)
    {rest : List Char} (hrest : Ends rest) :
    ∃ n : Numeral, n.Exact negative a ∧
      Numeral.read? (signChars negative ++ (d.writeScientific ++ rest)) = some (n, rest) := by
  have hlength : 0 < d.digits.length := List.length_pos_of_ne_nil hd.nonempty
  have hsplit : d.digits.take 1 ++ d.digits.drop 1 = d.digits := List.take_append_drop 1 d.digits
  -- the text in the form for which `read?_parts` is stated
  have htext : d.writeScientific ++ rest = d.digits.take 1 ++ (pointed (d.digits.drop 1) ++
      'e' :: (integerText (d.point - 1) ++ rest)) := by
    have hpoint : (if d.digits.length ≤ 1 then [] else '.' :: d.digits.drop 1) =
        pointed (d.digits.drop 1) := by
      unfold pointed
      simp only [List.isEmpty_iff, List.drop_eq_nil_iff]
    unfold Digits.writeScientific
    rw [hpoint]
    simp
  have hwhole : d.digits.take 1 ≠ [] := by
    rw [← List.length_pos_iff, List.length_take]
    omega
  have hdigits : ∀ c ∈ d.digits.take 1 ++ d.digits.drop 1, c.isDigit = true := by
    rw [hsplit]
    exact hd.isDigit
  -- the letter of the exponent ends the digits in front of it
  have htail : ∀ c ∈ ('e' :: (integerText (d.point - 1) ++ rest)).head?,
      c.isDigit = false ∧ c ≠ '.' := by
    rintro c ⟨⟩
    exact ⟨rfl, by decide⟩
  have hread := read?_parts negative hwhole hdigits htail
  rw [readExponent_integerText fun c hc => (hrest c hc).1, hsplit] at hread
  refine ⟨_, hd.numeral negative (k := 0) (by rw [pow_zero, mul_one]) ?_, htext ▸ hread⟩
  rw [List.length_drop]
  unfold Digits.scale
  omega

/-- Without an exponent the scale is the number of digits after the point. -/
theorem Digits.Exact.read?_pointed {d : Digits} {a : ℝ} (hd : d.Exact a) (negative : Bool)
    (whole fraction : List Char) {rest : List Char} {k : ℕ} (hrest : Ends rest)
    (hwhole : whole ≠ []) (hdigits : ∀ c ∈ whole ++ fraction, c.isDigit = true)
    (hvalue : digitsValue (whole ++ fraction) = digitsValue d.digits * 10 ^ k)
    (hscale : k - fraction.length = d.scale) :
    ∃ n : Numeral, n.Exact negative a ∧
      Numeral.read? (signChars negative ++ (whole ++ pointed fraction ++ rest)) =
        some (n, rest) := by
  have htail : ∀ c ∈ rest.head?, c.isDigit = false ∧ c ≠ '.' := fun c hc =>
    ⟨(hrest c hc).1, (hrest c hc).2.1⟩
  have hread := read?_parts negative hwhole hdigits htail
  rw [readExponent_of_ends hrest, ← List.append_assoc whole] at hread
  have hmakes : (k : ℤ) + ((0 : ℤ) - fraction.length) = d.scale := by omega
  exact ⟨_, hd.numeral negative hvalue hmakes, hread⟩

theorem isDigit_zeros {k : ℕ} {c : Char} (hc : c ∈ List.replicate k '0') : c.isDigit = true := by
  rw [List.eq_of_mem_replicate hc]
  rfl

section positional

variable {d : Digits} {a : ℝ} {rest : List Char}

/-- Below one there are zeros between the point and the digits. -/
theorem Digits.Exact.read?_below (hd : d.Exact a) (negative : Bool) (hrest : Ends rest)
    (hpoint : d.point ≤ 0) :
    ∃ n : Numeral, n.Exact negative a ∧
      Numeral.read? (signChars negative ++
        ('0' :: '.' :: (List.replicate (-d.point).toNat '0' ++ d.digits) ++ rest)) =
          some (n, rest) := by
  have hlength : 0 < d.digits.length := List.length_pos_of_ne_nil hd.nonempty
  -- the zero before the point is the whole part, and all digits stand behind the point
  have hread := hd.read?_pointed negative (k := 0) ['0']
    (List.replicate (-d.point).toNat '0' ++ d.digits) hrest (by simp)
  have hpointed : pointed (List.replicate (-d.point).toNat '0' ++ d.digits) =
      '.' :: (List.replicate (-d.point).toNat '0' ++ d.digits) := by
    unfold pointed
    rw [if_neg (by simp [hd.nonempty])]
  rw [hpointed] at hread
  -- zeros in front change neither the digits nor their value, and the scale counts them
  apply hread
  · intro c hc
    rcases List.mem_append.mp hc with hc | hc
    · exact isDigit_zeros (k := 1) hc
    · rcases List.mem_append.mp hc with hc | hc
      · exact isDigit_zeros hc
      · exact hd.isDigit c hc
  · rw [pow_zero, mul_one]
    exact (digitsValue_zeros_append 1 _).trans (digitsValue_zeros_append _ _)
  · unfold Digits.scale
    rw [List.length_append, List.length_replicate]
    push_cast
    omega

/-- A whole number has zeros between the digits and the end. -/
theorem Digits.Exact.read?_whole (hd : d.Exact a) (negative : Bool) (hrest : Ends rest)
    (hpoint : (d.digits.length : ℤ) ≤ d.point) :
    ∃ n : Numeral, n.Exact negative a ∧
      Numeral.read? (signChars negative ++
        (d.digits ++ List.replicate (d.point - d.digits.length).toNat '0' ++ [] ++ rest)) =
          some (n, rest) := by
  apply hd.read?_pointed negative _ [] (k := (d.point - d.digits.length).toNat) hrest
    (by simp [hd.nonempty])
  · intro c hc
    rw [List.append_nil] at hc
    rcases List.mem_append.mp hc with hc | hc
    · exact hd.isDigit c hc
    · exact isDigit_zeros hc
  · rw [List.append_nil, digitsValue_append_zeros]
  · unfold Digits.scale
    simp
    omega

/-- Otherwise the point stands among the digits. -/
theorem Digits.Exact.read?_among (hd : d.Exact a) (negative : Bool) (hrest : Ends rest)
    (hlow : 0 < d.point) (hhigh : d.point < d.digits.length) :
    ∃ n : Numeral, n.Exact negative a ∧
      Numeral.read? (signChars negative ++
        (d.digits.take d.point.toNat ++ '.' :: d.digits.drop d.point.toNat ++ rest)) =
          some (n, rest) := by
  have hread := hd.read?_pointed negative (k := 0) (d.digits.take d.point.toNat)
    (d.digits.drop d.point.toNat) hrest
  have hpointed : pointed (d.digits.drop d.point.toNat) =
      '.' :: d.digits.drop d.point.toNat := by
    unfold pointed
    rw [if_neg (by simp; omega)]
  rw [hpointed, List.take_append_drop, pow_zero, mul_one] at hread
  -- the point only splits the digits
  apply hread
  · rw [← List.length_pos_iff, List.length_take]
    omega
  · exact hd.isDigit
  · rfl
  · unfold Digits.scale
    rw [List.length_drop]
    omega

/-- All places written out. -/
theorem read?_writePositional (hd : d.Exact a) (negative : Bool) (hrest : Ends rest) :
    ∃ n : Numeral, n.Exact negative a ∧
      Numeral.read? (signChars negative ++ (d.writePositional [] ++ rest)) = some (n, rest) := by
  unfold Digits.writePositional
  dsimp only
  -- the point stands in front of the digits, behind them or among them
  by_cases hsmall : d.point ≤ 0
  · rw [if_pos hsmall]
    exact hd.read?_below negative hrest hsmall
  · rw [if_neg hsmall]
    by_cases hlarge : (d.digits.length : ℤ) ≤ d.point
    · rw [if_pos hlarge]
      exact hd.read?_whole negative hrest hlarge
    · rw [if_neg hlarge]
      exact hd.read?_among negative hrest (not_le.mp hsmall) (not_le.mp hlarge)

end positional

/-! ## Round trip -/

/-- A finite double is written with its sign first. -/
theorem chars_eq (style : Style) {x : Float} {b : Binary} (h : Binary.ofFloat? x = some b) :
    style.chars x = signChars b.negative ++ style.layOut (shortest b x) := by
  unfold Style.chars signChars
  rw [h]
  dsimp only
  split
  · rfl
  · rfl

/-- A numeral of the digits of a double is the double. -/
theorem Numeral.Exact.toFloat {n : Numeral} {d : Digits} {x : Float} {a : ℝ} {negative : Bool}
    (hn : n.Exact negative a) (hd : d.Exact a) (hback : d.ReadsBack x) :
    n.toFloat = if negative then -x else x := by
  have hmagnitude := ofScientific_congr (hn.value.trans hd.value.symm)
  unfold Numeral.toFloat
  dsimp only
  rw [hmagnitude, show Float.ofScientific _ _ _ = x from hback, hn.negative]

/-- **Round trip**: a finite double that is written with its shortest digits, and with nothing after
    a whole number, is read back from before any text that does not go on with it. -/
theorem read?_chars {style : Style} (hending : style.wholeEnding = []) {x : Float}
    (hx : x.isFinite = true) {rest : List Char} (hrest : Ends rest) :
    ∃ n : Numeral, Numeral.read? (style.chars x ++ rest) = some (n, rest) ∧ n.toFloat = x := by
  obtain ⟨b, hb⟩ := exists_ofFloat? hx
  have hsign := eq_of_ofFloat? hb
  obtain ⟨⟨a, hexact⟩, hback⟩ := shortest_readsBack hb
  -- only the layout depends on the style; what is read back does not
  have hread : ∃ n : Numeral, n.Exact b.negative a ∧
      Numeral.read? (signChars b.negative ++ (style.layOut (shortest b x) ++ rest)) =
        some (n, rest) := by
    unfold Style.layOut
    rw [hending]
    split
    · exact read?_writeScientific hexact b.negative hrest
    · exact read?_writePositional hexact b.negative hrest
  obtain ⟨n, hn, hread⟩ := hread
  refine ⟨n, ?_, (hn.toFloat hexact hback).trans hsign.symm⟩
  rw [chars_eq style hb, List.append_assoc]
  exact hread

end PulseTrain.Decimal
