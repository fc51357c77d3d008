import PulseTrain.Proofs.Decimal.Writing
import PulseTrain.Text.Integer

/-! # Integers that are written and read

    The decimal digits of a natural number are read as the number, and so is the text of an integer
    with its sign, if the integer is in the range of those that are read at all.

    * **Digits**: `natural?_toDigits`, and `natural16?_toDigits` for numbers in the range;
    * **Integers**: `integer64?_integerText`.
-/

namespace PulseTrain.Text

open Decimal

/-! ## Digits -/

theorem digits?_toDigits (n : ℕ) : digits? (Nat.toDigits 10 n) = some n := by
  unfold digits?
  rw [digitsValue_toDigits, if_pos]
  simp only [Bool.and_eq_true, Bool.not_eq_true', List.isEmpty_eq_false_iff]
  exact ⟨Nat.toDigits_ne_nil, List.all_eq_true.mpr fun c hc => isDigit_toDigits hc⟩

/-- Digits do not begin with a sign. -/
theorem natural?_toDigits (n : ℕ) : natural? (Nat.toDigits 10 n) = some n := by
  unfold natural?
  split
  · next heq =>
    have hplus := isDigit_toDigits (heq ▸ List.mem_cons_self)
    cases hplus
  · exact digits?_toDigits n

/-- The digits of a channel number are read as the channel. -/
theorem natural16?_toDigits (n : UInt16) : natural16? (Nat.toDigits 10 n.toNat) = some n := by
  unfold natural16?
  rw [natural?_toDigits, Option.bind_some, if_pos n.toNat_lt]
  simp

/-! ## Integers -/

/-- The integers that have a word. -/
def InRange (n : ℤ) : Prop := -9223372036854775808 ≤ n ∧ n ≤ 9223372036854775807

variable {n : ℤ}

theorem inRange_of_read {s : List Char} (h : integer64? s = some n) : InRange n := by
  have hfilter := (Option.filter_eq_some_iff.mp h).2
  simpa [InRange] using hfilter

/-- The text of an integer is read as the integer. -/
theorem integer64?_integerText (h : InRange n) : integer64? (integerText n) = some n := by
  have hrange : (decide (-9223372036854775808 ≤ n) && decide (n ≤ 9223372036854775807)) = true := by
    rw [Bool.and_eq_true, decide_eq_true_eq, decide_eq_true_eq]
    exact h
  unfold integer64? integerText
  by_cases hnegative : n < 0
  · have habs : -(n.natAbs : ℤ) = n := by omega
    rw [if_pos hnegative]
    show Option.filter _ (Option.map _ (digits? (Nat.toDigits 10 n.natAbs) >>= _)) = some n
    rw [digits?_toDigits]
    show Option.filter _ (some (-(n.natAbs : ℤ))) = some n
    rw [habs, Option.filter_some, if_pos hrange]
  · have habs : Int.ofNat n.natAbs = n := Int.natAbs_of_nonneg (not_lt.mp hnegative)
    rw [if_neg hnegative]
    -- the digits do not begin with a minus sign
    split
    · next heq =>
      have hminus := isDigit_toDigits (heq ▸ List.mem_cons_self)
      cases hminus
    · rw [natural?_toDigits, Option.map_some, habs, Option.filter_some, if_pos hrange]

end PulseTrain.Text
