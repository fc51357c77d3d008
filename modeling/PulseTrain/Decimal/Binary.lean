/-! # The exact value of a double

    A finite double is a natural number scaled by a power of two. Questions about its value are
    therefore questions about natural numbers, and are answered here without rounding.

    * `Binary.ofFloat?` takes a finite double apart into sign, significand and exponent;
    * `nearestInteger?` is the integer nearest to a double, a half going away from zero.
-/

namespace PulseTrain.Decimal

/-- The number `± significand * 2 ^ exponent`. -/
structure Binary where
  negative : Bool
  significand : Nat
  exponent : Int
deriving DecidableEq, Repr

namespace Binary

/-- The exact value of a finite double; infinities and NaN have none. The sign of a zero is kept,
    because it is printed. -/
def ofFloat? (x : Float) : Option Binary :=
  match x.toModel.unpack with
  | .finite .negative m e _ => some ⟨true, m, e⟩
  | .finite .positive m e _ => some ⟨false, m, e⟩
  | .zero .negative => some ⟨true, 0, 0⟩
  | .zero .positive => some ⟨false, 0, 0⟩
  | .infinity _ => none
  | .notANumber => none

/-- The magnitude is `numerator / denominator`. -/
def numerator (b : Binary) : Nat :=
  b.significand * Nat.pow 2 b.exponent.toNat

def denominator (b : Binary) : Nat :=
  Nat.pow 2 (-b.exponent).toNat

theorem denominator_pos (b : Binary) : 0 < b.denominator :=
  Nat.pow_pos (by decide)

/-- The magnitude rounded to an integer, a half going up: `⌊(2 n + d) / 2 d⌋` for `n / d`. -/
def nearestMagnitude (b : Binary) : Nat :=
  (2 * b.numerator + b.denominator) / (2 * b.denominator)

/-- The value rounded to an integer, a half going away from zero. -/
def nearest (b : Binary) : Int :=
  if b.negative then -b.nearestMagnitude else b.nearestMagnitude

end Binary

/-- The integer nearest to a finite double, a half going away from zero. -/
def nearestInteger? (x : Float) : Option Int :=
  (Binary.ofFloat? x).map Binary.nearest

end PulseTrain.Decimal
