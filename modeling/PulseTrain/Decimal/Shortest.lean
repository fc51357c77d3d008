import PulseTrain.Decimal.Binary

/-! # The shortest decimal of a double

    Of all decimals that read back as a given double, the ones with the fewest digits are taken, and
    of those the nearest to the double; of two equally near the larger.

    A decimal with `n` digits is a point of a grid of spacing `10 ^ scale`. If any point of the grid
    reads back, then so does the last point not above the double or the first point above it,
    because reading is monotone. So only these two are tried, for one digit, two digits and so on.
    Seventeen digits always suffice.

    * `shortest` gives the digits and the place of the decimal point.
-/

namespace PulseTrain.Decimal

/-- The number `0.d₁d₂d₃… * 10 ^ point`. -/
structure Digits where
  digits : List Char
  point : Int
deriving DecidableEq, Repr

namespace Digits

/-- The decimal digits of `n * 10 ^ scale`, without zeros at the end. -/
def ofScaled (n : Nat) (scale : Int) : Digits :=
  let all := Nat.toDigits 10 n
  ⟨(all.reverse.dropWhile (· = '0')).reverse, all.length + scale⟩

end Digits

namespace Binary

/-- The least `k` with magnitude below `10 ^ k`. A number with `a` digits over one with `b` digits
    lies between `10 ^ (a - b - 1)` and `10 ^ (a - b + 1)`. -/
def decimalPoint (b : Binary) : Int :=
  let places : Int := (Nat.toDigits 10 b.numerator).length - (Nat.toDigits 10 b.denominator).length
  let tooSmall :=
    decide (b.denominator * Nat.pow 10 places.toNat ≤ b.numerator * Nat.pow 10 (-places).toNat)
  if tooSmall then places + 1 else places

/-- The grid point of spacing `10 ^ scale` that stands for the magnitude of `x`: the point below or
    the point above, whichever reads back, and of two the nearer. -/
def gridPoint? (b : Binary) (magnitude : Float) (scale : Int) : Option Nat :=
  let n := b.numerator * Nat.pow 10 (-scale).toNat
  let d := b.denominator * Nat.pow 10 scale.toNat
  let below := n / d
  let readsBack (k : Nat) : Bool :=
    Float.ofScientific k (decide (scale < 0)) scale.natAbs == magnitude
  match readsBack below, readsBack (below + 1) with
  | true, true => some (if 2 * (n % d) < d then below else below + 1)
  | true, false => some below
  | false, true => some (below + 1)
  | false, false => none

/-- All digits of the magnitude: `m * 2 ^ -e` is `m * 5 ^ e * 10 ^ -e`. -/
def allDigits (b : Binary) : Digits :=
  .ofScaled (b.numerator * Nat.pow 5 (-b.exponent).toNat) (min b.exponent 0)

end Binary

/-- The fewest digits that read back as the magnitude of `x`, whose exact value is `b`. -/
def shortest (b : Binary) (x : Float) : Digits :=
  if b.significand = 0 then ⟨['0'], 1⟩
  else
    let found := (List.range 17).findSome? fun k =>
      let scale := b.decimalPoint - (k + 1 : Nat)
      (b.gridPoint? x.abs scale).map (Digits.ofScaled · scale)
    found.getD b.allDigits

end PulseTrain.Decimal
