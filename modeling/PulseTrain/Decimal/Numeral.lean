/-! # Decimal numerals

    A numeral is an optional sign, ASCII digits with at most one point among them, and optionally an
    exponent. At least one digit stands before or after the point, so `1.`, `.5` and `1.e3` are
    numerals and `.` is none.

    * `Numeral.read?` reads the longest numeral at the start of a text and returns the rest;
    * `Numeral.toFloat` is the double nearest to it, a tie going to the even significand;
    * `number?` reads a text that is a numeral and nothing else.
-/

namespace PulseTrain.Decimal

/-- The number `± digits * 10 ^ scale`. -/
structure Numeral where
  negative : Bool
  digits : Nat
  scale : Int
deriving DecidableEq, Repr

/-- The natural number a run of digits stands for. -/
def digitsValue (ds : List Char) : Nat :=
  ds.foldl (fun value d => 10 * value + (d.toNat - '0'.toNat)) 0

namespace Numeral

/-- The double nearest to the numeral. Overflow gives an infinity and underflow a zero, both with
    the sign of the numeral. -/
def toFloat (n : Numeral) : Float :=
  let magnitude := Float.ofScientific n.digits (decide (n.scale < 0)) n.scale.natAbs
  if n.negative then -magnitude else magnitude

/-- An optional sign: whether it is a minus, and the text after it. -/
def readSign : List Char → Bool × List Char
  | '+' :: rest => (false, rest)
  | '-' :: rest => (true, rest)
  | rest => (false, rest)

/-- The digits after a point, if there is one. -/
def readFraction : List Char → List Char × List Char
  | '.' :: rest => (rest.takeWhile Char.isDigit, rest.dropWhile Char.isDigit)
  | rest => ([], rest)

/-- The exponent. A letter `e` without digits after it is not part of the numeral. -/
def readExponent : List Char → Int × List Char
  | [] => (0, [])
  | e :: rest =>
    if e = 'e' ∨ e = 'E' then
      let (negative, afterSign) := readSign rest
      let ds := afterSign.takeWhile Char.isDigit
      if ds.isEmpty then (0, e :: rest)
      else
        let magnitude : Int := digitsValue ds
        (if negative then -magnitude else magnitude, afterSign.dropWhile Char.isDigit)
    else (0, e :: rest)

/-- The longest numeral at the start of `s`, and the text after it. -/
def read? (s : List Char) : Option (Numeral × List Char) :=
  let (negative, afterSign) := readSign s
  let whole := afterSign.takeWhile Char.isDigit
  let (fraction, afterFraction) := readFraction (afterSign.dropWhile Char.isDigit)
  if whole.isEmpty && fraction.isEmpty then none
  else
    let (exponent, rest) := readExponent afterFraction
    some (⟨negative, digitsValue (whole ++ fraction), exponent - fraction.length⟩, rest)

end Numeral

/-- The double nearest to a text that is one numeral from end to end. -/
def number? (s : List Char) : Option Float :=
  match Numeral.read? s with
  | some (n, []) => some n.toFloat
  | _ => none

end PulseTrain.Decimal
