import PulseTrain.Decimal.Shortest

/-! # Written numbers

    Three styles are in use, all with the shortest digits that read back. They differ in when an
    exponent is written and in how a whole number ends.

    * `plain` never writes an exponent: `0.0000001`, `1`, `1000000000000000000000`;
    * `scientific` always writes one, after a single leading digit: `1e-7`, `1.5e9`, `0e0`;
    * `adaptive` writes one below `0.0001` and from `10 ^ 16` on, and at least one digit after the
      point otherwise: `1e-7`, `0.0001`, `1.0`.
-/

namespace PulseTrain.Decimal

/-- How a number is laid out around its shortest digits. -/
structure Style where
  /-- Whether a number whose first digit stands for `10 ^ e` is written with an exponent. -/
  usesExponent : (e : Int) → Bool
  /-- What follows the last digit of a whole number. -/
  wholeEnding : List Char

/-- Never an exponent, and nothing after a whole number. -/
def plain : Style := ⟨fun _ => false, []⟩

/-- Always an exponent. -/
def scientific : Style := ⟨fun _ => true, []⟩

/-- An exponent for magnitudes below `10 ^ -4` and from `10 ^ 16` on. -/
def adaptive : Style := ⟨fun e => decide (e < -4) || decide (16 ≤ e), ['.', '0']⟩

def integerText (n : Int) : List Char :=
  if n < 0 then '-' :: Nat.toDigits 10 n.natAbs else Nat.toDigits 10 n.natAbs

namespace Digits

/-- One digit before the point, and the exponent. -/
def writeScientific (d : Digits) : List Char :=
  d.digits.take 1 ++ (if d.digits.length ≤ 1 then [] else '.' :: d.digits.drop 1)
    ++ 'e' :: integerText (d.point - 1)

/-- All places written out, with zeros between the digits and the point. -/
def writePositional (d : Digits) (wholeEnding : List Char) : List Char :=
  let count : Int := d.digits.length
  if d.point ≤ 0 then '0' :: '.' :: (List.replicate (-d.point).toNat '0' ++ d.digits)
  else if count ≤ d.point then
    d.digits ++ List.replicate (d.point - count).toNat '0' ++ wholeEnding
  else d.digits.take d.point.toNat ++ '.' :: d.digits.drop d.point.toNat

end Digits

namespace Style

/-- The text of a magnitude. A zero is laid out like a one. -/
def layOut (style : Style) (d : Digits) : List Char :=
  if style.usesExponent (d.point - 1) then d.writeScientific
  else d.writePositional style.wholeEnding

/-- The text of a double. NaN has no sign, a zero keeps its own. -/
def chars (style : Style) (x : Float) : List Char :=
  match Binary.ofFloat? x with
  | some b =>
    let text := style.layOut (shortest b x)
    if b.negative then '-' :: text else text
  | none =>
    if x.isNaN then ['N', 'a', 'N']
    else if x < 0 then ['-', 'i', 'n', 'f'] else ['i', 'n', 'f']

def text (style : Style) (x : Float) : String :=
  String.ofList (style.chars x)

end Style

end PulseTrain.Decimal
