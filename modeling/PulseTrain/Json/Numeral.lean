import PulseTrain.Decimal.Numeral
import PulseTrain.Json.Value

/-! # JSON numerals

    A JSON numeral has no leading zero and no plus sign, and a point has digits on both sides.

    Its digits are gathered in a word of 64 bits. The first digit that does not fit ends the
    gathering, separately before and after the point; digits left over before the point count as
    powers of ten and those after it as nothing. The word is then scaled by powers of ten in
    doubles. This is exact for short numerals and may miss the nearest double for long ones.

    * `readNumeral?` reads a numeral at the start of a text.
-/

namespace PulseTrain.Json

/-- Gathers digits behind `significand` while they fit into a word of 64 bits, and gives back the
    digits that are left. -/
def gather (significand : Nat) : List Char → Nat × List Char
  | [] => (significand, [])
  | d :: rest =>
    let next := 10 * significand + (d.toNat - '0'.toNat)
    if next < UInt64.size then gather next rest else (significand, d :: rest)

/-- The greatest power of ten that is a double. -/
def greatestPower : Nat := 308

def powerOfTen (n : Nat) : Float := Float.ofScientific 1 false n

/-- Scales a double by `10 ^ exponent` with at most one multiplication or some divisions. There is
    no result if it is too large. -/
def scale? (x : Float) (exponent : Int) : Option Float :=
  if exponent < -greatestPower then
    if x == 0.0 then some x else scale? (x / powerOfTen greatestPower) (exponent + greatestPower)
  else if exponent < 0 then some (x / powerOfTen exponent.natAbs)
  else if exponent ≤ greatestPower then
    let y := x * powerOfTen exponent.natAbs
    if y.isInf then none else some y
  else if x == 0.0 then some x
  else none
termination_by exponent.natAbs
decreasing_by
  simp only [greatestPower] at *
  omega

/-- The exponent of a numeral: its sign, its digits, and the text after it. There is none if digits
    are missing. -/
def readExponent? : List Char → Option (Bool × List Char × List Char)
  | [] => none
  | c :: rest =>
    let (negative, s) :=
      if c = '-' then (true, rest) else if c = '+' then (false, rest) else (false, c :: rest)
    let ds := s.takeWhile Char.isDigit
    if ds.isEmpty then none else some (negative, ds, s.dropWhile Char.isDigit)

/-- The greatest exponent that is taken as it is written, `2 ^ 31 - 1`. -/
def greatestExponent : Nat := 2147483647

/-- The real number with the given significand, power of ten and written exponent. An exponent
    beyond all bounds gives zero or nothing, whatever the power of ten. -/
def realNumber (negative : Bool) (significand : Nat) (power : Int)
    (exponent : Option (Bool × List Char)) : JsonNumber :=
  let scaled : Option Float :=
    match exponent with
    | none => scale? (Float.ofNat significand) power
    | some (negativeExponent, ds) =>
      let n := Decimal.digitsValue ds
      if n ≤ greatestExponent then
        scale? (Float.ofNat significand) (if negativeExponent then power - n else power + n)
      else if significand ≠ 0 ∧ !negativeExponent then none
      else some 0.0
  match scaled with
  | some x => .real (if negative then -x else x)
  | none => .outOfRange

/-- An integer, if it fits into a word of 64 bits, with sign or without. Zero with a minus is a real
    number, because only this has a negative zero. -/
def integerNumber (negative : Bool) (n : Nat) : JsonNumber :=
  if negative then
    if n = 0 ∨ 9223372036854775808 < n then .real (-Float.ofNat n) else .integer (-n)
  else .integer n

/-- The digits before the point: a zero alone, or digits that do not begin with one. -/
def wholeDigits? (s : List Char) : Option (List Char × List Char) :=
  match s.takeWhile Char.isDigit, s.dropWhile Char.isDigit with
  | [], _ => none
  | ['0'], rest => some (['0'], rest)
  | '0' :: _, _ => none
  | ds, rest => some (ds, rest)

/-- The digits after the point, if there is a point; then there is at least one. -/
def fractionDigits? : List Char → Option (List Char × List Char)
  | '.' :: s =>
    let ds := s.takeWhile Char.isDigit
    if ds.isEmpty then none else some (ds, s.dropWhile Char.isDigit)
  | s => some ([], s)

def exponentPart? : List Char → Option (Option (Bool × List Char) × List Char)
  | [] => some (none, [])
  | c :: s =>
    if c = 'e' ∨ c = 'E' then
      (readExponent? s).map fun (negative, ds, rest) => (some (negative, ds), rest)
    else some (none, c :: s)

/-- Reads a numeral at the start of a text, and the text after it. -/
def readNumeral? (s : List Char) : Option (JsonNumber × List Char) := do
  let (negative, s) :=
    match s with
    | '-' :: rest => (true, rest)
    | s => (false, s)
  let (whole, s) ← wholeDigits? s
  let (fraction, s) ← fractionDigits? s
  let (exponent, rest) ← exponentPart? s
  let (significand, wholeLeft) := gather 0 whole
  if fraction.isEmpty ∧ exponent.isNone ∧ wholeLeft.isEmpty then
    return (integerNumber negative significand, rest)
  else
    let (significand, fractionLeft) := gather significand fraction
    let power : Int := wholeLeft.length - (fraction.length - fractionLeft.length : Nat)
    return (realNumber negative significand power exponent, rest)

end PulseTrain.Json
