import PulseTrain.Decimal.Numeral

/-! # Written integers

    An integer is written with ASCII digits after an optional sign. A sign alone is no integer, a
    natural number has no minus, and a value beyond the given bounds is refused.
-/

namespace PulseTrain.Text

/-- The value of a nonempty run of digits. -/
def digits? (s : List Char) : Option Nat :=
  if !s.isEmpty && s.all Char.isDigit then some (Decimal.digitsValue s) else none

/-- A natural number, with a plus sign or without. -/
def natural? : List Char → Option Nat
  | '+' :: s => digits? s
  | s => digits? s

/-- An integer in the range of 64-bit words with sign. -/
def integer64? (s : List Char) : Option Int :=
  let value? : Option Int :=
    match s with
    | '-' :: s => (digits? s).map fun n => -(n : Int)
    | s => (natural? s).map Int.ofNat
  value?.filter fun n => decide (-9223372036854775808 ≤ n) && decide (n ≤ 9223372036854775807)

def natural32? (s : List Char) : Option UInt32 :=
  (natural? s).bind fun n => if n < UInt32.size then some (UInt32.ofNat n) else none

def natural16? (s : List Char) : Option UInt16 :=
  (natural? s).bind fun n => if n < UInt16.size then some (UInt16.ofNat n) else none

end PulseTrain.Text
