import PulseTrain.Duration

/-! # The sample grid

    Hardware plays samples at a fixed rate, so times are rounded to whole samples. Sample counts are
    kept in 64-bit words with sign, and a time beyond them has no count.

    * `Samples.ofDuration` rounds a time to the nearest sample, a half going away from zero;
    * `Samples.toDuration` is the time of a sample.
-/

namespace PulseTrain

/-- The smallest double with full precision, `2 ^ -1022`. -/
def smallestNormal : Float := 2.2250738585072014e-308

/-- Whether samples can be taken at a rate in hertz: it is finite, positive and of full precision.
    -/
def canSampleAt (rate : Float) : Bool :=
  rate.isFinite && decide (0.0 < rate) && !decide (rate < smallestNormal)

abbrev Samples : Type := Int

/-- A time that has no sample count at the given rate. -/
structure OffGrid where
  seconds : Float
  rate : Float
deriving DecidableEq, Repr

def OffGrid.message (e : OffGrid) : String :=
  Decimal.plain.text e.seconds ++ " s is out of the sample range at "
    ++ Decimal.plain.text e.rate ++ " Hz"

namespace Samples

def least : Samples := -9223372036854775808

/-- The greatest sample count, `2 ^ 63 - 1`. -/
def greatest : Samples := 9223372036854775807

/-- Whether a count fits into a word. -/
def inRange (n : Samples) : Bool := decide (least ≤ n) && decide (n ≤ greatest)

/-- The sum of two counts, if it fits into a word. -/
def add? (a b : Samples) : Option Samples :=
  if inRange (a + b) then some (a + b) else none

/-- The sample nearest to a time. Only the product with the rate is rounded as a double. -/
def ofDuration (time : Duration) (rate : Float) : Except OffGrid Samples :=
  match Decimal.nearestInteger? (time.seconds * rate) with
  | some n => if inRange n then .ok n else .error ⟨time.seconds, rate⟩
  | none => .error ⟨time.seconds, rate⟩

def toDuration (n : Samples) (rate : Float) : Duration :=
  ⟨Float.ofInt n / rate⟩

end Samples

end PulseTrain
