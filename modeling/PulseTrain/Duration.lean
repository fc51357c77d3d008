import PulseTrain.Decimal.Style

/-! # Times and durations

    A time is a double in seconds, with the arithmetic of doubles. Times are compared as numbers; a
    NaN is neither before nor after any time, and so ties with every one.

    * `max` and `min` are not symmetric on ties: `max a b` is `b` and `min a b` is `a`;
    * `text` prints fourteen significant digits, one fewer than a double is good for, so that the
      rounding error of a unit conversion does not show. `exactText` prints them all.
-/

namespace PulseTrain

/-- A time in seconds. -/
structure Duration where
  seconds : Float
deriving DecidableEq, Repr

namespace Duration

def zero : Duration := ⟨0.0⟩

instance : Inhabited Duration := ⟨zero⟩
instance : Add Duration := ⟨fun a b => ⟨a.seconds + b.seconds⟩⟩
instance : Sub Duration := ⟨fun a b => ⟨a.seconds - b.seconds⟩⟩
instance : Neg Duration := ⟨fun a => ⟨-a.seconds⟩⟩
instance : HMul Duration Float Duration := ⟨fun a factor => ⟨a.seconds * factor⟩⟩
instance : HDiv Duration Float Duration := ⟨fun a divisor => ⟨a.seconds / divisor⟩⟩

/-! ## Comparison -/

instance : LT Duration := ⟨fun a b => a.seconds < b.seconds⟩

instance (a b : Duration) : Decidable (a < b) :=
  inferInstanceAs (Decidable (a.seconds < b.seconds))

/-- Equality of the numbers: the two zeros are the same time, and NaN is not even itself. -/
def sameTime (a b : Duration) : Bool := a.seconds == b.seconds

/-- Before zero. A negative zero and NaN are not. -/
def isNegative (a : Duration) : Bool := decide (a.seconds < 0.0)

/-- The order of two times; times that are not ordered count as equal. -/
def order (a b : Duration) : Ordering :=
  if a < b then .lt else if b < a then .gt else .eq

/-- The later of two times, the second unless the first is later. -/
instance : Max Duration := ⟨fun a b => if b < a then a else b⟩

/-- The earlier of two times, the first unless the second is earlier. -/
instance : Min Duration := ⟨fun a b => if b < a then b else a⟩

/-! ## Sums -/

def sum (ds : List Duration) : Duration :=
  ds.foldl (· + ·) zero

/-! ## Printing -/

/-- The number rounded to fourteen significant digits, in doubles throughout, so that a power of ten
    out of range spoils the result. -/
def roundToFourteenDigits (x : Float) : Float :=
  if x == 0.0 then 0.0
  else
    let order := x.abs.log10.floor
    let scale := Float.pow 10.0 (14.0 - 1.0 - order)
    (x * scale).round / scale

/-- The time to fourteen significant digits, with its unit. -/
def text (a : Duration) : String :=
  Decimal.adaptive.text (roundToFourteenDigits a.seconds) ++ " s"

/-- The time to the last digit, with its unit. -/
def exactText (a : Duration) : String :=
  Decimal.plain.text a.seconds ++ " s"

end Duration

end PulseTrain
