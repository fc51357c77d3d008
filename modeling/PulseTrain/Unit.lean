import PulseTrain.Text.Word

/-! # Units and quantities

    A value is written with a unit of time, frequency or voltage, or without any, and kept in the
    base unit of its dimension: seconds, hertz, volts or a plain number.

    * `MeasureUnit` is a unit that may be written, `Dimension` what it measures;
    * `Quantity.of` converts a written value to its base unit.
-/

namespace PulseTrain

/-! ## Units -/

inductive TimeUnit where
  | nanoseconds
  | microseconds
  | milliseconds
  | seconds
deriving DecidableEq, Repr

inductive FrequencyUnit where
  | hertz
  | kilohertz
  | megahertz
  | gigahertz
deriving DecidableEq, Repr

namespace TimeUnit

/-- The unit in seconds. -/
def factor : TimeUnit → Float
  | nanoseconds => 1e-9
  | microseconds => 1e-6
  | milliseconds => 1e-3
  | seconds => 1.0

def symbol : TimeUnit → String
  | nanoseconds => "ns"
  | microseconds => "us"
  | milliseconds => "ms"
  | seconds => "s"

/-- The unit of a name in any case. The `u` may be a Greek mu or a micro sign. -/
def named? (name : List Char) : Option TimeUnit :=
  match String.ofList (name.map Text.lowerCase) with
  | "ns" => some nanoseconds
  | "us" => some microseconds
  | "\u03BCs" => some microseconds
  | "\u00B5s" => some microseconds
  | "ms" => some milliseconds
  | "s" => some seconds
  | _ => none

end TimeUnit

namespace FrequencyUnit

def factor : FrequencyUnit → Float
  | hertz => 1.0
  | kilohertz => 1e3
  | megahertz => 1e6
  | gigahertz => 1e9

def symbol : FrequencyUnit → String
  | hertz => "Hz"
  | kilohertz => "kHz"
  | megahertz => "MHz"
  | gigahertz => "GHz"

def named? (name : List Char) : Option FrequencyUnit :=
  match String.ofList (name.map Text.lowerCase) with
  | "hz" => some hertz
  | "khz" => some kilohertz
  | "mhz" => some megahertz
  | "ghz" => some gigahertz
  | _ => none

end FrequencyUnit

/-- What a value measures. -/
inductive Dimension where
  | time
  | frequency
  | voltage
  | dimensionless
deriving DecidableEq, Repr

namespace Dimension

/-- The symbol of the unit in which values of the dimension are kept. -/
def baseUnitSymbol : Dimension → String
  | time => "s"
  | frequency => "Hz"
  | voltage => "V"
  | dimensionless => ""

def name : Dimension → String
  | time => "time"
  | frequency => "frequency"
  | voltage => "voltage"
  | dimensionless => "dimensionless"

end Dimension

/-- The unit in which a value was written. -/
inductive MeasureUnit where
  | time (unit : TimeUnit)
  | frequency (unit : FrequencyUnit)
  | volt
  | plain
deriving DecidableEq, Repr

namespace MeasureUnit

def dimension : MeasureUnit → Dimension
  | time _ => .time
  | frequency _ => .frequency
  | volt => .voltage
  | plain => .dimensionless

/-- The unit in the base unit of its dimension. -/
def factor : MeasureUnit → Float
  | time unit => unit.factor
  | frequency unit => unit.factor
  | volt => 1.0
  | plain => 1.0

def symbol : MeasureUnit → String
  | time unit => unit.symbol
  | frequency unit => unit.symbol
  | volt => "V"
  | plain => ""

end MeasureUnit

/-! ## Quantities -/

/-- A value in the base unit of its dimension, and the unit in which it was written. -/
structure Quantity where
  value : Float
  unit : MeasureUnit
deriving DecidableEq, Repr

namespace Quantity

/-- The quantity written as `value` in `unit`. -/
def of (value : Float) (unit : MeasureUnit) : Quantity :=
  ⟨value * unit.factor, unit⟩

def dimension (q : Quantity) : Dimension := q.unit.dimension

end Quantity

end PulseTrain
