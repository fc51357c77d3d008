import PulseTrain.Decimal.Numeral
import PulseTrain.Duration
import PulseTrain.Text.Word
import PulseTrain.Unit

/-! # Scalar expressions

    Times, frequencies, phases, amplitudes and plain numbers are written as a numeral and a unit,
    with blanks between the two or without. The unit may be in any case.

    * `withUnit?` reads a numeral and one of some units;
    * `value` tries a time, a voltage, a frequency and a plain number in turn; no text is more than
      one of them, because the units differ;
    * `time`, `frequency`, `phase` and `amplitude` accept what their field takes.
-/

namespace PulseTrain

/-- Why a text is not the expression that was expected. -/
inductive ExpressionError where
  | notTime (text : String)
  | notValue (text : String)
  | notFrequency (text : String)
  | notPhase (text : String)
  /-- The unit is a variant of a known one, but not the same letters in another case. -/
  | unknownUnit (name : String)
  | wrongAmplitudeUnit (text : String) (unit : MeasureUnit)
deriving DecidableEq, Repr

def unknownUnitMessage (name : String) : String := "unknown unit '" ++ name ++ "'"

namespace ExpressionError

def message : ExpressionError → String
  | notTime text => "invalid timing expression '" ++ text ++ "'"
  | notValue text => "invalid value '" ++ text ++ "'"
  | notFrequency text => "invalid frequency '" ++ text ++ "'"
  | notPhase text => "invalid phase '" ++ text ++ "'"
  | unknownUnit name => unknownUnitMessage name
  | wrongAmplitudeUnit text unit => "amplitude '" ++ text ++ "' has unit " ++ unit.symbol

end ExpressionError

namespace Expression

/-! ## Parts -/

def isNameStart (c : Char) : Bool := c.isAlpha || c = '_'

def isNameChar (c : Char) : Bool := c.isAlphanum || c = '_'

/-- Whether a text is a name, apart from blanks around it: ASCII letters, digits and underscores,
    not beginning with a digit. -/
def isIdentifier (s : List Char) : Bool :=
  match Text.trim s with
  | [] => false
  | c :: rest => isNameStart c && rest.all isNameChar

/-- A plain number, apart from blanks around it. -/
def number? (s : List Char) : Option Float :=
  Decimal.number? (Text.trim s)

/-- A numeral followed by one of the units, apart from blanks around and between them. -/
def withUnit? (units : List String) (s : List Char) : Option (Float × List Char) :=
  match Decimal.Numeral.read? (Text.trim s) with
  | none => none
  | some (numeral, rest) =>
    let unit := Text.trimStart rest
    if units.any fun u => Text.isWord u unit then some (numeral.toFloat, unit) else none

/-- The units of a time; a Greek mu stands for the micro sign too. -/
def timeUnits : List String := ["ns", "us", "\u03BCs", "ms", "s"]

def voltageUnits : List String := ["v"]

def frequencyUnits : List String := ["hz", "khz", "mhz", "ghz"]

def phaseUnits : List String := ["deg", "rad"]

/-- The text as it is quoted in a report. -/
def quoted (s : List Char) : String := String.ofList (Text.trim s)

def timeUnit (name : List Char) : Except ExpressionError TimeUnit :=
  match TimeUnit.named? name with
  | some unit => .ok unit
  | none => .error (.unknownUnit (String.ofList name))

def frequencyUnit (name : List Char) : Except ExpressionError FrequencyUnit :=
  match FrequencyUnit.named? name with
  | some unit => .ok unit
  | none => .error (.unknownUnit (String.ofList name))

/-! ## Expressions -/

/-- A time, which always has a unit. -/
def time (s : List Char) : Except ExpressionError Duration :=
  match withUnit? timeUnits s with
  | none => .error (.notTime (quoted s))
  | some (value, name) => do
    let unit ← timeUnit name
    return ⟨value * unit.factor⟩

/-- A frequency in hertz, which always has a unit. -/
def frequency (s : List Char) : Except ExpressionError Float :=
  match withUnit? frequencyUnits s with
  | none => .error (.notFrequency (quoted s))
  | some (value, name) => do
    let unit ← frequencyUnit name
    return value * unit.factor

/-- A time, a voltage, a frequency or a plain number. -/
def value (s : List Char) : Except ExpressionError Quantity :=
  match withUnit? timeUnits s with
  | some (value, name) => do
    let unit ← timeUnit name
    return .of value (.time unit)
  | none =>
    match withUnit? voltageUnits s with
    | some (value, _) => .ok (.of value .volt)
    | none =>
      match withUnit? frequencyUnits s with
      | some (value, name) => do
        let unit ← frequencyUnit name
        return .of value (.frequency unit)
      | none =>
        match number? s with
        | some value => .ok (.of value .plain)
        | none => .error (.notValue (quoted s))

/-- Half a turn in radians, to the precision of a double. -/
def halfTurn : Float := 3.141592653589793

/-- A phase in degrees. A number without a unit is in degrees already. -/
def phase (s : List Char) : Except ExpressionError Float :=
  match withUnit? phaseUnits s with
  | some (value, name) =>
    .ok (if Text.isWord "rad" name then value * (180.0 / halfTurn) else value)
  | none =>
    match number? s with
    | some value => .ok value
    | none => .error (.notPhase (quoted s))

/-- An amplitude, in volts or without a unit. -/
def amplitude (s : List Char) : Except ExpressionError Float := do
  let quantity ← value s
  match quantity.unit with
  | .volt => return quantity.value
  | .plain => return quantity.value
  | unit => throw (.wrongAmplitudeUnit (quoted s) unit)

end Expression

end PulseTrain
