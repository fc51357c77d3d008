import PulseTrain.Table
import PulseTrain.Duration
import PulseTrain.Unit
import PulseTrain.Text.Word
import PulseTrain.Text.Alphanumeric

/-! # Pulses

    A pulse is a shape played on a channel from a start time for a duration, at an amplitude and
    with further parameters. Some of its fields may be bound to the scan variable; the field then
    holds the value of the variable.

    * `Field` names the fields that may be bound and says which dimensions they take;
    * `Pulse.write` sets a field, and `Pulse.stem` is the name that a pulse takes from its kind.
-/

namespace PulseTrain

/-! ## Shapes -/

/-- The envelope of a pulse. -/
inductive Shape where
  | gaussian
  | square
  | sech
  | sine
  | lorentzian
  | triangle
deriving DecidableEq, Repr

namespace Shape

def name : Shape → String
  | gaussian => "gaussian"
  | square => "square"
  | sech => "sech"
  | sine => "sine"
  | lorentzian => "lorentzian"
  | triangle => "triangle"

/-- The shape of exactly this name. -/
def ofName? (name : String) : Option Shape :=
  match name with
  | "gaussian" => some gaussian
  | "square" => some square
  | "sech" => some sech
  | "sine" => some sine
  | "lorentzian" => some lorentzian
  | "triangle" => some triangle
  | _ => none

/-- Every shape is found under its name. -/
@[simp] theorem ofName?_name (s : Shape) : ofName? s.name = some s := by
  cases s <;> rfl

/-- The shape of a name in any case, with blanks around it or without. -/
def read? (text : List Char) : Option Shape :=
  ofName? (String.ofList ((Text.trim text).map Text.lowerCase))

/-- What is said of a name that no shape has. -/
def expectation : String :=
  "expected one of gaussian, square, sech, sine, lorentzian, triangle"

end Shape

/-! ## Parameters -/

/-- The value of a free-form parameter. -/
inductive FreeValue where
  | number (value : Float)
  | text (value : String)
deriving DecidableEq, Repr

def FreeValue.toText : FreeValue → String
  | number value => Decimal.plain.text value
  | text value => value

/-- The parameters a pulse may carry beside its shape and amplitude. -/
structure Parameters where
  /-- Takes the place of the amplitude of the pulse. -/
  amplitude : Option Float
  /-- In degrees. -/
  phase : Option Float
  /-- In hertz. -/
  frequency : Option Float
  /-- Free-form parameters in the order in which they were written. -/
  extra : Table FreeValue
deriving DecidableEq, Repr

def Parameters.empty : Parameters := ⟨none, none, none, .empty⟩

def Parameters.isEmpty (p : Parameters) : Bool :=
  p.amplitude.isNone && p.phase.isNone && p.frequency.isNone && p.extra.isEmpty

inductive ParameterKey where
  | amplitude
  | phase
  | frequency
  | extra (name : String)
deriving DecidableEq, Repr

namespace ParameterKey

/-- The key of a name; a name without a meaning of its own is free-form. -/
def ofName (name : String) : ParameterKey :=
  match name with
  | "amplitude" => amplitude
  | "phase" => phase
  | "frequency" => frequency
  | other => extra other

/-- The name under which the parameter is written. -/
def name : ParameterKey → String
  | amplitude => "amplitude"
  | phase => "phase"
  | frequency => "frequency"
  | extra name => name

end ParameterKey

/-! ## Fields and bindings -/

/-- A field of a pulse that may be bound to a variable. -/
inductive Field where
  | timing
  | duration
  | amplitude
  | parameter (key : ParameterKey)
deriving DecidableEq, Repr

namespace Field

/-- Whether a variable of the given dimension may drive the field. Phases are written in degrees, as
    plain numbers. -/
def accepts : Field → Dimension → Bool
  | timing, d => d = .time
  | duration, d => d = .time
  | amplitude, d => d = .voltage || d = .dimensionless
  | parameter .amplitude, d => d = .voltage || d = .dimensionless
  | parameter .phase, d => d = .dimensionless
  | parameter .frequency, d => d = .frequency
  | parameter (.extra _), _ => true

/-- The field as it is named in reports. -/
def toText : Field → String
  | timing => "timing"
  | duration => "duration"
  | amplitude => "amplitude"
  | parameter key => "parameter '" ++ key.name ++ "'"

end Field

/-- A field and the variable that drives it. -/
structure Binding where
  variableName : String
  field : Field
deriving DecidableEq, Repr

/-! ## Pulses -/

structure Pulse where
  name : String
  kind : String
  channel : UInt16
  shape : Shape
  duration : Duration
  amplitude : Float
  /-- The start time. -/
  timing : Duration
  parameters : Parameters
  /-- A pulse with fixed timing is never moved by the pulses before it. -/
  isFixed : Bool
  bindings : List Binding
deriving DecidableEq, Repr

namespace Pulse

/-- The name of a pulse of a kind, before it is told apart from others: what is neither letter nor
    number becomes an underscore. -/
def stem (kind : String) : String :=
  String.ofList (kind.toList.map fun c => if Text.isAlphanumeric c then c else '_')

/-- A square pulse of full amplitude at the start of the sequence, named after its kind. -/
def new (kind : String) (channel : UInt16) : Pulse :=
  { name := stem kind, kind, channel, shape := .square, duration := .zero, amplitude := 1.0,
    timing := .zero, parameters := .empty, isFixed := false, bindings := [] }

def ending (p : Pulse) : Duration := p.timing + p.duration

def binding? (p : Pulse) (field : Field) : Option Binding :=
  p.bindings.find? (·.field = field)

def binds (p : Pulse) (field : Field) : Bool := (p.binding? field).isSome

def hasBindings (p : Pulse) : Bool := !p.bindings.isEmpty

/-- The amplitude with which the pulse is played. -/
def playedAmplitude (p : Pulse) : Float := p.parameters.amplitude.getD p.amplitude

def writeExtra (p : Pulse) (name : String) (value : FreeValue) : Pulse :=
  { p with parameters := { p.parameters with extra := p.parameters.extra.insert name value } }

/-- Sets a field to a value in its base unit. -/
def write (p : Pulse) (field : Field) (value : Float) : Pulse :=
  match field with
  | .timing => { p with timing := ⟨value⟩ }
  | .duration => { p with duration := ⟨value⟩ }
  | .amplitude => { p with amplitude := value }
  | .parameter .amplitude => { p with parameters := { p.parameters with amplitude := some value } }
  | .parameter .phase => { p with parameters := { p.parameters with phase := some value } }
  | .parameter .frequency => { p with parameters := { p.parameters with frequency := some value } }
  | .parameter (.extra name) => p.writeExtra name (.number value)

/-- Sets every bound field to the value of the scan variable. -/
def bind (p : Pulse) (value : Float) : Pulse :=
  p.bindings.foldl (fun q binding => q.write binding.field value) p

end Pulse

end PulseTrain
