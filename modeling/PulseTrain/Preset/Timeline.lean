import PulseTrain.Preset.Value

/-! # Generated timelines

    Two of the built-in presets compute their pulse times from their arguments. Both begin with a
    laser pulse that prepares the spin and end with a readout that is fixed in time, and both leave
    a gap between these and the microwave pulses.

    * `ramsey` plays two half turns with a wait between them;
    * `hahnEcho` plays a half turn, a full turn and a half turn with a wait after the first and the
      second.
-/

namespace PulseTrain.Preset.Timeline

def preparationLength : Duration := ⟨1e-6⟩

def readoutLength : Duration := ⟨1e-6⟩

/-- The gap after the laser pulse and before the readout. -/
def gap : Duration := ⟨500e-9⟩

def timeChars (t : Duration) : List Char := Decimal.scientific.chars t.seconds ++ ['s']

/-- A pulse of a timeline, of full amplitude. -/
structure Entry where
  kind : String
  channel : UInt16
  timing : Duration
  shape : String
  duration : Duration
  fixed : Bool
deriving DecidableEq, Repr

def Entry.toChars (e : Entry) : List Char :=
  e.kind.toList ++ " pulse on channel ".toList ++ Nat.toDigits 10 e.channel.toNat ++ " at ".toList
    ++ timeChars e.timing ++ ", ".toList ++ e.shape.toList ++ ", ".toList ++ timeChars e.duration
    ++ ", 1.0".toList ++ (if e.fixed then " [fixed]".toList else []) ++ ['\n']

/-- The text of a timeline, a line for each pulse. -/
def toChars (entries : List Entry) : List Char :=
  entries.flatMap Entry.toChars

def preparation (laser : UInt16) : Entry :=
  ⟨"laser", laser, .zero, "square", preparationLength, false⟩

/-- The readout, a gap after the end of the last microwave pulse. -/
def readout (laser : UInt16) (lastEnd : Duration) : Entry :=
  ⟨"readout", laser, lastEnd + gap, "square", readoutLength, true⟩

/-- Two half turns with a wait `tau` between them. -/
def ramsey (arguments : Arguments) : Except ArgumentError (List Entry) := do
  let tau ← arguments.time "tau"
  let halfTurn ← arguments.time "pi_half"
  let shape ← arguments.text "shape"
  let mw ← arguments.channel "mw_channel"
  let laser ← arguments.channel "laser_channel"
  let first := preparationLength + gap
  let second := first + halfTurn + tau
  return [preparation laser,
    ⟨"pi/2", mw, first, shape, halfTurn, false⟩,
    ⟨"pi/2", mw, second, shape, halfTurn, false⟩,
    readout laser (second + halfTurn)]

/-- A half turn, a full turn and a half turn, with a wait `tau` between neighbours. -/
def hahnEcho (arguments : Arguments) : Except ArgumentError (List Entry) := do
  let tau ← arguments.time "tau"
  let turn ← arguments.time "pi"
  let halfTurn := turn / (2.0 : Float)
  let mw ← arguments.channel "mw_channel"
  let laser ← arguments.channel "laser_channel"
  let first := preparationLength + gap
  let echo := first + halfTurn + tau
  let last := echo + turn + tau
  return [preparation laser,
    ⟨"pi/2", mw, first, "gaussian", halfTurn, false⟩,
    ⟨"pi", mw, echo, "gaussian", turn, false⟩,
    ⟨"pi/2", mw, last, "gaussian", halfTurn, false⟩,
    readout laser (last + halfTurn)]

end PulseTrain.Preset.Timeline
