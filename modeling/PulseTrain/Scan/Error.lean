import PulseTrain.Logged
import PulseTrain.Pulse
import PulseTrain.Samples

/-! # Errors and notes of scanning

    A sequence that cannot be scanned at all is refused at once. A single scan point may fail as
    well, and then says at which index. A pulse that outlasts the sequence is only noted.
-/

namespace PulseTrain.Scan

/-- Why a sequence or a scan point cannot be built. -/
inductive ScanError where
  | severalVariables (names : List String)
  | undeclared (pulse : String) (variableName : String)
  | unsuitedBinding (pulse : String) (field : Field) (variableName : String)
  | fixedBound (pulse : String)
  | badSampleRate (rate : Float)
  | overlap (scanIndex : Nat) (channel : UInt16) (first second : String)
      (firstEnd secondStart : Samples)
  | startsTooEarly (scanIndex : Nat) (pulse : String) (start : Duration)
  | negativeLength (scanIndex : Nat) (pulse : String) (duration : Duration)
  | pulseOffGrid (scanIndex : Nat) (pulse : String) (overflow : OffGrid)
  | sequenceOffGrid (overflow : OffGrid)
deriving DecidableEq, Repr

namespace ScanError

def message : ScanError → String
  | severalVariables names =>
    "At most one variable can be scanned, found " ++ toString names.length ++ " ("
      ++ ", ".intercalate names ++ ")"
  | undeclared pulse variableName =>
    "Pulse '" ++ pulse ++ "' is bound to undeclared variable '" ++ variableName ++ "'"
  | unsuitedBinding pulse field variableName =>
    "Variable '" ++ variableName ++ "' cannot drive the " ++ field.toText ++ " of pulse '" ++ pulse
      ++ "'"
  | fixedBound pulse =>
    "The timing of fixed pulse '" ++ pulse ++ "' cannot be bound to a variable"
  | badSampleRate rate => "Invalid sample rate: " ++ Decimal.plain.text rate ++ " Hz"
  | overlap scanIndex channel first second firstEnd secondStart =>
    "Timing conflict at scan index " ++ toString scanIndex ++ " on channel " ++ toString channel
      ++ ": pulse '" ++ first ++ "' (ends at sample " ++ toString firstEnd ++ ") overlaps pulse '"
      ++ second ++ "' (starts at sample " ++ toString secondStart ++ ")"
  | startsTooEarly scanIndex pulse start =>
    "Pulse '" ++ pulse ++ "' starts before the sequence at scan index " ++ toString scanIndex
      ++ " (at " ++ start.exactText ++ ")"
  | negativeLength scanIndex pulse duration =>
    "Pulse '" ++ pulse ++ "' has a negative duration at scan index " ++ toString scanIndex ++ " ("
      ++ duration.exactText ++ ")"
  | pulseOffGrid scanIndex pulse _ =>
    "Pulse '" ++ pulse ++ "' does not fit on the sample grid at scan index " ++ toString scanIndex
  | sequenceOffGrid _ => "The sequence duration does not fit on the sample grid"

def cause? : ScanError → Option OffGrid
  | pulseOffGrid _ _ overflow => some overflow
  | sequenceOffGrid overflow => some overflow
  | _ => none

end ScanError

/-- What is noted while a scan point is built. -/
inductive ScanNote where
  | endsLate (pulse : String) (ending length : Duration) (scanIndex : Nat)
  | built (scanIndex : Nat) (value : Option Float) (pulses : Nat) (length : Samples)
deriving DecidableEq, Repr

namespace ScanNote

/-- A point that was built is of interest only to diagnostics. -/
def severity : ScanNote → Severity
  | endsLate .. => .warning
  | built .. => .debug

def message : ScanNote → String
  | endsLate pulse ending length scanIndex =>
    "Pulse '" ++ pulse ++ "' ends at " ++ ending.text ++ " after the end of the sequence at "
      ++ length.text ++ " (scan index " ++ toString scanIndex ++ ")"
  | built scanIndex value pulses length =>
    let valueText :=
      match value with
      | some x => "Some(" ++ Decimal.adaptive.text x ++ ")"
      | none => "None"
    "Scan point " ++ toString scanIndex ++ ": value " ++ valueText ++ ", " ++ toString pulses
      ++ " pulses, " ++ toString length ++ " samples"

/-- The notes that are shown, with diagnostics or without. -/
def shown (diagnostics : Bool) (notes : List ScanNote) : List ScanNote :=
  notes.filter fun n => diagnostics || n.severity ≠ .debug

end ScanNote

end PulseTrain.Scan
