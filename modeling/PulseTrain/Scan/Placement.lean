import PulseTrain.Scan.Error

/-! # Placement on the sample grid

    A pulse is placed on the grid by rounding its start and its duration to whole samples. Both must
    be at or after zero, and the end must still have a sample number.

    * `place` places a pulse, `Placed.end?` is the first sample after it.
-/

namespace PulseTrain.Scan

structure Placed where
  start : Samples
  length : Samples
  pulse : Pulse
deriving DecidableEq, Repr

namespace Placed

def end? (p : Placed) : Option Samples := Samples.add? p.start p.length

end Placed

/-- Places a pulse at a scan point. The first fault in the order start, duration, rounded start,
    rounded duration, end is reported. -/
def place (rate : Float) (scanIndex : Nat) (p : Pulse) : Except ScanError Placed :=
  if p.timing.isNegative then .error (.startsTooEarly scanIndex p.name p.timing)
  else if p.duration.isNegative then .error (.negativeLength scanIndex p.name p.duration)
  else do
    let start ← (Samples.ofDuration p.timing rate).mapError (.pulseOffGrid scanIndex p.name)
    let length ← (Samples.ofDuration p.duration rate).mapError (.pulseOffGrid scanIndex p.name)
    match Samples.add? start length with
    | some _ => return ⟨start, length, p⟩
    | none => throw (.pulseOffGrid scanIndex p.name ⟨p.ending.seconds, rate⟩)

end PulseTrain.Scan
