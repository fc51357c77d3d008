import PulseTrain.Scan.Shift
import PulseTrain.Scan.Binding
import PulseTrain.Scan.Overlap
import PulseTrain.Settings

/-! # Timelines

    At each scan point a sequence becomes a timeline: the value of the point is put into the bound
    fields, the pulses are moved along, and everything is placed on the sample grid. Loops are left
    out, or all their iterations are laid one after another. Conditionals are left to the hardware.

    * `placeTopLevel` and `placeLoops` place the pulses as they come;
    * `buildTimeline` checks them for overlaps and orders them by start and channel.
-/

namespace PulseTrain.Scan

/-- What is played at a scan point. -/
structure Timeline where
  scanIndex : Nat
  /-- The value of the scanned variable, if there is one. -/
  value : Option Float
  /-- The length of the sequence. -/
  length : Samples
  /-- The pulses in the order of their start. -/
  pulses : List Placed
deriving DecidableEq, Repr

/-! ## Placing -/

/-- The pulses of the sequence itself, in their own order. -/
def placeTopLevel (s : Sequence) (scanIndex : Nat) (value : Option Float) :
    Except ScanError (List Placed) :=
  (moveAlong s.pulses (s.pulses.map (bindTo value))).mapM (place s.sampleRate scanIndex)

/-- A pulse of a loop in one of its iterations. -/
def inIteration (l : Loop) (value : Option Float) (iteration : Nat) (p : Pulse) : Pulse :=
  let bound := bindTo value p
  { bound with timing := bound.timing + l.period * Float.ofNat iteration }

/-- Places `count` iterations of a loop, beginning with the given one, behind `placed`. -/
def placeIterations (l : Loop) (rate : Float) (scanIndex : Nat) (value : Option Float) :
    (count iteration : Nat) → (placed : Array Placed) → Except ScanError (Array Placed)
  | 0, _, placed => .ok placed
  | count + 1, iteration, placed => do
    let here ← (l.pulses.map (inIteration l value iteration)).mapM (place rate scanIndex)
    placeIterations l rate scanIndex value count (iteration + 1) (placed ++ here)

/-- Places all iterations of all loops behind `placed`. A loop without pulses adds nothing, however
    often it runs. -/
def placeLoops (s : Sequence) (scanIndex : Nat) (value : Option Float) (placed : Array Placed) :
    Except ScanError (Array Placed) :=
  s.loops.foldlM (fun placed l =>
    if l.pulses.isEmpty then .ok placed
    else placeIterations l s.sampleRate scanIndex value l.iterations.toNat 0 placed) placed

/-- All pulses of a scan point: those of the sequence itself, then those of the loops if these are
    unrolled. -/
def placeAll (s : Sequence) (settings : BuildSettings) (scanIndex : Nat) (value : Option Float) :
    Except ScanError (List Placed) := do
  let topLevel ← placeTopLevel s scanIndex value
  if settings.unrolling then
    return (← placeLoops s scanIndex value topLevel.toArray).toList
  else return topLevel

/-! ## Ordering -/

/-- The order by start, then by channel. -/
def Placed.le (a b : Placed) : Bool :=
  if a.start ≠ b.start then decide (a.start < b.start)
  else decide (a.pulse.channel ≤ b.pulse.channel)

/-- The notes on pulses that end after the sequence. -/
def lateNotes (rate : Float) (length : Samples) (scanIndex : Nat) (pulses : List Placed) :
    List ScanNote :=
  pulses.filterMap fun p =>
    match p.end? with
    | some ending =>
      if length < ending then
        some (.endsLate p.pulse.name (Samples.toDuration ending rate)
          (Samples.toDuration length rate) scanIndex)
      else none
    | none => none

/-- The timeline of a scan point of a sequence that is `length` samples long. -/
def buildTimeline (s : Sequence) (settings : BuildSettings) (length : Samples) (scanIndex : Nat)
    (value : Option Float) : Logged ScanNote ScanError Timeline :=
  let placed : Except ScanError (List Placed) := do
    let placed ← placeAll s settings scanIndex value
    verifyDisjoint scanIndex placed
    return placed.mergeSort Placed.le
  match placed with
  -- a point that fails notes nothing
  | .error e => ⟨[], .error e⟩
  | .ok pulses =>
    ⟨lateNotes s.sampleRate length scanIndex pulses
        ++ [.built scanIndex value pulses.length length],
      .ok ⟨scanIndex, value, length, pulses⟩⟩

end PulseTrain.Scan
