import PulseTrain.Scan.Timeline

/-! # Scans

    A scan gives the timelines of a sequence one by one, a timeline for each value of its variable
    and a single one if it has none. Nothing is built before it is asked for. A point that cannot be
    built does not end the scan.

    * `Scan.start?` checks a sequence once and for all points;
    * `Scan.next` builds a point, `Scan.collect` all points that are left, up to the first that
      fails;
    * `buildAll` collects a whole scan.
-/

namespace PulseTrain

open Scan

/-- A scan of which the first `index` points have been built. -/
structure Scan where
  sequence : Sequence
  settings : BuildSettings
  /-- The length of the sequence. -/
  length : Samples
  /-- The variable that is scanned. -/
  source : Option Variable
  index : Nat
deriving DecidableEq, Repr

namespace Scan

def size (scan : Scan) : Nat :=
  match scan.source with
  | some v => v.size
  | none => 1

def remaining (scan : Scan) : Nat := scan.size - scan.index

/-- The scan of a sequence. It must have a valid sample rate, at most one variable, bindings that
    suit this variable and a length on the sample grid. -/
def start? (s : Sequence) (settings : BuildSettings) : Except ScanError Scan := do
  if !canSampleAt s.sampleRate then throw (.badSampleRate s.sampleRate)
  if 1 < s.declared.size then throw (.severalVariables s.declared.keys)
  let source := s.declared.values.head?
  verifyBindings source s.everyPulse
  let length ← (Samples.ofDuration s.totalDuration s.sampleRate).mapError .sequenceOffGrid
  return ⟨s, settings, length, source, 0⟩

/-- The value of a point, if there is such a point; without a variable the only point has none. -/
def valueAt? (scan : Scan) (index : Nat) : Option (Option Float) :=
  match scan.source with
  | some v => (v.valueAt? index).map some
  | none => if index = 0 then some none else none

def point? (scan : Scan) (index : Nat) : Option (Logged ScanNote ScanError Timeline) :=
  (scan.valueAt? index).map
    (buildTimeline scan.sequence scan.settings scan.length index)

/-- The next timeline, and the scan after it. At the end there is none, and the scan stays. -/
def next (scan : Scan) : Option (Logged ScanNote ScanError Timeline) × Scan :=
  match scan.point? scan.index with
  | some point => (some point, { scan with index := scan.index + 1 })
  | none => (none, scan)

/-- Builds up to `count` points behind those in `timelines`, which like the notes in `log` run
    backwards. The point that fails is the last one. -/
def collectUpTo : (count : Nat) → Scan → (timelines : List Timeline) → (log : List ScanNote) →
    Logged ScanNote ScanError (List Timeline) × Scan
  | 0, scan, timelines, log => (⟨log.reverse, .ok timelines.reverse⟩, scan)
  | count + 1, scan, timelines, log =>
    match scan.next with
    | (none, scan) => (⟨log.reverse, .ok timelines.reverse⟩, scan)
    | (some point, scan) =>
      let log := point.log.reverse ++ log
      match point.result with
      | .ok timeline => collectUpTo count scan (timeline :: timelines) log
      | .error e => (⟨log.reverse, .error e⟩, scan)

/-- All timelines to come, or the first error among them, and the scan after them. -/
def collect (scan : Scan) : Logged ScanNote ScanError (List Timeline) × Scan :=
  collectUpTo scan.remaining scan [] []

end Scan

/-- The timelines of all scan points, or the first error. -/
def buildAll (s : Sequence) (settings : BuildSettings) :
    Logged ScanNote ScanError (List Timeline) :=
  match Scan.start? s settings with
  | .ok scan => scan.collect.1
  | .error e => .fail e

end PulseTrain
