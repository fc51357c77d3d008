import PulseTrain.Scan.Placement

/-! # Overlaps

    Two pulses may not occupy the same sample of a channel. A pulse without samples occupies
    nothing. The channels are checked in ascending order, and on each the pulses in the order of
    their ranges, so that the answer does not depend on the order of the pulses.

    Among the ranges passed so far only the one that reaches furthest can reach into the next: if
    any does, it does.

    * `firstConflict?` finds the first conflict among ordered ranges;
    * `verifyDisjoint` reports the first conflict on the lowest channel that has one.
-/

namespace PulseTrain.Scan

/-- The samples from `start` up to but not including `stop`, under the name of a pulse. -/
structure Range where
  start : Samples
  stop : Samples
  name : String
deriving DecidableEq, Repr

namespace Range

/-- The order by start, then by end, then by name. -/
def le (a b : Range) : Bool :=
  if a.start ≠ b.start then decide (a.start < b.start)
  else if a.stop ≠ b.stop then decide (a.stop < b.stop)
  else !decide (b.name < a.name)

/-- Whether two ranges have a sample in common, if neither is empty. -/
def overlaps (a b : Range) : Bool := decide (a.start < b.stop) && decide (b.start < a.stop)

end Range

/-- The first range, and the earlier one that reaches into it. -/
def firstConflict? (furthest : Option Range) : List Range → Option (Range × Range)
  | [] => none
  | current :: rest =>
    match furthest with
    | none => firstConflict? (some current) rest
    | some f =>
      if f.overlaps current then some (f, current)
      -- of ranges that end together the earlier one is kept
      else firstConflict? (some (if f.stop < current.stop then current else f)) rest

/-- The samples that a pulse occupies on a channel. An end beyond the last sample number counts as
    the last. -/
def occupied? (channel : UInt16) (p : Placed) : Option Range :=
  if p.pulse.channel = channel ∧ 0 < p.length then
    some ⟨p.start, p.end?.getD Samples.greatest, p.pulse.name⟩
  else none

/-- The channels on which some pulse occupies a sample, in ascending order. -/
def occupiedChannels (pulses : List Placed) : List UInt16 :=
  (((pulses.filter fun p => decide (0 < p.length)).map (·.pulse.channel)).mergeSort
    fun a b => decide (a ≤ b)).eraseDups

def conflictOn? (pulses : List Placed) (channel : UInt16) : Option (Range × Range) :=
  firstConflict? none ((pulses.filterMap (occupied? channel)).mergeSort Range.le)

/-- Refuses pulses that occupy the same sample of a channel. -/
def verifyDisjoint (scanIndex : Nat) (pulses : List Placed) : Except ScanError Unit :=
  (occupiedChannels pulses).forM fun channel =>
    match conflictOn? pulses channel with
    | none => .ok ()
    | some (first, second) =>
      .error (.overlap scanIndex channel first.name second.name first.stop second.start)

end PulseTrain.Scan
