import PulseTrain.Sequence

/-! # Settings

    The hardware decides which channels there are. How deep presets may nest, and the sample rate of
    a sequence that gives none, are a matter of choice.
-/

namespace PulseTrain

/-- The channels from the first to the last, both included. There are none if the last comes before
    the first. -/
structure ChannelRange where
  first : UInt16
  last : UInt16
deriving DecidableEq, Repr

def ChannelRange.contains (r : ChannelRange) (channel : UInt16) : Bool :=
  decide (r.first ≤ channel) && decide (channel ≤ r.last)

/-- The settings under which scripts are read and sequences are validated. -/
structure Settings where
  /-- The channels on which pulses may be played. -/
  channels : ChannelRange := ⟨0, 23⟩
  /-- How deep presets may load one another. -/
  presetDepth : Nat := 4
  /-- The sample rate of a sequence whose header gives none, in hertz. -/
  fallbackRate : Float := PulseTrain.fallbackRate
deriving DecidableEq, Repr

/-- The settings under which timelines are built. -/
structure BuildSettings where
  /-- Whether every iteration of a loop is put on the timeline. Otherwise the hardware repeats
  the loops. -/
  unrolling : Bool := false
deriving DecidableEq, Repr

end PulseTrain
