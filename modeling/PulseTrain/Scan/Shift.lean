import PulseTrain.Pulse

/-! # Shifted pulses

    A pulse whose duration is scanned pushes the later pulses along, and so does a pulse whose start
    is scanned. The pulses are visited in the order of their described start times. A running shift
    adds up how much longer the pulses have become, and starts anew with a pulse whose timing is
    bound. A pulse moves by the shift of the pulses that start before it: pulses with the same start
    time move together. Fixed pulses and pulses with bound timing stay where they are.

    * `inTimeOrder` is the order of the visit, `Walk.step` a visit;
    * `moveAlong` gives each pulse its new timing and changes nothing else.
-/

namespace PulseTrain.Scan

/-- A pulse in its place among the pulses, as described and with the scan value put in. -/
structure Visit where
  index : Nat
  described : Pulse
  bound : Pulse

/-- Puts a visit behind all visits of a list, which runs backwards, that it does not precede. -/
def insertByTime (v : Visit) : List Visit → List Visit
  | [] => [v]
  | w :: before =>
    -- only a strictly later visit is passed, so that visits at one time stay as they come
    if v.described.timing < w.described.timing then w :: insertByTime v before
    else v :: w :: before

/-- The visits in the order of the described start times, those of the same time as they come. -/
def inTimeOrder (visits : List Visit) : List Visit :=
  (visits.foldl (fun sorted v => insertByTime v sorted) []).reverse

/-- The state of a walk through the pulses in time order. -/
structure Walk where
  /-- By how much a later pulse is moved. -/
  shift : Duration
  /-- By how much a pulse at the present time is moved. -/
  presentShift : Duration
  /-- The present time, that of the pulse visited last. -/
  present : Option Duration

namespace Walk

def start : Walk := ⟨.zero, .zero, none⟩

/-- The walk at the time of a pulse: a new time takes over the shift of the pulses before. -/
def arrive (w : Walk) (time : Duration) : Walk :=
  if w.present.any (·.sameTime time) then { w with present := some time }
  else ⟨w.shift, w.shift, some time⟩

/-- A visit: the walk after it, and the pulse in its new place. -/
def step (w : Walk) (v : Visit) : Walk × Pulse :=
  let w := w.arrive v.described.timing
  let growth := v.bound.duration - v.described.duration
  if v.described.binds .timing then
    -- the pulse is where the value puts it, and the later pulses follow its end
    ({ w with shift := (v.bound.timing - v.described.timing) + growth }, v.bound)
  else
    -- a fixed pulse stays, and still passes its growth on
    let moved :=
      if v.described.isFixed then v.bound
      else { v.bound with timing := v.described.timing + w.presentShift }
    ({ w with shift := w.shift + growth }, moved)

end Walk

/-- The pulses of some visits in their new places, each with its index. -/
def walkThrough : Walk → List Visit → List (Nat × Pulse)
  | _, [] => []
  | w, v :: rest =>
    let (next, p) := w.step v
    (v.index, p) :: walkThrough next rest

def visits (described bound : List Pulse) : List Visit :=
  (described.zip bound).zipIdx.map fun ((before, after), index) => ⟨index, before, after⟩

/-- The pulses with the scan value put in, moved along; `described` are the same pulses without it.
    -/
def moveAlong (described bound : List Pulse) : List Pulse :=
  let moved := walkThrough .start (inTimeOrder (visits described bound))
  (moved.foldl (fun (pulses : Array Pulse) (index, p) => pulses.setIfInBounds index p)
    bound.toArray).toList

end PulseTrain.Scan
