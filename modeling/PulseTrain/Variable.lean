import PulseTrain.Unit

/-! # Scan variables

    A variable takes a number of values in even steps from a start to a stop value. The first value
    is the start and the last is the stop exactly, whatever rounding does in between.

    * `Variable.valueAt?` is the value of a scan point;
    * `Variable.Cursor` walks over the values one by one and may be sent back to the start.
-/

namespace PulseTrain

/-- A quantity that is scanned, with its values in the base unit of its dimension. -/
structure Variable where
  name : String
  start : Float
  stop : Float
  steps : UInt32
  dimension : Dimension
deriving DecidableEq, Repr

namespace Variable

def size (v : Variable) : Nat := v.steps.toNat

def isEmpty (v : Variable) : Bool := v.size == 0

/-- The value of scan point `index`. With a single step there is only the start. -/
def valueAt? (v : Variable) (index : Nat) : Option Float :=
  if v.size ≤ index then none
  else if v.size = 1 then some v.start
  else if index = v.size - 1 then some v.stop
  else some (v.start + (v.stop - v.start) * Float.ofNat index / Float.ofNat (v.size - 1))

/-- A walk over the values of a variable: `index` values have been returned. -/
structure Cursor where
  source : Variable
  index : Nat
deriving DecidableEq, Repr

def cursor (v : Variable) : Cursor := ⟨v, 0⟩

namespace Cursor

/-- The next value and the walk after it. At the end there is none, and the walk stays. -/
def next (w : Cursor) : Option Float × Cursor :=
  match w.source.valueAt? w.index with
  | some x => (some x, ⟨w.source, w.index + 1⟩)
  | none => (none, w)

/-- The walk sent back to its start. -/
def rewind (w : Cursor) : Cursor := ⟨w.source, 0⟩

def remaining (w : Cursor) : Nat := w.source.size - w.index

/-- All values to come. -/
def rest (w : Cursor) : List Float :=
  (List.range' w.index w.remaining).filterMap w.source.valueAt?

end Cursor

end Variable

end PulseTrain
