import PulseTrain.Pulse
import PulseTrain.Variable

/-! # Pulse sequences

    A sequence has pulses at absolute times, loops and conditionals with pulses of their own, and
    the variables that may be scanned. It says what is to be played and not yet at which samples.

    * `Loop.of` and `Conditional.of` make a block whose length is that of its pulses;
    * `Sequence.everyPulse` lists the pulses of all places, `Sequence.latestEnd` the end of the
      last.
-/

namespace PulseTrain

/-- The sum of the durations of pulses played one after another. -/
def totalLength (pulses : List Pulse) : Duration :=
  .sum (pulses.map (·.duration))

/-- Pulses that are played several times over. -/
structure Loop where
  iterations : UInt32
  opensAt : Duration
  closesAt : Duration
  pulses : List Pulse
deriving DecidableEq, Repr

namespace Loop

/-- A loop as long as the pulses in it. -/
def of (iterations : UInt32) (pulses : List Pulse) : Loop :=
  ⟨iterations, .zero, totalLength pulses, pulses⟩

def period (l : Loop) : Duration := l.closesAt - l.opensAt

end Loop

/-- Pulses of which one list or the other is played. -/
structure Conditional where
  condition : String
  whenTrue : List Pulse
  whenFalse : List Pulse
  opensAt : Duration
  closesAt : Duration
deriving DecidableEq, Repr

/-- A conditional as long as the longer of its branches. -/
def Conditional.of (condition : String) (whenTrue whenFalse : List Pulse) : Conditional :=
  ⟨condition, whenTrue, whenFalse, .zero,
    max (totalLength whenTrue) (totalLength whenFalse)⟩

structure Sequence where
  name : String
  experiment : String
  totalDuration : Duration
  /-- In hertz. -/
  sampleRate : Float
  /-- The number of averages; it does not lengthen the timeline. -/
  repeatCount : UInt32
  pulses : List Pulse
  loops : List Loop
  conditionals : List Conditional
  /-- The declared variables by name. -/
  declared : Table Variable
deriving DecidableEq, Repr

/-- The sample rate of a sequence that gives none, in hertz. -/
def fallbackRate : Float := 1e9

namespace Sequence

def empty : Sequence :=
  { name := "", experiment := "", totalDuration := .zero, sampleRate := fallbackRate,
    repeatCount := 1, pulses := [], loops := [], conditionals := [], declared := .empty }

/-- The variable that is scanned, if there is exactly one. -/
def scanned? (s : Sequence) : Option Variable :=
  match s.declared.values with
  | [v] => some v
  | _ => none

/-- The pulses of all places: those of the sequence itself, then loop by loop, then both branches of
    each conditional. -/
def everyPulse (s : Sequence) : List Pulse :=
  s.pulses ++ s.loops.flatMap (·.pulses)
    ++ s.conditionals.flatMap fun c => c.whenTrue ++ c.whenFalse

/-- A pulse stands in the sequence itself, in a loop or in a branch of a conditional. -/
theorem mem_everyPulse {s : Sequence} {p : Pulse} : p ∈ s.everyPulse ↔
    p ∈ s.pulses ∨ (∃ l ∈ s.loops, p ∈ l.pulses) ∨
      ∃ c ∈ s.conditionals, p ∈ c.whenTrue ++ c.whenFalse := by
  unfold everyPulse
  rw [List.mem_append, List.mem_append, List.mem_flatMap, List.mem_flatMap, or_assoc]

/-- The latest end of a pulse, or zero if none ends later. -/
def latestEnd (s : Sequence) : Duration :=
  (s.everyPulse.map (·.ending)).foldl max .zero

end Sequence

end PulseTrain
