import PulseTrain.Json.Pulse
import PulseTrain.Scan.Timeline

/-! # Sequences and timelines as JSON

    A sequence is written as an object whose members are its fields, with the pulses as they are
    described inside it. A timeline is written in the same way, with the pulses as they are played.

    * `Sequence.toJson` writes a sequence, `Sequence.ofJson?` reads it;
    * `Timeline.toJson` writes a timeline.
-/

namespace PulseTrain

open JsonValue (ofMembers ofString ofFloat ofFloat? ofNat ofInt)

/-! ## Sequences -/

namespace Loop

def toJson (l : Loop) : JsonValue :=
  ofMembers [("iterations", ofNat l.iterations.toNat), ("start_time", l.opensAt.toJson),
    ("end_time", l.closesAt.toJson), ("pulses", listToJson Pulse.toJson l.pulses)]

def ofJson? (v : JsonValue) : Option Loop := do
  match ← v.fields? ["iterations", "start_time", "end_time", "pulses"] with
  | [some iterations, some opensAt, some closesAt, some pulses] =>
    return ⟨← iterations.nat32?, ← Duration.ofJson? opensAt, ← Duration.ofJson? closesAt,
      ← pulses.list? Pulse.ofJson?⟩
  | _ => none

end Loop

namespace Conditional

def toJson (c : Conditional) : JsonValue :=
  ofMembers [("condition", ofString c.condition),
    ("true_pulses", listToJson Pulse.toJson c.whenTrue),
    ("false_pulses", listToJson Pulse.toJson c.whenFalse),
    ("start_time", c.opensAt.toJson), ("end_time", c.closesAt.toJson)]

def ofJson? (v : JsonValue) : Option Conditional := do
  match ← v.fields? ["condition", "true_pulses", "false_pulses", "start_time", "end_time"] with
  | [some condition, some whenTrue, some whenFalse, some opensAt, some closesAt] =>
    return ⟨← condition.string?, ← whenTrue.list? Pulse.ofJson?,
      ← whenFalse.list? Pulse.ofJson?, ← Duration.ofJson? opensAt, ← Duration.ofJson? closesAt⟩
  | _ => none

end Conditional

namespace Variable

def toJson (v : Variable) : JsonValue :=
  ofMembers [("name", ofString v.name), ("start_value", ofFloat v.start),
    ("stop_value", ofFloat v.stop), ("steps", ofNat v.steps.toNat),
    ("dimension", v.dimension.toJson)]

def ofJson? (v : JsonValue) : Option Variable := do
  match ← v.fields? ["name", "start_value", "stop_value", "steps", "dimension"] with
  | [some name, some start, some stop, some steps, some dimension] =>
    return ⟨← name.string?, ← start.float?, ← stop.float?, ← steps.nat32?,
      ← Dimension.ofJson? dimension⟩
  | _ => none

end Variable

namespace Sequence

def toJson (s : Sequence) : JsonValue :=
  ofMembers [("name", ofString s.name), ("experiment_type", ofString s.experiment),
    ("total_duration", s.totalDuration.toJson), ("sample_rate", ofFloat s.sampleRate),
    ("repeat_count", ofNat s.repeatCount.toNat), ("pulses", listToJson Pulse.toJson s.pulses),
    ("loops", listToJson Loop.toJson s.loops),
    ("conditionals", listToJson Conditional.toJson s.conditionals),
    ("variables", s.declared.toJson Variable.toJson)]

def ofJson? (v : JsonValue) : Option Sequence := do
  match ← v.fields? ["name", "experiment_type", "total_duration", "sample_rate", "repeat_count",
    "pulses", "loops", "conditionals", "variables"] with
  | [some name, some experiment, some totalDuration, some sampleRate, some repeatCount,
      some pulses, some loops, some conditionals, some declared] =>
    return { name := ← name.string?, experiment := ← experiment.string?,
             totalDuration := ← Duration.ofJson? totalDuration, sampleRate := ← sampleRate.float?,
             repeatCount := ← repeatCount.nat32?, pulses := ← pulses.list? Pulse.ofJson?,
             loops := ← loops.list? Loop.ofJson?,
             conditionals := ← conditionals.list? Conditional.ofJson?,
             declared := ← declared.table? Variable.ofJson? }
  | _ => none

/-- Reads a sequence from the text of a document. -/
def ofJsonText? (text : String) : Option Sequence :=
  (JsonValue.read? text).bind ofJson?

end Sequence

/-! ## Timelines -/

namespace Scan

def Placed.toJson (p : Placed) : JsonValue :=
  ofMembers [("start_sample", ofInt p.start), ("duration_samples", ofInt p.length),
    ("pulse", p.pulse.toJson)]

def Timeline.toJson (t : Timeline) : JsonValue :=
  ofMembers [("scan_index", ofNat t.scanIndex), ("variable_value", ofFloat? t.value),
    ("length", ofInt t.length), ("pulses", listToJson Placed.toJson t.pulses)]

end Scan

end PulseTrain
