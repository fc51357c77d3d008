import PulseTrain.Json.Decode
import PulseTrain.Json.Reader
import PulseTrain.Sequence

/-! # Pulses as JSON

    A pulse is written as an object whose members are its fields. Tables are objects whose members
    keep their order, times are numbers of seconds, and a choice is a name or an object with its
    name and content.

    * `Table.toJson` and `listToJson` write what has many values;
    * `Pulse.toJson` writes a pulse, `Pulse.ofJson?` reads it.
-/

namespace PulseTrain

open JsonValue (ofMembers ofString ofFloat ofFloat? ofNat)

/-- A table with its values written in some way. -/
def Table.toJson {α : Type} (encode : α → JsonValue) (t : Table α) : JsonValue :=
  ofMembers (t.entries.map fun (key, value) => (key, encode value))

def listToJson {α : Type} (encode : α → JsonValue) (items : List α) : JsonValue :=
  .list (items.map encode)

namespace Duration

/-- A number of seconds. -/
def toJson (d : Duration) : JsonValue := ofFloat d.seconds

def ofJson? (v : JsonValue) : Option Duration := v.float?.map Duration.mk

end Duration

/-! ## Choices -/

namespace Dimension

/-- The name of a dimension in a document. -/
def jsonName : Dimension → String
  | time => "Time"
  | frequency => "Frequency"
  | voltage => "Voltage"
  | dimensionless => "Dimensionless"

def ofJsonName? (name : String) : Option Dimension :=
  match name with
  | "Time" => some time
  | "Frequency" => some frequency
  | "Voltage" => some voltage
  | "Dimensionless" => some dimensionless
  | _ => none

def toJson (d : Dimension) : JsonValue := ofString d.jsonName

def ofJson? (v : JsonValue) : Option Dimension := do
  let (name, content) ← v.variant?
  if JsonValue.isBare content then ofJsonName? name else none

end Dimension

namespace Shape

def toJson (s : Shape) : JsonValue := ofString s.name

def ofJson? (v : JsonValue) : Option Shape := do
  let (name, content) ← v.variant?
  if JsonValue.isBare content then ofName? name else none

end Shape

namespace ParameterKey

/-- A key as a name; a free-form one has its name as content. -/
def toJson : ParameterKey → JsonValue
  | amplitude => ofString "Amplitude"
  | phase => ofString "Phase"
  | frequency => ofString "Frequency"
  | extra name => ofMembers [("Extra", ofString name)]

def ofJson? (v : JsonValue) : Option ParameterKey := do
  match ← v.variant? with
  | ("Extra", some content) => return extra (← content.string?)
  | (name, content) =>
    if JsonValue.isBare content then
      match name with
      | "Amplitude" => some amplitude
      | "Phase" => some phase
      | "Frequency" => some frequency
      | _ => none
    else none

end ParameterKey

namespace Field

/-- A field as a name; a parameter has its key as content. -/
def toJson : Field → JsonValue
  | timing => ofString "Timing"
  | duration => ofString "Duration"
  | amplitude => ofString "Amplitude"
  | parameter key => ofMembers [("Parameter", key.toJson)]

def ofJson? (v : JsonValue) : Option Field := do
  match ← v.variant? with
  | ("Parameter", some content) => return parameter (← ParameterKey.ofJson? content)
  | (name, content) =>
    if JsonValue.isBare content then
      match name with
      | "Timing" => some timing
      | "Duration" => some duration
      | "Amplitude" => some amplitude
      | _ => none
    else none

end Field

namespace FreeValue

/-- A number or a text. -/
def toJson : FreeValue → JsonValue
  | number x => ofFloat x
  | text s => ofString s

def ofJson? (v : JsonValue) : Option FreeValue :=
  match v.float? with
  | some x => some (number x)
  | none => v.string?.map text

end FreeValue

/-! ## Pulses -/

namespace Binding

def toJson (b : Binding) : JsonValue :=
  ofMembers [("variable", ofString b.variableName), ("field", b.field.toJson)]

def ofJson? (v : JsonValue) : Option Binding := do
  match ← v.fields? ["variable", "field"] with
  | [some variableName, some field] => return ⟨← variableName.string?, ← Field.ofJson? field⟩
  | _ => none

end Binding

namespace Parameters

def toJson (p : Parameters) : JsonValue :=
  ofMembers [("amplitude", ofFloat? p.amplitude), ("phase_degrees", ofFloat? p.phase),
    ("frequency_hz", ofFloat? p.frequency), ("extra", p.extra.toJson FreeValue.toJson)]

/-- A number that may be missing. -/
def optional? (v : Option JsonValue) : Option (Option Float) :=
  match v with
  | some v => v.optionalFloat?
  | none => some none

def ofJson? (v : JsonValue) : Option Parameters := do
  match ← v.fields? ["amplitude", "phase_degrees", "frequency_hz", "extra"] with
  | [amplitude, phase, frequency, some extra] =>
    return ⟨← optional? amplitude, ← optional? phase, ← optional? frequency,
      ← extra.table? FreeValue.ofJson?⟩
  | _ => none

end Parameters

namespace Pulse

def toJson (p : Pulse) : JsonValue :=
  ofMembers [("name", ofString p.name), ("pulse_type", ofString p.kind),
    ("channel", ofNat p.channel.toNat), ("shape", p.shape.toJson),
    ("duration", p.duration.toJson), ("amplitude", ofFloat p.amplitude),
    ("timing", p.timing.toJson), ("parameters", p.parameters.toJson),
    ("fixed_timing", .bool p.isFixed), ("bindings", listToJson Binding.toJson p.bindings)]

def ofJson? (v : JsonValue) : Option Pulse := do
  match ← v.fields? ["name", "pulse_type", "channel", "shape", "duration", "amplitude", "timing",
    "parameters", "fixed_timing", "bindings"] with
  | [some name, some kind, some channel, some shape, some duration, some amplitude, some timing,
      some parameters, some isFixed, some bindings] =>
    return { name := ← name.string?, kind := ← kind.string?, channel := ← channel.nat16?,
             shape := ← Shape.ofJson? shape, duration := ← Duration.ofJson? duration,
             amplitude := ← amplitude.float?, timing := ← Duration.ofJson? timing,
             parameters := ← Parameters.ofJson? parameters, isFixed := ← isFixed.bool?,
             bindings := ← bindings.list? Binding.ofJson? }
  | _ => none

end Pulse

end PulseTrain
