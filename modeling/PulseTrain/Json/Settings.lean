import PulseTrain.Json.Decode
import PulseTrain.Settings

/-! # Settings as JSON

    Settings are written as objects. A setting that is missing has its default; the bounds of the
    channels must both be given, and nothing else beside them.

    * `Settings.toJson` and `Settings.ofJson?` for reading scripts;
    * `BuildSettings.toJson` and `BuildSettings.ofJson?` for building timelines.
-/

namespace PulseTrain

open JsonValue (ofMembers ofFloat ofNat)

/-- The value of a setting, or its default where it is missing. -/
def setting? {α : Type} (decode : JsonValue → Option α) (default : α) (v : Option JsonValue) :
    Option α :=
  match v with
  | some v => decode v
  | none => some default

namespace ChannelRange

def toJson (r : ChannelRange) : JsonValue :=
  ofMembers [("start", ofNat r.first.toNat), ("end", ofNat r.last.toNat)]

/-- Whether a document has no members but the two bounds. -/
def hasOnlyBounds (v : JsonValue) : Bool :=
  match v.members? with
  | some members => members.all fun (key, _) => key = "start" || key = "end"
  | none => true

/-- The two bounds, and nothing else. -/
def ofJson? (v : JsonValue) : Option ChannelRange := do
  if !hasOnlyBounds v then none
  else
    match ← v.fields? ["start", "end"] with
    | [some first, some last] => return ⟨← first.nat16?, ← last.nat16?⟩
    | _ => none

end ChannelRange

namespace Settings

def toJson (s : Settings) : JsonValue :=
  ofMembers [("supported_channels", s.channels.toJson),
    ("max_preset_depth", ofNat s.presetDepth),
    ("default_sample_rate", ofFloat s.fallbackRate)]

/-- The settings that are given, and defaults for the others. -/
def ofJson? (v : JsonValue) : Option Settings := do
  let defaults : Settings := {}
  match ← v.defaultedFields? ["supported_channels", "max_preset_depth", "default_sample_rate"] with
  | [channels, depth, rate] =>
    return ⟨← setting? ChannelRange.ofJson? defaults.channels channels,
      ← setting? (·.natBelow? UInt64.size) defaults.presetDepth depth,
      ← setting? (·.float?) defaults.fallbackRate rate⟩
  | _ => none

end Settings

namespace BuildSettings

def toJson (s : BuildSettings) : JsonValue :=
  ofMembers [("unroll_loops", .bool s.unrolling)]

def ofJson? (v : JsonValue) : Option BuildSettings := do
  let defaults : BuildSettings := {}
  match ← v.defaultedFields? ["unroll_loops"] with
  | [unroll] => return ⟨← setting? (·.bool?) defaults.unrolling unroll⟩
  | _ => none

end BuildSettings

end PulseTrain
