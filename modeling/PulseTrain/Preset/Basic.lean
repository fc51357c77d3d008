import PulseTrain.Preset.Template
import PulseTrain.Preset.Timeline

/-! # Presets

    A preset is a named piece of script with parameters. Loading it renders its text for the given
    overrides of its defaults.

    * `Preset.resolve` finds the arguments, `Preset.render` the text;
    * `Registry` says which preset has a name; `Library` is one that is held in memory, in the order
      in which the presets were added;
    * `Library.builtin` has the presets that are always there.
-/

namespace PulseTrain

/-- Why a preset cannot be rendered. -/
inductive PresetError where
  | unknownParameter (key : String)
  | badValue (key : String) (error : Preset.ValueError)
  | notPair (text : String)
  | argument (error : Preset.ArgumentError)
  /-- An error in the words of a caller. -/
  | other (text : String)
deriving DecidableEq, Repr

def PresetError.message : PresetError → String
  | unknownParameter key => "unknown parameter '" ++ key ++ "'"
  | badValue key error => "'" ++ key ++ "': " ++ error.message
  | notPair text => "expected key=value, found '" ++ text ++ "'"
  | argument error => error.message
  | other text => text

/-- How the text of a preset comes about: by filling in a template, or by a computation on the
    arguments. -/
inductive Preset.Body where
  | template (text : String)
  | generator (generate : Preset.Arguments → Except PresetError (List Char))

/-- A named piece of script with parameters. -/
structure Preset where
  name : String
  parameters : List Preset.Parameter
  body : Preset.Body

namespace Preset

/-! ## Rendering -/

def defaults (p : Preset) : Arguments :=
  .ofList (p.parameters.map fun parameter => (parameter.name, parameter.default))

/-- The value of an override. The name of a scan variable stands for the variable where the kind of
    the parameter admits it. -/
def overrideValue (parameter : Parameter) (declared : List String) (value : String) :
    Except ValueError Value :=
  if parameter.kind.admitsVariable && declared.contains value then
    .ok (.reference value parameter.kind)
  else parameter.read value.toList

/-- Puts an override in the place of the argument before it. -/
def override (p : Preset) (declared : List String) (arguments : Arguments)
    (item : String × String) : Except PresetError Arguments :=
  match p.parameters.find? (·.name = item.1) with
  | none => .error (.unknownParameter item.1)
  | some parameter =>
    match overrideValue parameter declared item.2 with
    | .ok value => .ok (arguments.insert item.1 value)
    | .error e => .error (.badValue item.1 e)

/-- The arguments for some overrides, of which the last of a key counts, and the names of the
    variables that may stand in for values. -/
def resolve (p : Preset) (overrides : List (String × String)) (declared : List String) :
    Except PresetError Arguments :=
  overrides.foldlM (p.override declared) p.defaults

/-- The text for given arguments. -/
def Body.render (body : Body) (arguments : Arguments) : Except PresetError (List Char) :=
  match body with
  | template text => .ok (fillIn text.toList arguments)
  | generator generate => generate arguments

/-- The body that plays a computed timeline. -/
def Body.ofTimeline (timeline : Arguments → Except ArgumentError (List Timeline.Entry)) : Body :=
  generator fun arguments => ((timeline arguments).map Timeline.toChars).mapError .argument

def render (p : Preset) (overrides : List (String × String)) (declared : List String) :
    Except PresetError (List Char) := do
  let arguments ← p.resolve overrides declared
  p.body.render arguments

end Preset

/-! ## Libraries -/

/-- Where presets are looked up by name. -/
abbrev Registry : Type := String → Option Preset

abbrev Library : Type := Table Preset

namespace Library

/-- Adds a preset under its name, in the place of one of the same name. -/
def add (library : Library) (p : Preset) : Library := library.insert p.name p

open Preset

/-- The channels on which the built-in presets play. -/
def channelDefaults : List Parameter :=
  [⟨"mw_channel", .integer 1, []⟩, ⟨"laser_channel", .integer 2, []⟩]

/-- The text of the preset `rabi`: a single microwave pulse between laser pulse and readout. -/
def rabiTemplate : String :=
  "laser pulse on channel \x7blaser_channel\x7d at 0ns, square, 1us, 1.0\n"
    ++ "mw pulse on channel \x7bmw_channel\x7d at 1.5us, square, \x7bpulse_length\x7d, "
    ++ "\x7bamplitude\x7d\n"
    ++ "readout pulse on channel \x7blaser_channel\x7d at 3us, square, 1us, 1.0 [fixed]\n"

def rabi : Preset :=
  ⟨"rabi",
    [⟨"pulse_length", .time ⟨100e-9⟩, []⟩, ⟨"amplitude", .float 1.0, []⟩] ++ channelDefaults,
    .template rabiTemplate⟩

def ramsey : Preset :=
  ⟨"ramsey",
    [⟨"tau", .time ⟨500e-9⟩, []⟩, ⟨"pi_half", .time ⟨50e-9⟩, []⟩,
      ⟨"shape", .text "gaussian", [.text "gaussian", .text "square", .text "sech"]⟩]
      ++ channelDefaults,
    .ofTimeline Timeline.ramsey⟩

def hahnEcho : Preset :=
  ⟨"hahn_echo",
    [⟨"tau", .time ⟨1e-6⟩, []⟩, ⟨"pi", .time ⟨100e-9⟩, []⟩] ++ channelDefaults,
    .ofTimeline Timeline.hahnEcho⟩

/-- The presets that are always there. -/
def builtin : Library :=
  [rabi, ramsey, hahnEcho].foldl add .empty

end Library

end PulseTrain
