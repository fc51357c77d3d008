import PulseTrain.Preset.Basic
import PulseTrain.Script.Block
import PulseTrain.Script.Declaration
import PulseTrain.Script.Header
import PulseTrain.Script.PulseLine
import PulseTrain.Logged

/-! # Errors and notes of reading a script

    A bad pulse line is passed over with a note. Every other fault ends the reading.

    * `Fault` says why a line ends the reading; a fault in the text of a preset is wrapped in the
      name of the preset, so that its place is that of the line which loads the preset;
    * `ReadError` adds the place, and the faults that have none;
    * `Note` is what is reported on the way.
-/

namespace PulseTrain.Script

/-- Why a line ends the reading. -/
inductive Fault where
  | header (error : HeaderError)
  | declaration (error : DeclarationError)
  | declaredTwice (name : String)
  | block (error : BlockError)
  | missingPresetName
  | presetTooDeep (name : String) (limit : Nat)
  /-- At most one variable can be scanned; this is found out at the end of the script. -/
  | severalVariables (names : List String)
  /-- A fault in the text of a preset, at a line of this text. -/
  | inPreset (name : String) (line : Option Nat) (fault : Fault)
  /-- A fault in the words of a caller. -/
  | other (text : String)
deriving DecidableEq, Repr

def Fault.message : Fault → String
  | header error => error.message
  | declaration error => error.message
  | declaredTwice name => "variable '" ++ name ++ "' is declared twice"
  | block error => error.message
  | missingPresetName => "missing preset name"
  | presetTooDeep name limit =>
    "preset '" ++ name ++ "' exceeds the maximum preset nesting depth of " ++ toString limit
  | severalVariables names =>
    toString names.length ++ " scan variables declared (" ++ ", ".intercalate names
      ++ "), at most one is supported; scan several variables with an external "
      ++ "multi-dimensional scan iterator"
  | inPreset name (some line) fault =>
    "in preset '" ++ name ++ "' at line " ++ toString line ++ ": " ++ fault.message
  | inPreset name none fault => "in preset '" ++ name ++ "': " ++ fault.message
  | other text => text

/-- Why a script cannot be read. -/
inductive ReadError where
  | parse (line : Option Nat) (fault : Fault)
  | parameter (preset : String) (error : PresetError)
deriving DecidableEq, Repr

def ReadError.message : ReadError → String
  | parse (some line) fault => "Parse error at line " ++ toString line ++ ": " ++ fault.message
  | parse none fault => "Parse error: " ++ fault.message
  | parameter preset error =>
    "Invalid parameter for preset '" ++ preset ++ "': " ++ error.message

/-- The error as it is seen from the line that loads the preset. An error about overrides names its
    preset already. -/
def ReadError.inPreset (name : String) (line : Nat) : ReadError → ReadError
  | parse inner fault => parse (some line) (.inPreset name inner fault)
  | parameter preset error => parameter preset error

/-- What is noted while a script is read. -/
inductive Note where
  | unknownHeaderKey (key : String) (line : Nat)
  | skippedPulse (line : Nat) (error : PulseError)
  | unknownPreset (name : String) (line : Nat)
  | finished (name : String) (pulses loops conditionals declared : Nat)
deriving DecidableEq, Repr

namespace Note

/-- Only the note at the end is no warning. -/
def severity : Note → Severity
  | finished .. => .info
  | _ => .warning

def message : Note → String
  | unknownHeaderKey key line =>
    "Ignoring unknown header key '" ++ key ++ "' at line " ++ toString line
  | skippedPulse line error =>
    "Skipping malformed pulse at line " ++ toString line ++ ": " ++ error.message
  | unknownPreset name line =>
    "Unknown preset '" ++ name ++ "' at line " ++ toString line ++ ", nothing loaded"
  | finished name pulses loops conditionals declared =>
    "Parsed sequence '" ++ name ++ "': " ++ toString pulses ++ " pulses, " ++ toString loops
      ++ " loops, " ++ toString conditionals ++ " conditionals, " ++ toString declared
      ++ " variables"

end Note

end PulseTrain.Script
