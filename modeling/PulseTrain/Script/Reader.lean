import PulseTrain.Script.Fault
import PulseTrain.Script.Statement
import PulseTrain.Settings

/-! # Reading a script

    The statements of a script are carried out in order and build up a sequence. A pulse is named
    after its kind and numbered among the pulses of the same name, wherever they stand. A preset is
    carried out in the place of the line that loads it, and may load others, down to the depth that
    the settings allow.

    * `State` is what has been read so far, `State.addPulse?` reads one more pulse line;
    * `Loader` carries out a preset line; `loader` bounds the depth by recursion on it;
    * `Script.readWith` reads a whole script, `Script.read` with the presets of a library.
-/

namespace PulseTrain.Script

/-- What has been read so far. -/
structure State where
  sequence : Sequence
  /-- Whether a header gave the total duration. -/
  durationGiven : Bool
  /-- How many pulses have been named after each stem. -/
  counters : Table Nat
deriving DecidableEq, Repr

/-- The work of reading: notes, and an error or a result. -/
abbrev Reading (α : Type) : Type := Logged Note ReadError α

namespace State

def start (settings : Settings) : State :=
  ⟨{ Sequence.empty with sampleRate := settings.fallbackRate }, false, .empty⟩

/-- The pulse under its final name, its stem followed by its number. -/
def numberPulse (s : State) (p : Pulse) : State × Pulse :=
  let count := (s.counters.get? p.name).getD 0 + 1
  ({ s with counters := s.counters.insert p.name count },
    { p with name := p.name ++ "_" ++ toString count })

/-! ## Pulses -/

/-- Reads a pulse line. A line that is no pulse changes nothing. -/
def readPulse (s : State) (line : Line) : State × Except PulseError Pulse :=
  match PulseLine.read s.sequence.declared line.text with
  | .ok p => let (s, p) := s.numberPulse p; (s, .ok p)
  | .error e => (s, .error e)

/-- The pulses among some lines, and a note for each other line. -/
def readPulses (s : State) : List Line → Reading (State × List Pulse)
  | [] => return (s, [])
  | line :: rest => do
    match s.readPulse line with
    | (s, .ok p) =>
      let (s, ps) ← readPulses s rest
      return (s, p :: ps)
    | (s, .error e) =>
      .note (.skippedPulse line.number e)
      readPulses s rest

/-- Adds the pulses of some lines to the sequence itself. -/
def addPulses (s : State) (lines : List Line) : Reading State := do
  let (s, ps) ← s.readPulses lines
  return { s with sequence := { s.sequence with pulses := s.sequence.pulses ++ ps } }

/-! ## Blocks -/

/-- Adds a loop or a conditional. The lines of the true branch come before those of the false
    branch. -/
def addBlock (s : State) : Block → Reading State
  | .loop iterations body => do
    let (s, ps) ← s.readPulses body
    return { s with sequence :=
      { s.sequence with loops := s.sequence.loops ++ [.of iterations ps] } }
  | .conditional condition whenTrue whenFalse => do
    let (s, trueOnes) ← s.readPulses whenTrue
    let (s, falseOnes) ← s.readPulses (whenFalse.getD [])
    return { s with sequence :=
      { s.sequence with
        conditionals := s.sequence.conditionals ++ [.of condition trueOnes falseOnes] } }

/-! ## Headers and declarations -/

def applyHeader (line : Nat) (s : State) (item : List Char) : Reading State :=
  match HeaderItem.read item with
  | .error e => .fail (.parse (some line) (.header e))
  | .ok (.unknown key) => do
    .note (.unknownHeaderKey key line)
    return s
  | .ok given =>
    return { s with sequence := given.apply s.sequence,
                    durationGiven := s.durationGiven || given.isDuration }

def declare (s : State) (line : Nat) (body : List Char) : Reading State :=
  match readDeclaration body with
  | .error e => .fail (.parse (some line) (.declaration e))
  | .ok v =>
    if s.sequence.declared.contains v.name then
      .fail (.parse (some line) (.declaredTwice v.name))
    else
      return { s with sequence :=
        { s.sequence with declared := s.sequence.declared.insert v.name v } }

end State

/-! ## Presets -/

/-- Carries out a preset line, given its number and what follows the keyword. -/
abbrev Loader : Type := State → Nat → List Char → Reading State

def interpret (load : Loader) (s : State) : Statement → Reading State
  | .header line body => (headerItems body).foldlM (State.applyHeader line) s
  | .declaration line body => s.declare line body
  | .preset line body => load s line body
  | .block block => s.addBlock block
  | .badBlock fault => .fail (.parse (some fault.line) (.block fault.error))
  | .pulse line => s.addPulses [line]

def readText (load : Loader) (s : State) (text : List Char) : Reading State :=
  (Statement.ofText text).foldlM (interpret load) s

/-- The overrides of a preset line, the items after the name that are not empty. -/
def readOverrides (preset : String) (items : List (List Char)) :
    Except ReadError (List (String × String)) :=
  (items.filter (!·.isEmpty)).mapM fun item =>
    match Text.splitOnce? '=' item with
    | some (key, value) =>
      .ok (String.ofList (Text.trim key), String.ofList (Text.trim value))
    | none => .error (.parameter preset (.notPair (String.ofList item)))

/-- Carries out a preset line where `inner` carries out the lines of the preset, if presets may load
    presets any further. An unknown preset is noted and passed over. -/
def carryOutPreset (registry : Registry) (limit : Nat) (inner : Option Loader) : Loader :=
  fun s line body => do
    let items := (Text.splitOn ',' body).map Text.trim
    let name := String.ofList (items.headD [])
    if name.isEmpty then .fail (.parse (some line) .missingPresetName)
    else
      -- an unknown preset is passed over even where no preset may be loaded any more
      match registry name, inner with
      | none, _ =>
        .note (.unknownPreset name line)
        return s
      | some _, none => .fail (.parse (some line) (.presetTooDeep name limit))
      | some preset, some load =>
        let overrides ← .ofExcept (readOverrides name items.tail)
        let text ← .ofExcept
          ((preset.render overrides s.sequence.declared.keys).mapError (.parameter preset.name))
        (readText load s text).mapError (.inPreset name line)

/-- Carries out preset lines that may nest to a depth of `depth`. -/
def loader (registry : Registry) (limit : Nat) :
    (depth : Nat) → State → Nat → List Char → Reading State
  | 0, s, line, body => carryOutPreset registry limit none s line body
  | depth + 1, s, line, body =>
    carryOutPreset registry limit (some (loader registry limit depth)) s line body

/-! ## Whole scripts -/

/-- The sequence of a script that was read to its end. There is at most one variable, and the
    sequence ends with its last pulse unless a header says otherwise. -/
def State.finish (s : State) : Reading Sequence :=
  if 1 < s.sequence.declared.size then
    .fail (.parse none (.severalVariables s.sequence.declared.keys))
  else do
    let sequence :=
      if s.durationGiven then s.sequence
      else { s.sequence with totalDuration := s.sequence.latestEnd }
    .note (.finished sequence.name sequence.pulses.length sequence.loops.length
      sequence.conditionals.length sequence.declared.size)
    return sequence

/-- Reads a script with the presets of a registry. -/
def readWith (registry : Registry) (settings : Settings) (text : String) : Reading Sequence := do
  let load := loader registry settings.presetDepth settings.presetDepth
  let s ← readText load (.start settings) text.toList
  s.finish

/-- Reads a script with the presets of a library. -/
def read (library : Library) (settings : Settings) (text : String) : Reading Sequence :=
  readWith library.get? settings text

end PulseTrain.Script
