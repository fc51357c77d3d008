import PulseTrain.Proofs.Decimal.Unsigned
import PulseTrain.Proofs.Preset.Builtin

/-! # Timelines that are read back

    A timeline is computed as a list of pulses and written as a text, a line for each of them. The
    text is read as the same pulses: a time is written with all its digits and read as the double
    that it was, and no time looks like the name of a variable. So whatever is declared, the pulses
    come at the times that were computed, and only the readout is fixed.

    * **Line**: `Entry.Known.read_toChars` for a pulse;
    * **Text**: `readLines_toChars`;
    * **Timelines**: `read_ramsey` and `read_hahnEcho`;
    * **Result**: `render_read`.
-/

namespace PulseTrain.Preset.Timeline

open Script Success

variable {table : Table Variable} {e : Entry}

/-! ## Lines -/

/-- A pulse of full amplitude, without parameters, of which no field is bound. -/
def plainPulse (kind : String) (channel : UInt16) (timing : Duration) (shape : Shape)
    (duration : Duration) (isFixed : Bool) : Pulse :=
  { name := Pulse.stem kind, kind, channel, shape, duration, amplitude := 1.0, timing,
    parameters := .empty, isFixed, bindings := [] }

/-- A shape is read under its name. -/
theorem read?_name (s : Shape) : Shape.read? s.name.toList = some s := by
  cases s <;> decide

/-- **Line**: the line of a pulse is read as the pulse, if its times are finite and its length is
    not negative. -/
theorem Entry.Known.read_toChars (h : e.Known) {shape : Shape} (hshape : e.shape = shape.name)
    (htiming : e.timing.seconds.isFinite = true) (hduration : e.duration.seconds.isFinite = true)
    (hlength : e.duration.isNegative = false) :
    PulseLine.read table e.line.toChars =
      .ok (plainPulse e.kind e.channel e.timing shape e.duration e.fixed) := by
  have hone : literal .amplitude "1.0".toList = .ok 1.0 := by decide +kernel
  have hread : Shape.read? e.line.shape = some shape := by
    show Shape.read? e.shape.toList = some shape
    rw [hshape, read?_name]
  have hkind : String.ofList e.line.kind = e.kind := String.ofList_toList
  have htimed := literal_toChars (v := .time e.timing) .timing rfl htiming
  have hlasting := literal_toChars (v := .time e.duration) .duration rfl hduration
  rw [Script.read_toChars table h.wellFormed]
  refine (readFields_of (WrittenLine.read?_target h.wellFormed) (Text.natural16?_toDigits e.channel)
    (readField_of_literal htimed _) (Bool.and_false e.fixed) hread
    (readField_of_literal hlasting _) hlength (readField_of_literal hone _)).trans ?_
  rw [hkind]
  rfl

/-! ## Texts -/

/-- What the lines of a text are read as. -/
def readLines (table : Table Variable) (text : List Char) : List (Except PulseError Pulse) :=
  (contentLines text).map fun line => PulseLine.read table line.text

/-- **Text**: the lines of a timeline are read one by one. -/
theorem readLines_toChars {entries : List Entry} (hknown : ∀ e ∈ entries, e.Known) :
    readLines table (Timeline.toChars entries) =
      entries.map fun e => PulseLine.read table e.line.toChars := by
  have hwell : ∀ w ∈ entries.map Entry.line, w.WellFormed := by
    rw [List.forall_mem_map]
    exact fun e he => (hknown e he).wellFormed
  have hkinds : ∀ w ∈ entries.map Entry.line, IsPulseKind w.kind := by
    rw [List.forall_mem_map]
    exact fun e he => (isPulseKind (hknown e he).kind).2
  -- every line that is written is a content line of the text, and there are no others
  have hlines := map_text_contentLines hwell hkinds
  calc readLines table (Timeline.toChars entries)
    _ = ((contentLines (Timeline.toChars entries)).map (·.text)).map (PulseLine.read table) := by
        rw [List.map_map]
        rfl
    _ = entries.map fun e => PulseLine.read table e.line.toChars := by
        rw [toChars_timeline, hlines, List.map_map, List.map_map]
        rfl

/-! ## Timelines -/

/-- The arguments of a timeline of two half turns: a wait, the length of a half turn, the shape of
    the microwave pulses and the channels. -/
structure RamseyArguments (arguments : Arguments) (tau halfTurn : Duration) (shape : Shape)
    (mw laser : UInt16) : Prop where
  length : halfTurn.isNegative = false
  allowed : shape.name ∈ shapes
  tau : arguments.time "tau" = .ok tau
  halfTurn : arguments.time "pi_half" = .ok halfTurn
  shape : arguments.text "shape" = .ok shape.name
  mw : arguments.channel "mw_channel" = .ok mw
  laser : arguments.channel "laser_channel" = .ok laser

/-- The arguments of a timeline of a full turn between two half turns. -/
structure EchoArguments (arguments : Arguments) (tau turn : Duration) (mw laser : UInt16) :
    Prop where
  length : turn.isNegative = false
  tau : arguments.time "tau" = .ok tau
  turn : arguments.time "pi" = .ok turn
  mw : arguments.channel "mw_channel" = .ok mw
  laser : arguments.channel "laser_channel" = .ok laser

variable {arguments : Arguments} {tau halfTurn turn : Duration} {shape : Shape} {mw laser : UInt16}

/-- The pulses that a timeline of two half turns is meant to have. The sums are taken from the left,
    as they stand. -/
def ramseyPulses (tau halfTurn : Duration) (shape : Shape) (mw laser : UInt16) : List Pulse :=
  let first := preparationLength + gap
  let second := first + halfTurn + tau
  [plainPulse "laser" laser .zero .square preparationLength false,
    plainPulse "pi/2" mw first shape halfTurn false,
    plainPulse "pi/2" mw second shape halfTurn false,
    plainPulse "readout" laser (second + halfTurn + gap) .square readoutLength true]

/-- The pulses that a timeline of a full turn between two half turns is meant to have. -/
def echoPulses (tau turn : Duration) (mw laser : UInt16) : List Pulse :=
  let halfTurn := turn / (2.0 : Float)
  let first := preparationLength + gap
  let echo := first + halfTurn + tau
  let last := echo + turn + tau
  [plainPulse "laser" laser .zero .square preparationLength false,
    plainPulse "pi/2" mw first .gaussian halfTurn false,
    plainPulse "pi" mw echo .gaussian turn false,
    plainPulse "pi/2" mw last .gaussian halfTurn false,
    plainPulse "readout" laser (last + halfTurn + gap) .square readoutLength true]

/-- The time at which the first microwave pulse begins. -/
theorem first_finite : (preparationLength + gap).seconds.isFinite = true := by
  decide +kernel

theorem isFinite_of_sum {a b : Duration} (h : (a + b).seconds.isFinite = true) :
    a.seconds.isFinite = true ∧ b.seconds.isFinite = true :=
  Decimal.isFinite_of_add h

/-- The laser pulse at the start is read as it is. -/
theorem read_preparation (laser : UInt16) :
    PulseLine.read table (preparation laser).line.toChars =
      .ok (plainPulse "laser" laser .zero .square preparationLength false) := by
  have hknown : (preparation laser).Known :=
    ⟨show "laser" ∈ kinds by decide, show "square" ∈ shapes by decide⟩
  have hstart : Duration.zero.seconds.isFinite = true := by decide +kernel
  have hfinite : preparationLength.seconds.isFinite = true := by decide +kernel
  have hlength : preparationLength.isNegative = false := by decide +kernel
  exact hknown.read_toChars rfl hstart hfinite hlength

/-- So is the readout at the end. -/
theorem read_readout (laser : UInt16) {lastEnd : Duration}
    (h : (lastEnd + gap).seconds.isFinite = true) :
    PulseLine.read table (readout laser lastEnd).line.toChars =
      .ok (plainPulse "readout" laser (lastEnd + gap) .square readoutLength true) := by
  have hknown : (readout laser lastEnd).Known :=
    ⟨show "readout" ∈ kinds by decide, show "square" ∈ shapes by decide⟩
  have hfinite : readoutLength.seconds.isFinite = true := by decide +kernel
  have hlength : readoutLength.isNegative = false := by decide +kernel
  exact hknown.read_toChars rfl h hfinite hlength

/-- So is a microwave pulse between them. -/
theorem read_turn {kind : String} (hkind : kind ∈ kinds) (mw : UInt16) {timing length : Duration}
    (hshape : shape.name ∈ shapes) (htiming : timing.seconds.isFinite = true)
    (hfinite : length.seconds.isFinite = true) (hlength : length.isNegative = false) :
    PulseLine.read table (Entry.line ⟨kind, mw, timing, shape.name, length, false⟩).toChars =
      .ok (plainPulse kind mw timing shape length false) := by
  have hknown : Entry.Known ⟨kind, mw, timing, shape.name, length, false⟩ := ⟨hkind, hshape⟩
  exact hknown.read_toChars rfl htiming hfinite hlength

/-- A computed timeline is rendered, and read as pulses if its lines are. -/
theorem read_ofTimeline {timeline : Arguments → Except ArgumentError (List Entry)}
    {entries : List Entry} {ps : List Pulse} (hentries : timeline arguments = .ok entries)
    (hknown : ∀ e ∈ entries, e.Known)
    (hread : List.Forall₂ (fun e p => PulseLine.read table e.line.toChars = .ok p) entries ps) :
    ∃ text, (Body.ofTimeline timeline).render arguments = .ok text ∧
      readLines table text = ps.map .ok := by
  refine ⟨Timeline.toChars entries, ?_, ?_⟩
  · show ((timeline arguments).map Timeline.toChars).mapError _ = _
    rw [hentries]
    rfl
  · rw [readLines_toChars hknown]
    -- the rest is about each line by itself
    clear hentries hknown
    induction hread with
    | nil => rfl
    | cons hline _ ih => rw [List.map_cons, List.map_cons, hline, ih]

/-- **Timeline** of two half turns. -/
theorem read_ramsey (h : RamseyArguments arguments tau halfTurn shape mw laser)
    (hfinite :
      (preparationLength + gap + halfTurn + tau + halfTurn + gap).seconds.isFinite = true) :
    ∃ text, Library.ramsey.body.render arguments = .ok text ∧
      readLines table text = (ramseyPulses tau halfTurn shape mw laser).map .ok := by
  -- the times of the pulses are terms of the last sum
  obtain ⟨hlast, _⟩ := isFinite_of_sum hfinite
  obtain ⟨hsecond, hhalf⟩ := isFinite_of_sum hlast
  have hkind : "pi/2" ∈ kinds := by decide
  have hentries : Timeline.ramsey arguments = .ok [preparation laser,
      ⟨"pi/2", mw, preparationLength + gap, shape.name, halfTurn, false⟩,
      ⟨"pi/2", mw, preparationLength + gap + halfTurn + tau, shape.name, halfTurn, false⟩,
      readout laser (preparationLength + gap + halfTurn + tau + halfTurn)] := by
    unfold Timeline.ramsey
    rw [h.tau, h.halfTurn, h.shape, h.mw, h.laser]
    rfl
  have hshapes : ∀ s, arguments.text "shape" = .ok s → s ∈ shapes := by
    intro s hs
    rw [h.shape] at hs
    cases hs
    exact h.allowed
  exact read_ofTimeline hentries (ramsey_ok hentries hshapes).1
    (.cons (read_preparation laser)
      (.cons (read_turn hkind mw h.allowed first_finite hhalf h.length)
        (.cons (read_turn hkind mw h.allowed hsecond hhalf h.length)
          (.cons (read_readout laser hfinite) .nil))))

/-- **Timeline** of a full turn between two half turns. -/
theorem read_hahnEcho (h : EchoArguments arguments tau turn mw laser)
    (hfinite : (preparationLength + gap + turn / (2.0 : Float) + tau + turn + tau +
      turn / (2.0 : Float) + gap).seconds.isFinite = true) :
    ∃ text, Library.hahnEcho.body.render arguments = .ok text ∧
      readLines table text = (echoPulses tau turn mw laser).map .ok := by
  -- every sum but the last is a term of a later one
  obtain ⟨hend, _⟩ := isFinite_of_sum hfinite
  obtain ⟨hlast, hhalf⟩ := isFinite_of_sum hend
  obtain ⟨hturned, _⟩ := isFinite_of_sum hlast
  obtain ⟨hecho, hturn⟩ := isFinite_of_sum hturned
  have hhalfLength : (turn / (2.0 : Float)).isNegative = false :=
    decide_eq_false (Decimal.not_negative_half hturn (of_decide_eq_false h.length))
  have hhalfKind : "pi/2" ∈ kinds := by decide
  have hkind : "pi" ∈ kinds := by decide
  have hgaussian : Shape.gaussian.name ∈ shapes := by decide
  -- the entries as they are computed, each with the sum that stands before it
  have hentries : Timeline.hahnEcho arguments = .ok [preparation laser,
      ⟨"pi/2", mw, preparationLength + gap, Shape.gaussian.name, turn / (2.0 : Float), false⟩,
      ⟨"pi", mw, preparationLength + gap + turn / (2.0 : Float) + tau, Shape.gaussian.name, turn,
        false⟩,
      ⟨"pi/2", mw, preparationLength + gap + turn / (2.0 : Float) + tau + turn + tau,
        Shape.gaussian.name, turn / (2.0 : Float), false⟩,
      readout laser (preparationLength + gap + turn / (2.0 : Float) + tau + turn + tau +
        turn / (2.0 : Float))] := by
    unfold Timeline.hahnEcho
    rw [h.tau, h.turn, h.mw, h.laser]
    rfl
  exact read_ofTimeline hentries (hahnEcho_ok hentries).1
    (.cons (read_preparation laser)
      (.cons (read_turn hhalfKind mw hgaussian first_finite hhalf hhalfLength)
        (.cons (read_turn hkind mw hgaussian hecho hturn h.length)
          (.cons (read_turn hhalfKind mw hgaussian hlast hhalf hhalfLength)
            (.cons (read_readout laser hfinite) .nil)))))

/-! ## Result -/

/-- **Timelines**: the text that is rendered for a timeline is read, line by line, as the pulses
    that it is meant to have, at the very times that were computed. This holds whatever is declared,
    as long as no length is negative and the last sum is finite, and with it all others. -/
theorem render_read (table : Table Variable) :
    (∀ arguments tau halfTurn shape mw laser,
      RamseyArguments arguments tau halfTurn shape mw laser →
      (preparationLength + gap + halfTurn + tau + halfTurn + gap).seconds.isFinite = true →
      ∃ text, Library.ramsey.body.render arguments = .ok text ∧
        readLines table text = (ramseyPulses tau halfTurn shape mw laser).map .ok) ∧
    (∀ arguments tau turn mw laser, EchoArguments arguments tau turn mw laser →
      (preparationLength + gap + turn / (2.0 : Float) + tau + turn + tau + turn / (2.0 : Float) +
        gap).seconds.isFinite = true →
      ∃ text, Library.hahnEcho.body.render arguments = .ok text ∧
        readLines table text = (echoPulses tau turn mw laser).map .ok) := by
  refine ⟨?_, ?_⟩
  · intro arguments tau halfTurn shape mw laser h hfinite
    exact read_ramsey h hfinite
  · intro arguments tau turn mw laser h hfinite
    exact read_hahnEcho h hfinite

/-- A variable with the name of a unit. -/
def unitVariable : Table Variable := Table.empty.insert "s" ⟨"s", 1.0, 2.0, 2, .time⟩

/-- The timelines of the defaults. -/
theorem defaults_read :
    RamseyArguments Library.ramsey.defaults ⟨500e-9⟩ ⟨50e-9⟩ .gaussian 1 2 ∧
    EchoArguments Library.hahnEcho.defaults ⟨1e-6⟩ ⟨100e-9⟩ 1 2 ∧
    (∃ text, Library.ramsey.body.render Library.ramsey.defaults = .ok text ∧
      readLines unitVariable text = (ramseyPulses ⟨500e-9⟩ ⟨50e-9⟩ .gaussian 1 2).map .ok) ∧
    ∃ text, Library.hahnEcho.body.render Library.hahnEcho.defaults = .ok text ∧
      readLines unitVariable text = (echoPulses ⟨1e-6⟩ ⟨100e-9⟩ 1 2).map .ok := by
  have hramsey : RamseyArguments Library.ramsey.defaults ⟨500e-9⟩ ⟨50e-9⟩ .gaussian 1 2 :=
    ⟨by decide +kernel, by decide, rfl, rfl, rfl, rfl, rfl⟩
  have hecho : EchoArguments Library.hahnEcho.defaults ⟨1e-6⟩ ⟨100e-9⟩ 1 2 :=
    ⟨by decide +kernel, rfl, rfl, rfl, rfl⟩
  exact ⟨hramsey, hecho, (render_read unitVariable).1 _ _ _ _ _ _ hramsey (by decide +kernel),
    (render_read unitVariable).2 _ _ _ _ _ hecho (by decide +kernel)⟩

end PulseTrain.Preset.Timeline
