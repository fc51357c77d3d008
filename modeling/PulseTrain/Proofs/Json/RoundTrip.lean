import PulseTrain.Proofs.Json.Transcript

/-! # Sequences through JSON and back

    A sequence without infinities and NaN is read back from its document as it was: all pulses with
    their bindings and parameters, all blocks, and all variables under the names that they had. If
    the document does not keep the order of members, the two tables of a sequence, its variables and
    the free-form parameters of a pulse, may come back in another order, and nothing else changes.

    * **Finiteness**: `Sequence.isFinite`, of every double in a sequence;
    * **Likeness**: `Sequence.Alike`, up to the order of tables, and `Sequence.Alike.eq` where the
      order is kept;
    * **Reading**: one lemma for each type, `Field.ofJson?_of_transcript`,
      `Pulse.ofJson?_of_transcript` and so on up to `Sequence.ofJson?_of_transcript`;
    * **Result**: `Sequence.ofJson?_toJson`.
-/

namespace PulseTrain

open JsonValue Transcript

/-! ## Finiteness -/

def FreeValue.isFinite : FreeValue → Bool
  | number x => x.isFinite
  | text _ => true

def Parameters.isFinite (p : Parameters) : Bool :=
  p.amplitude.all Float.isFinite && p.phase.all Float.isFinite && p.frequency.all Float.isFinite
    && p.extra.entries.all fun e => e.2.isFinite

def Pulse.isFinite (p : Pulse) : Bool :=
  p.duration.seconds.isFinite && p.amplitude.isFinite && p.timing.seconds.isFinite
    && p.parameters.isFinite

def Loop.isFinite (l : Loop) : Bool :=
  l.opensAt.seconds.isFinite && l.closesAt.seconds.isFinite && l.pulses.all Pulse.isFinite

def Conditional.isFinite (c : Conditional) : Bool :=
  c.whenTrue.all Pulse.isFinite && c.whenFalse.all Pulse.isFinite
    && c.opensAt.seconds.isFinite && c.closesAt.seconds.isFinite

def Variable.isFinite (v : Variable) : Bool := v.start.isFinite && v.stop.isFinite

/-- Whether no double in a sequence is an infinity or NaN. -/
def Sequence.isFinite (s : Sequence) : Bool :=
  s.totalDuration.seconds.isFinite && s.sampleRate.isFinite && s.pulses.all Pulse.isFinite
    && s.loops.all Loop.isFinite && s.conditionals.all Conditional.isFinite
    && s.declared.entries.all fun e => e.2.isFinite

/-! ## Likeness -/

section Likeness

variable {order : MemberOrder}

/-- Tables whose entries are in the same order are the same. -/
theorem MemberOrder.Allows.table_eq {α : Type} {t t' : Table α}
    (h : MemberOrder.kept.Allows t.entries t'.entries) : t' = t := by
  obtain ⟨entries, _⟩ := t
  obtain ⟨entries', _⟩ := t'
  cases h
  rfl

/-- The same parameters, up to the order of the free-form ones. -/
structure Parameters.Alike (order : MemberOrder) (p q : Parameters) : Prop where
  rest : q = { p with extra := q.extra }
  extra : order.Allows p.extra.entries q.extra.entries

/-- The same pulse, up to the order of its free-form parameters. -/
structure Pulse.Alike (order : MemberOrder) (p q : Pulse) : Prop where
  rest : q = { p with parameters := q.parameters }
  parameters : p.parameters.Alike order q.parameters

structure Loop.Alike (order : MemberOrder) (l m : Loop) : Prop where
  rest : m = { l with pulses := m.pulses }
  pulses : List.Forall₂ (Pulse.Alike order) l.pulses m.pulses

structure Conditional.Alike (order : MemberOrder) (c d : Conditional) : Prop where
  rest : d = { c with whenTrue := d.whenTrue, whenFalse := d.whenFalse }
  whenTrue : List.Forall₂ (Pulse.Alike order) c.whenTrue d.whenTrue
  whenFalse : List.Forall₂ (Pulse.Alike order) c.whenFalse d.whenFalse

/-- The same sequence, up to the order of its variables and of free-form parameters. -/
structure Sequence.Alike (order : MemberOrder) (s t : Sequence) : Prop where
  rest : t = { s with pulses := t.pulses, loops := t.loops, conditionals := t.conditionals,
                      declared := t.declared }
  pulses : List.Forall₂ (Pulse.Alike order) s.pulses t.pulses
  loops : List.Forall₂ (Loop.Alike order) s.loops t.loops
  conditionals : List.Forall₂ (Conditional.Alike order) s.conditionals t.conditionals
  declared : order.Allows s.declared.entries t.declared.entries

theorem Parameters.Alike.eq {p q : Parameters} (h : p.Alike .kept q) : q = p := by
  rw [h.rest, h.extra.table_eq]

theorem Pulse.Alike.eq {p q : Pulse} (h : p.Alike .kept q) : q = p := by
  rw [h.rest, h.parameters.eq]

/-- Lists whose items are the same one by one are the same. -/
theorem eq_of_forall₂ {α : Type} {r : α → α → Prop} {l m : List α}
    (hitem : ∀ {a b}, r a b → b = a) (h : List.Forall₂ r l m) : m = l := by
  have heq := h.imp fun _ _ hab => (hitem hab).symm
  rw [List.forall₂_eq_eq_eq] at heq
  exact heq.symm

theorem Loop.Alike.eq {l m : Loop} (h : l.Alike .kept m) : m = l := by
  rw [h.rest, eq_of_forall₂ Pulse.Alike.eq h.pulses]

theorem Conditional.Alike.eq {c d : Conditional} (h : c.Alike .kept d) : d = c := by
  rw [h.rest, eq_of_forall₂ Pulse.Alike.eq h.whenTrue, eq_of_forall₂ Pulse.Alike.eq h.whenFalse]

/-- Where the order is kept, sequences that are alike are the same. -/
theorem Sequence.Alike.eq {s t : Sequence} (h : s.Alike .kept t) : t = s := by
  rw [h.rest, eq_of_forall₂ Pulse.Alike.eq h.pulses, eq_of_forall₂ Loop.Alike.eq h.loops,
    eq_of_forall₂ Conditional.Alike.eq h.conditionals, h.declared.table_eq]

end Likeness

/-! ## Reading -/

section Reading

variable {order : MemberOrder} {v : JsonValue}

theorem Duration.ofJson?_of_transcript {d : Duration} (hfinite : d.seconds.isFinite = true)
    (h : d.toJson.Transcript order v) : Duration.ofJson? v = some d := by
  rw [Duration.ofJson?, float?_of_transcript hfinite h, Option.map_some]

/-! ### Choices -/

theorem Dimension.ofJson?_of_transcript {d : Dimension} (h : d.toJson.Transcript order v) :
    Dimension.ofJson? v = some d := by
  cases h
  cases d <;> rfl

theorem Shape.ofJson?_of_transcript {s : Shape} (h : s.toJson.Transcript order v) :
    Shape.ofJson? v = some s := by
  cases h
  exact Shape.ofName?_name s

/-- A free-form key is read by its tag, whatever name it has. -/
theorem ParameterKey.ofJson?_of_transcript {key : ParameterKey}
    (h : key.toJson.Transcript order v) : ParameterKey.ofJson? v = some key := by
  cases key with
  | extra name =>
    obtain ⟨content, hvariant, hcontent⟩ := variant?_of_transcript h
    simp only [ParameterKey.ofJson?, hvariant, string?_of_transcript hcontent,
      Option.bind_eq_bind, Option.bind_some, Option.pure_def]
  | _ =>
    cases h
    rfl

theorem Field.ofJson?_of_transcript {field : Field} (h : field.toJson.Transcript order v) :
    Field.ofJson? v = some field := by
  cases field with
  | parameter key =>
    obtain ⟨content, hvariant, hcontent⟩ := variant?_of_transcript h
    simp only [Field.ofJson?, hvariant, ParameterKey.ofJson?_of_transcript hcontent,
      Option.bind_eq_bind, Option.bind_some, Option.pure_def]
  | _ =>
    cases h
    rfl

/-- A text is not mistaken for a number. -/
theorem FreeValue.ofJson?_of_transcript {value : FreeValue} (hfinite : value.isFinite = true)
    (h : value.toJson.Transcript order v) : FreeValue.ofJson? v = some value := by
  cases value with
  | number x => rw [FreeValue.ofJson?, float?_of_transcript hfinite h]
  | text s =>
    cases h
    rfl

/-! ### Pulses -/

theorem Binding.ofJson?_of_transcript {b : Binding} (h : b.toJson.Transcript order v) :
    Binding.ofJson? v = some b := by
  obtain ⟨value, hfields, hvalues⟩ := fields?_of_transcript (by simp) h
  simp only [List.map_cons, List.map_nil, List.forall_mem_cons] at hfields hvalues
  obtain ⟨hname, hfield, -⟩ := hvalues
  simp only [Binding.ofJson?, hfields, string?_of_transcript hname,
    Field.ofJson?_of_transcript hfield, Option.bind_eq_bind, Option.bind_some, Option.pure_def]

/-- Parameters are read with what is missing, and free-form ones in the order of the members. -/
theorem Parameters.ofJson?_of_transcript {p : Parameters} (hfinite : p.isFinite = true)
    (h : p.toJson.Transcript order v) :
    ∃ q, Parameters.ofJson? v = some q ∧ p.Alike order q := by
  simp only [Parameters.isFinite, Bool.and_eq_true, List.all_eq_true] at hfinite
  obtain ⟨⟨⟨hamplitude, hphase⟩, hfrequency⟩, hextra⟩ := hfinite
  obtain ⟨value, hfields, hvalues⟩ := fields?_of_transcript (by simp) h
  simp only [List.map_cons, List.map_nil, List.forall_mem_cons] at hfields hvalues
  obtain ⟨ha, hp, hf, he, -⟩ := hvalues
  obtain ⟨extra, hread, horder⟩ := table?_of_transcript
    (fun e he _ => FreeValue.ofJson?_of_transcript (hextra e he)) he
  refine ⟨{ p with extra }, ?_, rfl, horder⟩
  simp only [Parameters.ofJson?, hfields, Parameters.optional?,
    optionalFloat?_of_transcript hamplitude ha, optionalFloat?_of_transcript hphase hp,
    optionalFloat?_of_transcript hfrequency hf, hread,
    Option.bind_eq_bind, Option.bind_some, Option.pure_def]

/-- The bindings of a pulse are read in their order. -/
theorem Binding.list?_of_transcript {bs : List Binding}
    (h : (listToJson Binding.toJson bs).Transcript order v) :
    v.list? Binding.ofJson? = some bs := by
  obtain ⟨bs', hread, heq⟩ := JsonValue.Transcript.list?_of_transcript (r := Eq)
    (fun b _ _ hb => ⟨b, Binding.ofJson?_of_transcript hb, rfl⟩) h
  rw [List.forall₂_eq_eq_eq] at heq
  rw [hread, heq]

theorem Pulse.ofJson?_of_transcript {p : Pulse} (hfinite : p.isFinite = true)
    (h : p.toJson.Transcript order v) : ∃ q, Pulse.ofJson? v = some q ∧ p.Alike order q := by
  simp only [Pulse.isFinite, Bool.and_eq_true] at hfinite
  obtain ⟨⟨⟨hlength, hheight⟩, hstart⟩, hparameters⟩ := hfinite
  obtain ⟨value, hfields, hvalues⟩ := fields?_of_transcript (by simp) h
  simp only [List.map_cons, List.map_nil, List.forall_mem_cons] at hfields hvalues
  obtain ⟨hname, hkind, hchannel, hshape, hduration, hamplitude, htiming, hp, hfixed,
    hbindings, -⟩ := hvalues
  obtain ⟨parameters, hread, halike⟩ := Parameters.ofJson?_of_transcript hparameters hp
  refine ⟨{ p with parameters }, ?_, rfl, halike⟩
  simp only [Pulse.ofJson?, hfields, string?_of_transcript hname, string?_of_transcript hkind,
    nat16?_of_transcript hchannel, Shape.ofJson?_of_transcript hshape,
    Duration.ofJson?_of_transcript hlength hduration, float?_of_transcript hheight hamplitude,
    Duration.ofJson?_of_transcript hstart htiming, hread, bool?_of_transcript hfixed,
    Binding.list?_of_transcript hbindings, Option.bind_eq_bind, Option.bind_some, Option.pure_def]

/-- Pulses are read in their order, each with its own parameters. -/
theorem Pulse.list?_of_transcript {ps : List Pulse} (hfinite : ps.all Pulse.isFinite = true)
    (h : (listToJson Pulse.toJson ps).Transcript order v) :
    ∃ qs, v.list? Pulse.ofJson? = some qs ∧ List.Forall₂ (Pulse.Alike order) ps qs := by
  rw [List.all_eq_true] at hfinite
  exact JsonValue.Transcript.list?_of_transcript
    (fun p hp _ => Pulse.ofJson?_of_transcript (hfinite p hp)) h

/-! ### Sequences -/

theorem Loop.ofJson?_of_transcript {l : Loop} (hfinite : l.isFinite = true)
    (h : l.toJson.Transcript order v) : ∃ m, Loop.ofJson? v = some m ∧ l.Alike order m := by
  simp only [Loop.isFinite, Bool.and_eq_true] at hfinite
  obtain ⟨⟨hopens, hcloses⟩, hpulses⟩ := hfinite
  obtain ⟨value, hfields, hvalues⟩ := fields?_of_transcript (by simp) h
  simp only [List.map_cons, List.map_nil, List.forall_mem_cons] at hfields hvalues
  obtain ⟨hiterations, hstart, hend, hps, -⟩ := hvalues
  obtain ⟨pulses, hread, halike⟩ := Pulse.list?_of_transcript hpulses hps
  refine ⟨{ l with pulses }, ?_, rfl, halike⟩
  simp only [Loop.ofJson?, hfields, nat32?_of_transcript hiterations,
    Duration.ofJson?_of_transcript hopens hstart, Duration.ofJson?_of_transcript hcloses hend,
    hread, Option.bind_eq_bind, Option.bind_some, Option.pure_def]

theorem Conditional.ofJson?_of_transcript {c : Conditional} (hfinite : c.isFinite = true)
    (h : c.toJson.Transcript order v) :
    ∃ d, Conditional.ofJson? v = some d ∧ c.Alike order d := by
  simp only [Conditional.isFinite, Bool.and_eq_true] at hfinite
  obtain ⟨⟨⟨htrue, hfalse⟩, hopens⟩, hcloses⟩ := hfinite
  obtain ⟨value, hfields, hvalues⟩ := fields?_of_transcript (by simp) h
  simp only [List.map_cons, List.map_nil, List.forall_mem_cons] at hfields hvalues
  obtain ⟨hcondition, hps, hqs, hstart, hend, -⟩ := hvalues
  obtain ⟨whenTrue, hreadTrue, hlikeTrue⟩ := Pulse.list?_of_transcript htrue hps
  obtain ⟨whenFalse, hreadFalse, hlikeFalse⟩ := Pulse.list?_of_transcript hfalse hqs
  refine ⟨{ c with whenTrue, whenFalse }, ?_, rfl, hlikeTrue, hlikeFalse⟩
  simp only [Conditional.ofJson?, hfields, string?_of_transcript hcondition, hreadTrue,
    hreadFalse, Duration.ofJson?_of_transcript hopens hstart,
    Duration.ofJson?_of_transcript hcloses hend,
    Option.bind_eq_bind, Option.bind_some, Option.pure_def]

theorem Variable.ofJson?_of_transcript {x : Variable} (hfinite : x.isFinite = true)
    (h : x.toJson.Transcript order v) : Variable.ofJson? v = some x := by
  simp only [Variable.isFinite, Bool.and_eq_true] at hfinite
  obtain ⟨hstart, hstop⟩ := hfinite
  obtain ⟨value, hfields, hvalues⟩ := fields?_of_transcript (by simp) h
  simp only [List.map_cons, List.map_nil, List.forall_mem_cons] at hfields hvalues
  obtain ⟨hname, hfirst, hlast, hsteps, hdimension, -⟩ := hvalues
  simp only [Variable.ofJson?, hfields, string?_of_transcript hname,
    float?_of_transcript hstart hfirst, float?_of_transcript hstop hlast,
    nat32?_of_transcript hsteps, Dimension.ofJson?_of_transcript hdimension,
    Option.bind_eq_bind, Option.bind_some, Option.pure_def]

/-- A sequence without infinities and NaN is read from every transcript of its document. -/
theorem Sequence.ofJson?_of_transcript {s : Sequence} (hfinite : s.isFinite = true)
    (h : s.toJson.Transcript order v) :
    ∃ t, Sequence.ofJson? v = some t ∧ s.Alike order t := by
  simp only [Sequence.isFinite, Bool.and_eq_true, List.all_eq_true] at hfinite
  obtain ⟨⟨⟨⟨⟨hlength, hrate⟩, hpulses⟩, hloops⟩, hconditionals⟩, hdeclared⟩ := hfinite
  -- every member is found by its name wherever it stands, and then read back on its own
  obtain ⟨value, hfields, hvalues⟩ := fields?_of_transcript (by simp) h
  simp only [List.map_cons, List.map_nil, List.forall_mem_cons] at hfields hvalues
  obtain ⟨hname, hexperiment, htotal, hsampleRate, hrepeat, hps, hls, hcs, hvs, -⟩ := hvalues
  obtain ⟨pulses, hreadPulses, hlikePulses⟩ :=
    Pulse.list?_of_transcript (List.all_eq_true.mpr hpulses) hps
  obtain ⟨loops, hreadLoops, hlikeLoops⟩ := JsonValue.Transcript.list?_of_transcript
    (fun l hl _ => Loop.ofJson?_of_transcript (hloops l hl)) hls
  obtain ⟨conditionals, hreadConditionals, hlikeConditionals⟩ :=
    JsonValue.Transcript.list?_of_transcript
      (fun c hc _ => Conditional.ofJson?_of_transcript (hconditionals c hc)) hcs
  obtain ⟨declared, hreadDeclared, horder⟩ := table?_of_transcript
    (fun e he _ => Variable.ofJson?_of_transcript (hdeclared e he)) hvs
  refine ⟨{ s with pulses, loops, conditionals, declared }, ?_,
    rfl, hlikePulses, hlikeLoops, hlikeConditionals, horder⟩
  simp only [Sequence.ofJson?, hfields, string?_of_transcript hname,
    string?_of_transcript hexperiment, Duration.ofJson?_of_transcript hlength htotal,
    float?_of_transcript hrate hsampleRate, nat32?_of_transcript hrepeat, hreadPulses,
    hreadLoops, hreadConditionals, hreadDeclared,
    Option.bind_eq_bind, Option.bind_some, Option.pure_def]

end Reading

/-! ## Result -/

/-- Reading undoes writing: a sequence without infinities and NaN is read from its own document, and
    from every text of that document. If the text keeps the order of members, what is read is the
    sequence itself; if it does not, this may change the order of tables and nothing else. -/
theorem Sequence.ofJson?_toJson {s : Sequence} (hfinite : s.isFinite = true) :
    Sequence.ofJson? s.toJson = some s
      ∧ (∀ text v, JsonValue.read? text = some v → s.toJson.Transcript .kept v →
          Sequence.ofJsonText? text = some s)
      ∧ ∀ text v, JsonValue.read? text = some v → s.toJson.Transcript .free v →
          ∃ t, Sequence.ofJsonText? text = some t ∧ s.Alike .free t := by
  have hkept : ∀ v, s.toJson.Transcript .kept v → Sequence.ofJson? v = some s := by
    intro v h
    obtain ⟨t, hread, halike⟩ := Sequence.ofJson?_of_transcript hfinite h
    rw [hread, halike.eq]
  refine ⟨hkept _ (.refl .kept s.toJson), fun text v htext h => ?_, fun text v htext h => ?_⟩
  · rw [Sequence.ofJsonText?, htext, Option.bind_some, hkept v h]
  · rw [Sequence.ofJsonText?, htext, Option.bind_some]
    exact Sequence.ofJson?_of_transcript hfinite h

/-- A pulse with a free-form parameter named like one that is not, which is bound, and another that
    is a text; a loop and a conditional; and a variable kept under a name that is not its own. -/
def tagged : Sequence :=
  let plain := Pulse.new "mw" 1
  let bound : Pulse :=
    { plain with
      parameters := ⟨none, some (-90.0), none,
        .ofList [("note", .text "x"), ("amplitude", .number 0.5)]⟩
      isFixed := true
      bindings := [⟨"tau", .duration⟩, ⟨"tau", .parameter (.extra "amplitude")⟩] }
  { Sequence.empty with
    name := "tagged", pulses := [bound, plain], loops := [.of 3 [plain]],
    conditionals := [.of "bright" [bound] []],
    declared := .ofList [("t", ⟨"tau", 0.0, 2e-6, 5, .time⟩)] }

theorem tagged_ofJson?_toJson :
    tagged.isFinite = true ∧ Sequence.ofJson? tagged.toJson = some tagged := by
  have hfinite : tagged.isFinite = true := by decide +kernel
  exact ⟨hfinite, (Sequence.ofJson?_toJson hfinite).1⟩

end PulseTrain
