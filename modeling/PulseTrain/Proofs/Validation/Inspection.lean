import PulseTrain.Proofs.Validation

/-! # What validation reports

    Validation stops at the first violation. One could as well go through the sequence to its end,
    thing by thing, and list all that is wrong with each: validation reports the head of that list.
    So it says what is valid in a way that has no order, and blames the first thing in the order of
    inspection that breaks a rule.

    * **Inspection**: `Sequence.items` lists the things in their order, `Item.violations` what is
      wrong with one of them;
    * **Checks**: `validate_eq_report`, with a lemma for each kind of thing;
    * **Predicate**: `Sequence.Valid` says in one place what a valid sequence is, and
      `allowed_iff_valid` that this is what the rules come to;
    * **Result**: `validate_verdict`.
-/

namespace PulseTrain

variable {settings : Settings} {s : Sequence} {p : Pulse} {l : Loop} {c : Conditional}
  {e : ValidationError}

/-! ## Inspection -/

/-- A thing that validation looks at. -/
inductive Item where
  /-- The sequence as a whole. -/
  | whole
  /-- A pulse of the sequence itself. -/
  | topLevel (p : Pulse)
  /-- Loops are counted from one. -/
  | loop (number : ℕ) (l : Loop)
  | conditional (c : Conditional)
  /-- A pulse of a block. -/
  | inner (p : Pulse)

/-- What an item is called in reports. A sequence without a name cannot be called by it. -/
def Item.subject (s : Sequence) : Item → Subject
  | whole => if Text.trim s.name.toList = [] then .anonymous else .sequence s.name
  | topLevel p => .pulse p.name
  | loop number _ => .loop number
  | conditional c => .conditional c.condition
  | inner p => .pulse p.name

/-- A loop before its pulses. -/
def Loop.items (number : ℕ) (l : Loop) : List Item :=
  .loop number l :: l.pulses.map .inner

/-- A conditional before the pulses of the one branch and then of the other. -/
def Conditional.items (c : Conditional) : List Item :=
  .conditional c :: (c.whenTrue ++ c.whenFalse).map .inner

/-- The **order of inspection**: the sequence, its own pulses, loop by loop, conditional by
    conditional. -/
def Sequence.items (s : Sequence) : List Item :=
  .whole :: (s.pulses.map .topLevel ++
    ((s.loops.zipIdx 1).flatMap (fun (l, number) => l.items number) ++
      s.conditionals.flatMap Conditional.items))

/-- A violation, if it is the case. -/
def violationIf (broken : Prop) [Decidable broken] (violation : Violation) : List Violation :=
  if broken then [violation] else []

def Pulse.violations (settings : Settings) (p : Pulse) : List Violation :=
  violationIf (p.timing.seconds < 0.0) (.startsTooEarly p.timing) ++
    violationIf (¬(settings.channels.first ≤ p.channel ∧ p.channel ≤ settings.channels.last))
      (.unsupportedChannel p.channel settings.channels)

def timesViolations (start ending : Duration) : List Violation :=
  violationIf (start.seconds < 0.0) (.startsTooEarly start) ++
    violationIf (ending.seconds < start.seconds) (.reversed start ending)

/-- All that is wrong with an item, in the order of the rules. -/
def Item.violations (settings : Settings) (s : Sequence) : Item → List Violation
  | whole =>
    violationIf (Text.trim s.name.toList = []) .emptyName ++
      (violationIf (s.totalDuration.seconds < 0.0) (.negativeTotal s.totalDuration) ++
        violationIf (canSampleAt s.sampleRate = false) (.badSampleRate s.sampleRate))
  | topLevel p =>
    p.violations settings ++
      violationIf (s.totalDuration.seconds + slack < p.ending.seconds)
        (.endsLate p.ending s.totalDuration)
  | loop _ l => violationIf (l.iterations = 0) .noIterations ++ timesViolations l.opensAt l.closesAt
  | conditional c => timesViolations c.opensAt c.closesAt
  | inner p => p.violations settings

/-- What is wrong with an item, as errors about it. -/
def Item.errors (settings : Settings) (s : Sequence) (item : Item) : List ValidationError :=
  (item.violations settings s).map (.mk (item.subject s))

/-- All that is wrong with a sequence, in the order of inspection. -/
def Sequence.errors (settings : Settings) (s : Sequence) : List ValidationError :=
  s.items.flatMap (Item.errors settings s)

/-! ## Checks -/

/-- The report of the first of some errors. -/
def report : List ValidationError → Except ValidationError Unit
  | [] => .ok ()
  | e :: _ => .error e

theorem report_append (es es' : List ValidationError) :
    report (es ++ es') = (report es >>= fun _ => report es') := by
  cases es with
  | nil => rfl
  | cons e es => rfl

/-- Checks of some things, each of which reports the first of its errors, report the first of all.
    -/
theorem forM_eq_report {α : Type} {check : α → Except ValidationError Unit}
    {errors : α → List ValidationError} (h : ∀ a, check a = report (errors a)) (as : List α) :
    as.forM check = report (as.flatMap errors) := by
  induction as with
  | nil => rfl
  | cons a as ih =>
    rw [List.flatMap_cons, report_append, ← h, ← ih]
    rfl

theorem report_eq_error_iff {es : List ValidationError} :
    report es = .error e ↔ es.head? = some e := by
  cases es with
  | nil => simp [report]
  | cons e' es => simp [report]

variable {subject : Subject}

theorem refuse_eq_report {condition : Bool} {broken : Prop} [Decidable broken]
    {violation : Violation} (h : condition = true ↔ broken) :
    refuse condition subject violation =
      report ((violationIf broken violation).map (.mk subject)) := by
  unfold refuse violationIf
  by_cases hbroken : broken
  · rw [if_pos hbroken, if_pos (h.mpr hbroken)]
    rfl
  · rw [if_neg hbroken, if_neg fun hcondition => hbroken (h.mp hcondition)]
    rfl

theorem checkPulse_eq_report :
    checkPulse settings p = report ((p.violations settings).map (.mk (.pulse p.name))) := by
  unfold checkPulse Pulse.violations
  rw [List.map_append, report_append]
  congr 1
  · exact refuse_eq_report decide_eq_true_iff
  · funext _
    exact refuse_eq_report (by simp [ChannelRange.contains, imp_iff_not_or])

theorem checkTimes_eq_report {start ending : Duration} :
    checkTimes subject start ending =
      report ((timesViolations start ending).map (.mk subject)) := by
  unfold checkTimes timesViolations
  rw [List.map_append, report_append]
  congr 1
  · exact refuse_eq_report decide_eq_true_iff
  · funext _
    exact refuse_eq_report decide_eq_true_iff

theorem checkTopLevelPulse_eq_report :
    checkTopLevelPulse settings s.totalDuration p =
      report ((Item.topLevel p).errors settings s) := by
  unfold checkTopLevelPulse Item.errors Item.violations Item.subject
  rw [List.map_append, report_append, checkPulse_eq_report]
  congr 1
  funext _
  exact refuse_eq_report decide_eq_true_iff

/-- The pulses of a block are checked one after the other. -/
theorem forM_checkPulse_eq_report (ps : List Pulse) :
    ps.forM (checkPulse settings) =
      report ((ps.map Item.inner).flatMap (Item.errors settings s)) := by
  rw [List.flatMap_map]
  exact forM_eq_report (fun _ => checkPulse_eq_report) ps

theorem checkLoop_eq_report (number : ℕ) :
    checkLoop settings l number = report ((l.items number).flatMap (Item.errors settings s)) := by
  unfold checkLoop Loop.items
  rw [List.flatMap_cons, report_append, ← forM_checkPulse_eq_report]
  unfold Item.errors Item.violations Item.subject
  rw [List.map_append, report_append, bind_assoc, checkTimes_eq_report]
  congr 1
  exact refuse_eq_report (by simp)

theorem checkConditional_eq_report :
    checkConditional settings c = report (c.items.flatMap (Item.errors settings s)) := by
  unfold checkConditional Conditional.items
  rw [List.flatMap_cons, report_append, ← forM_checkPulse_eq_report, checkTimes_eq_report]
  rfl

/-- What is wrong with the sequence as a whole is reported under its name, if it has one. -/
theorem checkWhole_eq_report {rest : Except ValidationError Unit} :
    (do
      refuse (Text.trim s.name.toList).isEmpty .anonymous .emptyName
      refuse s.totalDuration.isNegative (.sequence s.name) (.negativeTotal s.totalDuration)
      refuse (!canSampleAt s.sampleRate) (.sequence s.name) (.badSampleRate s.sampleRate)
      rest) = (report (Item.whole.errors settings s) >>= fun _ => rest) := by
  unfold Item.errors Item.violations Item.subject
  by_cases hname : Text.trim s.name.toList = []
  · -- the name comes first, so nothing else is reported
    simp [hname, refuse, violationIf, report, bind, Except.bind]
  · rw [if_neg hname, List.map_append, List.map_append, report_append, report_append, bind_assoc,
      bind_assoc]
    congr 1
    · -- the first rule is kept, and what it would say goes by no name
      rw [violationIf, if_neg hname]
      exact refuse_ok.mpr (by simpa using hname)
    funext _
    congr 1
    · exact refuse_eq_report decide_eq_true_iff
    funext _
    congr 1
    exact refuse_eq_report (by simp)

/-- **Checks**: validation reports the first of all errors. -/
theorem validate_eq_report : validate settings s = report (s.errors settings) := by
  -- a loop is checked together with its number
  have hloops : ((s.loops.zipIdx 1).forM fun (l, number) => checkLoop settings l number) =
      report ((s.loops.zipIdx 1).flatMap fun (l, number) =>
        (l.items number).flatMap (Item.errors settings s)) :=
    forM_eq_report (fun loop : Loop × ℕ => checkLoop_eq_report loop.2) _
  unfold validate Sequence.errors Sequence.items
  rw [checkWhole_eq_report, forM_eq_report fun _ => checkTopLevelPulse_eq_report, hloops,
    forM_eq_report fun _ => checkConditional_eq_report, List.flatMap_cons, List.flatMap_append,
    List.flatMap_append, List.flatMap_map, List.flatMap_assoc, List.flatMap_assoc, report_append,
    report_append, report_append]

/-! ## Predicate -/

/-- A **valid** sequence. All comparisons are those of doubles: a NaN is neither negative nor before
    or after any time. -/
structure Sequence.Valid (settings : Settings) (s : Sequence) : Prop where
  named : Text.trim s.name.toList ≠ []
  lasts : ¬s.totalDuration.seconds < 0.0
  rate : canSampleAt s.sampleRate = true
  starts : ∀ p ∈ s.everyPulse, ¬p.timing.seconds < 0.0
  channels : ∀ p ∈ s.everyPulse,
    settings.channels.first ≤ p.channel ∧ p.channel ≤ settings.channels.last
  ends : ∀ p ∈ s.pulses, ¬s.totalDuration.seconds + slack < p.ending.seconds
  runs : ∀ l ∈ s.loops, 0 < l.iterations
  loops : ∀ l ∈ s.loops, ¬l.opensAt.seconds < 0.0 ∧ ¬l.closesAt.seconds < l.opensAt.seconds
  conditionals : ∀ c ∈ s.conditionals,
    ¬c.opensAt.seconds < 0.0 ∧ ¬c.closesAt.seconds < c.opensAt.seconds

theorem allowed_pulse_iff : p.Allowed settings ↔ ¬p.timing.seconds < 0.0 ∧
    settings.channels.first ≤ p.channel ∧ p.channel ≤ settings.channels.last := by
  constructor
  · rintro ⟨hstarts, hchannel⟩
    refine ⟨of_decide_eq_false hstarts, ?_⟩
    simpa [ChannelRange.contains] using hchannel
  · rintro ⟨hstarts, hchannel⟩
    refine ⟨decide_eq_false hstarts, ?_⟩
    simpa [ChannelRange.contains] using hchannel

theorem ordered_iff {start ending : Duration} :
    Ordered start ending ↔ ¬start.seconds < 0.0 ∧ ¬ending.seconds < start.seconds :=
  ⟨fun h => ⟨of_decide_eq_false h.starts, h.ends⟩, fun h => ⟨decide_eq_false h.1, h.2⟩⟩

/-- The rules, thing by thing, come to this predicate. -/
theorem allowed_iff_valid : s.Allowed settings ↔ s.Valid settings := by
  constructor
  · intro h
    -- the rules for every pulse stand in three places, one for each place of a pulse
    have hpulse : ∀ p ∈ s.everyPulse, p.Allowed settings := by
      intro p hp
      obtain hp | ⟨l, hl, hp⟩ | ⟨c, hc, hp⟩ := Sequence.mem_everyPulse.mp hp
      · exact (h.pulses p hp).1
      · exact (h.loops l hl).pulses p hp
      · exact (h.conditionals c hc).pulses p hp
    exact {
      named := by simpa using h.named
      lasts := of_decide_eq_false h.lasts
      rate := h.rate
      starts := fun p hp => (allowed_pulse_iff.mp (hpulse p hp)).1
      channels := fun p hp => (allowed_pulse_iff.mp (hpulse p hp)).2
      ends := fun p hp => of_decide_eq_false (h.pulses p hp).2
      runs := fun l hl => UInt32.pos_iff_ne_zero.mpr (h.loops l hl).runs
      loops := fun l hl => ordered_iff.mp (h.loops l hl).times
      conditionals := fun c hc => ordered_iff.mp (h.conditionals c hc).times }
  · intro h
    have hpulse : ∀ p ∈ s.everyPulse, p.Allowed settings :=
      fun p hp => allowed_pulse_iff.mpr ⟨h.starts p hp, h.channels p hp⟩
    refine ⟨by simpa using h.named, decide_eq_false h.lasts, h.rate, ?_, ?_, ?_⟩
    · intro p hp
      exact ⟨hpulse p (Sequence.mem_everyPulse.mpr (.inl hp)), decide_eq_false (h.ends p hp)⟩
    · intro l hl
      refine ⟨UInt32.pos_iff_ne_zero.mp (h.runs l hl), ordered_iff.mpr (h.loops l hl), ?_⟩
      -- a pulse of a loop is one of the pulses of the sequence
      exact fun p hp => hpulse p (Sequence.mem_everyPulse.mpr (.inr (.inl ⟨l, hl, hp⟩)))
    · intro c hc
      refine ⟨ordered_iff.mpr (h.conditionals c hc), ?_⟩
      exact fun p hp => hpulse p (Sequence.mem_everyPulse.mpr (.inr (.inr ⟨c, hc, hp⟩)))

/-! ## Result -/

/-- An error about the **first offender**: nothing that is inspected before it is wrong, and the
    first thing wrong with it is what is reported. -/
def Sequence.FirstOffender (settings : Settings) (s : Sequence) (e : ValidationError) : Prop :=
  ∃ before item after, s.items = before ++ item :: after ∧
    (∀ i ∈ before, i.violations settings s = []) ∧
    (item.violations settings s).head? = some e.violation ∧ e.subject = item.subject s

theorem head?_errors_eq_some_iff {item : Item} : (item.errors settings s).head? = some e ↔
    (item.violations settings s).head? = some e.violation ∧ e.subject = item.subject s := by
  unfold Item.errors
  rw [List.head?_map, Option.map_eq_some_iff]
  constructor
  · rintro ⟨violation, hfirst, rfl⟩
    exact ⟨hfirst, rfl⟩
  · rintro ⟨hfirst, hsubject⟩
    exact ⟨e.violation, hfirst, by rw [← hsubject]⟩

theorem head?_errors_eq_none_iff {item : Item} :
    (item.errors settings s).head? = none ↔ item.violations settings s = [] := by
  unfold Item.errors
  rw [List.head?_eq_none_iff, List.map_eq_nil_iff]

theorem validate_eq_error_iff : validate settings s = .error e ↔ s.FirstOffender settings e := by
  -- the first of all errors is the first one of the first item that has any
  rw [validate_eq_report, report_eq_error_iff, Sequence.errors, List.head?_flatMap,
    List.findSome?_eq_some_iff]
  simp only [head?_errors_eq_some_iff, head?_errors_eq_none_iff]
  constructor
  · rintro ⟨before, item, after, hitems, hitem, hbefore⟩
    exact ⟨before, item, after, hitems, hbefore, hitem⟩
  · rintro ⟨before, item, after, hitems, hbefore, hitem⟩
    exact ⟨before, item, after, hitems, hitem, hbefore⟩

/-- **Validation** decides what is valid, and blames the first offender for what is not. -/
theorem validate_verdict (settings : Settings) (s : Sequence) :
    (validate settings s = .ok () ↔ s.Valid settings) ∧
      ∀ e, validate settings s = .error e ↔ s.FirstOffender settings e :=
  ⟨validate_ok.trans allowed_iff_valid, fun _ => validate_eq_error_iff⟩

/-- The pulse is inspected before the loop, and its channel before its end. -/
example :
    validate {} { Sequence.empty with
      name := "astray"
      pulses := [{ Pulse.new "probe" 24 with duration := ⟨1.0⟩ }]
      loops := [Loop.of 0 []] } =
      .error ⟨.pulse "probe", .unsupportedChannel 24 ⟨0, 23⟩⟩ := by
  decide +kernel

end PulseTrain
