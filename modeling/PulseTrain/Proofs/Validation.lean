import PulseTrain.Proofs.Failure
import PulseTrain.Proofs.Success
import PulseTrain.Validation

/-! # What validation accepts

    Validation goes through the rules one after the other and stops at the first violation. It is
    passed exactly if there is none, so what it accepts can be said without its order.

    * **Rules**: one structure for each kind of thing that is checked, with a lemma that the check
      decides it;
    * **Result**: `validate_ok`;
    * **Violations**: `Sequence.Violates` lists what is wrong with a sequence whose sample rate and
      whose blocks are in order, and `validate_failsOnly` says that nothing else is reported;
      `validate_errors` is about all sequences.
-/

namespace PulseTrain

open Success

variable {settings : Settings} {p : Pulse} {total start ending : Duration} {l : Loop}
  {c : Conditional} {s : Sequence}

theorem refuse_ok {condition : Bool} {subject : Subject} {violation : Violation} :
    refuse condition subject violation = .ok () ↔ condition = false := by
  unfold refuse
  cases condition with
  | false => simp
  | true => simp

/-- Two checks, of which the first comes to nothing but a failure. -/
theorem checks_ok {ε : Type} {x y : Except ε Unit} :
    (x >>= fun _ => y) = .ok () ↔ x = .ok () ∧ y = .ok () := by
  rw [bind_ok]
  constructor
  · rintro ⟨⟨⟩, hx, hy⟩
    exact ⟨hx, hy⟩
  · rintro ⟨hx, hy⟩
    exact ⟨(), hx, hy⟩

/-! ## Pulses -/

/-- The rules for every pulse. -/
structure Pulse.Allowed (settings : Settings) (p : Pulse) : Prop where
  starts : p.timing.isNegative = false
  channel : settings.channels.contains p.channel = true

theorem checkPulse_ok : checkPulse settings p = .ok () ↔ p.Allowed settings := by
  unfold checkPulse
  rw [checks_ok, refuse_ok, refuse_ok, Bool.not_eq_false']
  exact ⟨fun h => ⟨h.1, h.2⟩, fun h => ⟨h.starts, h.channel⟩⟩

theorem forM_checkPulse_ok {ps : List Pulse} :
    ps.forM (checkPulse settings) = .ok () ↔ ∀ p ∈ ps, p.Allowed settings := by
  rw [forM_ok]
  exact forall₂_congr fun p _ => checkPulse_ok

theorem checkTopLevelPulse_ok : checkTopLevelPulse settings total p = .ok () ↔
    p.Allowed settings ∧ liesAfter p.ending total = false := by
  unfold checkTopLevelPulse
  rw [checks_ok, checkPulse_ok, refuse_ok]

/-! ## Blocks -/

/-- The rules for the times of a block. -/
structure Ordered (start ending : Duration) : Prop where
  starts : start.isNegative = false
  ends : ¬ending < start

theorem checkTimes_ok {subject : Subject} :
    checkTimes subject start ending = .ok () ↔ Ordered start ending := by
  unfold checkTimes
  rw [checks_ok, refuse_ok, refuse_ok, decide_eq_false_iff_not]
  exact ⟨fun h => ⟨h.1, h.2⟩, fun h => ⟨h.starts, h.ends⟩⟩

structure Loop.Allowed (settings : Settings) (l : Loop) : Prop where
  runs : l.iterations ≠ 0
  times : Ordered l.opensAt l.closesAt
  pulses : ∀ p ∈ l.pulses, p.Allowed settings

theorem checkLoop_ok {number : Nat} :
    checkLoop settings l number = .ok () ↔ l.Allowed settings := by
  unfold checkLoop
  rw [checks_ok, checks_ok, refuse_ok, checkTimes_ok, forM_checkPulse_ok, beq_eq_false_iff_ne]
  exact ⟨fun h => ⟨h.1, h.2.1, h.2.2⟩, fun h => ⟨h.runs, h.times, h.pulses⟩⟩

structure Conditional.Allowed (settings : Settings) (c : Conditional) : Prop where
  times : Ordered c.opensAt c.closesAt
  pulses : ∀ p ∈ c.whenTrue ++ c.whenFalse, p.Allowed settings

theorem checkConditional_ok : checkConditional settings c = .ok () ↔ c.Allowed settings := by
  unfold checkConditional
  rw [checks_ok, checkTimes_ok, forM_checkPulse_ok]
  exact ⟨fun h => ⟨h.1, h.2⟩, fun h => ⟨h.times, h.pulses⟩⟩

/-! ## Sequences -/

structure Sequence.Allowed (settings : Settings) (s : Sequence) : Prop where
  named : (Text.trim s.name.toList).isEmpty = false
  lasts : s.totalDuration.isNegative = false
  rate : canSampleAt s.sampleRate = true
  pulses : ∀ p ∈ s.pulses, p.Allowed settings ∧ liesAfter p.ending s.totalDuration = false
  loops : ∀ l ∈ s.loops, l.Allowed settings
  conditionals : ∀ c ∈ s.conditionals, c.Allowed settings

/-- **Validation** is passed exactly by the sequences that keep all rules. -/
theorem validate_ok : validate settings s = .ok () ↔ s.Allowed settings := by
  unfold validate
  -- the checks in their order, each of which is made only if those before it pass
  rw [checks_ok, checks_ok, checks_ok, checks_ok, checks_ok, refuse_ok, refuse_ok, refuse_ok,
    Bool.not_eq_false']
  constructor
  · rintro ⟨hnamed, hlasts, hrate, hpulses, hloops, hconditionals⟩
    refine ⟨hnamed, hlasts, hrate, ?_, ?_, ?_⟩
    · intro p hp
      exact checkTopLevelPulse_ok.mp (forM_ok.mp hpulses p hp)
    · intro l hl
      -- the number of a loop is only what it is called in a report
      obtain ⟨i, hi, rfl⟩ := List.getElem_of_mem hl
      have hmem : (s.loops[i], i + 1) ∈ s.loops.zipIdx 1 := by
        rw [List.mem_zipIdx_iff_le_and_getElem?_sub]
        simp [hi]
      exact checkLoop_ok.mp (forM_ok.mp hloops _ hmem)
    · intro c hc
      exact checkConditional_ok.mp (forM_ok.mp hconditionals c hc)
  · intro h
    refine ⟨h.named, h.lasts, h.rate, ?_, ?_, ?_⟩
    · exact forM_ok.mpr fun p hp => checkTopLevelPulse_ok.mpr (h.pulses p hp)
    · refine forM_ok.mpr fun loop hloop => ?_
      exact checkLoop_ok.mpr (h.loops loop.1 (List.fst_mem_of_mem_zipIdx hloop))
    · exact forM_ok.mpr fun c hc => checkConditional_ok.mpr (h.conditionals c hc)

/-! ## Violations -/

/-- What can be wrong with a sequence apart from its sample rate and the times of its blocks. -/
inductive Sequence.Violates (settings : Settings) (s : Sequence) : ValidationError → Prop where
  | unnamed (h : (Text.trim s.name.toList).isEmpty = true) :
      Violates settings s ⟨.anonymous, .emptyName⟩
  | negative (h : s.totalDuration.isNegative = true) :
      Violates settings s ⟨.sequence s.name, .negativeTotal s.totalDuration⟩
  | early {p : Pulse} (hp : p ∈ s.everyPulse) (h : p.timing.isNegative = true) :
      Violates settings s ⟨.pulse p.name, .startsTooEarly p.timing⟩
  | unsupported {p : Pulse} (hp : p ∈ s.everyPulse)
      (h : settings.channels.contains p.channel = false) :
      Violates settings s ⟨.pulse p.name, .unsupportedChannel p.channel settings.channels⟩
  | late {p : Pulse} (hp : p ∈ s.pulses) (h : liesAfter p.ending s.totalDuration = true) :
      Violates settings s ⟨.pulse p.name, .endsLate p.ending s.totalDuration⟩
  | idle {i : ℕ} {l : Loop} (hl : s.loops[i]? = some l) (h : l.iterations = 0) :
      Violates settings s ⟨.loop (i + 1), .noIterations⟩

theorem refuse_failsOnly {P : ValidationError → Prop} {condition : Bool} {subject : Subject}
    {violation : Violation} (h : condition = true → P ⟨subject, violation⟩) :
    FailsOnly P (refuse condition subject violation) := by
  unfold refuse
  split
  · next hrefused => exact .error (h hrefused)
  · exact .ok ()

theorem checkPulse_failsOnly (hp : p ∈ s.everyPulse) :
    FailsOnly (s.Violates settings) (checkPulse settings p) := by
  refine (refuse_failsOnly (.early hp)).bind fun _ => refuse_failsOnly fun h => ?_
  exact .unsupported hp (by simpa using h)

theorem checkTopLevelPulse_failsOnly (hp : p ∈ s.pulses) :
    FailsOnly (s.Violates settings) (checkTopLevelPulse settings s.totalDuration p) := by
  have hmem : p ∈ s.everyPulse := Sequence.mem_everyPulse.mpr (.inl hp)
  exact (checkPulse_failsOnly hmem).bind fun _ => refuse_failsOnly (.late hp)

/-- Times that are in order are not refused. -/
theorem checkTimes_failsOnly {P : ValidationError → Prop} {subject : Subject}
    (h : Ordered start ending) : FailsOnly P (checkTimes subject start ending) := by
  rw [checkTimes_ok.mpr h]
  exact .ok ()

section Errors

variable {P : ValidationError → Prop}

theorem checkLoop_failsOnly (hP : ∀ e, s.Violates settings e → P e) {i : ℕ}
    (hl : s.loops[i]? = some l)
    (htimes : FailsOnly P (checkTimes (.loop (i + 1)) l.opensAt l.closesAt)) :
    FailsOnly P (checkLoop settings l (i + 1)) := by
  have hruns : FailsOnly P (refuse (l.iterations == 0) (.loop (i + 1)) .noIterations) :=
    refuse_failsOnly fun h => hP _ (.idle hl (eq_of_beq h))
  refine hruns.bind fun _ => htimes.bind fun _ => .forM fun p hp => ?_
  have hmem : p ∈ s.everyPulse :=
    Sequence.mem_everyPulse.mpr (.inr (.inl ⟨l, List.mem_of_getElem? hl, hp⟩))
  exact (checkPulse_failsOnly hmem).mono hP

theorem checkConditional_failsOnly (hP : ∀ e, s.Violates settings e → P e)
    (hc : c ∈ s.conditionals)
    (htimes : FailsOnly P (checkTimes (.conditional c.condition) c.opensAt c.closesAt)) :
    FailsOnly P (checkConditional settings c) := by
  refine htimes.bind fun _ => .forM fun p hp => ?_
  have hmem : p ∈ s.everyPulse := Sequence.mem_everyPulse.mpr (.inr (.inr ⟨c, hc, hp⟩))
  exact (checkPulse_failsOnly hmem).mono hP

/-- **Errors**: validation reports what is wrong with the sample rate, with the times of a block or
    with anything else. -/
theorem validate_errors (hP : ∀ e, s.Violates settings e → P e)
    (hrate : canSampleAt s.sampleRate = false →
      P ⟨.sequence s.name, .badSampleRate s.sampleRate⟩)
    (hloops : ∀ i l, s.loops[i]? = some l →
      FailsOnly P (checkTimes (.loop (i + 1)) l.opensAt l.closesAt))
    (hconditionals : ∀ c ∈ s.conditionals,
      FailsOnly P (checkTimes (.conditional c.condition) c.opensAt c.closesAt)) :
    FailsOnly P (validate settings s) := by
  unfold validate
  refine (refuse_failsOnly fun h => hP _ (.unnamed h)).bind fun _ => ?_
  refine (refuse_failsOnly fun h => hP _ (.negative h)).bind fun _ => ?_
  refine (refuse_failsOnly fun h => hrate (by simpa using h)).bind fun _ => ?_
  refine (FailsOnly.forM fun p hp => (checkTopLevelPulse_failsOnly hp).mono hP).bind fun _ => ?_
  refine (FailsOnly.forM fun loop hloop => ?_).bind fun _ => ?_
  · -- loops are counted from one
    obtain ⟨l, number⟩ := loop
    obtain ⟨hnumber, hl⟩ := List.mem_zipIdx_iff_le_and_getElem?_sub.mp hloop
    obtain ⟨i, rfl⟩ := Nat.exists_eq_add_of_le' hnumber
    exact checkLoop_failsOnly hP hl (hloops i l hl)
  · exact .forM fun c hc => checkConditional_failsOnly hP hc (hconditionals c hc)

end Errors

/-- **Violations**: if samples can be taken at the rate and no block runs backwards, validation
    reports something else that is wrong with the sequence, or nothing. -/
theorem validate_failsOnly (hrate : canSampleAt s.sampleRate = true)
    (hloops : ∀ l ∈ s.loops, Ordered l.opensAt l.closesAt)
    (hconditionals : ∀ c ∈ s.conditionals, Ordered c.opensAt c.closesAt) :
    FailsOnly (s.Violates settings) (validate settings s) := by
  refine validate_errors (fun _ he => he) ?_ ?_ ?_
  · intro hnot
    rw [hrate] at hnot
    cases hnot
  · exact fun i l hl => checkTimes_failsOnly (hloops l (List.mem_of_getElem? hl))
  · exact fun c hc => checkTimes_failsOnly (hconditionals c hc)

/-- A pulse is said to end late only if one of the sequence itself lies after the end. -/
theorem exists_late_of_validate {e : ValidationError} (h : validate settings s = .error e)
    (hlate : e.violation = .endsLate ending total) :
    ∃ p ∈ s.pulses, liesAfter p.ending s.totalDuration = true := by
  have htimes : ∀ subject start ending', FailsOnly
      (fun e => e.violation = .endsLate ending total →
        ∃ p ∈ s.pulses, liesAfter p.ending s.totalDuration = true)
      (checkTimes subject start ending') := fun _ _ _ =>
    (refuse_failsOnly fun _ h => by cases h).bind fun _ => refuse_failsOnly fun _ h => by cases h
  -- of the violations only `late` is reported in these words
  refine validate_errors ?_ ?_ (fun _ _ _ => htimes _ _ _) (fun _ _ => htimes _ _ _) e h hlate
  · intro e' hviolates hlate'
    cases hviolates with
    | late hp hafter => exact ⟨_, hp, hafter⟩
    | unnamed _ => cases hlate'
    | negative _ => cases hlate'
    | early _ _ => cases hlate'
    | unsupported _ _ => cases hlate'
    | idle _ _ => cases hlate'
  · intro _ h
    cases h

end PulseTrain
