import PulseTrain.Proofs.Scan.Timely
import PulseTrain.Proofs.Script.Provenance
import PulseTrain.Proofs.Validation

/-! # Validated scripts without a variable

    Nobody looks after negative times alone. A pulse line is refused if its duration is negative,
    and validation, which does not look at durations, refuses a negative start and a block that runs
    backwards. The builder computes every start anew. Together they see to it that a script without
    a variable that passes validation is never refused for a negative time, not even with infinite
    literals, whose differences are NaN.

    * **Line**: `read_lasts`, no pulse that is read has a negative duration;
    * **Sequence**: `timely_of_read`, and `unbound_of_read` if no variable is declared;
    * **Result**: `build_of_validated`.
-/

namespace PulseTrain

namespace Script

open Success Scan

variable {registry : Registry} {settings : Settings} {declared : Table Variable} {p q : Pulse}
  {text : String} {d : Sequence}

/-! ## Lines -/

/-- **Step**: a field that is read is not the duration, unless it is. -/
theorem duration_readField {field : Field} (hfield : field ≠ .duration) {text : List Char}
    (h : readField declared p field text = .ok q) : q.duration = p.duration := by
  rcases readField_cases h with ⟨v, _, rfl⟩ | ⟨x, _, _, rfl⟩ | ⟨key, _, _, _, _, rfl⟩
  · exact Pulse.duration_write hfield p v.start
  · exact Pulse.duration_write hfield p x
  · rfl

theorem duration_readParameter {item : List Char}
    (h : readParameter declared p item = .ok q) : q.duration = p.duration := by
  obtain ⟨_, _, _, hread⟩ := readParameter_ok_iff.mp h
  exact duration_readField (by simp) hread

/-- **Line**: the duration of a pulse that is read is not negative, be it written or the start value
    of a variable. -/
theorem read_lasts {line : List Char} (h : PulseLine.read declared line = .ok q) :
    q.duration.isNegative = false := by
  obtain ⟨_, _, _, _, _, _, hfields⟩ := read_ok h
  obtain ⟨_, _, _, _, _, _, lasting, played, _, _, _, _, _, _, hlength, hamplitude,
    hparameters⟩ := readFields_ok hfields
  -- what is read behind the check leaves the duration alone
  have hplayed : played.duration.isNegative = false := by
    rw [duration_readField (by simp) hamplitude]
    exact Bool.eq_false_iff.mpr hlength
  refine foldlM_ok (P := fun p => p.duration.isNegative = false) ?_ hplayed hparameters
  intro p item p' hp hread
  rw [duration_readParameter hread]
  exact hp

theorem FromLine.lasts (h : FromLine declared p) : p.duration.isNegative = false := by
  obtain ⟨_, _, q, _, hread, hname⟩ := h
  rw [hname]
  show q.duration.isNegative = false
  exact read_lasts hread

/-! ## Sequences -/

/-- Every pulse of a sequence that was read is from a line. -/
theorem traced_of_read (h : (readWith registry settings text).result = .ok d) :
    Named d.declared ∧ ∀ p ∈ d.everyPulse, FromLine d.declared p := by
  obtain ⟨s, htraced, hfinish⟩ :=
    State.traced_invariant.readWith (State.start_traced settings) h
  obtain ⟨_, hdeclared, _, hpulses⟩ := State.finish_ok hfinish
  rw [hdeclared, hpulses]
  exact ⟨htraced.named, htraced.fromLine⟩

/-- A sequence that was read and passes validation has no negative times. -/
theorem timely_of_read {limits : Settings} (h : (readWith registry settings text).result = .ok d)
    (hvalid : validate limits d = .ok ()) : d.Timely := by
  have hallowed := validate_ok.mp hvalid
  have hlasts : ∀ p ∈ d.everyPulse, p.duration.isNegative = false :=
    fun p hp => ((traced_of_read h).2 p hp).lasts
  refine ⟨?_, ?_⟩
  · intro p hp
    have hmem : p ∈ d.everyPulse := Sequence.mem_everyPulse.mpr (.inl hp)
    exact ⟨(hallowed.pulses p hp).1.starts, hlasts p hmem⟩
  · intro l hl
    have hloop := hallowed.loops l hl
    refine ⟨Duration.isNegative_sub hloop.times.ends, ?_⟩
    intro p hp
    have hmem : p ∈ d.everyPulse := Sequence.mem_everyPulse.mpr (.inr (.inl ⟨l, hl, hp⟩))
    exact ⟨(hloop.pulses p hp).starts, hlasts p hmem⟩

/-- Without a variable nothing can be bound. -/
theorem unbound_of_read (h : (readWith registry settings text).result = .ok d)
    (hnone : d.declared.size = 0) : ∀ p ∈ d.everyPulse, p.bindings = [] := by
  obtain ⟨hnamed, hlines⟩ := traced_of_read h
  intro p hp
  rw [List.eq_nil_iff_forall_not_mem]
  intro b hb
  obtain ⟨v, hv, _⟩ := (hlines p hp).justified hnamed b hb
  have hempty : d.declared.entries = [] := List.eq_nil_of_length_eq_zero hnone
  unfold Table.get? at hv
  rw [hempty] at hv
  cases hv

/-! ## Result -/

/-- **Validated scripts**: without a variable, a script that was read and passes validation is
    built, or its length or a pulse has no sample, or two pulses overlap. It never fails for a
    negative time, whatever the settings are, and an error that names a point names the first. -/
theorem build_of_validated {limits : Settings} {building : BuildSettings} {e : ScanError}
    (h : (readWith registry settings text).result = .ok d) (hnone : d.declared.size = 0)
    (hvalid : validate limits d = .ok ()) (hfails : (buildAll d building).result = .error e) :
    (∃ overflow, e = .sequenceOffGrid overflow) ∨
      (∃ pulse overflow, e = .pulseOffGrid 0 pulse overflow) ∨
      ∃ channel first second firstEnd secondStart,
        e = .overlap 0 channel first second firstEnd secondStart := by
  have hempty : d.declared.values.head? = none := by
    have hentries : d.declared.entries = [] := List.eq_nil_of_length_eq_zero hnone
    unfold Table.values
    rw [hentries]
    rfl
  rcases buildAll_error hfails with hstart | ⟨length, k, hk, hpoint⟩
  · -- the scan is not started, for a check that validation and reading have not made
    have hbindings : verifyBindings d.declared.values.head? d.everyPulse = .ok () := by
      rw [verifyBindings_ok]
      intro p hp b hb
      rw [unbound_of_read h hnone p hp] at hb
      cases hb
    rw [start?_eq, (validate_ok.mp hvalid).rate, if_neg (by decide), if_neg (by omega),
      hbindings] at hstart
    cases hlength : Samples.ofDuration d.totalDuration d.sampleRate with
    | error overflow =>
      rw [hlength] at hstart
      cases hstart
      exact .inl ⟨overflow, rfl⟩
    | ok length =>
      rw [hlength] at hstart
      cases hstart
  · -- there is one point only, and no value is put in
    have hfirst : k = 0 := by
      unfold pointCount at hk
      rw [hempty] at hk
      exact Nat.lt_one_iff.mp hk
    have hvalue : valueOf? d k = none := by
      unfold valueOf?
      rw [hempty]
      rfl
    rw [hvalue, hfirst] at hpoint
    cases buildTimeline_failsOnly (timely_of_read h hvalid) length e hpoint with
    | offGrid pulse overflow => exact .inr (.inl ⟨pulse, overflow, rfl⟩)
    | overlap channel first second firstEnd secondStart =>
      exact .inr (.inr ⟨channel, first, second, firstEnd, secondStart, rfl⟩)

/-- A pulse in a loop that never begins: its start is an infinite literal, and so it is not negative
    and has no sample. -/
def endless : String :=
  "sequence: name=endless, duration=1s\nloop: 2\nlaser pulse on channel 2 at 1e999s, square, 1s, 1\nend"

theorem endless_build : ∃ d e, (readWith (fun _ => none) {} endless).result = .ok d ∧
    d.declared.size = 0 ∧ validate {} d = .ok () ∧ (buildAll d ⟨true⟩).result = .error e ∧
    e = .pulseOffGrid 0 "laser_1" ⟨1e999, 1e9⟩ ∧
    ((∃ overflow, e = .sequenceOffGrid overflow) ∨
      (∃ pulse overflow, e = .pulseOffGrid 0 pulse overflow) ∨
      ∃ channel first second firstEnd secondStart,
        e = .overlap 0 channel first second firstEnd secondStart) := by
  have hresults : (readWith (fun _ => none) {} endless).result.map (fun d =>
      (d.declared.size, validate {} d, (buildAll d ⟨true⟩).result)) =
        .ok (0, .ok (), .error (.pulseOffGrid 0 "laser_1" ⟨1e999, 1e9⟩)) := by
    decide +kernel
  obtain ⟨d, hread, hd⟩ := map_ok.mp hresults
  simp only [Prod.mk.injEq] at hd
  obtain ⟨hsize, hvalid, hfails⟩ := hd
  exact ⟨d, _, hread, hsize, hvalid, hfails, rfl, build_of_validated hread hsize hvalid hfails⟩

end Script

end PulseTrain
