import PulseTrain.Proofs.Script.Declarable
import PulseTrain.Proofs.Script.Validated

/-! # The numbers of a pulse

    A literal may overflow to an infinity of either sign, but no literal is NaN, and no unit makes
    it one. So every field of a pulse that is read is given a number, also if it is bound to a
    variable and takes the start value.

    * **Fields**: `isNaN_literal`, and `readField_timed` as the step;
    * **Line**: `read_timed`, the times of a pulse are numbers;
    * **Sequence**: `timed_of_read`.
-/

namespace PulseTrain

structure Pulse.Timed (p : Pulse) : Prop where
  timing : p.timing.IsNumber
  duration : p.duration.IsNumber

theorem Pulse.timed_new (kind : String) (channel : UInt16) : (Pulse.new kind channel).Timed := by
  have hzero : Duration.zero.IsNumber := by decide +kernel
  exact ⟨hzero, hzero⟩

/-- Writing a number leaves all times numbers, whatever the field is. -/
theorem Pulse.Timed.write {p : Pulse} (h : p.Timed) (field : Field) {x : Float}
    (hx : x.isNaN = false) : (p.write field x).Timed := by
  match field with
  | .timing => exact ⟨hx, h.duration⟩
  | .duration => exact ⟨h.timing, hx⟩
  | .amplitude => exact ⟨h.timing, h.duration⟩
  | .parameter .amplitude => exact ⟨h.timing, h.duration⟩
  | .parameter .phase => exact ⟨h.timing, h.duration⟩
  | .parameter .frequency => exact ⟨h.timing, h.duration⟩
  | .parameter (.extra _) => exact ⟨h.timing, h.duration⟩

namespace Script

open Success

variable {declared : Table Variable} {p q : Pulse}

/-! ## Fields -/

theorem isNaN_literal {field : Field} {text : List Char} {x : Float}
    (h : literal field text = .ok x) : x.isNaN = false := by
  -- every field has a reader of its own, and none of them reads a NaN
  match field, h with
  | .timing, h =>
    obtain ⟨t, ht, rfl⟩ := map_ok.mp h
    exact Expression.isNaN_time ht
  | .duration, h =>
    obtain ⟨t, ht, rfl⟩ := map_ok.mp h
    exact Expression.isNaN_time ht
  | .amplitude, h => exact Expression.isNaN_amplitude h
  | .parameter .amplitude, h => exact Expression.isNaN_amplitude h
  | .parameter .phase, h => exact Expression.isNaN_phase h
  | .parameter .frequency, h => exact Expression.isNaN_frequency h
  | .parameter (.extra _), h =>
    simp only [literal] at h
    split at h
    · next hnumber =>
      cases h
      exact Expression.isNaN_number? hnumber
    · cases h

def StartsWithNumbers (declared : Table Variable) : Prop :=
  ∀ name v, declared.get? name = some v → v.start.isNaN = false

/-- **Step**: the times of a pulse stay numbers when a field is read. -/
theorem readField_timed {field : Field} {text : List Char} (hstarts : StartsWithNumbers declared)
    (hp : p.Timed) (h : readField declared p field text = .ok q) : q.Timed := by
  rcases readField_cases h with ⟨v, hfound, rfl⟩ | ⟨x, _, hliteral, rfl⟩ | ⟨key, _, _, _, _, rfl⟩
  · have hv := hstarts _ v (boundVariable?_ok hfound).1
    exact ⟨(hp.write field hv).timing, (hp.write field hv).duration⟩
  · exact hp.write field (isNaN_literal hliteral)
  · exact ⟨hp.timing, hp.duration⟩

theorem readParameter_timed {item : List Char} (hstarts : StartsWithNumbers declared)
    (hp : p.Timed) (h : readParameter declared p item = .ok q) : q.Timed := by
  obtain ⟨_, _, _, hfield⟩ := readParameter_ok_iff.mp h
  exact readField_timed hstarts hp hfield

/-! ## Lines -/

/-- **Line**: the times of a pulse that is read are numbers. -/
theorem read_timed {line : List Char} (hstarts : StartsWithNumbers declared)
    (h : PulseLine.read declared line = .ok q) : q.Timed := by
  obtain ⟨_, _, _, _, _, _, hfields⟩ := read_ok h
  obtain ⟨_, _, _, _, timed, shape, lasting, played, _, _, htiming, _, _, hduration, _,
    hamplitude, hparameters⟩ := readFields_ok hfields
  have htimed := readField_timed hstarts (Pulse.timed_new _ _) htiming
  have hshaped : Pulse.Timed { timed with shape, isFixed := (removeMarkers line).2 } :=
    ⟨htimed.timing, htimed.duration⟩
  have hlasting := readField_timed hstarts hshaped hduration
  have hplayed := readField_timed hstarts hlasting hamplitude
  exact foldlM_ok (fun _ _ _ => readParameter_timed hstarts) hplayed hparameters

theorem FromLine.timed (hstarts : StartsWithNumbers declared) (h : FromLine declared p) :
    p.Timed := by
  obtain ⟨earlier, line, q, hextends, hread, hname⟩ := h
  have hearlier : StartsWithNumbers earlier := fun name v hv => hstarts name v (hextends name v hv)
  have hq := read_timed hearlier hread
  rw [hname]
  exact ⟨hq.timing, hq.duration⟩

/-! ## Sequences -/

/-- **Invariant**: whatever is read, variables start with numbers. -/
theorem State.startsWithNumbers_invariant :
    State.Invariant fun s => StartsWithNumbers s.sequence.declared :=
  State.declared_invariant fun h => (readDeclaration_ok h).2.2.2

/-- **Sequence**: the times of all pulses are numbers. -/
theorem timed_of_read {registry : Registry} {settings : Settings} {text : String} {d : Sequence}
    (h : (readWith registry settings text).result = .ok d) : ∀ p ∈ d.everyPulse, p.Timed := by
  have hstart : StartsWithNumbers (State.start settings).sequence.declared := by
    intro name v hv
    cases hv
  obtain ⟨s, hstarts, hfinish⟩ := State.startsWithNumbers_invariant.readWith hstart h
  rw [← (State.finish_ok hfinish).2.1] at hstarts
  exact fun p hp => ((traced_of_read h).2 p hp).timed hstarts

end Script

end PulseTrain
