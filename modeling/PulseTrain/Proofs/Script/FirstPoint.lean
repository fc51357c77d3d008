import PulseTrain.Proofs.Scan.Requests
import PulseTrain.Proofs.Scan.Still
import PulseTrain.Proofs.Script.StartValue

/-! # The first point plays what is written

    While a script is read, a bound field takes the start value of the variable. So the pulses of
    the sequence are those of the first point of its scan, if that point has the start value: no
    pulse grows and no bound timing is displaced, and so no pulse is moved.

    * **Fields**: `Written.span_of_bound`, a line writes timing and duration once each;
    * **Values**: `sameSpan_bind`, the start value leaves every pulse as it is;
    * **Result**: `first_point_as_written`.
-/

namespace PulseTrain.Script

open Scan Duration Success

/-! ## Fields that are written once -/

/-- Where the assignments of a line stand: one to the timing if there is a target, one to the
    duration, and no other to these two fields. -/
theorem place_of_assignment {target duration amplitude : List Char} {parameters : List (List Char)}
    {c : Assignment} (hc : c ∈ (Target.read? target).toList.map (⟨.timing, ·.time⟩)
      ++ [⟨.duration, duration⟩, ⟨.amplitude, amplitude⟩]
      ++ parameters.filterMap Assignment.ofItem?) :
    (∃ t, Target.read? target = some t ∧ c = ⟨.timing, t.time⟩) ∨ c = ⟨.duration, duration⟩ ∨
      (c.field ≠ .timing ∧ c.field ≠ .duration) := by
  rw [List.mem_append, List.mem_append] at hc
  rcases hc with (hc | hc) | hc
  · obtain ⟨t, ht, rfl⟩ := List.mem_map.mp hc
    exact .inl ⟨t, Option.mem_toList.mp ht, rfl⟩
  · rcases List.mem_pair.mp hc with rfl | rfl
    · exact .inr (.inl rfl)
    · exact .inr (.inr ⟨Field.noConfusion, Field.noConfusion⟩)
  · -- what follows behind the amplitude are parameters
    obtain ⟨item, _, hitem⟩ := List.mem_filterMap.mp hc
    obtain ⟨_, _, rfl⟩ := Option.map_eq_some_iff.mp hitem
    exact .inr (.inr ⟨Field.noConfusion, Field.noConfusion⟩)

/-- Timing and duration are written once on a line. -/
theorem assignments_unique {line : List Char} {a b : Assignment} (ha : a ∈ assignments line)
    (hb : b ∈ assignments line) (hfield : b.field = a.field)
    (hspan : a.field = .timing ∨ a.field = .duration) : b = a := by
  unfold assignments at ha hb
  split at ha
  · next target shape duration amplitude parameters hfields =>
    rw [hfields] at hb
    -- the timing and the duration have a place each, and no parameter of the line is one of them
    rcases place_of_assignment ha with ⟨t, ht, rfl⟩ | rfl | ⟨hnt, hnd⟩
    · rcases place_of_assignment hb with ⟨u, hu, rfl⟩ | rfl | ⟨hnt, _⟩
      · rw [ht] at hu
        cases hu
        rfl
      · cases hfield
      · exact absurd hfield hnt
    · rcases place_of_assignment hb with ⟨_, _, rfl⟩ | rfl | ⟨_, hnd⟩
      · cases hfield
      · rfl
      · exact absurd hfield hnd
    · exact absurd hspan (not_or.mpr ⟨hnt, hnd⟩)
  · cases ha

/-- A bound timing or duration holds the start value of the variable that is named. -/
theorem Written.span_of_bound {declared : Table Variable} {line : List Char} {p : Pulse}
    {field : Field} (h : Written declared (assignments line) p)
    (hspan : field = .timing ∨ field = .duration) (hbound : field ∈ p.bindings.map (·.field)) :
    ∃ name v, declared.get? name = some v ∧ p.held? field = some (.number v.start) := by
  obtain ⟨b, hb, rfl⟩ := List.mem_map.mp hbound
  rw [h.bindings] at hb
  obtain ⟨a, ha, hbinding⟩ := List.mem_filterMap.mp hb
  obtain ⟨v, hv, rfl⟩ := Option.map_eq_some_iff.mp hbinding
  -- the assignment that made the binding is the only one to this field
  have hlast : last? (assignments line) a.field = some a := by
    obtain ⟨c, hc⟩ := exists_last? ha
    have hfield : c.field = a.field := by simpa using List.find?_some hc
    have hmem : c ∈ assignments line := List.mem_reverse.mp (List.mem_of_find?_eq_some hc)
    rw [hc, assignments_unique ha hmem hfield hspan]
  refine ⟨_, v, Assignment.source?_ok hv, ?_⟩
  rw [h.held a.field a hlast]
  simp only [Assignment.value?, hv]

/-! ## Result -/

variable {registry : Registry} {settings : Settings} {text : String} {d : Sequence} {p : Pulse}

/-- A bound timing or duration in a sequence that has been read holds the start value of the one
    variable that there is. -/
theorem held_of_read {field : Field} (h : (readWith registry settings text).result = .ok d)
    (hp : p ∈ d.everyPulse) (hspan : field = .timing ∨ field = .duration)
    (hbound : field ∈ p.bindings.map (·.field)) :
    ∃ v, d.declared.values = [v] ∧ p.held? field = some (.number v.start) := by
  obtain ⟨hsize, hlines⟩ := exists_written h
  obtain ⟨_, a, _, _, _, hextends, _, _, hwritten⟩ := hlines p hp
  obtain ⟨name, v, hget, hheld⟩ := hwritten.span_of_bound hspan hbound
  exact ⟨v, values_of_get? hsize (hextends name v hget), hheld⟩

/-- A value that equals the start value of the variable leaves timing and duration as they are. -/
theorem sameSpan_bind {v : Variable} {x : Float}
    (h : (readWith registry settings text).result = .ok d) (hp : p ∈ d.everyPulse)
    (hfinite : FiniteSpan p) (hv : v ∈ d.declared.values) (hx : (x == v.start) = true) :
    SameSpan p (p.bind x) := by
  have hself : ∀ {a : Duration}, a.IsFinite → a.sameTime a = true := fun ha =>
    (sameTime_iff_value_eq ha ha).mpr rfl
  -- a bound span was written by a reference, so it holds the start value already
  have hheld : ∀ field, field = .timing ∨ field = .duration →
      field ∈ p.bindings.map (·.field) → p.held? field = some (.number v.start) := by
    intro field hspan hbound
    obtain ⟨w, hw, hheld⟩ := held_of_read h hp hspan hbound
    rw [hw, List.mem_singleton] at hv
    rw [hv]
    exact hheld
  constructor
  · rw [Pulse.timing_bind]
    split
    · next hbound =>
      rw [Pulse.timing_of_held? (hheld _ (Or.inl rfl) hbound)]
      exact hx
    · exact hself hfinite.1
  · rw [Pulse.duration_bind]
    split
    · next hbound =>
      rw [Pulse.duration_of_held? (hheld _ (Or.inr rfl) hbound)]
      exact hx
    · exact hself hfinite.2

/-- The value that is put in at the first point: none without a variable, and otherwise one that
    equals its start value. -/
theorem valueOf?_cases
    (hstart : ∀ v ∈ d.declared.values, ∃ x, v.valueAt? 0 = some x ∧ (x == v.start) = true) :
    (d.declared.values.head? = none ∧ valueOf? d 0 = none) ∨
      ∃ v ∈ d.declared.values, ∃ x, d.declared.values.head? = some v ∧ v.valueAt? 0 = some x ∧
        (x == v.start) = true ∧ valueOf? d 0 = some x := by
  unfold valueOf?
  cases hhead : d.declared.values.head? with
  | none => exact .inl ⟨rfl, rfl⟩
  | some v =>
    have hv : v ∈ d.declared.values := List.mem_of_head? hhead
    obtain ⟨x, hx, hequal⟩ := hstart v hv
    exact .inr ⟨v, hv, x, rfl, hx, hequal, hx⟩

/-- **First point**: each pulse of a script is played at the first point of the scan when and for as
    long as it is written, if this point has the start value of the variable; without a variable it
    always is. -/
theorem first_point_as_written (h : (readWith registry settings text).result = .ok d)
    (hfinite : ∀ p ∈ d.pulses, FiniteSpan p)
    (hstart : ∀ v ∈ d.declared.values, ∃ x, v.valueAt? 0 = some x ∧ (x == v.start) = true) :
    List.Forall₂ SameSpan d.pulses
        (moveAlong d.pulses (d.pulses.map (bindTo (valueOf? d 0)))) ∧
      ∀ build scan, Scan.start? d build = .ok scan → scan.valueAt? 0 = some (valueOf? d 0) := by
  have hvalue := valueOf?_cases hstart
  constructor
  · -- no pulse changes its span when the value is put in, so none of them moves another
    apply moveAlong_of_sameSpan
    intro p hp
    have hspan := hfinite p hp
    have hmem : p ∈ d.everyPulse := List.mem_append_left _ (List.mem_append_left _ hp)
    refine ⟨hspan, ?_⟩
    rcases hvalue with ⟨_, hnone⟩ | ⟨v, hv, x, _, _, hequal, hsome⟩
    · rw [hnone]
      exact ⟨(sameTime_iff_value_eq hspan.1 hspan.1).mpr rfl,
        (sameTime_iff_value_eq hspan.2 hspan.2).mpr rfl⟩
    · rw [hsome]
      exact sameSpan_bind h hmem hspan hv hequal
  · intro build scan hscan
    obtain ⟨_, length, _, rfl⟩ := start?_ok hscan
    unfold Scan.valueAt?
    dsimp only
    -- the value is that of the only variable, or there is none
    rcases hvalue with ⟨hhead, hnone⟩ | ⟨v, _, x, hhead, hx, _, hsome⟩
    · rw [hhead, hnone]
      rfl
    · rw [hhead, hsome]
      dsimp only
      rw [hx]
      rfl

/-- A script in which the variable is the duration of one pulse and the timing of another, and a
    third pulse is moved by both. -/
def sweptDelay : String :=
  "variable tau, start=1s, stop=3s, steps=3\n"
    ++ "mw pulse on channel 1 at 0s, square, tau, 1\n"
    ++ "gate pulse on channel 2 at tau, square, 1s, 1\n"
    ++ "adc pulse on channel 3 at 4s, square, 1s, 1"

theorem sweptDelay_as_written : ∃ d,
    (readWith (fun _ => none) {} sweptDelay).result = .ok d ∧ (∀ p ∈ d.pulses, FiniteSpan p) ∧
      (∀ v ∈ d.declared.values, ∃ x, v.valueAt? 0 = some x ∧ (x == v.start) = true) ∧
      d.declared.values.length = 1 ∧ d.pulses.length = 3 ∧
      List.Forall₂ SameSpan d.pulses
          (moveAlong d.pulses (d.pulses.map (bindTo (valueOf? d 0)))) ∧
        ∀ build scan, Scan.start? d build = .ok scan →
          scan.valueAt? 0 = some (valueOf? d 0) := by
  have hread : (readWith (fun _ => none) {} sweptDelay).result.map
      (fun d => (d.declared.values, decide (∀ p ∈ d.pulses, FiniteSpan p), d.pulses.length)) =
        .ok ([⟨"tau", 1.0, 3.0, 3, .time⟩], true, 3) := by
    decide +kernel
  -- the script is read once, and what is asked of the description is read off with it
  obtain ⟨d, hd, hparts⟩ := map_ok.mp hread
  simp only [Prod.mk.injEq, decide_eq_true_eq] at hparts
  obtain ⟨hvalues, hfinite, hlength⟩ := hparts
  have hstart : ∀ v ∈ d.declared.values, ∃ x, v.valueAt? 0 = some x ∧ (x == v.start) = true := by
    intro v hv
    rw [hvalues, List.mem_singleton] at hv
    subst hv
    exact ⟨1.0, by decide +kernel, by decide +kernel⟩
  exact ⟨d, hd, hfinite, hstart, by rw [hvalues]; rfl, hlength,
    first_point_as_written hd hfinite hstart⟩

end PulseTrain.Script
