import PulseTrain.Proofs.Script.Declarable
import PulseTrain.Proofs.Script.Legal
import PulseTrain.Proofs.Script.Validated
import PulseTrain.Proofs.Table

/-! # What reading guarantees

    A script that is read to its end gives a sequence of a certain form, whatever its lines are and
    whatever presets they load: what headers and declarations give has been checked, blocks begin at
    zero and are as long as their pulses, and no pulse has a negative duration. So validation finds
    fault neither with the sample rate of such a sequence nor with the times of its blocks.

    * **Blocks**: `Loop.Fits` and `Conditional.Fits`, and `Loop.Fits.ordered` and
      `Conditional.Fits.ordered` for pulses without negative durations;
    * **Invariant**: `State.Formed`, of all that has been read so far, kept by
      `State.formed_invariant`;
    * **Result**: `Sequence.WellFormed` and `wellFormed_of_read`.
-/

namespace PulseTrain

open Duration

/-! ## Blocks -/

/-- A loop that begins at zero and is as long as its pulses. -/
structure Loop.Fits (l : Loop) : Prop where
  opens : l.opensAt = .zero
  closes : l.closesAt = totalLength l.pulses

/-- A conditional that begins at zero and is as long as the longer of its branches. -/
structure Conditional.Fits (c : Conditional) : Prop where
  opens : c.opensAt = .zero
  closes : c.closesAt = max (totalLength c.whenTrue) (totalLength c.whenFalse)

/-- Pulses without negative durations are not negative in sum. -/
theorem isNegative_totalLength {ps : List Pulse} (h : ∀ p ∈ ps, p.duration.isNegative = false) :
    (totalLength ps).isNegative = false := by
  have hsum : ∀ a : Duration, a.isNegative = false →
      ((ps.map (·.duration)).foldl (· + ·) a).isNegative = false := by
    induction ps with
    | nil => exact fun a ha => ha
    | cons p ps ih =>
      intro a ha
      rw [List.map_cons, List.foldl_cons]
      have hnext := isNegative_add ha (h p List.mem_cons_self)
      exact ih (fun q hq => h q (List.mem_cons_of_mem p hq)) _ hnext
  exact hsum .zero isNegative_zero

/-- The later of two times is one of them. -/
theorem isNegative_max {a b : Duration} (ha : a.isNegative = false) (hb : b.isNegative = false) :
    (max a b).isNegative = false := by
  change (if b < a then a else b).isNegative = false
  split
  · exact ha
  · exact hb

/-- What begins at zero and ends at no negative time does not run backwards. -/
theorem ordered_zero {ending : Duration} (h : ending.isNegative = false) : Ordered .zero ending :=
  ⟨isNegative_zero, isNegative_eq_false_iff.mp h⟩

theorem Loop.Fits.ordered {l : Loop} (h : l.Fits)
    (hlasts : ∀ p ∈ l.pulses, p.duration.isNegative = false) : Ordered l.opensAt l.closesAt := by
  rw [h.opens, h.closes]
  exact ordered_zero (isNegative_totalLength hlasts)

theorem Conditional.Fits.ordered {c : Conditional} (h : c.Fits)
    (hlasts : ∀ p ∈ c.whenTrue ++ c.whenFalse, p.duration.isNegative = false) :
    Ordered c.opensAt c.closesAt := by
  rw [List.forall_mem_append] at hlasts
  rw [h.opens, h.closes]
  exact ordered_zero
    (isNegative_max (isNegative_totalLength hlasts.1) (isNegative_totalLength hlasts.2))

/-! ## Well-formed sequences -/

/-- **Well-formed sequence**: its header and its variable have been checked, no pulse has a negative
    duration, and its blocks fit their pulses. -/
structure Sequence.WellFormed (s : Sequence) : Prop where
  repeats : 1 ≤ s.repeatCount
  rate : canSampleAt s.sampleRate = true
  scanned : s.declared.size ≤ 1
  /-- What is stored under a name is a variable of this name. -/
  declared : ∀ name v, (name, v) ∈ s.declared.entries →
    v.name = name ∧ Expression.isIdentifier name.toList = true ∧ 1 ≤ v.steps
  lasts : ∀ p ∈ s.everyPulse, p.duration.isNegative = false
  loops : ∀ l ∈ s.loops, l.Fits
  conditionals : ∀ c ∈ s.conditionals, c.Fits

/-- **Validation** reports neither the sample rate of a well-formed sequence nor the times of its
    blocks, whatever the limits are. -/
theorem Sequence.WellFormed.validate_failsOnly {s : Sequence} (h : s.WellFormed)
    (limits : Settings) : FailsOnly (s.Violates limits) (validate limits s) := by
  refine PulseTrain.validate_failsOnly h.rate ?_ ?_
  · intro l hl
    refine (h.loops l hl).ordered fun p hp => h.lasts p ?_
    have hmem : p ∈ s.loops.flatMap (·.pulses) := List.mem_flatMap.mpr ⟨l, hl, hp⟩
    exact List.mem_append_left _ (List.mem_append_right _ hmem)
  · intro c hc
    refine (h.conditionals c hc).ordered fun p hp => h.lasts p ?_
    exact List.mem_append_right _ (List.mem_flatMap.mpr ⟨c, hc, hp⟩)

namespace Script

open Success

/-! ## Invariant -/

/-- What is read so far has been checked, and its blocks fit. -/
structure State.Formed (s : State) : Prop where
  repeats : 1 ≤ s.sequence.repeatCount
  steps : ∀ name v, s.sequence.declared.get? name = some v → 1 ≤ v.steps
  loops : ∀ l ∈ s.sequence.loops, l.Fits
  conditionals : ∀ c ∈ s.sequence.conditionals, c.Fits

variable {s s' : State}

theorem State.start_formed (settings : Settings) : (State.start settings).Formed := by
  refine ⟨UInt32.le_refl 1, ?_, ?_, ?_⟩
  · intro name v hv
    cases hv
  · intro l hl
    cases hl
  · intro c hc
    cases hc

/-- A repeat count is set to what has been checked, and no other item of a header matters. -/
theorem State.Formed.header {line : Nat} {item : List Char} (hs : s.Formed)
    (h : (s.applyHeader line item).result = .ok s') : s'.Formed := by
  obtain ⟨given, hread, rfl⟩ := State.applyHeader_ok h
  match given, hread with
  | .repeatCount count, hread =>
    exact ⟨HeaderItem.read_checked hread, hs.steps, hs.loops, hs.conditionals⟩
  | .sampleRate _, _ => exact ⟨hs.repeats, hs.steps, hs.loops, hs.conditionals⟩
  | .name _, _ => exact ⟨hs.repeats, hs.steps, hs.loops, hs.conditionals⟩
  | .experiment _, _ => exact ⟨hs.repeats, hs.steps, hs.loops, hs.conditionals⟩
  | .duration _, _ => exact ⟨hs.repeats, hs.steps, hs.loops, hs.conditionals⟩
  | .unknown _, _ => exact ⟨hs.repeats, hs.steps, hs.loops, hs.conditionals⟩

theorem State.Formed.declare {line : Nat} {body : List Char} (hs : s.Formed)
    (h : (s.declare line body).result = .ok s') : s'.Formed := by
  obtain ⟨v, hread, _, rfl⟩ := State.declare_ok h
  refine ⟨hs.repeats, ?_, hs.loops, hs.conditionals⟩
  exact Table.forall_get?_insert hs.steps (readDeclaration_ok hread).2.2.1

theorem State.Formed.pulses {lines : List Line} (hs : s.Formed)
    (h : (s.addPulses lines).result = .ok s') : s'.Formed := by
  obtain ⟨ps, counters, _, rfl⟩ := State.addPulses_ok h
  exact ⟨hs.repeats, hs.steps, hs.loops, hs.conditionals⟩

/-- A block is made to fit the pulses that are read from its lines. -/
theorem State.Formed.block {block : Block} (hs : s.Formed)
    (h : (s.addBlock block).result = .ok s') : s'.Formed := by
  cases block with
  | loop iterations body =>
    obtain ⟨ps, counters, _, rfl⟩ := State.addLoop_ok h
    refine ⟨hs.repeats, hs.steps, ?_, hs.conditionals⟩
    exact List.forall_mem_append.mpr ⟨hs.loops, List.forall_mem_singleton.mpr ⟨rfl, rfl⟩⟩
  | conditional condition whenTrue whenFalse =>
    obtain ⟨trueOnes, falseOnes, counters, _, rfl⟩ := State.addConditional_ok h
    refine ⟨hs.repeats, hs.steps, hs.loops, ?_⟩
    exact List.forall_mem_append.mpr
      ⟨hs.conditionals, List.forall_mem_singleton.mpr ⟨rfl, rfl⟩⟩

/-- **Invariant**: every step keeps what is read so far formed. -/
theorem State.formed_invariant : State.Invariant State.Formed where
  header := State.Formed.header
  declaration := State.Formed.declare
  pulses := State.Formed.pulses
  block := State.Formed.block

/-! ## Result -/

variable {registry : Registry} {settings : Settings} {text : String} {d : Sequence}

/-- **Reading**: whatever the presets are and however they nest, a sequence that was read from a
    text is well-formed. So validation can only find its name empty, its total duration negative, a
    pulse too early, too late or on a channel that is not supported, or a loop without iterations.
    -/
theorem wellFormed_of_read (hrate : canSampleAt settings.fallbackRate = true)
    (h : (readWith registry settings text).result = .ok d) :
    d.WellFormed ∧ ∀ limits e, validate limits d = .error e → d.Violates limits e := by
  have hwell : d.WellFormed := by
    -- what lines, headers and declarations each guarantee holds at the end of the run
    obtain ⟨hnamed, hlines⟩ := traced_of_read h
    obtain ⟨s, hread, hfinish⟩ := result_bind_ok.mp h
    have hlegal : s.Legal :=
      readText_legal (loader_keeps registry _ _) (State.start_legal hrate) hread
    have hformed : s.Formed := State.formed_invariant.readText
      (State.formed_invariant.loader registry _ _) (State.start_formed settings) hread
    have hnames : Declarable s.sequence.declared := declarable_of_readText hread
    obtain ⟨hsize, hdeclared, hsampleRate, _⟩ := State.finish_ok hfinish
    refine ⟨?_, ?_, hsize, ?_, fun p hp => (hlines p hp).lasts, ?_, ?_⟩
    · rw [State.finish_eq hfinish]
      exact hformed.repeats
    · rw [hsampleRate]
      exact hlegal.rate
    · intro name v hv
      have hget : d.declared.get? name = some v := Table.get?_eq_some_iff.mpr hv
      -- the table is that of the last state, since finishing declares nothing
      have hname := hnamed name v hget
      rw [hdeclared] at hget
      exact ⟨hname, (hnames name v hget).1, hformed.steps name v hget⟩
    · rw [State.finish_eq hfinish]
      exact hformed.loops
    · rw [State.finish_eq hfinish]
      exact hformed.conditionals
  exact ⟨hwell, hwell.validate_failsOnly⟩

/-- A loop that never runs, over a pulse as long as the variable, and a conditional without pulses
    in one of its branches. -/
def pumping : String :=
  "sequence: name=pumping, repeat=5, repeat_count=3\nvariable tau, start=1s, stop=2s, steps=2\n" ++
  "loop: 0\nlaser pulse on channel 2 at 0s, square, tau, 1\nend\n" ++
  "if bright\nmw pulse on channel 1 at 0s, square, 1s, 1\nelse\nend\nsequence: sample_rate=2GHz"

theorem pumping_wellFormed : canSampleAt (Settings.fallbackRate {}) = true ∧
    ∃ d e, (readWith (fun _ => none) {} pumping).result = .ok d ∧ validate {} d = .error e ∧
      e = ⟨.loop 1, .noIterations⟩ ∧ d.WellFormed ∧ d.Violates {} e := by
  have hrate : canSampleAt (Settings.fallbackRate {}) = true := by decide +kernel
  have hresults : (readWith (fun _ => none) {} pumping).result.map (validate {}) =
      .ok (.error ⟨.loop 1, .noIterations⟩) := by
    decide +kernel
  obtain ⟨d, hread, hfails⟩ := map_ok.mp hresults
  obtain ⟨hwell, hviolates⟩ := wellFormed_of_read hrate hread
  exact ⟨hrate, d, _, hread, hfails, rfl, hwell, hviolates {} _ hfails⟩

end Script

end PulseTrain
