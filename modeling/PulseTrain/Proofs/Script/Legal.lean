import PulseTrain.Proofs.Scan.Point
import PulseTrain.Proofs.Script.Provenance

/-! # What is read can be scanned

    The reader checks bindings line by line, against the variables declared so far. The
    builder checks them once more, in the finished sequence and against the one variable that
    is scanned. The two agree: a script that is read to its end gives a sequence that the
    builder can only refuse for its length.

    * **Invariant**: `State.Legal`, of all that has been read so far, kept by
      `State.legal_invariant`;
    * **Run**: `readText_legal` for the statements of a text;
    * **Agreement**: `start?_of_read`.
-/

namespace PulseTrain.Script

open Success

/-! ## Invariant -/

/-- Samples can be taken at the rate, and every pulse was read from a line. -/
structure State.Legal (s : State) : Prop where
  rate : canSampleAt s.sequence.sampleRate = true
  traced : s.Traced

variable {s s' : State}

theorem State.Legal.named (h : s.Legal) : Named s.sequence.declared := h.traced.named

theorem State.Legal.justified (h : s.Legal) :
    ∀ p ∈ s.sequence.everyPulse, Justified s.sequence.declared p :=
  fun p hp => (h.traced.fromLine p hp).justified h.named

theorem State.start_legal {settings : Settings}
    (h : canSampleAt settings.fallbackRate = true) : (State.start settings).Legal :=
  ⟨h, State.start_traced settings⟩

/-- Pulses that are gained do not change the rate. -/
theorem State.Legal.gain (hs : s.Legal) (h : Gains s.sequence s'.sequence) : s'.Legal := by
  refine ⟨?_, hs.traced.gain h⟩
  rw [h.rate]
  exact hs.rate

/-! ## Headers -/

/-- Samples can be taken at a rate that is read. -/
theorem readSampleRate_ok {text : List Char} {rate : Float} (h : readSampleRate text = .ok rate) :
    canSampleAt rate = true := by
  unfold readSampleRate at h
  split at h
  · cases h
  · split at h
    · split at h
      · next hrate =>
        cases h
        exact hrate
      · cases h
    · cases h

/-- What a header gives has been checked where there is something to check. -/
def HeaderItem.Checked : HeaderItem → Prop
  | sampleRate rate => canSampleAt rate = true
  | repeatCount count => 1 ≤ count
  | name _ => True
  | experiment _ => True
  | duration _ => True
  | unknown _ => True

theorem readRepeatCount_ok {text : List Char} {count : UInt32}
    (h : readRepeatCount text = .ok count) : 1 ≤ count := by
  unfold readRepeatCount at h
  split at h
  · split at h
    · next hcount =>
      cases h
      exact hcount
    · cases h
  · cases h

/-- Sample rates are read by `readSampleRate` and repeat counts by `readRepeatCount`. -/
theorem HeaderItem.read_checked {text : List Char} {item : HeaderItem}
    (h : HeaderItem.read text = .ok item) : item.Checked := by
  unfold HeaderItem.read at h
  split at h
  · cases h
  · simp only at h
    split at h
    · cases h
      trivial
    · cases h
      trivial
    · split at h
      · cases h
        trivial
      · cases h
    · -- the rate and the count are the two items that are checked while they are read
      obtain ⟨rate, hrate, rfl⟩ := map_ok.mp h
      exact readSampleRate_ok hrate
    · obtain ⟨count, hcount, rfl⟩ := map_ok.mp h
      exact readRepeatCount_ok hcount
    · obtain ⟨count, hcount, rfl⟩ := map_ok.mp h
      exact readRepeatCount_ok hcount
    · cases h
      trivial

theorem State.applyHeader_legal {line : Nat} {item : List Char} (hs : s.Legal)
    (h : (s.applyHeader line item).result = .ok s') : s'.Legal := by
  refine ⟨?_, State.traced_invariant.header hs.traced h⟩
  obtain ⟨given, hread, rfl⟩ := State.applyHeader_ok h
  match given, hread with
  | .sampleRate rate, hread => exact HeaderItem.read_checked hread
  | .name _, _ => exact hs.rate
  | .experiment _, _ => exact hs.rate
  | .duration _, _ => exact hs.rate
  | .repeatCount _, _ => exact hs.rate
  | .unknown _, _ => exact hs.rate

/-! ## Runs -/

theorem State.declare_legal {line : Nat} {body : List Char} (hs : s.Legal)
    (h : (s.declare line body).result = .ok s') : s'.Legal := by
  refine ⟨?_, hs.traced.declare h⟩
  obtain ⟨v, _, _, rfl⟩ := State.declare_ok h
  exact hs.rate

/-- **Invariant**: every step of reading keeps what has been read legal. -/
theorem State.legal_invariant : State.Invariant State.Legal where
  header := State.applyHeader_legal
  declaration := State.declare_legal
  pulses := fun hs h => hs.gain (State.addPulses_gains h)
  block := fun hs h => hs.gain (State.addBlock_gains h)

/-- **Run**: a text that is carried out to its end keeps what has been read legal. -/
theorem readText_legal {load : Loader} (hload : load.Keeps State.Legal) {text : List Char}
    (hs : s.Legal) (h : (readText load s text).result = .ok s') : s'.Legal :=
  State.legal_invariant.readText hload hs h

/-- **Run**: presets keep what has been read legal however deep they nest. -/
theorem loader_keeps (registry : Registry) (limit : Nat) (depth : Nat) :
    Loader.Keeps State.Legal (loader registry limit depth) :=
  State.legal_invariant.loader registry limit depth

/-! ## Agreement -/

theorem head?_values_of_get? {α : Type} {t : Table α} {name : String} {a : α}
    (hsize : t.size ≤ 1) (h : t.get? name = some a) : t.values.head? = some a := by
  rw [values_of_get? hsize h]
  rfl

/-- **Agreement of reader and builder**: whatever the presets are and however they nest, a sequence
    that was read from a text has bindings, a variable and a sample rate that the builder accepts.
    The builder starts a scan, or the length is off the sample grid. -/
theorem start?_of_read {registry : Registry} {settings : Settings} {text : String} {d : Sequence}
    (hrate : canSampleAt settings.fallbackRate = true)
    (h : (readWith registry settings text).result = .ok d) (building : BuildSettings) :
    (∃ scan, Scan.start? d building = .ok scan) ∨
      ∃ overflow, Scan.start? d building = .error (.sequenceOffGrid overflow) := by
  obtain ⟨s, hread, hfinish⟩ := result_bind_ok.mp h
  have hlegal : s.Legal :=
    readText_legal (loader_keeps registry _ _) (State.start_legal hrate) hread
  obtain ⟨hsize, hdeclared, hsampleRate, hpulses⟩ := State.finish_ok hfinish
  -- what was justified line by line is what the builder asks of the one variable
  have hbindings : Scan.verifyBindings d.declared.values.head? d.everyPulse = .ok () := by
    rw [Scan.verifyBindings_ok]
    intro p hp b hb
    rw [hpulses] at hp
    obtain ⟨v, hv, hsuits⟩ := hlegal.justified p hp b hb
    rw [← hdeclared] at hv
    exact ⟨v, head?_values_of_get? hsize hv, hsuits⟩
  rw [Scan.start?_eq, hsampleRate, hlegal.rate, if_neg (by decide), if_neg (by omega), hbindings]
  cases Samples.ofDuration d.totalDuration s.sequence.sampleRate with
  | error overflow => exact Or.inr ⟨overflow, rfl⟩
  | ok length => exact Or.inl ⟨_, rfl⟩

/-- A registry with one preset, whose text is a loop over a pulse as long as the variable of the
    script that loads it. -/
def blinking : Registry := fun name =>
  if name = "blink" then
    some ⟨"blink", [], .template "loop: 2\nlaser pulse on channel 2 at 0s, square, tau, 1\nend"⟩
  else none

theorem start?_of_blink : ∃ d,
    (readWith blinking {} "variable tau, start=1s, stop=2s, steps=2\nload preset: blink").result =
      .ok d ∧ canSampleAt (Settings.fallbackRate {}) = true ∧
    ((∃ scan, Scan.start? d ⟨true⟩ = .ok scan) ∨
      ∃ overflow, Scan.start? d ⟨true⟩ = .error (.sequenceOffGrid overflow)) := by
  have hrate : canSampleAt (Settings.fallbackRate {}) = true := by decide +kernel
  have hread : (readWith blinking {}
      "variable tau, start=1s, stop=2s, steps=2\nload preset: blink").result.isOk = true := by
    decide +kernel
  obtain ⟨d, hd⟩ := isOk_iff.mp hread
  exact ⟨d, hd, hrate, start?_of_read hrate hd ⟨true⟩⟩

end PulseTrain.Script
