import PulseTrain.Proofs.Success
import PulseTrain.Scan.Basic

/-! # Points of a scan

    A scan is reached from its start by asking for one timeline after the other. Nothing but
    the index changes on the way, so what the start has checked holds at every point.

    * **Start**: `start?_eq` lists the checks, `start?_eq_ok` and `start?_ok` are about an accepted
      sequence;
    * **Run**: `Reached` is the step relation of a scan, `Reached.eq_start` its invariant;
    * **Point**: `Yields.parts` takes a point that was built apart into the work done for it.
-/

namespace PulseTrain.Scan

open Success

/-! ## Start -/

/-- The checks of a sequence, one after the other. -/
theorem start?_eq (s : Sequence) (settings : BuildSettings) :
    Scan.start? s settings =
      if canSampleAt s.sampleRate = false then .error (.badSampleRate s.sampleRate)
      else if 1 < s.declared.size then .error (.severalVariables s.declared.keys)
      else verifyBindings s.declared.values.head? s.everyPulse >>= fun _ =>
        ((Samples.ofDuration s.totalDuration s.sampleRate).mapError .sequenceOffGrid).map
          fun length => ⟨s, settings, length, s.declared.values.head?, 0⟩ := by
  simp only [Scan.start?, Bool.not_eq_true']
  by_cases hrate : canSampleAt s.sampleRate = false
  · rw [if_pos hrate, if_pos hrate]
    rfl
  · rw [if_neg hrate, if_neg hrate]
    by_cases hsize : 1 < s.declared.size
    · rw [if_pos hsize, if_pos hsize]
      rfl
    · rw [if_neg hsize, if_neg hsize]
      rfl

/-- A sequence is accepted if it passes all checks. -/
theorem start?_eq_ok {s : Sequence} {settings : BuildSettings} {scan : Scan} :
    Scan.start? s settings = .ok scan ↔
      canSampleAt s.sampleRate = true ∧ s.declared.size ≤ 1 ∧
        verifyBindings s.declared.values.head? s.everyPulse = .ok () ∧
        ∃ length, Samples.ofDuration s.totalDuration s.sampleRate = .ok length ∧
          scan = ⟨s, settings, length, s.declared.values.head?, 0⟩ := by
  rw [start?_eq]
  -- the checks are made one after the other, and each one ends the start where it fails
  by_cases hrate : canSampleAt s.sampleRate = false
  · simp [hrate]
  · rw [if_neg hrate]
    by_cases hsize : 1 < s.declared.size
    · rw [if_pos hsize]
      simp [Nat.not_le.mpr hsize]
    · rw [if_neg hsize, bind_ok]
      simp only [map_ok, mapError_ok]
      constructor
      · rintro ⟨_, hbindings, length, hlength, rfl⟩
        exact ⟨Bool.of_not_eq_false hrate, Nat.not_lt.mp hsize, hbindings, length, hlength, rfl⟩
      · rintro ⟨_, _, hbindings, length, hlength, rfl⟩
        exact ⟨(), hbindings, length, hlength, rfl⟩

/-- An accepted sequence has passed the check of its bindings and has a length. -/
theorem start?_ok {s : Sequence} {settings : BuildSettings} {scan : Scan}
    (h : Scan.start? s settings = .ok scan) :
    verifyBindings s.declared.values.head? s.everyPulse = .ok () ∧
      ∃ length, Samples.ofDuration s.totalDuration s.sampleRate = .ok length ∧
        scan = ⟨s, settings, length, s.declared.values.head?, 0⟩ :=
  (start?_eq_ok.mp h).2.2

/-- A scan is started only at a positive finite rate. -/
theorem rate_of_start? {s : Sequence} {settings : BuildSettings} {scan : Scan}
    (h : Scan.start? s settings = .ok scan) :
    s.sampleRate.isFinite = true ∧ 0.0 < s.sampleRate := by
  obtain ⟨hrate, _⟩ := start?_eq_ok.mp h
  unfold canSampleAt at hrate
  simp only [Bool.and_eq_true, decide_eq_true_eq] at hrate
  exact hrate.1

/-! ## Run -/

/-- The scans that are reached from the start of a sequence by asking for timelines. -/
inductive Reached (s : Sequence) (settings : BuildSettings) : Scan → Prop where
  | start {scan : Scan} (h : Scan.start? s settings = .ok scan) : Reached s settings scan
  | next {scan : Scan} (h : Reached s settings scan) : Reached s settings scan.next.2

/-- Asking for a timeline changes the index at most. -/
theorem next_eq (scan : Scan) : scan.next.2 = { scan with index := scan.next.2.index } := by
  unfold Scan.next
  split
  · rfl
  · rfl

/-- **Invariant**: a scan keeps all that its start has settled. -/
theorem Reached.eq_start {s : Sequence} {settings : BuildSettings} {scan : Scan}
    (h : Reached s settings scan) :
    ∃ first, Scan.start? s settings = .ok first ∧ scan = { first with index := scan.index } := by
  induction h with
  | start h => exact ⟨_, h, rfl⟩
  | @next scan _ ih =>
    -- one more step changes the index of a scan that is the first but for its index
    obtain ⟨first, hfirst, hscan⟩ := ih
    refine ⟨first, hfirst, ?_⟩
    have hnext := next_eq scan
    rw [hscan] at hnext ⊢
    exact hnext

/-! ## Points -/

/-- A timeline that a scan of a sequence gives for one of its points. -/
def Yields (s : Sequence) (settings : BuildSettings) (t : Timeline) : Prop :=
  ∃ scan point, Reached s settings scan ∧ scan.next.1 = some point ∧ point.result = .ok t

/-- A timeline is the result of placing all pulses, of a check for overlaps and of a sort. -/
theorem buildTimeline_ok {s : Sequence} {settings : BuildSettings} {length : Samples}
    {scanIndex : Nat} {value : Option Float} {t : Timeline} :
    (buildTimeline s settings length scanIndex value).result = .ok t ↔
      ∃ entries, placeAll s settings scanIndex value = .ok entries ∧
        verifyDisjoint scanIndex entries = .ok () ∧
        t = ⟨scanIndex, value, length, entries.mergeSort Placed.le⟩ := by
  unfold buildTimeline
  cases hplace : placeAll s settings scanIndex value with
  | error e => simp [bind, Except.bind]
  | ok entries =>
    cases hcheck : verifyDisjoint scanIndex entries with
    | error e => simp [bind, Except.bind, hcheck]
    | ok _ => simp [bind, Except.bind, pure, Except.pure, hcheck, eq_comm]

/-- A scan that has been reached gives a timeline if the pulses can be placed for the value at its
    index and do not overlap. -/
theorem Reached.next_ok {s : Sequence} {settings : BuildSettings} {scan : Scan} {t : Timeline}
    (h : Reached s settings scan) :
    (∃ point, scan.next.1 = some point ∧ point.result = .ok t) ↔
      ∃ value entries, scan.valueAt? scan.index = some value ∧
        placeAll s settings scan.index value = .ok entries ∧
        verifyDisjoint scan.index entries = .ok () ∧
        t = ⟨scan.index, value, scan.length, entries.mergeSort Placed.le⟩ := by
  obtain ⟨first, hfirst, hscan⟩ := h.eq_start
  obtain ⟨_, length, _, hparts⟩ := start?_ok hfirst
  -- whether there is a next point or not, it is the point at the index
  have hpoint : scan.next.1 = (scan.valueAt? scan.index).map
      (buildTimeline s settings scan.length scan.index) := by
    have hfrom : scan.point? scan.index = (scan.valueAt? scan.index).map
        (buildTimeline s settings scan.length scan.index) := by
      unfold Scan.point?
      rw [hscan, hparts]
    rw [← hfrom]
    unfold Scan.next
    split
    · next point hp => exact hp.symm
    · next hp => exact hp.symm
  rw [hpoint]
  simp only [Option.map_eq_some_iff, exists_exists_and_eq_and, buildTimeline_ok]
  constructor
  · rintro ⟨value, hvalue, entries, hrest⟩
    exact ⟨value, entries, hvalue, hrest⟩
  · rintro ⟨value, entries, hvalue, hrest⟩
    exact ⟨value, hvalue, entries, hrest⟩

/-- A point that was built, with the entries before they were sorted. -/
theorem Yields.parts {s : Sequence} {settings : BuildSettings} {t : Timeline}
    (h : Yields s settings t) :
    verifyBindings s.declared.values.head? s.everyPulse = .ok () ∧
      Samples.ofDuration s.totalDuration s.sampleRate = .ok t.length ∧
      ∃ entries, placeAll s settings t.scanIndex t.value = .ok entries ∧
        verifyDisjoint t.scanIndex entries = .ok () ∧
        t.pulses = entries.mergeSort Placed.le := by
  obtain ⟨scan, point, hreached, hpoint⟩ := h
  obtain ⟨first, hfirst, hscan⟩ := hreached.eq_start
  obtain ⟨hbindings, length, hlength, hparts⟩ := start?_ok hfirst
  obtain ⟨_, entries, _, hentries, hdisjoint, ht⟩ := hreached.next_ok.mp ⟨point, hpoint⟩
  rw [hscan, hparts] at ht
  subst ht
  exact ⟨hbindings, hlength, entries, hentries, hdisjoint, rfl⟩

end PulseTrain.Scan
