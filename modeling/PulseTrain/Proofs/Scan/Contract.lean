import PulseTrain.Proofs.Scan.Entries
import PulseTrain.Proofs.Scan.Point
import PulseTrain.Proofs.Scan.Sweep

/-! # What a timeline promises

    Whatever a sequence contains, each timeline that a scan of it gives has an entry for every
    pulse and no other, sorted by start and channel, without overlaps and with an end to every
    entry, and all timelines are equally long.

    * `Timeline.Lawful` is the list of these promises;
    * `Yields.lawful` keeps them, from `placeAll_ok`, `verifyDisjoint_iff` and the stability of
      the sort.
-/

namespace PulseTrain.Scan

/-! ## The order of the entries -/

/-- The key by which entries are sorted: the start, then the channel. -/
def Placed.key (e : Placed) : ℤ ×ₗ ℕ := toLex (e.start, e.pulse.channel.toNat)

theorem Placed.le_iff_key_le (a b : Placed) : a.le b = true ↔ a.key ≤ b.key := by
  unfold Placed.le Placed.key
  rw [Prod.Lex.toLex_le_toLex]
  by_cases hstart : a.start = b.start
  · rw [if_neg (not_not_intro hstart), decide_eq_true_eq, UInt16.le_iff_toNat_le]
    simp only [hstart, lt_irrefl, true_and, false_or]
  · rw [if_pos hstart, decide_eq_true_eq]
    simp only [hstart, false_and, or_false]

/-! ## The promises -/

/-- What a timeline of a sequence promises. -/
structure Timeline.Lawful (s : Sequence) (settings : BuildSettings) (t : Timeline) : Prop where
  /-- There is one entry for each origin and nothing else. The entries are sorted by start and
      channel; where both are equal, they keep the order of the origins. -/
  made : ∃ entries, List.Forall₂ (Origin.Makes s.sampleRate t.value) (origins s settings) entries
    ∧ StablySorted Placed.key entries t.pulses
  /-- No two entries on a channel have a sample in common. -/
  apart : t.pulses.Pairwise fun a b => a.pulse.channel = b.pulse.channel →
    Disjoint a.samples b.samples
  /-- The end of every entry has a sample number. -/
  ends : ∀ e ∈ t.pulses, e.end? = some (e.start + e.length)
  /-- The length is that of the sequence. -/
  length : Samples.ofDuration s.totalDuration s.sampleRate = .ok t.length

variable {s : Sequence} {settings : BuildSettings} {t : Timeline}

/-- Entries that were all made from origins have their ends on the grid. -/
theorem ending_of_makes {rate : Float} {value : Option Float} {os : List Origin}
    {entries : List Placed} (h : List.Forall₂ (Origin.Makes rate value) os entries) :
    ∀ e ∈ entries, e.end? = some (e.start + e.length) := by
  induction h with
  | nil =>
    intro e he
    cases he
  | cons hmakes _ ih =>
    intro e he
    rcases List.mem_cons.mp he with rfl | he
    · exact hmakes.2.ending
    · exact ih e he

/-! ## An instance -/

/-- Pulses that follow one another on each channel make a timeline. -/
theorem Reached.exists_yields {scan : Scan} {value : Option Float}
    {spans : List (UInt16 × Samples × Samples)} (h : Reached s settings scan)
    (hvalue : scan.valueAt? scan.index = some value)
    (hspans : (placeAll s settings scan.index value).map
      (·.map fun e => (e.pulse.channel, e.start, e.length)) = .ok spans)
    (hbehind : spans.Pairwise fun a b => a.1 = b.1 → a.2.1 + a.2.2 ≤ b.2.1) :
    ∃ t, Yields s settings t := by
  cases hentries : placeAll s settings scan.index value with
  | error e =>
    rw [hentries] at hspans
    cases hspans
  | ok entries =>
    rw [hentries] at hspans
    have hlist : entries.map (fun e => (e.pulse.channel, e.start, e.length)) = spans :=
      Except.ok.inj hspans
    rw [← hlist, List.pairwise_map] at hbehind
    -- entries on one channel end before the next one starts, so they have no sample in common
    have hdisjoint : verifyDisjoint scan.index entries = .ok () := by
      rw [verifyDisjoint_iff (ending_of_makes (placeAll_ok hentries))]
      refine hbehind.imp ?_
      intro a b hab hsame
      unfold Placed.samples
      rw [Set.Ico_disjoint_Ico]
      exact (min_le_left _ _).trans ((hab hsame).trans (le_max_right _ _))
    obtain ⟨point, hpoint⟩ := h.next_ok.mpr ⟨value, entries, hvalue, hentries, hdisjoint, rfl⟩
    exact ⟨_, scan, point, h, hpoint⟩

/-- A pulse with a scanned duration before a fixed one on the same channel, and a loop on a second
    channel that runs twice. -/
def burst : Sequence :=
  let drive : Pulse :=
    { Pulse.new "drive" 1 with
      timing := ⟨2.0⟩, duration := ⟨2.0⟩, bindings := [⟨"width", .duration⟩] }
  let mark : Pulse :=
    { Pulse.new "mark" 1 with
      timing := ⟨5.0⟩, duration := ⟨1.0⟩, isFixed := true, bindings := [⟨"width", .duration⟩] }
  let readout : Pulse := { Pulse.new "readout" 2 with timing := ⟨1.0⟩, duration := ⟨1.0⟩ }
  { Sequence.empty with
    sampleRate := 1.0
    totalDuration := ⟨10.0⟩
    pulses := [drive, mark]
    loops := [.of 2 [readout]]
    declared := .ofList [("width", ⟨"width", 1.0, 3.0, 3, .time⟩)] }

theorem exists_yields_burst : ∃ t, Yields burst ⟨true⟩ t := by
  have hstart : Reached burst ⟨true⟩ ⟨burst, ⟨true⟩, 10, some ⟨"width", 1.0, 3.0, 3, .time⟩, 0⟩ :=
    .start (by decide +kernel)
  have hspans : (placeAll burst ⟨true⟩ 0 (some 1.0)).map
      (·.map fun e => (e.pulse.channel, e.start, e.length)) =
        .ok [(1, 2, 1), (1, 5, 1), (2, 1, 1), (2, 2, 1)] := by
    decide +kernel
  exact hstart.exists_yields (by decide +kernel) hspans (by decide)

/-! ## The contract -/

/-- **Contract**: every timeline that a scan gives keeps all promises, and all timelines of the scan
    are equally long. -/
theorem Yields.lawful (h : Yields s settings t) :
    t.Lawful s settings ∧ ∀ t', Yields s settings t' → t'.length = t.length := by
  obtain ⟨_, hlength, entries, hentries, hdisjoint, hsorted⟩ := h.parts
  have hmade := placeAll_ok hentries
  have hends := ending_of_makes hmade
  -- the entries stand in the order of their origins before they are sorted
  have hsort := StablySorted.of_mergeSort Placed.le_iff_key_le entries
  rw [← hsorted] at hsort
  constructor
  · refine ⟨⟨entries, hmade, hsort⟩, ?_, ?_, hlength⟩
    · -- being apart does not depend on the order, so it outlasts the sort
      have hapart := (verifyDisjoint_iff hends).mp hdisjoint
      refine hsort.perm.symm.pairwise hapart ?_
      intro a b hab hsame
      exact (hab hsame.symm).symm
    · intro e he
      exact hends e (hsort.perm.mem_iff.mp he)
  · -- the length is rounded once and not point by point
    intro t' h'
    obtain ⟨_, hlength', _⟩ := h'.parts
    rw [hlength] at hlength'
    exact (Except.ok.inj hlength').symm

theorem burst_lawful : ∃ t, Yields burst ⟨true⟩ t ∧
    t.Lawful burst ⟨true⟩ ∧ ∀ t', Yields burst ⟨true⟩ t' → t'.length = t.length := by
  obtain ⟨t, h⟩ := exists_yields_burst
  exact ⟨t, h, h.lawful⟩

end PulseTrain.Scan
