import PulseTrain.Proofs.Samples
import PulseTrain.Proofs.Scan.Still
import PulseTrain.Proofs.Scan.Timely

/-! # Conflicts that rounding makes

    The start of a pulse and its duration are rounded to samples independently of each other, so a
    pulse may reach a sample further than its end does. If pulses are described that do not overlap,
    two of them conflict exactly if the first outgrows its end and reaches into the second. Touching
    pulses do not conflict if their ends are kept.

    * **Grid**: `Pulse.interval` is the described time of a pulse, `Pulse.samples` the samples to
      which it rounds;
    * **Entries**: `placeAll_roundsTo`, without a value pulses are placed where they round to;
    * **Check**: `buildAll_overlap_iff`, a description without variables has a conflict if the
      samples of two pulses overlap;
    * **Result**: `not_disjoint_samples_iff` for two pulses, `overlap_iff_outgrows` for a
      description.
-/

namespace PulseTrain

open Decimal Duration Scan Success

/-! ## Grid -/

namespace Pulse

variable {rate : Float} {p q : Pulse} {start length start' length' : ℤ}

/-- The time at which a pulse is described to be played. -/
def interval (p : Pulse) : Set ℚ := Set.Ico p.timing.value (p.timing.value + p.duration.value)

/-- The sample to which the start of a pulse rounds, and the number of samples to which its duration
    rounds. -/
structure Rounds (rate : Float) (p : Pulse) (start length : ℤ) : Prop where
  starts : Samples.ofDuration p.timing rate = .ok start
  lasts : Samples.ofDuration p.duration rate = .ok length

def samples (rate : Float) (p : Pulse) : Set ℤ :=
  {i | ∃ start length, p.Rounds rate start length ∧ i ∈ Set.Ico start (start + length)}

/-- The samples of the start and the duration have numbers, and so has their sum. -/
def fitsGrid (rate : Float) (p : Pulse) : Bool :=
  match Samples.ofDuration p.timing rate, Samples.ofDuration p.duration rate with
  | .ok start, .ok length => (Samples.add? start length).isSome
  | _, _ => false

/-- A pulse that can be placed on the grid where it is described. -/
structure Placeable (rate : Float) (p : Pulse) : Prop where
  finite : FiniteSpan p
  timely : p.Timely
  fits : p.fitsGrid rate = true

instance (rate : Float) (p : Pulse) : Decidable (p.Placeable rate) :=
  decidable_of_iff (FiniteSpan p ∧
      (p.timing.isNegative = false ∧ p.duration.isNegative = false) ∧ p.fitsGrid rate = true)
    ⟨fun ⟨hfinite, ⟨hstarts, hlasts⟩, hfits⟩ => ⟨hfinite, ⟨hstarts, hlasts⟩, hfits⟩,
      fun h => ⟨h.finite, ⟨h.timely.starts, h.timely.lasts⟩, h.fits⟩⟩

/-- The samples of the start and the duration do not add up to more than the sample of the end. -/
def keepsEnd (rate : Float) (p : Pulse) : Bool :=
  match Samples.ofDuration p.timing rate, Samples.ofDuration p.duration rate,
    Samples.ofDuration p.ending rate with
  | .ok start, .ok length, .ok stop => decide (start + length ≤ stop)
  | _, _, _ => false

/-- Two pulses of one channel, the first of which ends before the second starts but is rounded such
    that it reaches into the second. -/
structure Outgrows (rate : Float) (p q : Pulse) : Prop where
  together : p.channel = q.channel
  before : p.timing.value + p.duration.value ≤ q.timing.value
  reaches : ∃ start length start' length', p.Rounds rate start length ∧
    q.Rounds rate start' length' ∧ 0 < length ∧ 0 < length' ∧ start' < start + length

theorem Placeable.exists_rounds (h : p.Placeable rate) : ∃ start length,
    p.Rounds rate start length ∧ Samples.add? start length = some (start + length) := by
  have hfits := h.fits
  unfold fitsGrid at hfits
  split at hfits
  · next start length hstarts hlasts =>
    refine ⟨start, length, ⟨hstarts, hlasts⟩, ?_⟩
    unfold Samples.add? at hfits ⊢
    split
    · rfl
    · next hrange =>
      rw [if_neg hrange] at hfits
      cases hfits
  · cases hfits

theorem Rounds.unique (h : p.Rounds rate start length) (h' : p.Rounds rate start' length') :
    start' = start ∧ length' = length := by
  have hstarts := h'.starts
  have hlasts := h'.lasts
  rw [h.starts, Except.ok.injEq] at hstarts
  rw [h.lasts, Except.ok.injEq] at hlasts
  exact ⟨hstarts.symm, hlasts.symm⟩

theorem Rounds.samples_eq (h : p.Rounds rate start length) :
    p.samples rate = Set.Ico start (start + length) := by
  ext i
  constructor
  · rintro ⟨_, _, h', hi⟩
    obtain ⟨rfl, rfl⟩ := h.unique h'
    exact hi
  · exact fun hi => ⟨_, _, h, hi⟩

/-- A pulse with a sample has a duration. -/
theorem Rounds.duration_pos (hrate : rate.isFinite = true ∧ 0.0 < rate)
    (h : p.Rounds rate start length) (hfinite : p.duration.IsFinite) (hlength : 0 < length) :
    0 < p.duration.value := by
  by_contra hpos
  have hzero : Duration.zero.value = 0 := by decide +kernel
  have hle : p.duration.NoLater .zero := by
    rw [noLater_iff_value_le hfinite (by decide +kernel), hzero]
    exact not_lt.mp hpos
  have := ofDuration_mono hrate (fun _ _ => hle) h.lasts (ofDuration_zero hrate)
  exact absurd hlength (not_lt.mpr this)

/-- A pulse that starts no later starts at no later sample. -/
theorem Rounds.start_mono (hrate : rate.isFinite = true ∧ 0.0 < rate)
    (h : p.Rounds rate start length) (h' : q.Rounds rate start' length')
    (hp : p.timing.IsFinite) (hq : q.timing.IsFinite) (hle : p.timing.value ≤ q.timing.value) :
    start ≤ start' :=
  ofDuration_mono hrate (fun _ _ => (noLater_iff_value_le hp hq).mpr hle) h.starts h'.starts

/-- No pulse outgrows itself. -/
theorem not_outgrows_self (hrate : rate.isFinite = true ∧ 0.0 < rate) (hp : FiniteSpan p) :
    ¬Outgrows rate p p := by
  rintro ⟨_, hbefore, start, length, _, _, h, _, hlength, _⟩
  have := h.duration_pos hrate hp.2 hlength
  linarith

/-- **Two pulses** that are described one after the other overlap on the grid exactly if one of them
    outgrows its end. -/
theorem not_disjoint_samples_iff (hrate : rate.isFinite = true ∧ 0.0 < rate)
    (hp : p.Placeable rate) (hq : q.Placeable rate) (hchannel : p.channel = q.channel)
    (hinterval : Disjoint p.interval q.interval) :
    ¬Disjoint (p.samples rate) (q.samples rate) ↔ Outgrows rate p q ∨ Outgrows rate q p := by
  obtain ⟨start, length, h, _⟩ := hp.exists_rounds
  obtain ⟨start', length', h', _⟩ := hq.exists_rounds
  rw [h.samples_eq, h'.samples_eq, Set.Ico_disjoint_Ico, not_le, max_lt_iff, lt_min_iff, lt_min_iff]
  constructor
  · rintro ⟨⟨hlength, hstart⟩, hstart', hlength'⟩
    have hpos : 0 < length := by omega
    have hpos' : 0 < length' := by omega
    have hduration := h.duration_pos hrate hp.finite.2 hpos
    have hduration' := h'.duration_pos hrate hq.finite.2 hpos'
    unfold interval at hinterval
    rw [Set.Ico_disjoint_Ico, min_le_iff, le_max_iff, le_max_iff] at hinterval
    -- an empty interval has no samples, so one of the pulses ends before the other starts
    rcases hinterval with (hself | hbefore) | (hbefore | hself)
    · linarith
    · exact .inl ⟨hchannel, hbefore, _, _, _, _, h, h', hpos, hpos', hstart'⟩
    · exact .inr ⟨hchannel.symm, hbefore, _, _, _, _, h', h, hpos', hpos, hstart⟩
    · linarith
  · rintro (⟨_, hbefore, _, _, _, _, g, g', hpos, hpos', hreaches⟩ |
      ⟨_, hbefore, _, _, _, _, g', g, hpos', hpos, hreaches⟩)
    -- a pulse has only one range of samples, and what starts later does so on the grid
    all_goals
      obtain ⟨rfl, rfl⟩ := h.unique g
      obtain ⟨rfl, rfl⟩ := h'.unique g'
      have hduration := h.duration_pos hrate hp.finite.2 hpos
      have hduration' := h'.duration_pos hrate hq.finite.2 hpos'
    · have hle := h.start_mono hrate h' hp.finite.1 hq.finite.1 (by linarith)
      omega
    · have hle := h'.start_mono hrate h hq.finite.1 hp.finite.1 (by linarith)
      omega

/-- The end of a pulse is a sum that is rounded, but not beyond the start of a pulse behind it. -/
theorem ending_noLater (hp : FiniteSpan p) (hq : q.timing.IsFinite)
    (h : p.timing.value + p.duration.value ≤ q.timing.value) : p.ending.NoLater q.timing := by
  have hnumber : (p.timing.seconds + p.duration.seconds).isNaN = false :=
    isNaN_finite_add hp.1 (isNaN_of_isFinite hp.2)
  show p.timing.seconds + p.duration.seconds ≤ q.timing.seconds
  rw [le_iff_extended_le hnumber (isNaN_of_isFinite hq), extended_add hnumber]
  -- rounding keeps the order, and the start is a double already
  calc rounded (extended p.timing.seconds + extended p.duration.seconds)
      ≤ rounded (extended q.timing.seconds) := by
        apply rounded_mono
        rw [extended_of_finite hp.1, extended_of_finite hp.2, extended_of_finite hq]
        exact_mod_cast h
    _ = extended q.timing.seconds := (packable_unpack _).rounded_value

/-- A pulse whose end is kept does not outgrow it. -/
theorem not_outgrows_of_keepsEnd (hrate : rate.isFinite = true ∧ 0.0 < rate) (hp : FiniteSpan p)
    (hq : FiniteSpan q) (h : p.keepsEnd rate = true) : ¬Outgrows rate p q := by
  rintro ⟨_, hbefore, start, length, start', length', g, g', _, _, hreaches⟩
  unfold keepsEnd at h
  rw [g.starts, g.lasts] at h
  cases hstop : Samples.ofDuration p.ending rate with
  | error e =>
    rw [hstop] at h
    cases h
  | ok stop =>
    rw [hstop] at h
    have hkept : start + length ≤ stop := of_decide_eq_true h
    -- the exact end comes no later than the start, and so does its sample
    have hstart' : stop ≤ start' :=
      ofDuration_mono hrate (fun _ _ => ending_noLater hp hq.1 hbefore) hstop g'.starts
    exact absurd (hkept.trans hstart') (not_le.mpr hreaches)

end Pulse

namespace Scan

variable {s : Sequence} {rate : Float} {k : ℕ} {p q : Pulse}

/-! ## Entries -/

/-- An entry that stands where a pulse rounds to. -/
structure RoundsTo (rate : Float) (p : Pulse) (e : Placed) : Prop where
  channel : e.pulse.channel = p.channel
  rounds : p.Rounds rate e.start e.length
  ending : e.end? = some (e.start + e.length)

theorem place_of_stays (hrate : rate.isFinite = true ∧ 0.0 < rate) (hp : p.Placeable rate)
    (h : Stays p q) : ∃ e, place rate k q = .ok e ∧ RoundsTo rate p e := by
  obtain ⟨start, length, hrounds, hend⟩ := hp.exists_rounds
  have hduration : q.duration = p.duration := by rw [h.frame]
  have hchannel : q.channel = p.channel := by rw [h.frame]
  have hplace : place rate k q = .ok ⟨start, length, q⟩ := by
    unfold place
    rw [isNegative_congr h.timing hp.timely.starts, hduration, hp.timely.lasts,
      ofDuration_congr hrate h.timing hrounds.starts, hrounds.lasts]
    simp only [Bool.false_eq_true, if_false, Except.mapError, Bind.bind, Except.bind,
      hend]
    rfl
  exact ⟨_, hplace, hchannel, hrounds, hend⟩

/-- **Entries**: without a value every pulse is placed where it rounds to. -/
theorem placeAll_roundsTo (hrate : s.sampleRate.isFinite = true ∧ 0.0 < s.sampleRate)
    (h : ∀ p ∈ s.pulses, p.Placeable s.sampleRate) : ∃ es, placeAll s {} k none = .ok es ∧
      List.Forall₂ (RoundsTo s.sampleRate) s.pulses es := by
  have hplayed : played s {} none = moved s none := List.append_nil _
  rw [placeAll_eq, hplayed]
  have hstays := moveAlong_stays fun p hp => (h p hp).finite
  exact exists_mapM_ok hstays fun p q hpq => place_of_stays hrate (h p hpq.1) hpq.2

/-! ## Check -/

def ScanError.IsOverlap : ScanError → Prop
  | .overlap .. => True
  | _ => False

/-- The checks of a description do not look for conflicts. -/
theorem start?_failsOnly (settings : BuildSettings) :
    FailsOnly (fun e => ¬e.IsOverlap) (Scan.start? s settings) := by
  -- a binding fails by its variable or by its dimension, and none of this is an overlap
  have hbinding : ∀ p b, FailsOnly (fun e => ¬e.IsOverlap)
      (checkBinding s.declared.values.head? p b) := by
    intro p b
    unfold checkBinding
    split
    · exact .error id
    · split
      · exact .error id
      · split
        · exact .ok ()
        · exact .error id
  rw [start?_eq]
  split
  · exact .error id
  · split
    · exact .error id
    · refine FailsOnly.bind (.forM fun p _ => .forM fun b _ => hbinding p b) fun _ => ?_
      exact FailsOnly.map _ (.mapError fun _ => id)

/-- Without variables a scan has one point. -/
theorem buildAll_of_start {scan : Scan} (hfixed : s.declared.isEmpty = true)
    (h : Scan.start? s {} = .ok scan) : (buildAll s {}).result =
      (buildTimeline s {} scan.length 0 none).result.map fun t => [t] := by
  -- without a variable there is one point, and it has no value
  have hnone : s.declared.values.head? = none := by
    unfold Table.values
    rw [List.isEmpty_iff.mp hfixed]
    rfl
  obtain ⟨_, length, _, rfl⟩ := start?_ok h
  unfold buildAll
  rw [h]
  simp only [hnone, Scan.collect, Scan.remaining, Scan.size, Scan.collectUpTo, Scan.next,
    Scan.point?, Scan.valueAt?, if_true, Option.map_some]
  cases (buildTimeline s {} length 0 none).result with
  | error e => rfl
  | ok t => rfl

/-- Pulses on the grid overlap as their entries do. -/
theorem pairwise_samples_iff {ps : List Pulse} {es : List Placed}
    (h : List.Forall₂ (RoundsTo rate) ps es) :
    (es.Pairwise fun a b => a.pulse.channel = b.pulse.channel → Disjoint a.samples b.samples) ↔
      ps.Pairwise fun p q => p.channel = q.channel →
        Disjoint (p.samples rate) (q.samples rate) := by
  have hsame : es.map (fun e => (e.pulse.channel, e.samples)) =
      ps.map (fun p => (p.channel, p.samples rate)) := by
    rw [← List.forall₂_eq_eq_eq, List.forall₂_map_left_iff, List.forall₂_map_right_iff]
    refine h.flip.imp fun e p hpe => ?_
    rw [hpe.channel, hpe.rounds.samples_eq]
    rfl
  have hes := List.pairwise_map (l := es) (f := fun e => (e.pulse.channel, e.samples))
    (R := fun a b => a.1 = b.1 → Disjoint a.2 b.2)
  have hps := List.pairwise_map (l := ps) (f := fun p => (p.channel, p.samples rate))
    (R := fun a b => a.1 = b.1 → Disjoint a.2 b.2)
  rw [hsame] at hes
  exact hes.symm.trans hps

/-- **Check**: a description without variables has a conflict if two pulses overlap on the grid, and
    otherwise it has none. -/
theorem buildAll_overlap_iff (hfixed : s.declared.isEmpty = true)
    (h : ∀ p ∈ s.pulses, p.Placeable s.sampleRate) :
    (∃ e, (buildAll s {}).result = .error e ∧ e.IsOverlap) ↔
      (∃ scan, Scan.start? s {} = .ok scan) ∧
        ¬s.pulses.Pairwise fun p q => p.channel = q.channel →
          Disjoint (p.samples s.sampleRate) (q.samples s.sampleRate) := by
  cases hstart : Scan.start? s {} with
  | error e =>
    have hresult : (buildAll s {}).result = .error e := by
      unfold buildAll
      rw [hstart]
      rfl
    -- a start fails with other errors only
    have hother : ¬e.IsOverlap := start?_failsOnly _ e hstart
    simp [hresult, hother]
  | ok scan =>
    have hrate := rate_of_start? hstart
    obtain ⟨es, hes, hrounds⟩ := placeAll_roundsTo (k := 0) hrate h
    have hends : ∀ e ∈ es, e.end? = some (e.start + e.length) :=
      ending_of_makes (placeAll_ok hes)
    have hcheck : verifyDisjoint 0 es = .ok () ↔ s.pulses.Pairwise fun p q =>
        p.channel = q.channel → Disjoint (p.samples s.sampleRate) (q.samples s.sampleRate) :=
      (verifyDisjoint_iff hends).trans (pairwise_samples_iff hrounds)
    rw [buildAll_of_start hfixed hstart, ← hcheck]
    -- all pulses have places, so the only error left is a conflict
    have hfails : FailsOnly ScanError.IsOverlap (buildTimeline s {} scan.length 0 none).result :=
      buildTimeline_failsOnly_of (by rw [hes]; exact .ok es) (fun _ _ _ _ _ => trivial) _
    cases hpoint : (buildTimeline s {} scan.length 0 none).result with
    | error e =>
      have hconflict : verifyDisjoint 0 es ≠ .ok () := by
        intro hok
        have hbuilt : (buildTimeline s {} scan.length 0 none).result = .ok _ :=
          buildTimeline_ok.mpr ⟨es, hes, hok, rfl⟩
        rw [hpoint] at hbuilt
        cases hbuilt
      simp [hconflict, Except.map, hfails e hpoint]
    | ok t =>
      obtain ⟨es', hes', hok, _⟩ := buildTimeline_ok.mp hpoint
      rw [hes, Except.ok.injEq] at hes'
      subst hes'
      simp [hok, Except.map]

/-! ## Result -/

/-- **Conflicts**: if the pulses of a description without variables do not overlap as they are
    described and can be placed on the grid, it has a conflict exactly if it passes its checks and a
    pulse outgrows its end and reaches into another. If all ends are kept there is no conflict. -/
theorem overlap_iff_outgrows (hfixed : s.declared.isEmpty = true)
    (h : ∀ p ∈ s.pulses, p.Placeable s.sampleRate)
    (hapart : s.pulses.Pairwise fun p q => p.channel = q.channel → Disjoint p.interval q.interval) :
    ((∃ e, (buildAll s {}).result = .error e ∧ e.IsOverlap) ↔
      (∃ scan, Scan.start? s {} = .ok scan) ∧
        ∃ p ∈ s.pulses, ∃ q ∈ s.pulses, p.Outgrows s.sampleRate q) ∧
    ((∀ p ∈ s.pulses, p.keepsEnd s.sampleRate = true) →
      ∀ e, (buildAll s {}).result = .error e → ¬e.IsOverlap) := by
  have hiff : (∃ e, (buildAll s {}).result = .error e ∧ e.IsOverlap) ↔
      (∃ scan, Scan.start? s {} = .ok scan) ∧
        ∃ p ∈ s.pulses, ∃ q ∈ s.pulses, p.Outgrows s.sampleRate q := by
    rw [buildAll_overlap_iff hfixed h]
    refine and_congr_right fun ⟨scan, hscan⟩ => ?_
    have hrate := rate_of_start? hscan
    constructor
    · intro hoverlap
      by_contra hnone
      apply hoverlap
      -- of two pulses that are apart in time but not in samples one outgrows the other
      refine hapart.imp_of_mem fun {p q} hp hq hpq hchannel => ?_
      by_contra hclash
      rw [Pulse.not_disjoint_samples_iff hrate (h p hp) (h q hq) hchannel (hpq hchannel)] at hclash
      rcases hclash with hout | hout
      · exact hnone ⟨p, hp, q, hq, hout⟩
      · exact hnone ⟨q, hq, p, hp, hout⟩
    · rintro ⟨p, hp, q, hq, hout⟩ hdisjoint
      have hne : p ≠ q := by
        rintro rfl
        exact Pulse.not_outgrows_self hrate (h p hp).finite hout
      -- to be apart is symmetric, so it does not matter which of the two is described first
      have hsymm : Std.Symm fun p q : Pulse => (p.channel = q.channel →
          Disjoint p.interval q.interval) ∧ (p.channel = q.channel →
          Disjoint (p.samples s.sampleRate) (q.samples s.sampleRate)) :=
        ⟨fun p q hpq => ⟨fun hc => (hpq.1 hc.symm).symm, fun hc => (hpq.2 hc.symm).symm⟩⟩
      obtain ⟨hinterval, hsamples⟩ := (hapart.and hdisjoint).forall hp hq hne
      have hclash := (Pulse.not_disjoint_samples_iff hrate (h p hp) (h q hq) hout.together
        (hinterval hout.together)).mpr (.inl hout)
      exact hclash (hsamples hout.together)
  refine ⟨hiff, fun hkept e he hoverlap => ?_⟩
  obtain ⟨⟨scan, hscan⟩, p, hp, q, hq, hout⟩ := hiff.mp ⟨e, he, hoverlap⟩
  have hrate := rate_of_start? hscan
  exact Pulse.not_outgrows_of_keepsEnd hrate (h p hp).finite (h q hq).finite (hkept p hp) hout

/-- Two pulses on one channel, given by their starts and durations and sampled once a second. -/
def twoPulses (early late : Float × Float) : Sequence :=
  { Sequence.empty with
    sampleRate := 1.0
    totalDuration := ⟨4.0⟩
    pulses := [{ Pulse.new "early" 1 with timing := ⟨early.1⟩, duration := ⟨early.2⟩ },
      { Pulse.new "late" 1 with timing := ⟨late.1⟩, duration := ⟨late.2⟩ }] }

/-- The first pulse ends where the second starts, between two samples, and both ends are kept. -/
theorem twoPulses_kept : (twoPulses (0.25, 0.5) (0.75, 0.75)).declared.isEmpty = true ∧
    (∀ p ∈ (twoPulses (0.25, 0.5) (0.75, 0.75)).pulses, p.Placeable 1.0) ∧
    ((twoPulses (0.25, 0.5) (0.75, 0.75)).pulses.Pairwise fun p q =>
      p.channel = q.channel → Disjoint p.interval q.interval) ∧
    (∀ p ∈ (twoPulses (0.25, 0.5) (0.75, 0.75)).pulses, p.keepsEnd 1.0 = true) ∧
    ∀ e, (buildAll (twoPulses (0.25, 0.5) (0.75, 0.75)) {}).result = .error e → ¬e.IsOverlap := by
  have hplaceable : ∀ p ∈ (twoPulses (0.25, 0.5) (0.75, 0.75)).pulses, p.Placeable 1.0 := by
    decide +kernel
  have hapart : (twoPulses (0.25, 0.5) (0.75, 0.75)).pulses.Pairwise fun p q =>
      p.channel = q.channel → Disjoint p.interval q.interval := by
    simp only [Pulse.interval, Set.Ico_disjoint_Ico]
    decide +kernel
  have hkept : ∀ p ∈ (twoPulses (0.25, 0.5) (0.75, 0.75)).pulses, p.keepsEnd 1.0 = true := by
    decide +kernel
  exact ⟨rfl, hplaceable, hapart, hkept, (overlap_iff_outgrows rfl hplaceable hapart).2 hkept⟩

/-- The first pulse ends on the sample on which the second starts. Its start and its duration are in
    the middle between two samples and are both rounded up, so it is played for a sample longer. -/
theorem twoPulses_overlap : (twoPulses (0.5, 1.5) (2.0, 1.0)).declared.isEmpty = true ∧
    (∀ p ∈ (twoPulses (0.5, 1.5) (2.0, 1.0)).pulses, p.Placeable 1.0) ∧
    ((twoPulses (0.5, 1.5) (2.0, 1.0)).pulses.Pairwise fun p q =>
      p.channel = q.channel → Disjoint p.interval q.interval) ∧
    (buildAll (twoPulses (0.5, 1.5) (2.0, 1.0)) {}).result =
      .error (.overlap 0 1 "early" "late" 3 2) := by
  have hplaceable : ∀ p ∈ (twoPulses (0.5, 1.5) (2.0, 1.0)).pulses, p.Placeable 1.0 := by
    decide +kernel
  have hapart : (twoPulses (0.5, 1.5) (2.0, 1.0)).pulses.Pairwise fun p q =>
      p.channel = q.channel → Disjoint p.interval q.interval := by
    simp only [Pulse.interval, Set.Ico_disjoint_Ico]
    decide +kernel
  have hstart : Scan.start? (twoPulses (0.5, 1.5) (2.0, 1.0)) {} =
      .ok ⟨twoPulses (0.5, 1.5) (2.0, 1.0), {}, 4, none, 0⟩ := by
    decide +kernel
  let early : Pulse := { Pulse.new "early" 1 with timing := ⟨0.5⟩, duration := ⟨1.5⟩ }
  let late : Pulse := { Pulse.new "late" 1 with timing := ⟨2.0⟩, duration := ⟨1.0⟩ }
  -- the end of the early pulse is rounded up twice, to 3, and the late one starts at 2
  have hplaced : placeAll (twoPulses (0.5, 1.5) (2.0, 1.0)) {} 0 none =
      .ok [⟨1, 2, early⟩, ⟨2, 1, late⟩] := by
    decide +kernel
  -- a sort does not reduce by itself, so channels and ranges are sorted by its equations
  have hchannels : occupiedChannels [⟨1, 2, early⟩, ⟨2, 1, late⟩] = [1] := by
    have hused : (([⟨1, 2, early⟩, ⟨2, 1, late⟩] : List Placed).filter
        fun p => decide (0 < p.length)).map (·.pulse.channel) = [1, 1] := by
      decide +kernel
    unfold occupiedChannels
    rw [hused]
    simp [List.mergeSort, List.MergeSort.Internal.splitInTwo, List.eraseDups_cons]
  have hconflict : conflictOn? [⟨1, 2, early⟩, ⟨2, 1, late⟩] 1 =
      some (⟨1, 3, "early"⟩, ⟨2, 3, "late"⟩) := by
    have hranges : ([⟨1, 2, early⟩, ⟨2, 1, late⟩] : List Placed).filterMap (occupied? 1) =
        [⟨1, 3, "early"⟩, ⟨2, 3, "late"⟩] := by
      decide +kernel
    unfold conflictOn?
    rw [hranges]
    simp [List.mergeSort, List.MergeSort.Internal.splitInTwo, Range.le, firstConflict?,
      Range.overlaps]
  have hcheck : verifyDisjoint 0 [⟨1, 2, early⟩, ⟨2, 1, late⟩] =
      .error (.overlap 0 1 "early" "late" 3 2) :=
    verifyDisjoint_of_lowest hchannels hconflict
  refine ⟨rfl, hplaceable, hapart, ?_⟩
  rw [buildAll_of_start rfl hstart, buildTimeline, hplaced]
  simp only [Bind.bind, Except.bind, hcheck]
  rfl

end Scan

end PulseTrain
