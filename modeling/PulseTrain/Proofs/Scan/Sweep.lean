import Mathlib.Data.Int.ConditionallyCompleteOrder
import Mathlib.Data.String.Basic
import Mathlib.Order.CompletePartialOrder
import Mathlib.Order.ConditionallyCompleteLattice.Basic
import Mathlib.Order.Interval.Set.Disjoint
import PulseTrain.Proofs.StableSort
import PulseTrain.Proofs.Success
import PulseTrain.Scan.Overlap

/-! # The sweep for overlaps

    On each channel the ranges of the pulses are passed in the order of their starts, and only
    the range that reaches furthest so far is compared with the next. This is enough: a range
    that passes the comparison starts behind all ranges before it.

    * **One channel**: `stop_le_start_of_no_conflict`, by induction on the ranges to come;
    * **All channels**: `verifyDisjoint_iff`, pulse by pulse, in whatever order the pulses
      stand.
-/

namespace PulseTrain.Scan

/-! ## One channel -/

/-- The key by which ranges are ordered: start, end, name. -/
def Range.key (r : Range) : ℤ ×ₗ ℤ ×ₗ String :=
  toLex (r.start, toLex (r.stop, r.name))

theorem Range.le_iff_key_le (a b : Range) : a.le b = true ↔ a.key ≤ b.key := by
  unfold Range.le Range.key
  rw [Prod.Lex.toLex_le_toLex, Prod.Lex.toLex_le_toLex]
  -- the start decides, then the end, and last the name
  by_cases hstart : a.start = b.start
  · by_cases hstop : a.stop = b.stop
    · rw [if_neg (not_not_intro hstart), if_neg (not_not_intro hstop), Bool.not_eq_true',
        decide_eq_false_iff_not, not_lt]
      simp only [hstart, hstop, lt_irrefl, true_and, false_or]
    · rw [if_neg (not_not_intro hstart), if_pos hstop, decide_eq_true_eq]
      simp only [hstart, hstop, lt_irrefl, true_and, false_or, false_and, or_false]
  · rw [if_pos hstart, decide_eq_true_eq]
    simp only [hstart, false_and, or_false]

/-- Nothing behind the furthest range starts before it ends, and so on down the list. The furthest
    range may be any range that starts no later than those to come; if no conflict is found, the
    next range takes its place, because it ends later. -/
theorem stop_le_start_of_no_conflict {f : Range} {rs : List Range}
    (hpos : ∀ r ∈ rs, r.start < r.stop) (hsorted : (f :: rs).Pairwise (·.start ≤ ·.start))
    (h : firstConflict? (some f) rs = none) : (f :: rs).Pairwise (·.stop ≤ ·.start) := by
  -- by induction on the ranges to come, with the one that reaches furthest so far
  induction rs generalizing f with
  | nil => exact List.pairwise_singleton _ _
  | cons c rest ih =>
    have hfc : f.start ≤ c.start := (List.pairwise_cons.mp hsorted).1 c List.mem_cons_self
    have hc : c.start < c.stop := hpos c List.mem_cons_self
    have hsortedRest := (List.pairwise_cons.mp hsorted).2
    simp only [firstConflict?] at h
    split at h
    · cases h
    · next hno =>
      -- `c` starts no earlier than `f` and does not reach into it, so it starts behind it
      have hstop : f.stop ≤ c.start := by
        simp only [Range.overlaps, Bool.and_eq_true, decide_eq_true_eq] at hno
        unfold Samples at *
        omega
      have hfurther : f.stop < c.stop := lt_of_le_of_lt hstop hc
      rw [if_pos hfurther] at h
      have hrest := ih (fun r hr => hpos r (List.mem_cons_of_mem _ hr)) hsortedRest h
      refine List.pairwise_cons.mpr ⟨?_, hrest⟩
      intro r hr
      rcases List.mem_cons.mp hr with rfl | hr
      · exact hstop
      · have hcr : c.stop ≤ r.start := (List.pairwise_cons.mp hrest).1 r hr
        exact le_trans (le_of_lt hfurther) hcr

/-- Ordered ranges among which no conflict is found lie one behind the other. -/
theorem stop_le_start_of_firstConflict {rs : List Range} (hpos : ∀ r ∈ rs, r.start < r.stop)
    (hsorted : rs.Pairwise (·.start ≤ ·.start)) (h : firstConflict? none rs = none) :
    rs.Pairwise (·.stop ≤ ·.start) := by
  cases rs with
  | nil => exact .nil
  | cons c rest =>
    exact stop_le_start_of_no_conflict (fun r hr => hpos r (List.mem_cons_of_mem _ hr)) hsorted h

/-- Ranges that lie apart raise no conflict, in whatever order they stand. -/
theorem firstConflict_of_apart {f : Range} {rs : List Range}
    (h : (f :: rs).Pairwise fun a b => a.stop ≤ b.start ∨ b.stop ≤ a.start) :
    firstConflict? (some f) rs = none := by
  induction rs generalizing f with
  | nil => rfl
  | cons c rest ih =>
    obtain ⟨hf, hrest⟩ := List.pairwise_cons.mp h
    have hno : f.overlaps c = false := by
      have hfc := hf c List.mem_cons_self
      unfold Range.overlaps
      rw [Bool.and_eq_false_iff, decide_eq_false_iff_not, decide_eq_false_iff_not, not_lt, not_lt]
      exact hfc.symm
    simp only [firstConflict?, hno, Bool.false_eq_true, if_false]
    -- the sweep keeps the range that reaches further, which is one of the two
    apply ih
    split
    · exact hrest
    · have hfrest : ∀ r ∈ rest, f.stop ≤ r.start ∨ r.stop ≤ f.start := fun r hr =>
        hf r (List.mem_cons_of_mem _ hr)
      exact List.pairwise_cons.mpr ⟨hfrest, (List.pairwise_cons.mp hrest).2⟩

/-! ## All channels -/

/-- The samples during which a placed pulse is played. -/
def Placed.samples (p : Placed) : Set ℤ := Set.Ico p.start (p.start + p.length)

/-- Only a pulse with samples on the channel has a range there. -/
theorem occupied?_eq_some {channel : UInt16} {p : Placed} {r : Range}
    (h : occupied? channel p = some r) :
    p.pulse.channel = channel ∧ 0 < p.length ∧
      r = ⟨p.start, p.end?.getD Samples.greatest, p.pulse.name⟩ := by
  unfold occupied? at h
  split at h
  · next hp =>
    cases h
    exact ⟨hp.1, hp.2, rfl⟩
  · cases h

/-- A channel on which a pulse plays a sample is checked. -/
theorem mem_occupiedChannels {pulses : List Placed} {p : Placed} (hp : p ∈ pulses)
    (hpos : 0 < p.length) : p.pulse.channel ∈ occupiedChannels pulses := by
  unfold occupiedChannels
  rw [List.mem_eraseDups, List.mem_mergeSort]
  exact List.mem_map.mpr ⟨p, List.mem_filter.mpr ⟨hp, by simpa using hpos⟩, rfl⟩

/-- A channel has no conflict if no two of its ranges have a sample in common, in whatever order the
    pulses stand. -/
theorem conflictOn?_eq_none {pulses : List Placed} {channel : UInt16}
    (hend : ∀ p ∈ pulses, p.end? = some (p.start + p.length)) :
    conflictOn? pulses channel = none ↔ (pulses.filterMap (occupied? channel)).Pairwise
      fun a b => a.stop ≤ b.start ∨ b.stop ≤ a.start := by
  unfold conflictOn?
  have hsort := StablySorted.of_mergeSort Range.le_iff_key_le
    (pulses.filterMap (occupied? channel))
  have hstarts := hsort.ascending.imp (S := fun (a b : Range) => a.start ≤ b.start)
    fun {a b} hab => by
      rw [Range.key, Range.key, Prod.Lex.toLex_le_toLex] at hab
      rcases hab with hlt | ⟨heq, _⟩
      · exact le_of_lt hlt
      · exact le_of_eq heq
  -- the sweep is only sound for ranges that are not empty
  have hpos : ∀ r ∈ (pulses.filterMap (occupied? channel)).mergeSort Range.le,
      r.start < r.stop := by
    intro r hr
    rw [List.mem_mergeSort] at hr
    obtain ⟨p, hp, hpr⟩ := List.mem_filterMap.mp hr
    obtain ⟨_, hlength, hrange⟩ := occupied?_eq_some hpr
    rw [hrange, hend p hp]
    exact Int.lt_add_of_pos_right _ hlength
  constructor
  · intro h
    have hbehind := stop_le_start_of_firstConflict hpos hstarts h
    have hapart := hbehind.imp
      (S := fun (a b : Range) => a.stop ≤ b.start ∨ b.stop ≤ a.start) fun {a b} hab => Or.inl hab
    exact hsort.perm.pairwise hapart fun {a b} hab => hab.symm
  · -- to be apart is symmetric, so it holds in the order of the sweep as well
    intro h
    have hapart := hsort.perm.symm.pairwise h fun {a b} hab => hab.symm
    cases hranges : (pulses.filterMap (occupied? channel)).mergeSort Range.le with
    | nil => rfl
    | cons r rest =>
      rw [hranges] at hapart
      exact firstConflict_of_apart hapart

/-- Two pulses on one channel have no sample in common if and only if their ranges do not. -/
theorem disjoint_samples {a b : Placed} (ha : a.end? = some (a.start + a.length))
    (hb : b.end? = some (b.start + b.length)) (hsame : a.pulse.channel = b.pulse.channel) :
    Disjoint a.samples b.samples ↔
      ∀ r ∈ occupied? a.pulse.channel a, ∀ r' ∈ occupied? a.pulse.channel b,
        r.stop ≤ r'.start ∨ r'.stop ≤ r.start := by
  unfold Placed.samples occupied?
  rw [Set.Ico_disjoint_Ico, ha, hb]
  -- a pulse without samples occupies nothing, and its interval is empty
  by_cases hla : 0 < a.length
  · by_cases hlb : 0 < b.length
    · simp only [hla, hlb, hsame, and_self, if_true, Option.mem_some_iff, Option.getD_some,
        forall_eq']
      unfold Samples at *
      omega
    · simp only [hlb, and_false, if_false, Option.not_mem_none]
      unfold Samples at *
      simp only [false_imp_iff, implies_true, iff_true]
      omega
  · simp only [hla, and_false, if_false, Option.not_mem_none]
    unfold Samples at *
    simp only [false_imp_iff, implies_true, iff_true]
    omega

/-- The check goes through the occupied channels, and passes if none of them has a conflict. -/
theorem verifyDisjoint_ok {scanIndex : ℕ} {pulses : List Placed} :
    verifyDisjoint scanIndex pulses = .ok () ↔
      ∀ c ∈ occupiedChannels pulses, conflictOn? pulses c = none := by
  unfold verifyDisjoint
  rw [Success.forM_ok]
  refine forall₂_congr fun c _ => ?_
  cases conflictOn? pulses c with
  | none => simp
  | some pair => simp

/-- A conflict on the lowest occupied channel is the one that is reported. -/
theorem verifyDisjoint_of_lowest {scanIndex : ℕ} {pulses : List Placed} {channel : UInt16}
    {higher : List UInt16} {r r' : Range} (hchannels : occupiedChannels pulses = channel :: higher)
    (hconflict : conflictOn? pulses channel = some (r, r')) :
    verifyDisjoint scanIndex pulses =
      .error (.overlap scanIndex channel r.name r'.name r.stop r'.start) := by
  unfold verifyDisjoint
  rw [hchannels]
  simp only [List.forM, hconflict]
  rfl

/-- **The check**: pulses pass it if and only if no two of them play a sample of a channel together.
    -/
theorem verifyDisjoint_iff {scanIndex : ℕ} {pulses : List Placed}
    (hend : ∀ p ∈ pulses, p.end? = some (p.start + p.length)) :
    verifyDisjoint scanIndex pulses = .ok () ↔
      pulses.Pairwise fun a b => a.pulse.channel = b.pulse.channel →
        Disjoint a.samples b.samples := by
  rw [verifyDisjoint_ok, List.pairwise_iff_forall_sublist]
  constructor
  · intro h a b hab hsame
    have ha := hend a (hab.subset (by simp))
    have hb := hend b (hab.subset (by simp))
    rw [disjoint_samples ha hb hsame]
    intro r hr r' hr'
    -- a pulse with a range occupies its channel, so the sweep has passed over both ranges
    obtain ⟨_, hla, _⟩ := occupied?_eq_some hr
    have hcheck := h _ (mem_occupiedChannels (hab.subset (by simp)) hla)
    rw [conflictOn?_eq_none hend, List.pairwise_filterMap, List.pairwise_iff_forall_sublist]
      at hcheck
    exact hcheck hab r hr r' hr'
  · intro h c _
    rw [conflictOn?_eq_none hend, List.pairwise_filterMap, List.pairwise_iff_forall_sublist]
    intro a b hab r hr r' hr'
    have ha := hend a (hab.subset (by simp))
    have hb := hend b (hab.subset (by simp))
    -- both ranges lie on the channel, so their pulses are of one channel
    obtain ⟨hca, _, _⟩ := occupied?_eq_some hr
    obtain ⟨hcb, _, _⟩ := occupied?_eq_some hr'
    subst hca
    exact (disjoint_samples ha hb hcb.symm).mp (h hab hcb.symm) r hr r' hr'

end PulseTrain.Scan
