import Mathlib.Order.Fin.Basic
import PulseTrain.Proofs.Failure
import PulseTrain.Proofs.Scan.Sweep

/-! # The conflict that is reported

    The check for overlaps passes exactly if no two pulses play a sample of a channel together.
    Otherwise it reports two pulses that do, on the lowest channel on which there are such pulses,
    and of the two the one that comes first in time is named first.

    Which conflict this is depends on neither the order in which the pulses are given nor on pulses
    without samples, because the ranges of a channel are compared in an order that tells any two of
    them apart.

    * **Sweep**: `sublist_of_firstConflict`, what is found is an earlier range that reaches into a
      later one;
    * **Clashes**: `Clash` names two pulses by their places, and `conflictOn?_clash` and
      `Clash.conflictOn?_ne_none` compare it with what is found on a channel;
    * **Exactness**: `verifyDisjoint_exact`;
    * **Independence**: `verifyDisjoint_perm`, `verifyDisjoint_filter` and from both
      `verifyDisjoint_congr`.
-/

namespace PulseTrain.Scan

variable {pulses : List Placed} {channel : UInt16} {r r' : Range}

/-! ## Sweep -/

/-- What the sweep finds are two of the ranges, in their order, and the earlier reaches into the
    later. The range that reaches furthest so far counts as the first of those to come. -/
theorem sublist_of_firstConflict {furthest : Option Range} {rs : List Range}
    (h : firstConflict? furthest rs = some (r, r')) :
    [r, r'].Sublist (furthest.toList ++ rs) ∧ r.overlaps r' = true := by
  induction rs generalizing furthest with
  | nil => cases h
  | cons current rest ih =>
    cases furthest with
    | none =>
      obtain ⟨hsublist, hoverlaps⟩ := ih h
      exact ⟨hsublist, hoverlaps⟩
    | some f =>
      simp only [firstConflict?] at h
      split at h
      · next hoverlaps =>
        cases h
        refine ⟨?_, hoverlaps⟩
        exact ((List.nil_sublist rest).cons_cons _).cons_cons _
      · obtain ⟨hsublist, hoverlaps⟩ := ih h
        refine ⟨?_, hoverlaps⟩
        -- one of the two ranges goes on as the furthest, and the other is dropped
        split at hsublist
        · exact hsublist.trans (List.sublist_cons_self f _)
        · exact hsublist.trans ((List.sublist_cons_self current rest).cons_cons f)

/-! ## Clashes -/

/-- The pulses at two different places play a sample of a channel together. -/
structure Clash (pulses : List Placed) (channel : UInt16) (i j : Fin pulses.length) : Prop where
  different : i ≠ j
  onChannel : pulses[i].pulse.channel = channel ∧ pulses[j].pulse.channel = channel
  audible : 0 < pulses[i].length ∧ 0 < pulses[j].length
  together : ¬Disjoint pulses[i].samples pulses[j].samples

/-- Two ranges of a channel are those of pulses at two different places. -/
theorem pairwise_places : (pulses.filterMap (occupied? channel)).Pairwise fun r r' =>
    ∃ i j : Fin pulses.length, i ≠ j ∧ occupied? channel pulses[i] = some r ∧
      occupied? channel pulses[j] = some r' := by
  rw [List.pairwise_filterMap, List.pairwise_iff_getElem]
  intro i j hi hj hij r hr r' hr'
  refine ⟨⟨i, hi⟩, ⟨j, hj⟩, ?_, hr, hr'⟩
  rw [Ne, Fin.mk.injEq]
  exact hij.ne

/-- **Soundness**: what is found on a channel are the ranges of pulses that clash there, the first
    range before the second. -/
theorem conflictOn?_clash (hend : ∀ p ∈ pulses, p.end? = some (p.start + p.length))
    (h : conflictOn? pulses channel = some (r, r')) :
    ∃ i j, Clash pulses channel i j ∧ r.key ≤ r'.key ∧
      r = ⟨pulses[i].start, pulses[i].start + pulses[i].length, pulses[i].pulse.name⟩ ∧
      r' = ⟨pulses[j].start, pulses[j].start + pulses[j].length, pulses[j].pulse.name⟩ := by
  obtain ⟨hsublist, hoverlaps⟩ := sublist_of_firstConflict h
  have hsort := StablySorted.of_mergeSort Range.le_iff_key_le
    (pulses.filterMap (occupied? channel))
  have hordered : r.key ≤ r'.key :=
    List.pairwise_iff_forall_sublist.mp hsort.ascending hsublist
  -- to stand at different places is symmetric, so it holds in the order of the sweep as well
  have hplaces := hsort.perm.symm.pairwise pairwise_places
    fun {_ _} ⟨i, j, hne, hi, hj⟩ => ⟨j, i, hne.symm, hj, hi⟩
  obtain ⟨i, j, hne, hi, hj⟩ := List.pairwise_iff_forall_sublist.mp hplaces hsublist
  obtain ⟨hchannel, hpos, hr⟩ := occupied?_eq_some hi
  obtain ⟨hchannel', hpos', hr'⟩ := occupied?_eq_some hj
  have hendi := hend pulses[i] (List.getElem_mem _)
  have hendj := hend pulses[j] (List.getElem_mem _)
  rw [hendi] at hr
  rw [hendj] at hr'
  refine ⟨i, j, ⟨hne, ⟨hchannel, hchannel'⟩, ⟨hpos, hpos'⟩, ?_⟩, hordered, hr, hr'⟩
  rw [disjoint_samples hendi hendj (hchannel.trans hchannel'.symm), hchannel]
  intro hapart
  have := hapart r hi r' hj
  simp only [Range.overlaps, Bool.and_eq_true, decide_eq_true_eq] at hoverlaps
  unfold Samples at *
  omega

theorem Clash.symm {i j : Fin pulses.length} (h : Clash pulses channel i j) :
    Clash pulses channel j i :=
  ⟨h.different.symm, h.onChannel.symm, h.audible.symm, fun hapart => h.together hapart.symm⟩

/-- **Completeness**: something is found on a channel on which pulses clash. -/
theorem Clash.conflictOn?_ne_none {i j : Fin pulses.length}
    (hend : ∀ p ∈ pulses, p.end? = some (p.start + p.length)) (h : Clash pulses channel i j) :
    conflictOn? pulses channel ≠ none := by
  intro hnone
  rw [conflictOn?_eq_none hend, List.pairwise_filterMap, List.pairwise_iff_getElem] at hnone
  -- the sweep compares the pulses in one order, and a clash is symmetric
  have hordered : ∀ {i j : Fin pulses.length}, i < j → ¬Clash pulses channel i j := by
    intro i j hij h
    apply h.together
    have hendi := hend pulses[i] (List.getElem_mem _)
    have hendj := hend pulses[j] (List.getElem_mem _)
    obtain ⟨hchannel, hchannel'⟩ := h.onChannel
    rw [disjoint_samples hendi hendj (hchannel.trans hchannel'.symm), hchannel]
    exact hnone i j i.isLt j.isLt hij
  rcases lt_or_gt_of_ne h.different with hij | hji
  · exact hordered hij h
  · exact hordered hji h.symm

/-- Only an occupied channel has a clash. -/
theorem Clash.mem_occupiedChannels {i j : Fin pulses.length} (h : Clash pulses channel i j) :
    channel ∈ occupiedChannels pulses := by
  rw [← h.onChannel.1]
  exact Scan.mem_occupiedChannels (List.getElem_mem _) h.audible.1

/-! ## Exactness -/

/-- The first items of each kind, in their order. -/
theorem eraseDups_sublist {α : Type} [BEq α] : (l : List α) → l.eraseDups.Sublist l
  | [] => .slnil
  | a :: l => by
    rw [List.eraseDups_cons]
    exact ((eraseDups_sublist (l.filter fun b => !b == a)).trans List.filter_sublist).cons_cons a
termination_by l => l.length
decreasing_by exact Nat.lt_succ_of_le (List.length_filter_le _ l)

/-- Channels are compared by their numbers. -/
theorem channel_le_iff (a b : UInt16) : decide (a ≤ b) = true ↔ a.toNat ≤ b.toNat := by
  rw [decide_eq_true_eq, UInt16.le_iff_toNat_le]

/-- The channels are checked in ascending order. -/
theorem occupiedChannels_ascending (pulses : List Placed) :
    (occupiedChannels pulses).Pairwise (· ≤ ·) := by
  have hsort := StablySorted.of_mergeSort channel_le_iff
    ((pulses.filter fun p => decide (0 < p.length)).map (·.pulse.channel))
  have hascending := hsort.ascending.imp (S := (· ≤ ·)) fun h => UInt16.le_iff_toNat_le.mpr h
  exact hascending.sublist (eraseDups_sublist _)

/-- An error of the check is a conflict on a channel, and none was found on any channel below. -/
theorem verifyDisjoint_error {scanIndex : ℕ} {e : ScanError}
    (h : verifyDisjoint scanIndex pulses = .error e) :
    ∃ channel r r', conflictOn? pulses channel = some (r, r') ∧
      (∀ other ∈ occupiedChannels pulses, conflictOn? pulses other ≠ none → channel ≤ other) ∧
      e = .overlap scanIndex channel r.name r'.name r.stop r'.start := by
  obtain ⟨below, channel, above, hchannels, hbelow, hhere⟩ := forM_error h
  have hascending := occupiedChannels_ascending pulses
  rw [hchannels, List.pairwise_append] at hascending
  have hlowest : ∀ other ∈ occupiedChannels pulses, conflictOn? pulses other ≠ none →
      channel ≤ other := by
    intro other hother hconflict
    rw [hchannels, List.mem_append, List.mem_cons] at hother
    rcases hother with hother | rfl | hother
    · -- a channel that has been passed has no conflict
      have hpassed := hbelow other hother
      cases hfound : conflictOn? pulses other with
      | none => exact absurd hfound hconflict
      | some pair => simp [hfound] at hpassed
    · exact UInt16.le_refl _
    · exact (List.pairwise_cons.mp hascending.2.1).1 other hother
  cases hfound : conflictOn? pulses channel with
  | none => simp [hfound] at hhere
  | some pair =>
    obtain ⟨r, r'⟩ := pair
    simp only [hfound, Except.error.injEq] at hhere
    exact ⟨channel, r, r', hfound, hlowest, hhere.symm⟩

/-- **The check is exact**: it passes if and only if no two pulses play a sample of a channel
    together. An error of it names two pulses that do, on the lowest channel on which there are such
    pulses; the first starts before the second, or with it and ends no later. -/
theorem verifyDisjoint_exact (hend : ∀ p ∈ pulses, p.end? = some (p.start + p.length))
    (scanIndex : ℕ) :
    (verifyDisjoint scanIndex pulses = .ok () ↔ ∀ channel i j, ¬Clash pulses channel i j) ∧
      ∀ e, verifyDisjoint scanIndex pulses = .error e →
        ∃ channel i j, Clash pulses channel i j ∧
          (∀ other k l, Clash pulses other k l → channel ≤ other) ∧
          (pulses[i].start < pulses[j].start ∨ pulses[i].start = pulses[j].start ∧
            pulses[i].start + pulses[i].length ≤ pulses[j].start + pulses[j].length) ∧
          e = .overlap scanIndex channel pulses[i].pulse.name pulses[j].pulse.name
            (pulses[i].start + pulses[i].length) pulses[j].start := by
  constructor
  · rw [verifyDisjoint_ok]
    constructor
    · intro h channel i j hclash
      exact hclash.conflictOn?_ne_none hend (h channel hclash.mem_occupiedChannels)
    · intro h channel _
      cases hfound : conflictOn? pulses channel with
      | none => rfl
      | some pair =>
        obtain ⟨i, j, hclash, _⟩ := conflictOn?_clash hend hfound
        exact absurd hclash (h channel i j)
  · -- the channel is the lowest with a conflict, and the sweep names its pair in order
    intro e he
    obtain ⟨channel, r, r', hfound, hlowest, rfl⟩ := verifyDisjoint_error he
    obtain ⟨i, j, hclash, hordered, rfl, rfl⟩ := conflictOn?_clash hend hfound
    refine ⟨channel, i, j, hclash, ?_, ?_, rfl⟩
    · intro other k l hother
      exact hlowest other hother.mem_occupiedChannels (hother.conflictOn?_ne_none hend)
    · simp only [Range.key, Prod.Lex.toLex_le_toLex] at hordered
      unfold Samples at *
      omega

/-- A long pulse, a short one inside it, and a pulse that touches the long one and clashes with
    another on a higher channel. -/
def nested : List Placed :=
  let pulse (name : String) (channel : UInt16) : Pulse := { Pulse.new name channel with name }
  [⟨100, 50, pulse "short" 2⟩, ⟨0, 500, pulse "long" 2⟩, ⟨500, 20, pulse "next" 2⟩,
    ⟨40, 0, pulse "empty" 1⟩, ⟨510, 1, pulse "high" 7⟩, ⟨510, 1, pulse "twin" 7⟩]

theorem nested_exact : (∀ p ∈ nested, p.end? = some (p.start + p.length)) ∧
    verifyDisjoint 3 nested = .error (.overlap 3 2 "long" "short" 500 100) ∧
    ∃ channel i j, Clash nested channel i j ∧
      (∀ other k l, Clash nested other k l → channel ≤ other) ∧
      (nested[i].start < nested[j].start ∨ nested[i].start = nested[j].start ∧
        nested[i].start + nested[i].length ≤ nested[j].start + nested[j].length) ∧
      ScanError.overlap 3 2 "long" "short" 500 100 = .overlap 3 channel nested[i].pulse.name
        nested[j].pulse.name (nested[i].start + nested[i].length) nested[j].start := by
  have hend : ∀ p ∈ nested, p.end? = some (p.start + p.length) := by decide +kernel
  have hused : (nested.filter fun p => decide (0 < p.length)).map (·.pulse.channel) =
      [2, 2, 2, 7, 7] := by
    decide +kernel
  -- sorting is by well-founded recursion, which the kernel does not compute
  have hchannels : occupiedChannels nested = [2, 7] := by
    unfold occupiedChannels
    rw [hused]
    simp [List.mergeSort, List.MergeSort.Internal.splitInTwo, List.eraseDups_cons]
  have hranges : nested.filterMap (occupied? 2) =
      [⟨100, 150, "short"⟩, ⟨0, 500, "long"⟩, ⟨500, 520, "next"⟩] := by
    decide +kernel
  have hconflict : conflictOn? nested 2 = some (⟨0, 500, "long"⟩, ⟨100, 150, "short"⟩) := by
    unfold conflictOn?
    rw [hranges]
    simp [List.mergeSort, List.MergeSort.Internal.splitInTwo, Range.le, firstConflict?,
      Range.overlaps]
  have herror : verifyDisjoint 3 nested = .error (.overlap 3 2 "long" "short" 500 100) :=
    verifyDisjoint_of_lowest hchannels hconflict
  exact ⟨hend, herror, (verifyDisjoint_exact hend 3).2 _ herror⟩

/-! ## Independence -/

theorem Range.key_injective : Function.Injective Range.key := by
  rintro ⟨start, stop, name⟩ ⟨start', stop', name'⟩ h
  simp only [key, EmbeddingLike.apply_eq_iff_eq, Prod.mk.injEq] at h
  obtain ⟨rfl, rfl, rfl⟩ := h
  rfl

variable {ps qs : List Placed}

/-- The order in which the pulses are given does not matter. -/
theorem verifyDisjoint_perm (h : ps.Perm qs) (scanIndex : ℕ) :
    verifyDisjoint scanIndex ps = verifyDisjoint scanIndex qs := by
  have hnumber : Function.Injective UInt16.toNat := fun _ _ => UInt16.toNat.inj
  have hchannels : occupiedChannels ps = occupiedChannels qs := by
    unfold occupiedChannels
    rw [mergeSort_eq_of_perm hnumber channel_le_iff ((h.filter _).map (·.pulse.channel))]
  have hconflicts : conflictOn? ps = conflictOn? qs := by
    funext channel
    unfold conflictOn?
    rw [mergeSort_eq_of_perm Range.key_injective Range.le_iff_key_le
      (h.filterMap (occupied? channel))]
  unfold verifyDisjoint
  rw [hchannels, hconflicts]

/-- Pulses without samples do not matter. -/
theorem verifyDisjoint_filter (ps : List Placed) (scanIndex : ℕ) :
    verifyDisjoint scanIndex (ps.filter (·.length ≠ 0)) = verifyDisjoint scanIndex ps := by
  -- channels and ranges are taken only from pulses that have samples
  have hchannels : occupiedChannels (ps.filter (·.length ≠ 0)) = occupiedChannels ps := by
    unfold occupiedChannels
    rw [List.filter_filter]
    congr 4
    funext p
    have hpos : 0 < p.length → p.length ≠ 0 := fun h => ne_of_gt h
    simpa using hpos
  have hconflicts : conflictOn? (ps.filter (·.length ≠ 0)) = conflictOn? ps := by
    funext channel
    unfold conflictOn?
    rw [List.filterMap_filter]
    congr 3
    funext p
    unfold occupied?
    -- a pulse without samples is dropped on the left and occupies nothing on the right
    split_ifs with hlength hoccupies hoccupies
    · rfl
    · rfl
    · simp_all
    · rfl
  unfold verifyDisjoint
  rw [hchannels, hconflicts]

/-- **Order and empty pulses**: lists that hold the same pulses with samples, in whatever order and
    with whatever empty pulses among them, pass the check together or fail with the same error. -/
theorem verifyDisjoint_congr (h : (ps.filter (·.length ≠ 0)).Perm (qs.filter (·.length ≠ 0)))
    (scanIndex : ℕ) : verifyDisjoint scanIndex ps = verifyDisjoint scanIndex qs := by
  rw [← verifyDisjoint_filter ps, ← verifyDisjoint_filter qs]
  exact verifyDisjoint_perm h scanIndex

theorem nested_congr : ((nested.filter (·.length ≠ 0)).Perm
      ((nested.reverse.drop 3 ++ nested.reverse.take 2).filter (·.length ≠ 0))) ∧
    verifyDisjoint 3 nested =
      verifyDisjoint 3 (nested.reverse.drop 3 ++ nested.reverse.take 2) := by
  have h : (nested.filter (·.length ≠ 0)).Perm
      ((nested.reverse.drop 3 ++ nested.reverse.take 2).filter (·.length ≠ 0)) := by
    decide +kernel
  exact ⟨h, verifyDisjoint_congr h 3⟩

end PulseTrain.Scan
