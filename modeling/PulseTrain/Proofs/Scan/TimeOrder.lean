import PulseTrain.Proofs.Decimal.Extended
import PulseTrain.Proofs.Scan.Walk
import PulseTrain.Proofs.StableSort

/-! # Time order of the visits

    Times that are not NaN are compared as the numbers for which they stand, so the visits are
    sorted by these numbers. The sort is stable: of pulses with the same described time the one that
    is written first is visited first.

    * `Duration.value` is the number of seconds, and `Duration.extent` that of a time that may be
      infinite;
    * `stablySorted_of_orderedBy` is the order of the visits by any key that orders their times,
      `stablySorted_inTimeOrder` that by the number of seconds, and `stablySorted_timeline` that
      of the pulses visited.
-/

namespace PulseTrain

open Decimal

/-! ## Times as numbers -/

namespace Duration

/-- The exact number of seconds of a finite time. -/
def value (a : Duration) : ℚ := rational a.seconds

/-- A time that is a number. -/
def IsFinite (a : Duration) : Prop := a.seconds.isFinite = true

instance (a : Duration) : Decidable a.IsFinite := inferInstanceAs (Decidable (_ = _))

/-- A time that is not NaN. -/
def IsNumber (a : Duration) : Prop := a.seconds.isNaN = false

instance (a : Duration) : Decidable a.IsNumber := inferInstanceAs (Decidable (_ = _))

/-- No time, with either sign. -/
def IsZero (a : Duration) : Prop := (a.seconds == 0.0) = true

instance (a : Duration) : Decidable a.IsZero := inferInstanceAs (Decidable (_ = _))

/-- The number of seconds of a time that is not NaN, an infinite one included. -/
noncomputable def extent (a : Duration) : EReal := extended a.seconds

variable {a b : Duration}

theorem lt_iff_value_lt (ha : a.IsFinite) (hb : b.IsFinite) : a < b ↔ a.value < b.value :=
  lt_iff_rational_lt ha hb

theorem sameTime_iff_value_eq (ha : a.IsFinite) (hb : b.IsFinite) :
    a.sameTime b = true ↔ a.value = b.value :=
  beq_iff_rational_eq ha hb

theorem lt_iff_extent_lt (ha : a.IsNumber) (hb : b.IsNumber) : a < b ↔ a.extent < b.extent :=
  lt_iff_extended_lt ha hb

theorem sameTime_iff_extent_eq (ha : a.IsNumber) (hb : b.IsNumber) :
    a.sameTime b = true ↔ a.extent = b.extent :=
  beq_iff_extended_eq ha hb

end Duration

namespace Scan

/-! ## Order of the visits -/

/-- The number of seconds at which a pulse is described to start. -/
def startTime (p : Pulse) : ℚ := p.timing.value

/-- The time of a visit is the described start of the pulse. -/
def Visit.time (v : Visit) : ℚ := startTime v.described

section Keys

variable {κ : Type} [LinearOrder κ] {key : Visit → κ} {v : Visit} {sorted vs : List Visit}

/-- Visits whose times are in the order of a key. -/
def OrderedBy (key : Visit → κ) (vs : List Visit) : Prop :=
  ∀ v ∈ vs, ∀ w ∈ vs, v.described.timing < w.described.timing ↔ key v < key w

theorem OrderedBy.subset {us : List Visit} (h : OrderedBy key vs) (hus : us ⊆ vs) :
    OrderedBy key us :=
  fun v hv w hw => h v (hus hv) w (hus hw)

/-- A visit is put in front of those at the same time, in a list that runs backwards. -/
theorem filter_insertByTime (h : OrderedBy key (v :: sorted)) (k : κ) :
    (insertByTime v sorted).filter (key · = k) = (v :: sorted).filter (key · = k) := by
  induction sorted with
  | nil => rfl
  | cons w before ih =>
    have hskip : v :: before ⊆ v :: w :: before :=
      List.cons_subset_cons v (List.subset_cons_self w before)
    simp only [insertByTime]
    split
    · next hlt =>
      have hw : w ∈ v :: w :: before := List.mem_cons_of_mem _ List.mem_cons_self
      have hne : key v ≠ key w := ((h v List.mem_cons_self w hw).mp hlt).ne
      rw [List.filter_cons, ih (h.subset hskip), List.filter_cons, List.filter_cons,
        List.filter_cons]
      -- one of the two is not at the key `k`, so they need not change places
      by_cases hvk : key v = k
      · have hwk : key w ≠ k := fun e => hne (hvk.trans e.symm)
        simp only [hvk, hwk, decide_true, decide_false, if_true, Bool.false_eq_true, if_false]
      · simp only [hvk, decide_false, Bool.false_eq_true, if_false]
    · rfl

/-- A list that runs backwards in time still does so with one more visit. -/
theorem pairwise_insertByTime (h : OrderedBy key (v :: sorted))
    (hsorted : sorted.Pairwise (key · ≥ key ·)) :
    (insertByTime v sorted).Pairwise (key · ≥ key ·) := by
  -- by induction on the visits that are sorted already, latest first
  induction sorted with
  | nil => exact List.pairwise_singleton _ _
  | cons w before ih =>
    obtain ⟨hw, hbefore⟩ := List.pairwise_cons.mp hsorted
    have hskip : v :: before ⊆ v :: w :: before :=
      List.cons_subset_cons v (List.subset_cons_self w before)
    have hcompare := h v List.mem_cons_self w (List.mem_cons_of_mem _ List.mem_cons_self)
    simp only [insertByTime]
    split
    · next hlt =>
      have hvw : key v < key w := hcompare.mp hlt
      refine List.pairwise_cons.mpr ⟨?_, ih (h.subset hskip) hbefore⟩
      intro u hu
      rcases List.mem_cons.mp ((insertByTime_perm v before).mem_iff.mp hu) with rfl | hu
      · exact hvw.le
      · exact hw u hu
    · next hlt =>
      -- it stops in front of the first visit that is not later
      have hwv : key w ≤ key v := by
        rw [hcompare] at hlt
        exact not_lt.mp hlt
      refine List.pairwise_cons.mpr ⟨?_, hsorted⟩
      intro u hu
      rcases List.mem_cons.mp hu with rfl | hu
      · exact hwv
      · exact (hw u hu).trans hwv

/-- **Step**: with the list that runs backwards read forwards, one more visit is sorted in behind
    those at the same time. -/
theorem stablySorted_insertByTime {done : List Visit} (h : StablySorted key done sorted.reverse)
    (hordered : OrderedBy key (done ++ [v])) :
    StablySorted key (done ++ [v]) (insertByTime v sorted).reverse := by
  have hhere : OrderedBy key (v :: sorted) := by
    apply hordered.subset
    intro u hu
    rcases List.mem_cons.mp hu with rfl | hu
    · simp
    · have hdone := h.perm.mem_iff.mp (List.mem_reverse.mpr hu)
      exact List.mem_append_left _ hdone
  refine ⟨?_, ?_, ?_⟩
  · have hperm : (v :: sorted).Perm (done ++ [v]) :=
      ((((List.reverse_perm sorted).symm.trans h.perm).cons v).trans
        (List.perm_append_singleton v done).symm)
    exact ((List.reverse_perm _).trans (insertByTime_perm v sorted)).trans hperm
  · exact List.pairwise_reverse.mpr
      (pairwise_insertByTime hhere (List.pairwise_reverse.mp h.ascending))
  · intro k
    -- visits of one time keep the order in which they came
    have hstable := h.stable k
    rw [List.filter_reverse] at hstable
    rw [List.filter_reverse, filter_insertByTime hhere, List.filter_cons, List.filter_append,
      ← hstable, List.filter_singleton]
    cases decide (key v = k) <;> simp

/-- **Order**: the visits are sorted by any key that orders their times, and those at the same time
    stay as they come. -/
theorem stablySorted_of_orderedBy (h : OrderedBy key vs) :
    StablySorted key vs (inTimeOrder vs) := by
  induction vs using List.reverseRecOn with
  | nil => exact ⟨List.Perm.refl _, List.Pairwise.nil, fun _ => rfl⟩
  | append_singleton done v ih =>
    have hdone : StablySorted key done (inTimeOrder done).reverse.reverse := by
      rw [List.reverse_reverse]
      exact ih (h.subset (List.subset_append_left done [v]))
    rw [inTimeOrder_append_singleton]
    exact stablySorted_insertByTime hdone h

end Keys

/-- Visits at finite times. -/
def AllFinite (vs : List Visit) : Prop := ∀ v ∈ vs, v.described.timing.IsFinite

/-- Finite times are in the order of the numbers for which they stand. -/
theorem stablySorted_inTimeOrder {vs : List Visit} (h : AllFinite vs) :
    StablySorted Visit.time vs (inTimeOrder vs) :=
  stablySorted_of_orderedBy fun v hv w hw => Duration.lt_iff_value_lt (h v hv) (h w hw)

/-! ## Order of the pulses -/

/-- The pulses as they are visited when each is bound by `f`. -/
def timeline (l : List Pulse) (f : Pulse → Pulse) : List Pulse :=
  (inTimeOrder (visits l (l.map f))).map (·.described)

theorem map_described_visits (l : List Pulse) (f : Pulse → Pulse) :
    (visits l (l.map f)).map (·.described) = l := by
  rw [visits_map, List.map_map]
  exact List.zipIdx_map_fst 0 l

theorem bound_of_mem_visits {l : List Pulse} {f : Pulse → Pulse} {v : Visit}
    (h : v ∈ visits l (l.map f)) : v.bound = f v.described ∧ v.described ∈ l := by
  rw [visits_map, List.mem_map] at h
  obtain ⟨⟨p, i⟩, hmem, rfl⟩ := h
  exact ⟨rfl, List.fst_mem_of_mem_zipIdx hmem⟩

/-- **Order** of the pulses, as they are described. -/
theorem stablySorted_timeline {l : List Pulse} (f : Pulse → Pulse)
    (h : ∀ p ∈ l, p.timing.IsFinite) : StablySorted startTime l (timeline l f) := by
  have hfinite : AllFinite (visits l (l.map f)) := fun v hv => h _ (bound_of_mem_visits hv).2
  have hsort : StablySorted startTime _ (timeline l f) :=
    StablySorted.map Visit.described (stablySorted_inTimeOrder hfinite)
  rw [map_described_visits] at hsort
  exact hsort

end Scan

end PulseTrain
