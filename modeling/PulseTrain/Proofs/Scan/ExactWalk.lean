import PulseTrain.Proofs.Decimal.Arithmetic
import PulseTrain.Proofs.Scan.ShiftRule

/-! # Walks without rounding

    If nothing is rounded, the walk can be followed in rational numbers. The shift is then a
    fold over the pulses that have been visited: a pulse with bound timing starts it anew, and
    every other pulse adds its growth. A pulse that is moved is moved by the fold over the
    pulses that start before it.

    * **Hypothesis**: `ExactRun`, all times are finite and all sums and differences are exact;
    * **Step and run**: `Walk.ExactStep.value_passOn`, `ExactWalk.value_shift`;
    * **Result**: `adjusted_of_movable`, `adjusted_of_not_movable`.
-/

namespace PulseTrain

namespace Duration

/-- A sum that is finite and not rounded. -/
def ExactSum (a b : Duration) : Prop :=
  (a + b).IsFinite ∧ (a + b).value = a.value + b.value

def ExactDifference (a b : Duration) : Prop :=
  (a - b).IsFinite ∧ (a - b).value = a.value - b.value

instance (a b : Duration) : Decidable (ExactSum a b) := inferInstanceAs (Decidable (_ ∧ _))
instance (a b : Duration) : Decidable (ExactDifference a b) :=
  inferInstanceAs (Decidable (_ ∧ _))

end Duration

namespace Scan

open Duration Decimal

/-! ## Exact walks -/

def Visit.Finite (v : Visit) : Prop :=
  (v.described.timing.IsFinite ∧ v.described.duration.IsFinite) ∧
    v.bound.timing.IsFinite ∧ v.bound.duration.IsFinite

/-- Whether a pulse is moved along with the pulses before it. -/
def Movable (p : Pulse) : Prop := p.binds .timing = false ∧ p.isFixed = false

/-- A visit that computes nothing but exact sums and differences. -/
def Walk.ExactStep (w : Walk) (v : Visit) : Prop :=
  ExactDifference v.bound.duration v.described.duration ∧
    if v.described.binds .timing then
      ExactDifference v.bound.timing v.described.timing ∧
        ExactSum (v.bound.timing - v.described.timing) (v.bound.duration - v.described.duration)
    else
      ExactSum w.shift (v.bound.duration - v.described.duration) ∧
        (v.described.isFixed = false →
          ExactSum v.described.timing (w.arrive v.described.timing).presentShift)

/-- A walk all of whose visits are finite and exact. -/
def ExactWalk : Walk → List Visit → Prop
  | _, [] => True
  | w, v :: rest => v.Finite ∧ w.ExactStep v ∧ ExactWalk (w.step v).1 rest

/-- The walk through some pulses, as it is made for a value of the variable, has finite times and is
    not spoilt by rounding. -/
def ExactRun (x : Float) (l : List Pulse) : Prop :=
  ExactWalk .start (inTimeOrder (visits l (l.map (·.bind x))))

instance (v : Visit) : Decidable v.Finite := inferInstanceAs (Decidable (_ ∧ _))

instance (w : Walk) (v : Visit) : Decidable (w.ExactStep v) := by
  unfold Walk.ExactStep
  infer_instance

instance decidableExactWalk : (w : Walk) → (vs : List Visit) → Decidable (ExactWalk w vs)
  | _, [] => isTrue trivial
  | w, v :: rest =>
    have := decidableExactWalk (w.step v).1 rest
    inferInstanceAs (Decidable (_ ∧ _))

instance (x : Float) (l : List Pulse) : Decidable (ExactRun x l) := decidableExactWalk _ _

theorem ExactWalk.finite {w : Walk} {vs : List Visit} (h : ExactWalk w vs) :
    ∀ v ∈ vs, v.Finite := by
  induction vs generalizing w with
  | nil =>
    intro v hv
    cases hv
  | cons u rest ih =>
    obtain ⟨hu, _, hrest⟩ := h
    intro v hv
    rcases List.mem_cons.mp hv with rfl | hv
    · exact hu
    · exact ih hrest v hv

/-! ## The walk in rational numbers -/

/-- By how much the duration of a pulse grows when it is bound. -/
def growth (x : Float) (p : Pulse) : ℚ := (p.bind x).duration.value - p.duration.value

/-- By how much the end of a pulse is displaced when it is bound. -/
def endShift (x : Float) (p : Pulse) : ℚ :=
  (p.bind x).timing.value - p.timing.value + growth x p

def advance (x : Float) (shift : ℚ) (p : Pulse) : ℚ :=
  if p.binds .timing then endShift x p else shift + growth x p

def shiftAfter (x : Float) (ps : List Pulse) : ℚ := ps.foldl (advance x) 0

/-! ## Step and run -/

theorem value_zero : Duration.zero.value = 0 := by decide +kernel

variable {x : Float} {w : Walk}

/-- **Step**: the shift that an exact visit passes on. -/
theorem Walk.ExactStep.value_passOn {v : Visit} (h : w.ExactStep v)
    (hbound : v.bound = v.described.bind x) :
    (v.passOn w.shift).value = advance x w.shift.value v.described := by
  obtain ⟨⟨_, hgrowth⟩, hrest⟩ := h
  rw [hbound] at hgrowth hrest
  unfold Visit.passOn advance
  -- a bound pulse sets the shift anew, and any other adds to it
  by_cases hb : v.described.binds .timing = true
  · rw [if_pos hb] at hrest
    obtain ⟨⟨_, hdisplaced⟩, _, hsum⟩ := hrest
    rw [if_pos hb, if_pos hb, hbound, hsum, hdisplaced, hgrowth]
    rfl
  · rw [if_neg hb] at hrest
    obtain ⟨⟨_, hsum⟩, _⟩ := hrest
    rw [if_neg hb, if_neg hb, hbound, hsum, hgrowth]
    rfl

theorem ExactWalk.append {us vs : List Visit} (h : ExactWalk w (us ++ vs)) :
    ExactWalk w us ∧ ExactWalk (w.after us) vs := by
  induction us generalizing w with
  | nil => exact ⟨trivial, h⟩
  | cons u rest ih =>
    obtain ⟨hu, hstep, hrest⟩ := h
    obtain ⟨hfirst, hlater⟩ := ih hrest
    exact ⟨⟨hu, hstep, hfirst⟩, hlater⟩

/-- **Run**: the shift of an exact walk accounts for all pulses that are visited. -/
theorem ExactWalk.value_shift {vs : List Visit} (h : ExactWalk w vs)
    (hbound : ∀ v ∈ vs, v.bound = v.described.bind x) :
    (w.after vs).shift.value = (vs.map (·.described)).foldl (advance x) w.shift.value := by
  -- by induction on the visits, with the shift that the walk has so far
  induction vs generalizing w with
  | nil => rfl
  | cons v rest ih =>
    obtain ⟨_, hstep, hrest⟩ := h
    have hshift : (w.step v).1.shift.value = advance x w.shift.value v.described := by
      rw [Walk.step_walk]
      exact hstep.value_passOn (hbound v List.mem_cons_self)
    have hlater := ih hrest fun u hu => hbound u (List.mem_cons_of_mem _ hu)
    rw [hshift] at hlater
    exact hlater

/-! ## Result -/

/-- The pulses for a value of the variable, bound and moved along. -/
def adjusted (x : Float) (l : List Pulse) : List Pulse := moveAlong l (l.map (·.bind x))

/-- The shift by which a pulse at time `t` is moved. -/
def shiftAt (x : Float) (l : List Pulse) (t : ℚ) : ℚ :=
  shiftAfter x ((timeline l (·.bind x)).filter (startTime · < t))

variable {l : List Pulse} {i : ℕ} {p : Pulse}

/-- All times that are met in an exact run are finite. -/
theorem ExactRun.finite (h : ExactRun x l) : ∀ p ∈ l,
    p.timing.IsFinite ∧ (p.bind x).timing.IsFinite := by
  intro p hp
  obtain ⟨i, hi, rfl⟩ := List.getElem_of_mem hp
  have hvisit : (⟨i, l[i], l[i].bind x⟩ : Visit) ∈ visits l (l.map (·.bind x)) := by
    rw [visits_map, List.mem_map]
    exact ⟨(l[i], i), List.mem_zipIdx_iff_getElem?.mpr (List.getElem?_eq_getElem hi), rfl⟩
  have hfinite := ExactWalk.finite h _ ((inTimeOrder_perm _).mem_iff.mpr hvisit)
  exact ⟨hfinite.1.1, hfinite.2.1⟩

/-- A pulse that is not moved has the value of the variable in its bound fields, and nothing else
    has happened to it. -/
theorem adjusted_of_not_movable (hp : l[i]? = some p) (h : ¬Movable p) :
    (adjusted x l)[i]? = some (p.bind x) := by
  obtain ⟨before, later, _, hget⟩ := getElem?_moveAlong (·.bind x) hp
  unfold adjusted
  rw [hget]
  congr 1
  simp only [Walk.step]
  -- the pulse is bound in its timing or fixed, and neither is moved
  by_cases hb : p.binds .timing = true
  · rw [if_pos hb]
  · have hfixed : p.isFixed = true := by
      by_contra hfree
      exact h ⟨Bool.not_eq_true _ ▸ hb, Bool.not_eq_true _ ▸ hfree⟩
    rw [if_neg hb, if_pos hfixed]

/-- In an exact run the times can be compared. -/
theorem ExactRun.comparable (h : ExactRun x l) : Comparable l (l.map (·.bind x)) :=
  ⟨(List.length_map _).symm, fun p hp => isNaN_of_isFinite (h.finite p hp).1⟩

/-- The shift that the rule gives in an exact run. -/
theorem ExactRun.value_shiftBefore (h : ExactRun x l) {time : Duration} (htime : time.IsFinite) :
    (shiftBefore l (l.map (·.bind x)) time).value = shiftAt x l time.value := by
  have hsort := stablySorted_of_allNumbers h.comparable.allNumbers
  have hnumbers := h.comparable.allNumbers.subset hsort.perm.subset
  -- the pulses that start before the time are those that are visited first
  obtain ⟨later, horder⟩ : ∃ later, inTimeOrder (visits l (l.map (·.bind x))) =
      (inTimeOrder (visits l (l.map (·.bind x)))).filter (·.described.timing < time) ++ later := by
    have hsplit := StablySorted.append_filter_of_ascending hsort.ascending time.extent
    rw [List.append_assoc, ← hnumbers.filter_eq (isNaN_of_isFinite htime)] at hsplit
    exact ⟨_, hsplit⟩
  have hrun : ExactWalk .start
      ((inTimeOrder (visits l (l.map (·.bind x)))).filter (·.described.timing < time) ++
        later) := by
    rw [← horder]
    exact h
  have hvalue := hrun.append.1.value_shift (x := x) fun v hv =>
    (bound_of_mem_visits (hsort.perm.subset (List.mem_filter.mp hv).1)).1
  rw [Walk.shift_after] at hvalue
  have hzero : Walk.start.shift.value = 0 := value_zero
  rw [shiftBefore, earlier_eq h.comparable, hvalue, hzero, shiftAt, shiftAfter, timeline,
    List.filter_map]
  -- the visits keep the order of the pulses, so both filter the same pulses
  congr 2
  apply List.filter_congr
  intro v hv
  rw [Function.comp_apply, decide_eq_decide]
  exact lt_iff_value_lt (ExactWalk.finite h v hv).1.1 htime

/-- **Result** of an exact run: a pulse that is moved starts later by the shift of all pulses
    that start before it. -/
theorem adjusted_of_movable (hexact : ExactRun x l) (hp : l[i]? = some p) (h : Movable p) :
    ∃ q, (adjusted x l)[i]? = some q ∧ q.timing.IsFinite ∧
      q.timing.value = startTime p + shiftAt x l (startTime p) := by
  obtain ⟨before, later, horder, hget⟩ := getElem?_moveAlong (·.bind x) hp
  have hfinite := (hexact.finite p (List.mem_of_getElem? hp)).1
  have hshift := presentShift_of_order hexact.comparable horder
  -- the sum is exact in the walk, which finds the shift of the rule
  have hrun : ExactWalk .start (before ++ ⟨i, p, p.bind x⟩ :: later) := horder ▸ hexact
  obtain ⟨_, _, ⟨_, hstep⟩, _⟩ := hrun.append
  rw [if_neg (by rw [h.1]; decide)] at hstep
  obtain ⟨hsumFinite, hsum⟩ := hstep.2 h.2
  have hpulse : ((Walk.start.after before).step ⟨i, p, p.bind x⟩).2.timing =
      p.timing + ((Walk.start.after before).arrive p.timing).presentShift := by
    rw [Walk.step_pulse_eq, h.1, h.2]
    rfl
  refine ⟨_, hget, ?_, ?_⟩
  · rw [hpulse]
    exact hsumFinite
  · rw [hpulse, hsum, hshift, hexact.value_shiftBefore hfinite]
    rfl

end Scan

end PulseTrain
