import PulseTrain.Proofs.Decimal.SignedZero
import PulseTrain.Proofs.Scan.TimeOrder

/-! # Pulses that push nothing

    A fixed pulse whose duration is not scanned is not moved and adds no growth to the shift. So
    it may stand anywhere in the order of the visits: all other pulses are moved as if it were not
    there. It does take part in the comparison of times, and it does turn a shift of negative zero
    into zero. The first does not matter, because pulses at one time still find the shift of those
    before them, and the second does not either, because a shift of negative zero comes about no
    earlier than at time zero, and only a pulse at time zero could tell it from zero.

    * **Times**: `Duration.Like`, the same but for the sign of a zero;
    * **Order**: `filter_inTimeOrder_append`: the other visits stay in their order;
    * **Invariant**: `Walk.Unsigned` for one walk, `Walk.Follows` for a walk and one with more
      visits;
    * **Step and run**: `Walk.Follows.idle` and `Walk.Follows.step`, `Walk.Follows.after`;
    * **Result**: `moveAlong_append`.
-/

namespace PulseTrain

open Decimal

namespace Duration

/-! ## Times up to the sign of a zero -/

/-- The zero with a minus sign. -/
def negativeZero : Duration := ⟨-0.0⟩

/-- The same times, but perhaps for the sign of a zero. -/
def Like (a b : Duration) : Prop := a = b ∨ a.IsZero ∧ b.IsZero

variable {a b c z t : Duration}

theorem mk_ne_negZero (h : a ≠ negativeZero) : a.seconds ≠ -0.0 :=
  fun hseconds => h (congrArg Duration.mk hseconds)

theorem isZero_iff : a.IsZero ↔ a = zero ∨ a = negativeZero := by
  unfold IsZero
  rw [beq_posZero_iff]
  exact or_congr ⟨congrArg Duration.mk, congrArg Duration.seconds⟩
    ⟨congrArg Duration.mk, congrArg Duration.seconds⟩

theorem isZero_zero : zero.IsZero := isZero_iff.mpr (Or.inl rfl)

theorem isZero_negativeZero : negativeZero.IsZero := isZero_iff.mpr (Or.inr rfl)

theorem extent_of_isZero (h : a.IsZero) : a.extent = 0 :=
  (beq_zero_iff (isNaN_of_beq h).1).mp h

theorem Like.refl (a : Duration) : a.Like a := Or.inl rfl

theorem Like.symm (h : a.Like b) : b.Like a := by
  rcases h with rfl | ⟨ha, hb⟩
  · exact .refl _
  · exact Or.inr ⟨hb, ha⟩

theorem Like.trans (h : a.Like b) (h' : b.Like c) : a.Like c := by
  rcases h with rfl | ⟨ha, hb⟩
  · exact h'
  · rcases h' with rfl | ⟨_, hc⟩
    · exact Or.inr ⟨ha, hb⟩
    · exact Or.inr ⟨ha, hc⟩

/-- A zero adds nothing but perhaps a sign. -/
theorem IsZero.add_like (h : z.IsZero) (c : Duration) : (z + c).Like c := by
  rcases isZero_iff.mp h with rfl | rfl
  · -- only the negative zero is changed by adding a zero, and into another zero
    by_cases hc : c = negativeZero
    · subst hc
      have hsum : zero + negativeZero = zero := congrArg Duration.mk (add_negZero 0.0)
      rw [hsum]
      exact Or.inr ⟨isZero_zero, isZero_negativeZero⟩
    · exact Or.inl (congrArg Duration.mk (posZero_add (mk_ne_negZero hc)))
  · exact Or.inl (congrArg Duration.mk (negZero_add c.seconds))

theorem Like.add_right (h : a.Like b) (c : Duration) : (a + c).Like (b + c) := by
  rcases h with rfl | ⟨ha, hb⟩
  · exact .refl _
  · exact (ha.add_like c).trans (hb.add_like c).symm

/-- What a finite time differs from itself changes nothing but perhaps a sign. -/
theorem add_sub_self_like (h : b.IsFinite) (a : Duration) : (a + (b - b)).Like a := by
  have hzero : b - b = zero := congrArg Duration.mk (sub_self_eq h)
  rw [hzero]
  by_cases ha : a = negativeZero
  · subst ha
    have hsum : negativeZero + zero = zero := congrArg Duration.mk (negZero_add 0.0)
    rw [hsum]
    exact Or.inr ⟨isZero_zero, isZero_negativeZero⟩
  · exact Or.inl (congrArg Duration.mk (add_posZero (mk_ne_negZero ha)))

/-- A time that is no zero does not tell the zeros apart when they are added to it. -/
theorem Like.add_left_eq (h : a.Like b)
    (ht : t.IsZero → a ≠ negativeZero ∧ b ≠ negativeZero) : t + a = t + b := by
  rcases h with rfl | ⟨ha, hb⟩
  · rfl
  · by_cases hzero : t.IsZero
    · obtain ⟨hane, hbne⟩ := ht hzero
      rw [(isZero_iff.mp ha).resolve_right hane, (isZero_iff.mp hb).resolve_right hbne]
    · have ht : t ≠ negativeZero := fun e => hzero (isZero_iff.mpr (Or.inr e))
      -- a zero of either sign adds nothing to what is not the negative zero
      have hkept : ∀ {z : Duration}, z.IsZero → t + z = t := by
        intro z hz
        rcases isZero_iff.mp hz with rfl | rfl
        · exact congrArg Duration.mk (add_posZero (mk_ne_negZero ht))
        · exact congrArg Duration.mk (add_negZero t.seconds)
      rw [hkept ha, hkept hb]

end Duration

namespace Scan

open Duration

/-! ## Order of the visits -/

theorem filter_insertByTime_of_neg {keep : Visit → Bool} {v : Visit} (hv : keep v = false)
    (sorted : List Visit) : (insertByTime v sorted).filter keep = sorted.filter keep := by
  have hdrop : ∀ rest : List Visit, (v :: rest).filter keep = rest.filter keep := by
    intro rest
    rw [List.filter_cons, hv]
    rfl
  -- by induction on the visits that are sorted already
  induction sorted with
  | nil => exact hdrop []
  | cons w before ih =>
    simp only [insertByTime]
    split
    · rw [List.filter_cons, List.filter_cons, ih]
    · exact hdrop _

/-- **Order**: visits that come last are put among the others, and these stay in their order. -/
theorem filter_inTimeOrder_append {keep : Visit → Bool} {us vs : List Visit}
    (hus : ∀ u ∈ us, keep u = true) (hvs : ∀ v ∈ vs, keep v = false) :
    (inTimeOrder (us ++ vs)).filter keep = inTimeOrder us := by
  induction vs using List.reverseRecOn with
  | nil =>
    rw [List.append_nil, List.filter_eq_self]
    intro u hu
    exact hus u ((inTimeOrder_perm us).mem_iff.mp hu)
  | append_singleton vs v ih =>
    -- the last visit is put somewhere among the others, and the filter takes it out
    have hv : keep v = false := hvs v (List.mem_append_right vs List.mem_cons_self)
    rw [← List.append_assoc, inTimeOrder_append_singleton, List.filter_reverse,
      filter_insertByTime_of_neg hv, ← List.filter_reverse, List.reverse_reverse]
    exact ih fun u hu => hvs u (List.mem_append_left [v] hu)

/-! ## One walk -/

namespace Walk

variable {w w' : Walk} {time : Duration}

/-- The present time of a walk, if there is one, is a number and no later than the given time. -/
def UpTo (w : Walk) (time : Duration) : Prop :=
  ∀ now ∈ w.present, now.IsNumber ∧ now.extent ≤ time.extent

/-- **Invariant** of one walk: a shift of negative zero has come about at time zero or later, so
    nothing is moved by it before a later time. -/
structure Unsigned (w : Walk) : Prop where
  shift : w.shift = negativeZero → ∃ now ∈ w.present, 0 ≤ now.extent
  presentShift : w.presentShift = negativeZero → ∃ now ∈ w.present, 0 < now.extent

theorem Unsigned.start : Walk.start.Unsigned := by
  have hzero : Duration.zero ≠ negativeZero := by decide +kernel
  exact ⟨fun h => absurd h hzero, fun h => absurd h hzero⟩

theorem any_sameTime {now : Duration} (hpresent : w.present = some now) (hnow : now.IsNumber)
    (htime : time.IsNumber) :
    w.present.any (·.sameTime time) = true ↔ now.extent = time.extent := by
  rw [hpresent]
  exact sameTime_iff_extent_eq hnow htime

theorem Unsigned.arrive (h : w.Unsigned) (htime : time.IsNumber) (hupto : w.UpTo time) :
    (w.arrive time).Unsigned := by
  constructor
  · rw [shift_arrive, present_arrive]
    intro hshift
    obtain ⟨now, hnow, hzero⟩ := h.shift hshift
    exact ⟨time, rfl, hzero.trans (hupto now hnow).2⟩
  · rw [presentShift_arrive, present_arrive]
    split
    · intro hshift
      obtain ⟨now, hnow, hzero⟩ := h.presentShift hshift
      exact ⟨time, rfl, hzero.trans_le (hupto now hnow).2⟩
    · next hother =>
      -- the shift is from an earlier time, which is not before zero
      intro hshift
      obtain ⟨now, hnow, hzero⟩ := h.shift hshift
      obtain ⟨hnumber, hle⟩ := hupto now hnow
      rw [any_sameTime hnow hnumber htime] at hother
      exact ⟨time, rfl, hzero.trans_lt (lt_of_le_of_ne hle hother)⟩

theorem Unsigned.step {v : Visit} (h : w.Unsigned) (htime : v.described.timing.IsNumber)
    (hupto : w.UpTo v.described.timing) : (w.step v).1.Unsigned := by
  have harrive := h.arrive htime hupto
  rw [step_walk]
  refine ⟨?_, harrive.presentShift⟩
  intro hshift
  simp only [Visit.passOn] at hshift
  split at hshift
  · -- a difference that is negative zero is one from zero
    have hsum := congrArg Duration.seconds hshift
    have hzero := (eq_negZero_of_sub (eq_negZero_of_add hsum).1).2
    refine ⟨v.described.timing, present_arrive w _, ?_⟩
    have htime : v.described.timing = zero := congrArg Duration.mk hzero
    rw [htime, extent_of_isZero isZero_zero]
  · have hsum := congrArg Duration.seconds hshift
    have hbefore : w.shift = negativeZero := congrArg Duration.mk (eq_negZero_of_add hsum).1
    rw [← shift_arrive w v.described.timing] at hbefore
    exact harrive.shift hbefore

/-- The present time is that of a visit. -/
theorem mem_present_after {vs : List Visit} {now : Duration}
    (h : now ∈ (Walk.start.after vs).present) : ∃ v ∈ vs, v.described.timing = now := by
  refine Walk.after_invariant (P := fun w => now ∈ w.present → ∃ v ∈ vs, v.described.timing = now)
    (fun hstart => ?_) (fun w v hv _ hnow => ?_) h
  · cases hstart
  · rw [present_step] at hnow
    exact ⟨v, hv, Option.some.inj hnow⟩

end Walk

/-! ## Two walks -/

/-- A visit to a pulse that is not moved and passes the shift on as it is. -/
structure Visit.Idle (v : Visit) : Prop where
  isFixed : v.described.isFixed = true
  unbound : v.described.binds .timing = false
  duration : v.bound.duration = v.described.duration
  finite : v.described.duration.IsFinite

theorem Visit.Idle.passOn_like {v : Visit} (h : v.Idle) (shift : Duration) :
    (v.passOn shift).Like shift := by
  unfold Visit.passOn
  dsimp only
  rw [if_neg (by rw [h.unbound]; exact Bool.false_ne_true), h.duration]
  exact add_sub_self_like h.finite shift

theorem Visit.passOn_like (v : Visit) {a b : Duration} (h : a.Like b) :
    (v.passOn a).Like (v.passOn b) := by
  unfold Visit.passOn
  dsimp only
  split
  · exact .refl _
  · exact h.add_right _

namespace Walk

variable {w w' : Walk} {time : Duration}

/-- **Invariant** of a walk and another one that makes further visits: the second is not behind the
    first, and at every time from now on both move a pulse in the same way. -/
structure Follows (w w' : Walk) : Prop where
  unsigned : w.Unsigned
  unsigned' : w'.Unsigned
  shift : w.shift.Like w'.shift
  upTo : ∀ time, w'.UpTo time → w.UpTo time
  arrival : ∀ time, time.IsNumber → w'.UpTo time →
    (w.arrive time).presentShift.Like (w'.arrive time).presentShift

theorem Follows.start : Walk.start.Follows Walk.start :=
  ⟨.start, .start, .refl _, fun _ h => h, fun _ _ _ => .refl _⟩

/-- After a visit a pulse at the same time finds the shift that the visit has found, and a pulse at
    a later time the shift that the visit has passed on. -/
theorem presentShift_step (w : Walk) {v : Visit} (hv : v.described.timing.IsNumber)
    (htime : time.IsNumber) : ((w.step v).1.arrive time).presentShift =
      if v.described.timing.extent = time.extent then
        (w.arrive v.described.timing).presentShift
      else v.passOn w.shift := by
  rw [presentShift_arrive]
  simp only [any_sameTime (present_step w v) hv htime]
  rw [step_walk]

theorem upTo_step {v : Visit} (hv : v.described.timing.IsNumber) :
    (w.step v).1.UpTo time ↔ v.described.timing.extent ≤ time.extent := by
  unfold UpTo
  rw [present_step]
  constructor
  · intro h
    exact (h _ rfl).2
  · intro h now hnow
    cases hnow
    exact ⟨hv, h⟩

/-- A pulse at a later time finds the shift of all that were visited. -/
theorem presentShift_arrive_of_lt {earlier : Duration} (hupto : w.UpTo earlier)
    (htime : time.IsNumber) (hlt : earlier.extent < time.extent) :
    (w.arrive time).presentShift = w.shift := by
  rw [presentShift_arrive]
  cases hpresent : w.present with
  | none => rfl
  | some now =>
    obtain ⟨hnumber, hle⟩ := hupto now hpresent
    rw [← hpresent, if_neg]
    rw [any_sameTime hpresent hnumber htime]
    exact (hle.trans_lt hlt).ne

/-- A pulse at the same time finds the same shift. -/
theorem presentShift_arrive_congr {earlier : Duration} (hupto : w.UpTo earlier)
    (hearlier : earlier.IsNumber) (htime : time.IsNumber) (heq : earlier.extent = time.extent) :
    (w.arrive time).presentShift = (w.arrive earlier).presentShift := by
  rw [presentShift_arrive, presentShift_arrive]
  cases hpresent : w.present with
  | none => rfl
  | some now =>
    have hnumber := (hupto now hpresent).1
    rw [← hpresent]
    simp only [any_sameTime hpresent hnumber htime, any_sameTime hpresent hnumber hearlier, heq]

/-- **Step** that only the second walk makes. -/
theorem Follows.idle {v : Visit} (h : w.Follows w') (hv : v.Idle)
    (hnumber : v.described.timing.IsNumber) (hupto : w'.UpTo v.described.timing) :
    w.Follows (w'.step v).1 := by
  have hshift : w.shift.Like (v.passOn w'.shift) := h.shift.trans (hv.passOn_like _).symm
  have hupto₁ : w.UpTo v.described.timing := h.upTo _ hupto
  -- only the second walk moves on, and an idle visit passes on the shift that it finds
  refine ⟨h.unsigned, h.unsigned'.step hnumber hupto, ?_, ?_, ?_⟩
  · rw [step_walk]
    exact hshift
  · intro time hlater
    rw [upTo_step hnumber] at hlater
    intro now hnow
    obtain ⟨hnow, hle⟩ := hupto₁ now hnow
    exact ⟨hnow, hle.trans hlater⟩
  · intro time htime hlater
    rw [upTo_step hnumber] at hlater
    rw [presentShift_step w' hnumber htime]
    split
    · next heq =>
      rw [presentShift_arrive_congr hupto₁ hnumber htime heq]
      exact h.arrival _ hnumber hupto
    · next hne =>
      rw [presentShift_arrive_of_lt hupto₁ htime (lt_of_le_of_ne hlater hne)]
      exact hshift

/-- **Step** that both walks make. -/
theorem Follows.step {v : Visit} (h : w.Follows w') (hnumber : v.described.timing.IsNumber)
    (hupto : w'.UpTo v.described.timing) : (w.step v).1.Follows (w'.step v).1 := by
  have hshift := v.passOn_like h.shift
  refine ⟨h.unsigned.step hnumber (h.upTo _ hupto), h.unsigned'.step hnumber hupto, ?_, ?_, ?_⟩
  · rw [step_walk, step_walk]
    exact hshift
  · intro time hlater
    rw [upTo_step hnumber] at hlater ⊢
    exact hlater
  · intro time htime _
    rw [presentShift_step w hnumber htime, presentShift_step w' hnumber htime]
    split
    · exact h.arrival _ hnumber hupto
    · exact hshift

/-- **Run**: visits in time order, of which the first walk makes only those that are not idle. -/
theorem Follows.after {keep : Visit → Bool} {vs : List Visit} (h : w.Follows w')
    (hidle : ∀ v ∈ vs, keep v = false → v.Idle) (hnumber : ∀ v ∈ vs, v.described.timing.IsNumber)
    (hupto : ∀ v ∈ vs, w'.UpTo v.described.timing)
    (hsorted : vs.Pairwise (·.described.timing.extent ≤ ·.described.timing.extent)) :
    (w.after (vs.filter keep)).Follows (w'.after vs) := by
  -- by induction on the visits, where an idle one is made on the right side only
  induction vs generalizing w w' with
  | nil => exact h
  | cons v rest ih =>
    obtain ⟨hv, hrest⟩ := List.pairwise_cons.mp hsorted
    have hvnumber := hnumber v List.mem_cons_self
    have hvupto := hupto v List.mem_cons_self
    have hidle' := fun u hu => hidle u (List.mem_cons_of_mem v hu)
    have hnumber' := fun u hu => hnumber u (List.mem_cons_of_mem v hu)
    have hupto' : ∀ u ∈ rest, (w'.step v).1.UpTo u.described.timing := by
      intro u hu
      rw [upTo_step hvnumber]
      exact hv u hu
    cases hkeep : keep v with
    | true =>
      rw [List.filter_cons_of_pos hkeep]
      exact ih (h.step hvnumber hvupto) hidle' hnumber' hupto' hrest
    | false =>
      rw [List.filter_cons_of_neg (by rw [hkeep]; exact Bool.false_ne_true)]
      exact ih (h.idle (hidle v List.mem_cons_self hkeep) hvnumber hvupto) hidle' hnumber' hupto'
        hrest

/-- Both walks put a pulse in the same place. -/
theorem Follows.pulse_eq {v : Visit} (h : w.Follows w') (hnumber : v.described.timing.IsNumber)
    (hupto : w'.UpTo v.described.timing) : (w'.step v).2 = (w.step v).2 := by
  have hlike := h.arrival _ hnumber hupto
  have harrive := h.unsigned.arrive hnumber (h.upTo _ hupto)
  have harrive' := h.unsigned'.arrive hnumber hupto
  -- a pulse at time zero is not moved by a negative zero
  have hunsigned : ∀ {u : Walk}, (u.arrive v.described.timing).Unsigned →
      v.described.timing.IsZero →
        (u.arrive v.described.timing).presentShift ≠ negativeZero := by
    intro u hu hzero hshift
    obtain ⟨now, hnow, hpos⟩ := hu.presentShift hshift
    rw [present_arrive] at hnow
    cases hnow
    exact hpos.ne' (extent_of_isZero hzero)
  have hsum := hlike.add_left_eq fun hzero => ⟨hunsigned harrive hzero, hunsigned harrive' hzero⟩
  unfold Walk.step
  dsimp only
  rw [hsum]
  split
  · rfl
  · rfl

end Walk

/-! ## Result -/

/-- A pulse that is fixed, is bound to nothing and has a finite duration. -/
structure Idle (p : Pulse) : Prop where
  isFixed : p.isFixed = true
  bindings : p.bindings = []
  finite : p.duration.IsFinite

/-- It is not moved, and passes the shift on. -/
theorem Idle.visit {v : Visit} (h : Idle v.described) (hbound : v.bound = v.described) :
    v.Idle := by
  refine ⟨h.isFixed, ?_, by rw [hbound], h.finite⟩
  unfold Pulse.binds Pulse.binding?
  rw [h.bindings]
  rfl

variable {l extra : List Pulse} {f : Pulse → Pulse}

theorem visits_append (l extra : List Pulse) (f : Pulse → Pulse) :
    visits (l ++ extra) ((l ++ extra).map f) = visits l (l.map f) ++
      (extra.zipIdx l.length).map fun (p, i) => ⟨i, p, f p⟩ := by
  rw [visits_map, visits_map, List.zipIdx_append, List.map_append, Nat.zero_add]

/-- A visit to one of the pulses that come last. -/
theorem mem_extra_of_mem_visits {v : Visit} (h : v ∈ visits (l ++ extra) ((l ++ extra).map f))
    (hindex : ¬v.index < l.length) : v.described ∈ extra := by
  rw [visits_append, visits_map, List.mem_append, List.mem_map, List.mem_map] at h
  rcases h with ⟨⟨p, i⟩, hmem, rfl⟩ | ⟨⟨p, i⟩, hmem, rfl⟩
  · obtain ⟨hi, _⟩ := List.getElem?_eq_some_iff.mp (List.mem_zipIdx_iff_getElem?.mp hmem)
    exact absurd hi hindex
  · exact List.fst_mem_of_mem_zipIdx hmem

/-- The visits to the pulses that come first stay in their order. -/
theorem filter_inTimeOrder_visits (l extra : List Pulse) (f : Pulse → Pulse) :
    (inTimeOrder (visits (l ++ extra) ((l ++ extra).map f))).filter
      (fun v => decide (v.index < l.length)) = inTimeOrder (visits l (l.map f)) := by
  rw [visits_append]
  apply filter_inTimeOrder_append
  · intro u hu
    rw [visits_map, List.mem_map] at hu
    obtain ⟨⟨p, i⟩, hmem, rfl⟩ := hu
    obtain ⟨hi, _⟩ := List.getElem?_eq_some_iff.mp (List.mem_zipIdx_iff_getElem?.mp hmem)
    exact decide_eq_true hi
  · intro v hv
    obtain ⟨⟨p, i⟩, hmem, rfl⟩ := List.mem_map.mp hv
    exact decide_eq_false (Nat.not_lt.mpr (List.le_snd_of_mem_zipIdx hmem))

/-- The walk that makes only the visits of the pulses that come first follows the one that makes
    all, up to the visit that either makes next. -/
theorem follows_upTo {before later : List Visit} {v : Visit}
    (hnumber : ∀ p ∈ l ++ extra, p.timing.IsNumber) (hidle : ∀ p ∈ extra, Idle p)
    (hf : ∀ p ∈ extra, f p = p)
    (horder : inTimeOrder (visits (l ++ extra) ((l ++ extra).map f)) = before ++ v :: later) :
    (Walk.start.after (before.filter fun u => decide (u.index < l.length))).Follows
        (Walk.start.after before) ∧
      (Walk.start.after before).UpTo v.described.timing := by
  have hvisited : ∀ u ∈ before ++ v :: later,
      u ∈ visits (l ++ extra) ((l ++ extra).map f) := by
    intro u hu
    rwa [← (inTimeOrder_perm _).mem_iff, horder]
  have hmem : ∀ u ∈ before, u ∈ visits (l ++ extra) ((l ++ extra).map f) :=
    fun u hu => hvisited u (List.mem_append_left _ hu)
  have hnumbers : ∀ u ∈ visits (l ++ extra) ((l ++ extra).map f), u.described.timing.IsNumber :=
    fun u hu => hnumber _ (bound_of_mem_visits hu).2
  -- the visits are made in the order of time, so none before this one comes later
  have hsorted := (stablySorted_of_orderedBy fun u hu w hw =>
    Duration.lt_iff_extent_lt (hnumbers u hu) (hnumbers w hw)).ascending
  rw [horder, List.pairwise_append] at hsorted
  obtain ⟨hbefore, _, hvisit⟩ := hsorted
  constructor
  · refine Walk.Follows.start.after ?_ (fun u hu => hnumbers u (hmem u hu)) ?_ hbefore
    · intro u hu hdrop
      have hextra := mem_extra_of_mem_visits (hmem u hu) (of_decide_eq_false hdrop)
      exact (hidle _ hextra).visit ((bound_of_mem_visits (hmem u hu)).1.trans (hf _ hextra))
    · intro u _ now hnow
      cases hnow
  · intro now hnow
    obtain ⟨u, hu, rfl⟩ := Walk.mem_present_after hnow
    exact ⟨hnumbers u (hmem u hu), hvisit u hu v List.mem_cons_self⟩

/-- A pulse that comes first is moved as if there were no idle pulses behind it. -/
theorem getElem?_moveAlong_append {i : Nat} {p : Pulse}
    (hnumber : ∀ p ∈ l ++ extra, p.timing.IsNumber) (hidle : ∀ p ∈ extra, Idle p)
    (hf : ∀ p ∈ extra, f p = p) (hp : l[i]? = some p) :
    (moveAlong (l ++ extra) ((l ++ extra).map f))[i]? = (moveAlong l (l.map f))[i]? := by
  obtain ⟨hi, _⟩ := List.getElem?_eq_some_iff.mp hp
  have hall : (l ++ extra)[i]? = some p := by rwa [List.getElem?_append_left hi]
  obtain ⟨before, later, horder, hmoved⟩ := getElem?_moveAlong f hall
  have hkept := filter_inTimeOrder_visits l extra f
  rw [horder, List.filter_append, List.filter_cons, if_pos (decide_eq_true hi)] at hkept
  have hplace : i < (l.map f).length := by rwa [List.length_map]
  rw [hmoved, getElem?_moveAlong_of_order hplace hkept.symm]
  -- it is met by two walks of which one follows the other up to here
  obtain ⟨hfollows, hupto⟩ := follows_upTo hnumber hidle hf horder
  congr 1
  exact hfollows.pulse_eq (v := ⟨i, p, f p⟩) (hnumber p (List.mem_of_getElem? hall)) hupto

/-- **Result**: idle pulses that come last stay as they are, and the others are moved as if there
    were none. -/
theorem moveAlong_append (hnumber : ∀ p ∈ l ++ extra, p.timing.IsNumber)
    (hidle : ∀ p ∈ extra, Idle p) (hf : ∀ p ∈ extra, f p = p) :
    moveAlong (l ++ extra) ((l ++ extra).map f) = moveAlong l (l.map f) ++ extra := by
  have hlength : (moveAlong l (l.map f)).length = l.length := by
    rw [length_moveAlong, List.length_map]
  apply List.ext_getElem?
  intro i
  -- the pulses of the list move as before, and each of the extra ones stays
  by_cases hi : i < l.length
  · rw [getElem?_moveAlong_append hnumber hidle hf (List.getElem?_eq_getElem hi),
      List.getElem?_append_left (by omega)]
  · rw [List.getElem?_append_right (by omega), hlength]
    cases hp : extra[i - l.length]? with
    | none =>
      have hlate := List.getElem?_eq_none_iff.mp hp
      rw [List.getElem?_eq_none_iff, length_moveAlong, List.length_map, List.length_append]
      omega
    | some p =>
      have hall : (l ++ extra)[i]? = some p := by rwa [List.getElem?_append_right (by omega)]
      obtain ⟨before, later, _, hmoved⟩ := getElem?_moveAlong f hall
      have hextra := List.mem_of_getElem? hp
      rw [hmoved, Walk.step_of_isFixed _ (hidle p hextra).isFixed, hf p hextra]

end Scan

end PulseTrain
