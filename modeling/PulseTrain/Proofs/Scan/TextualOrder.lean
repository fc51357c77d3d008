import Mathlib.Data.List.Permutation
import Mathlib.Algebra.BigOperators.Group.List.Basic
import Mathlib.Data.Finset.Max
import PulseTrain.Proofs.Scan.ExactWalk

/-! # Textual order

    Pulses are visited in time order, and among pulses with the same time in the order in
    which they are written. A growth that is added does not care for this order, but a pulse
    with bound timing starts the shift anew: whether another pulse of the same time has added
    its growth before or after is a matter of who is written first.

    Rounding apart this is the only way in which textual order shows. It shows for a pulse that
    is moved if in the group of the last bound timings before it the order decides what the
    group leaves behind, and otherwise not.

    * **Group**: `foldl_advance_group`, what pulses at one time leave behind;
    * **Shift**: `shiftAt_eq`, the group and all growth after it;
    * **Textual order**: `settled_exact_condition`.
-/

namespace PulseTrain.Scan

open Duration

variable {x : Float} {l l' : List Pulse}

/-! ## The shift at a time -/

/-- The growth of the pulses that start between two times. -/
def growthBetween (x : Float) (l : List Pulse) (k t : ℚ) : ℚ :=
  ((l.filter fun p => k < startTime p ∧ startTime p < t).map (growth x)).sum

/-- The growth of the pulses that start before a time. -/
def growthBefore (x : Float) (l : List Pulse) (t : ℚ) : ℚ :=
  ((l.filter (startTime · < t)).map (growth x)).sum

theorem growthBetween_perm (h : l'.Perm l) (k t : ℚ) :
    growthBetween x l' k t = growthBetween x l k t :=
  ((h.filter _).map _).sum_eq

theorem growthBefore_perm (h : l'.Perm l) (t : ℚ) : growthBefore x l' t = growthBefore x l t :=
  ((h.filter _).map _).sum_eq

/-- Pulses without bound timing add up, in any order. -/
theorem foldl_advance_unbound {ps : List Pulse} (h : ∀ p ∈ ps, p.binds .timing = false) (s : ℚ) :
    ps.foldl (advance x) s = s + (ps.map (growth x)).sum := by
  -- by induction on the pulses, of which each adds what it has grown by
  induction ps generalizing s with
  | nil => simp
  | cons p rest ih =>
    have hp : advance x s p = s + growth x p := by
      unfold advance
      rw [if_neg (by rw [h p List.mem_cons_self]; decide)]
    rw [List.foldl_cons, ih (fun q hq => h q (List.mem_cons_of_mem _ hq)), hp, List.map_cons,
      List.sum_cons, add_assoc]

/-- Pulses at one time leave a displacement behind that does not depend on their order, if all bound
    timings among them agree on it and the other pulses do not grow. -/
theorem foldl_advance_group {ps : List Pulse} {d : ℚ}
    (h : ∀ q ∈ ps, if q.binds .timing then endShift x q = d else growth x q = 0) (s : ℚ) :
    ps.foldl (advance x) s = if ∃ r ∈ ps, r.binds .timing = true then d else s := by
  induction ps generalizing s with
  | nil => simp
  | cons p rest ih =>
    have hp := h p List.mem_cons_self
    rw [List.foldl_cons, ih fun q hq => h q (List.mem_cons_of_mem _ hq)]
    unfold advance
    by_cases hb : p.binds .timing = true
    · rw [if_pos hb] at hp ⊢
      rw [if_pos (⟨p, List.mem_cons_self, hb⟩ : ∃ r ∈ p :: rest, r.binds .timing = true), hp,
        ite_self]
    · rw [if_neg hb] at hp ⊢
      rw [hp, add_zero]
      simp only [List.mem_cons, exists_eq_or_imp, hb, Bool.false_eq_true, false_or]

/-- The shift at a time, if no timing is bound before it. -/
theorem shiftAt_of_unbound (hfinite : ∀ p ∈ l, p.timing.IsFinite) {t : ℚ}
    (h : ∀ r ∈ l, r.binds .timing = true → t ≤ startTime r) :
    shiftAt x l t = growthBefore x l t := by
  have hsort := stablySorted_timeline (·.bind x) hfinite
  unfold shiftAt shiftAfter
  rw [foldl_advance_unbound, zero_add]
  · exact growthBefore_perm hsort.perm t
  · intro p hp
    obtain ⟨hp, hlt⟩ := List.mem_filter.mp hp
    rw [decide_eq_true_eq] at hlt
    rw [← Bool.not_eq_true]
    intro hb
    exact absurd hlt (not_lt.mpr (h p (hsort.perm.mem_iff.mp hp) hb))

/-- The shift at a time `t`, seen from an earlier time `k` after which no timing is bound: the
    pulses at `k` as they are written, and the growth after them. -/
theorem shiftAt_eq (hfinite : ∀ p ∈ l, p.timing.IsFinite) {k t : ℚ} (hkt : k < t)
    (h : ∀ r ∈ l, r.binds .timing = true → startTime r ≤ k ∨ t ≤ startTime r) :
    shiftAt x l t = (l.filter (startTime · = k)).foldl (advance x) (shiftAt x l k) +
      growthBetween x l k t := by
  have hsort := stablySorted_timeline (·.bind x) hfinite
  unfold shiftAt shiftAfter
  rw [hsort.filter_lt hkt, List.foldl_append, List.foldl_append, foldl_advance_unbound]
  · congr 1
    exact growthBetween_perm hsort.perm k t
  · intro p hp
    obtain ⟨hp, hbetween⟩ := List.mem_filter.mp hp
    rw [decide_eq_true_eq] at hbetween
    rw [← Bool.not_eq_true]
    intro hb
    rcases h p (hsort.perm.mem_iff.mp hp) hb with hle | hle
    · exact absurd hbetween.1 (not_lt.mpr hle)
    · exact absurd hbetween.2 (not_lt.mpr hle)

/-! ## Textual order -/

/-- Every pulse has the same timing in two lists when they are adjusted. -/
def SameTimings (x : Float) (l l' : List Pulse) : Prop :=
  ∀ (i j : ℕ) (p : Pulse), l[i]? = some p → l'[j]? = some p →
    ∃ q q', (adjusted x l)[i]? = some q ∧ (adjusted x l')[j]? = some q' ∧
      q.timing.sameTime q'.timing = true

/-- The pulse `r` is at the time of the last bound timings before the pulse `m`, which is moved by
    them. -/
structure Drags (l : List Pulse) (r m : Pulse) : Prop where
  bound : r.binds .timing = true
  movable : Movable m
  before : startTime r < startTime m
  last : ∀ r' ∈ l, r'.binds .timing = true →
    startTime r' ≤ startTime r ∨ startTime m ≤ startTime r'

/-- Where a bound timing drags a pulse along, the pulses of its time agree on the displacement: if
    their timing is bound, their ends are displaced alike, and if not, they do not grow. -/
def Settled (x : Float) (l : List Pulse) : Prop :=
  ∀ r ∈ l, ∀ m ∈ l, Drags l r m → ∀ q ∈ l, startTime q = startTime r →
    if q.binds .timing then endShift x q = endShift x r else growth x q = 0

/-- Of the timings that are bound before a pulse one is the last. -/
theorem exists_drags {m : Pulse} (hm : Movable m) (h : ∃ r ∈ l, r.binds .timing = true ∧
    startTime r < startTime m) : ∃ r ∈ l, Drags l r m := by
  let candidates := l.toFinset.filter fun r =>
    r.binds .timing = true ∧ startTime r < startTime m
  have hnonempty : candidates.Nonempty := by
    obtain ⟨r, hr, hcandidate⟩ := h
    exact ⟨r, Finset.mem_filter.mpr ⟨List.mem_toFinset.mpr hr, hcandidate⟩⟩
  -- of all that start earlier, the last one in time is the one that drags
  obtain ⟨r, hr, hmax⟩ := candidates.exists_max_image startTime hnonempty
  obtain ⟨hrl, hbound, hbefore⟩ := Finset.mem_filter.mp hr
  refine ⟨r, List.mem_toFinset.mp hrl, hbound, hm, hbefore, ?_⟩
  intro r' hr' hbound'
  by_cases hbefore' : startTime r' < startTime m
  · left
    exact hmax r' (Finset.mem_filter.mpr ⟨List.mem_toFinset.mpr hr', hbound', hbefore'⟩)
  · right
    exact not_lt.mp hbefore'

/-- If the groups are settled, the order does not matter to the shift of a pulse. -/
theorem shiftAt_perm (hfinite : ∀ p ∈ l, p.timing.IsFinite) (hperm : l'.Perm l)
    (hsettled : Settled x l) {m : Pulse} (hm : m ∈ l) (hmovable : Movable m) :
    shiftAt x l' (startTime m) = shiftAt x l (startTime m) := by
  have hfinite' : ∀ p ∈ l', p.timing.IsFinite := fun p hp => hfinite p (hperm.mem_iff.mp hp)
  -- the last group of bound pulses before it gives the shift, or there is none
  by_cases hbound : ∃ r ∈ l, r.binds .timing = true ∧ startTime r < startTime m
  · obtain ⟨r, hr, hdrags⟩ := exists_drags hmovable hbound
    have hgroup : ∀ {ps : List Pulse} (s : ℚ), ps.Perm l →
        (ps.filter (startTime · = startTime r)).foldl (advance x) s = endShift x r := by
      intro ps s hps
      rw [foldl_advance_group (d := endShift x r), if_pos]
      · exact ⟨r, List.mem_filter.mpr ⟨hps.mem_iff.mpr hr, by simp⟩, hdrags.bound⟩
      · intro q hq
        obtain ⟨hq, htime⟩ := List.mem_filter.mp hq
        exact hsettled r hr m hm hdrags q (hps.mem_iff.mp hq) (by simpa using htime)
    rw [shiftAt_eq hfinite hdrags.before hdrags.last, hgroup _ (List.Perm.refl l),
      shiftAt_eq hfinite' hdrags.before (fun r' hr' => hdrags.last r' (hperm.mem_iff.mp hr')),
      hgroup _ hperm, growthBetween_perm hperm]
  · have hunbound : ∀ r ∈ l, r.binds .timing = true → startTime m ≤ startTime r := by
      intro r hr hb
      by_contra hlt
      exact hbound ⟨r, hr, hb, not_le.mp hlt⟩
    rw [shiftAt_of_unbound hfinite hunbound, shiftAt_of_unbound hfinite' fun r hr =>
      hunbound r (hperm.mem_iff.mp hr), growthBefore_perm hperm]

/-- Two pulses of the group that drags a pulse, if they are written last, have the last word on the
    shift. -/
theorem exists_shiftAt_pair (hfinite : ∀ p ∈ l, p.timing.IsFinite) {r m a b : Pulse}
    {rest : List Pulse} (hdrags : Drags l r m) (hperm : (rest ++ [a, b]).Perm l)
    (ha : startTime a = startTime r) (hb : startTime b = startTime r) :
    ∃ s, shiftAt x (rest ++ [a, b]) (startTime m) =
      advance x (advance x s a) b + growthBetween x l (startTime r) (startTime m) := by
  refine ⟨(rest.filter (startTime · = startTime r)).foldl (advance x)
    (shiftAt x (rest ++ [a, b]) (startTime r)), ?_⟩
  have hlast : ∀ r' ∈ rest ++ [a, b], r'.binds .timing = true →
      startTime r' ≤ startTime r ∨ startTime m ≤ startTime r' := fun r' hr' =>
    hdrags.last r' (hperm.mem_iff.mp hr')
  rw [shiftAt_eq (fun p hp => hfinite p (hperm.mem_iff.mp hp)) hdrags.before hlast,
    growthBetween_perm hperm, List.filter_append, List.foldl_append]
  simp only [List.filter_cons, ha, hb, decide_true, if_true, List.filter_nil, List.foldl_cons,
    List.foldl_nil]

/-- If the shift of a pulse does not depend on the order, the group that drags it is settled:
    otherwise one pulse of the group could be written last, or another. -/
theorem settled_of_shiftAt (hfinite : ∀ p ∈ l, p.timing.IsFinite) {r m q : Pulse}
    (hr : r ∈ l) (hdrags : Drags l r m) (hq : q ∈ l) (htime : startTime q = startTime r)
    (hsame : ∀ l', l'.Perm l → shiftAt x l' (startTime m) = shiftAt x l (startTime m)) :
    if q.binds .timing then endShift x q = endShift x r else growth x q = 0 := by
  by_cases heq : q = r
  · subst heq
    rw [if_pos hdrags.bound]
  · have hqr : q ∈ l.erase r := (List.mem_erase_of_ne heq).mpr hq
    let rest := (l.erase r).erase q
    have hl : l.Perm (r :: q :: rest) :=
      (List.perm_cons_erase hr).trans ((List.perm_cons_erase hqr).cons r)
    -- `r` and `q` may both be written last, in either order
    have hlast : ∀ tail : List Pulse, tail.Perm [r, q] → (rest ++ tail).Perm l := by
      intro tail htail
      exact ((htail.append_left rest).trans List.perm_append_comm).trans hl.symm
    have hpermLast := hlast [q, r] (List.Perm.swap r q [])
    have hpermFirst := hlast [r, q] (List.Perm.refl _)
    obtain ⟨s, hrLast⟩ := exists_shiftAt_pair (x := x) hfinite hdrags hpermLast htime rfl
    obtain ⟨s', hqLast⟩ := exists_shiftAt_pair (x := x) hfinite hdrags hpermFirst rfl htime
    -- both orders shift the movable pulse by the same, so they differ in nothing
    have hboth := (hsame _ hpermLast).trans (hsame _ hpermFirst).symm
    rw [hrLast, hqLast, add_left_inj] at hboth
    simp only [advance, hdrags.bound, if_true] at hboth
    split
    · next hb =>
      rw [if_pos hb] at hboth
      exact hboth.symm
    · next hb =>
      rw [if_neg hb] at hboth
      exact left_eq_add.mp hboth

/-- Pulses have the same timings in two exact runs if and only if those that are moved are moved by
    the same shift. -/
theorem sameTimings_iff (hperm : l'.Perm l) (hexact : ExactRun x l) (hexact' : ExactRun x l') :
    SameTimings x l l' ↔
      ∀ m ∈ l, Movable m → shiftAt x l' (startTime m) = shiftAt x l (startTime m) := by
  constructor
  · intro hsame m hm hmovable
    -- a movable pulse is found at some place of either list
    obtain ⟨i, hi, hli⟩ := List.getElem_of_mem hm
    obtain ⟨j, hj, hlj⟩ := List.getElem_of_mem (hperm.mem_iff.mpr hm)
    have hgeti : l[i]? = some m := hli ▸ List.getElem?_eq_getElem hi
    have hgetj : l'[j]? = some m := hlj ▸ List.getElem?_eq_getElem hj
    obtain ⟨q, q', hq, hq', htimes⟩ := hsame i j m hgeti hgetj
    obtain ⟨w, hw, hwFinite, hwValue⟩ := adjusted_of_movable hexact hgeti hmovable
    obtain ⟨w', hw', hwFinite', hwValue'⟩ := adjusted_of_movable hexact' hgetj hmovable
    rw [hq] at hw
    cases hw
    rw [hq'] at hw'
    cases hw'
    rw [sameTime_iff_value_eq hwFinite hwFinite', hwValue, hwValue'] at htimes
    exact (add_left_cancel htimes).symm
  · intro hshift i j p hi hj
    have hp : p ∈ l := List.mem_of_getElem? hi
    -- a pulse that is not moved has the timing that its binding gives it, in any order
    by_cases hmovable : Movable p
    · obtain ⟨q, hq, hqFinite, hqValue⟩ := adjusted_of_movable hexact hi hmovable
      obtain ⟨q', hq', hqFinite', hqValue'⟩ := adjusted_of_movable hexact' hj hmovable
      refine ⟨q, q', hq, hq', ?_⟩
      rw [sameTime_iff_value_eq hqFinite hqFinite', hqValue, hqValue', hshift p hp hmovable]
    · refine ⟨p.bind x, p.bind x, adjusted_of_not_movable hi hmovable,
        adjusted_of_not_movable hj hmovable, ?_⟩
      have hfinite := (hexact.finite p hp).2
      exact (sameTime_iff_value_eq hfinite hfinite).mpr rfl

/-- **Textual order**: if the pulses are settled, no order in which they may be written changes
    their timings, as long as nothing is rounded. If nothing is rounded in any order, they also have
    to be settled for this. -/
theorem settled_exact_condition (hexact : ExactRun x l) :
    (Settled x l → ∀ l', l'.Perm l → ExactRun x l' → SameTimings x l l') ∧
      ((∀ l', l'.Perm l → ExactRun x l') → (∀ l', l'.Perm l → SameTimings x l l') →
        Settled x l) := by
  have hfinite : ∀ p ∈ l, p.timing.IsFinite := fun p hp => (hexact.finite p hp).1
  constructor
  · intro hsettled l' hperm hexact'
    rw [sameTimings_iff hperm hexact hexact']
    intro m hm hmovable
    exact shiftAt_perm hfinite hperm hsettled hm hmovable
  · intro hall hsame r hr m hm hdrags q hq htime
    refine settled_of_shiftAt hfinite hr hdrags hq htime ?_
    intro l' hperm
    exact (sameTimings_iff hperm hexact (hall l' hperm)).mp (hsame l' hperm) m hm hdrags.movable

/-! ## A group that is not settled -/

/-- A pulse whose timing is scanned. -/
def dragging : Pulse :=
  { Pulse.new "dragging" 1 with
    timing := ⟨2.0⟩, duration := ⟨1.0⟩, bindings := [⟨"tau", .timing⟩] }

/-- A pulse at the same time whose duration is scanned. -/
def growing : Pulse :=
  { Pulse.new "growing" 2 with
    timing := ⟨2.0⟩, duration := ⟨1.0⟩, bindings := [⟨"tau", .duration⟩] }

/-- A later pulse, which is moved by the other two. -/
def following : Pulse := { Pulse.new "following" 3 with timing := ⟨10.0⟩, duration := ⟨1.0⟩ }

theorem dragging_exact_condition :
    (∀ l', l'.Perm [dragging, growing, following] → ExactRun 3.0 l') ∧
      (Settled 3.0 [dragging, growing, following] →
        ∀ l', l'.Perm [dragging, growing, following] → ExactRun 3.0 l' →
          SameTimings 3.0 [dragging, growing, following] l') ∧
      ((∀ l', l'.Perm [dragging, growing, following] → ExactRun 3.0 l') →
        (∀ l', l'.Perm [dragging, growing, following] →
          SameTimings 3.0 [dragging, growing, following] l') →
        Settled 3.0 [dragging, growing, following]) := by
  have hexact : ∀ l', l'.Perm [dragging, growing, following] → ExactRun 3.0 l' := by
    intro l' hperm
    have hall : ∀ l' ∈ [dragging, growing, following].permutations', ExactRun 3.0 l' := by
      decide +kernel
    exact hall l' (List.mem_permutations'.mpr hperm)
  exact ⟨hexact, settled_exact_condition (hexact _ (List.Perm.refl _))⟩

/-- The later pulse starts at 11 s if the growing pulse is written first, and at 13 s if it is
    written last, although nothing is rounded. -/
theorem textual_order_matters :
    [growing, dragging, following].Perm [dragging, growing, following] ∧
      ExactRun 3.0 [dragging, growing, following] ∧
      ExactRun 3.0 [growing, dragging, following] ∧
      ¬SameTimings 3.0 [dragging, growing, following] [growing, dragging, following] := by
  refine ⟨List.Perm.swap _ _ _, by decide +kernel, by decide +kernel, ?_⟩
  intro hsame
  obtain ⟨q, q', hq, hq', htimes⟩ := hsame 2 2 following rfl rfl
  have hlast : (adjusted 3.0 [dragging, growing, following])[2]?.map (·.timing) =
      some ⟨13.0⟩ := by
    decide +kernel
  have hfirst : (adjusted 3.0 [growing, dragging, following])[2]?.map (·.timing) =
      some ⟨11.0⟩ := by
    decide +kernel
  rw [hq, Option.map_some, Option.some.injEq] at hlast
  rw [hq', Option.map_some, Option.some.injEq] at hfirst
  rw [hlast, hfirst] at htimes
  exact absurd htimes (by decide +kernel)

end PulseTrain.Scan
