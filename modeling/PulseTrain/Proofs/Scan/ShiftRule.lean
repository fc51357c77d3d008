import PulseTrain.Proofs.Scan.TimeOrder

/-! # The rule of the shift

    The walk sorts the pulses, and on its way it keeps the shift at which the present time was
    reached and the shift that has come together since. What comes of it for one pulse can be
    said without a walk: the shift of a pulse is a fold over the pulses that are described to start
    before it.

    * **Rule**: `shiftBefore` is the shift for a time, `follow` the pulse that the rule gives;
    * **Order**: `earlier_eq`, the walk visits the earlier pulses in the order of the rule;
    * **Run**: `Walk.shift_after` and `Walk.presentShift_after`, the two shifts of a walk, and
      `presentShift_of_order`, what a visit finds;
    * **Result**: `getElem?_moveAlong_follow` for one pulse, `moveAlong_follows` for all.
-/

namespace PulseTrain.Scan

/-! ## Rule -/

/-- Whether a visit comes before another, or is the same: its pulse starts earlier, or at the same
    time and stands no later. -/
def Visit.precedes (v w : Visit) : Bool :=
  decide (v.described.timing < w.described.timing) ||
    v.described.timing.sameTime w.described.timing && decide (v.index ≤ w.index)

/-- The visits to the pulses that start before a time, in the order of start and position. -/
def earlier (described bound : List Pulse) (time : Duration) : List Visit :=
  ((visits described bound).filter (·.described.timing < time)).mergeSort Visit.precedes

/-- The shift that comes together on some visits: a pulse with bound timing sets it to the
    displacement of its end, and any other pulse adds its growth. -/
def shiftOver (vs : List Visit) : Duration := vs.foldl (fun shift v => v.passOn shift) .zero

/-- The shift for the pulses that start at a time. -/
def shiftBefore (described bound : List Pulse) (time : Duration) : Duration :=
  shiftOver (earlier described bound time)

/-- What the rule makes of a pulse `p` that has become `q` by the scan value. -/
def follow (described bound : List Pulse) (p q : Pulse) : Pulse :=
  if p.binds .timing || p.isFixed then q
  else { q with timing := p.timing + shiftBefore described bound p.timing }

/-- The pulses that start before a time, each as described and with the scan value put in. -/
def startingBefore (described bound : List Pulse) (time : Duration) : List (Pulse × Pulse) :=
  (described.zip bound).filter (·.1.timing < time)

/-- Pulses and what the scan value has made of them, at times that can be compared. -/
structure Comparable (described bound : List Pulse) : Prop where
  length : described.length = bound.length
  number : ∀ p ∈ described, p.timing.IsNumber

/-! ## Order -/

/-- The number of seconds at which a pulse that is visited is described to start. -/
noncomputable def Visit.extent (v : Visit) : EReal := v.described.timing.extent

/-- Visits at times that can be compared. -/
def AllNumbers (vs : List Visit) : Prop := ∀ v ∈ vs, v.described.timing.IsNumber

theorem AllNumbers.subset {us vs : List Visit} (h : AllNumbers vs) (hus : us ⊆ vs) :
    AllNumbers us :=
  fun u hu => h u (hus hu)

theorem AllNumbers.filter_eq {vs : List Visit} {time : Duration} (h : AllNumbers vs)
    (htime : time.IsNumber) : vs.filter (·.described.timing < time) =
      vs.filter (·.extent < time.extent) := by
  apply List.filter_congr
  intro v hv
  rw [decide_eq_decide]
  exact Duration.lt_iff_extent_lt (h v hv) htime

theorem stablySorted_of_allNumbers {vs : List Visit} (h : AllNumbers vs) :
    StablySorted Visit.extent vs (inTimeOrder vs) :=
  stablySorted_of_orderedBy fun v hv w hw => Duration.lt_iff_extent_lt (h v hv) (h w hw)

/-- The pulses of the visits, as they come. -/
theorem map_pair_visits (described bound : List Pulse) :
    (visits described bound).map (fun v => (v.described, v.bound)) = described.zip bound := by
  unfold visits
  rw [List.map_map]
  exact List.zipIdx_map_fst 0 _

section Pulses

variable {described bound : List Pulse} {time : Duration}

theorem Comparable.allNumbers (h : Comparable described bound) :
    AllNumbers (visits described bound) := by
  intro v hv
  have hpair : (v.described, v.bound) ∈ described.zip bound := by
    rw [← map_pair_visits]
    exact List.mem_map_of_mem hv
  exact h.number _ (List.of_mem_zip hpair).1

/-- **Order**: the walk visits the pulses that start before a time in the order of the rule. -/
theorem earlier_eq (h : Comparable described bound) (time : Duration) :
    earlier described bound time =
      (inTimeOrder (visits described bound)).filter (·.described.timing < time) := by
  have hsorted := (stablySorted_of_allNumbers h.allNumbers).filter
    (·.described.timing < time)
  have hindex : (visits described bound).Pairwise (·.index < ·.index) := by
    rw [← List.pairwise_map, index_visits]
    exact List.pairwise_lt_range'
  refine (hsorted.eq_mergeSort (hindex.filter _) ?_).symm
  intro v hv w hw
  have hvNumber := h.allNumbers v (List.mem_filter.mp hv).1
  have hwNumber := h.allNumbers w (List.mem_filter.mp hw).1
  rw [Visit.precedes, Bool.or_eq_true, Bool.and_eq_true, decide_eq_true_eq, decide_eq_true_eq,
    Duration.lt_iff_extent_lt hvNumber hwNumber, Duration.sameTime_iff_extent_eq hvNumber hwNumber]
  rfl

/-- The rule looks at the pulses that start before, and at no others. -/
theorem shiftBefore_congr (h : Comparable described bound) {described' bound' : List Pulse}
    (h' : Comparable described' bound')
    (hsame : startingBefore described' bound' time = startingBefore described bound time) :
    shiftBefore described' bound' time = shiftBefore described bound time := by
  -- the visits have other numbers, but their pulses are sorted from the same list
  have hpairs : ∀ {described bound : List Pulse}, Comparable described bound →
      StablySorted (fun pair : Pulse × Pulse => pair.1.timing.extent)
        (startingBefore described bound time)
        ((earlier described bound time).map fun v => (v.described, v.bound)) := by
    intro described bound h
    rw [earlier_eq h, startingBefore, ← map_pair_visits, List.filter_map]
    exact StablySorted.map _ ((stablySorted_of_allNumbers h.allNumbers).filter _)
  have hfold : ∀ vs : List Visit, shiftOver vs =
      (vs.map fun v => (v.described, v.bound)).foldl
        (fun shift pair => (⟨0, pair.1, pair.2⟩ : Visit).passOn shift) .zero := by
    intro vs
    rw [List.foldl_map]
    rfl
  have hsort' := hpairs h'
  rw [hsame] at hsort'
  rw [shiftBefore, shiftBefore, hfold, hfold, hsort'.unique (hpairs h)]

/-! ## Run -/

namespace Walk

theorem after_append_singleton (w : Walk) (vs : List Visit) (v : Visit) :
    w.after (vs ++ [v]) = ((w.after vs).step v).1 :=
  List.foldl_append

/-- The shift of a walk has come together over all visits. -/
theorem shift_after (vs : List Visit) : (start.after vs).shift = shiftOver vs := by
  induction vs using List.reverseRecOn with
  | nil => rfl
  | append_singleton vs v ih =>
    rw [after_append_singleton, step_walk, ih]
    unfold shiftOver
    rw [List.foldl_append]
    rfl

/-- **Run**: on arrival at a time the present shift has come together over the visits before this
    time, whatever else was visited. -/
theorem presentShift_after {before : List Visit} (hnumbers : AllNumbers before)
    (hsorted : before.Pairwise (·.extent ≤ ·.extent)) (htime : time.IsNumber)
    (hlast : ∀ v ∈ before, v.extent ≤ time.extent) :
    ((start.after before).arrive time).presentShift =
      shiftOver (before.filter (·.extent < time.extent)) := by
  -- by induction on the visits from the last one, which is the latest so far
  induction before using List.reverseRecOn generalizing time with
  | nil =>
    rw [presentShift_arrive]
    rfl
  | append_singleton before u ih =>
    obtain ⟨hbefore, -, hu⟩ := List.pairwise_append.mp hsorted
    have hule : ∀ v ∈ before, v.extent ≤ u.extent := fun v hv => hu v hv u List.mem_cons_self
    have hmem : u ∈ before ++ [u] := List.mem_append_right _ List.mem_cons_self
    have huNumber := hnumbers u hmem
    have ih := ih (hnumbers.subset (List.subset_append_left _ _)) hbefore huNumber hule
    rw [after_append_singleton, presentShift_arrive, present_step, Option.any_some]
    split
    · next hsame =>
      -- the time is reached already, with the shift at which the last visit has found it
      rw [Duration.sameTime_iff_extent_eq huNumber htime] at hsame
      rw [step_walk, ← hsame, List.filter_append, List.filter_singleton]
      have hself : decide (u.extent < u.described.timing.extent) = false :=
        decide_eq_false (lt_irrefl _)
      rw [hself, cond_false, List.append_nil]
      exact ih
    · next hlater =>
      rw [Duration.sameTime_iff_extent_eq huNumber htime] at hlater
      have hlt : u.extent < time.extent := lt_of_le_of_ne (hlast u hmem) hlater
      have hall : (before ++ [u]).filter (·.extent < time.extent) = before ++ [u] := by
        rw [List.filter_eq_self]
        intro v hv
        rw [decide_eq_true_eq]
        rcases List.mem_append.mp hv with hv | hv
        · exact (hule v hv).trans_lt hlt
        · rw [List.mem_singleton.mp hv]
          exact hlt
      rw [hall, ← after_append_singleton, shift_after]

end Walk

/-! ## Result -/

/-- What a visit makes of a pulse. -/
theorem Walk.step_pulse_eq (w : Walk) (v : Visit) : (w.step v).2 =
    if v.described.binds .timing || v.described.isFixed then v.bound
    else { v.bound with
      timing := v.described.timing + (w.arrive v.described.timing).presentShift } := by
  unfold Walk.step
  cases v.described.binds .timing
  · cases v.described.isFixed
    · rfl
    · rfl
  · rfl

/-- The visit to a pulse finds the shift that the rule gives. -/
theorem presentShift_of_order (h : Comparable described bound) {before later : List Visit}
    {v : Visit} (horder : inTimeOrder (visits described bound) = before ++ v :: later) :
    ((Walk.start.after before).arrive v.described.timing).presentShift =
      shiftBefore described bound v.described.timing := by
  have hsort := stablySorted_of_allNumbers h.allNumbers
  have hnumbers := h.allNumbers.subset hsort.perm.subset
  have hascending := hsort.ascending
  rw [horder] at hnumbers hascending
  obtain ⟨hbefore, hrest, hcross⟩ := List.pairwise_append.mp hascending
  have hv : v.described.timing.IsNumber := hnumbers v (by simp)
  -- no pulse that is visited later starts before this one
  have hlater : (v :: later).filter (·.extent < v.described.timing.extent) = [] := by
    rw [List.filter_eq_nil_iff]
    intro u hu
    rw [decide_eq_true_eq, not_lt]
    rcases List.mem_cons.mp hu with rfl | hu
    · exact le_refl _
    · exact (List.pairwise_cons.mp hrest).1 u hu
  have hlast : ∀ u ∈ before, u.extent ≤ v.described.timing.extent := fun u hu =>
    hcross u hu v List.mem_cons_self
  rw [Walk.presentShift_after (hnumbers.subset (List.subset_append_left _ _)) hbefore hv hlast,
    shiftBefore, earlier_eq h, horder, hnumbers.filter_eq hv, List.filter_append, hlater,
    List.append_nil]

/-- **Result** for one pulse. -/
theorem getElem?_moveAlong_follow (h : Comparable described bound) {i : ℕ} {p q : Pulse}
    (hp : described[i]? = some p) (hq : bound[i]? = some q) :
    (moveAlong described bound)[i]? = some (follow described bound p q) := by
  have hvisit : (⟨i, p, q⟩ : Visit) ∈ inTimeOrder (visits described bound) := by
    rw [(inTimeOrder_perm _).mem_iff, visits, List.mem_map]
    refine ⟨((p, q), i), List.mem_zipIdx_iff_getElem?.mpr ?_, rfl⟩
    rw [List.getElem?_zip_eq_some]
    exact ⟨hp, hq⟩
  obtain ⟨before, later, horder⟩ := List.append_of_mem hvisit
  have hlength : i < bound.length := (List.getElem?_eq_some_iff.mp hq).1
  rw [getElem?_moveAlong_of_order (v := ⟨i, p, q⟩) hlength horder, Walk.step_pulse_eq,
    presentShift_of_order h horder]
  rfl

/-- **Result**: the pulses are moved by the rule. So only the timing of pulses changes that are
    neither fixed nor bound in their timing, pulses at one time are moved by the same shift, and a
    pulse is moved as it would be among all other pulses of which the same start before it. -/
theorem moveAlong_follows (h : Comparable described bound) :
    moveAlong described bound = List.zipWith (follow described bound) described bound ∧
      (∀ p ∈ described, ∀ q ∈ described, p.timing.sameTime q.timing = true →
        shiftBefore described bound p.timing = shiftBefore described bound q.timing) ∧
      ∀ {described' bound' : List Pulse}, Comparable described' bound' →
        ∀ {i i' : ℕ} {p q : Pulse}, described[i]? = some p → bound[i]? = some q →
          described'[i']? = some p → bound'[i']? = some q →
          startingBefore described' bound' p.timing = startingBefore described bound p.timing →
          (moveAlong described' bound')[i']? = (moveAlong described bound)[i]? := by
  refine ⟨?_, ?_, ?_⟩
  · apply List.ext_getElem?
    intro i
    rcases Nat.lt_or_ge i bound.length with hi | hi
    · have hq := List.getElem?_eq_getElem hi
      have hp := List.getElem?_eq_getElem (h.length ▸ hi : i < described.length)
      rw [getElem?_moveAlong_follow h hp hq, List.getElem?_zipWith_eq_some.mpr]
      exact ⟨_, _, hp, hq, rfl⟩
    · rw [List.getElem?_eq_none (by rwa [length_moveAlong]), List.getElem?_eq_none]
      rw [List.length_zipWith, h.length, min_self]
      exact hi
  · intro p hp q hq hsame
    rw [Duration.sameTime_iff_extent_eq (h.number p hp) (h.number q hq)] at hsame
    -- equal starts have the same pulses before them, so they are shifted by the same
    have hnumbers : AllNumbers (inTimeOrder (visits described bound)) :=
      h.allNumbers.subset (inTimeOrder_perm _).subset
    rw [shiftBefore, shiftBefore, earlier_eq h, earlier_eq h, hnumbers.filter_eq (h.number p hp),
      hnumbers.filter_eq (h.number q hq), hsame]
  · intro described' bound' h' i i' p q hp hq hp' hq' hsame
    rw [getElem?_moveAlong_follow h hp hq, getElem?_moveAlong_follow h' hp' hq']
    simp only [follow, shiftBefore_congr h h' hsame]

end Pulses

/-- A gate, a probe whose timing is bound, a mark at the time of the probe, a fixed echo and a
    readout. -/
def relay : List Pulse :=
  [{ Pulse.new "gate" 1 with duration := ⟨1.0⟩ },
    { Pulse.new "probe" 2 with
      timing := ⟨2.0⟩, duration := ⟨1.0⟩, bindings := [⟨"delay", .timing⟩] },
    { Pulse.new "mark" 3 with timing := ⟨2.0⟩, duration := ⟨1.0⟩ },
    { Pulse.new "echo" 4 with timing := ⟨4.0⟩, duration := ⟨1.0⟩, isFixed := true },
    { Pulse.new "readout" 5 with timing := ⟨6.0⟩, duration := ⟨1.0⟩ }]

/-- The same pulses when the gate lasts longer by 2 s and the echo by 1 s, and the probe starts 3 s
    later. -/
def relayed : List Pulse :=
  List.zipWith (fun p (start, lasting) => { p with timing := ⟨start⟩, duration := ⟨lasting⟩ })
    relay [(0.0, 3.0), (5.0, 1.0), (2.0, 1.0), (4.0, 2.0), (6.0, 1.0)]

/-- The mark is moved by the gate alone, and so it is without the pulses that start later. -/
theorem relay_follows : Comparable relay relayed ∧
    moveAlong relay relayed = List.zipWith (follow relay relayed) relay relayed ∧
    (moveAlong relay relayed).map (·.timing.seconds) = [0.0, 5.0, 4.0, 4.0, 10.0] ∧
    (moveAlong (relay.take 3) (relayed.take 3))[2]? = (moveAlong relay relayed)[2]? := by
  have hrelay : Comparable relay relayed := ⟨by decide +kernel, by decide +kernel⟩
  have hfirst : Comparable (relay.take 3) (relayed.take 3) := ⟨by decide +kernel, by decide +kernel⟩
  obtain ⟨hrule, _, hothers⟩ := moveAlong_follows hrelay
  refine ⟨hrelay, hrule, by decide +kernel, ?_⟩
  exact hothers hfirst rfl rfl rfl rfl (by decide +kernel)

end PulseTrain.Scan
