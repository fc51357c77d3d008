import Mathlib.Data.List.Forall2
import Mathlib.Data.List.Induction
import PulseTrain.Scan.Shift

/-! # The walk through the pulses

    The pulses are visited in the order of their times, and each one is written back to the
    place from which it came. So the order of the visits shows in the new timings, and in
    nothing else.

    * **Order**: `inTimeOrder_perm`, nobody is left out and nobody is visited twice, and
      `inTimeOrder_visits`, the order does not depend on the value that is put in;
    * **Run**: `mem_walkThrough` says which walk a visit finds on its arrival;
    * **Result**: `exists_visit_of_getElem?` for all values at once and `getElem?_moveAlong` for
      one, the lemmas by which the moved pulses are known, and `moveAlong_forall₂` for what holds
      of every visit.
-/

namespace PulseTrain.Scan

/-! ## Order of the visits -/

theorem insertByTime_perm (v : Visit) (sorted : List Visit) :
    (insertByTime v sorted).Perm (v :: sorted) := by
  induction sorted with
  | nil => exact List.Perm.refl _
  | cons w before ih =>
    simp only [insertByTime]
    split
    · exact (ih.cons w).trans (List.Perm.swap v w before)
    · exact List.Perm.refl _

/-- **Step**: the last of the visits is put in from the end. -/
theorem inTimeOrder_append_singleton (vs : List Visit) (v : Visit) :
    inTimeOrder (vs ++ [v]) = (insertByTime v (inTimeOrder vs).reverse).reverse := by
  unfold inTimeOrder
  rw [List.foldl_append, List.reverse_reverse]
  rfl

/-- Every pulse is visited once. -/
theorem inTimeOrder_perm (vs : List Visit) : (inTimeOrder vs).Perm vs := by
  induction vs using List.reverseRecOn with
  | nil => exact List.Perm.refl _
  | append_singleton vs v ih =>
    rw [inTimeOrder_append_singleton]
    have hput : (insertByTime v (inTimeOrder vs).reverse).Perm (v :: vs) :=
      (insertByTime_perm v _).trans (((List.reverse_perm _).trans ih).cons v)
    exact ((List.reverse_perm _).trans hput).trans (List.perm_append_singleton v vs).symm

/-- Only the described times decide on the order. -/
theorem insertByTime_map {h : Visit → Visit} (hh : ∀ v, (h v).described = v.described)
    (v : Visit) (sorted : List Visit) :
    insertByTime (h v) (sorted.map h) = (insertByTime v sorted).map h := by
  induction sorted with
  | nil => rfl
  | cons w before ih =>
    simp only [insertByTime, List.map_cons, hh]
    split
    · rw [ih, List.map_cons]
    · rfl

theorem inTimeOrder_map {h : Visit → Visit} (hh : ∀ v, (h v).described = v.described)
    (vs : List Visit) : inTimeOrder (vs.map h) = (inTimeOrder vs).map h := by
  induction vs using List.reverseRecOn with
  | nil => rfl
  | append_singleton vs v ih =>
    rw [List.map_append, List.map_singleton, inTimeOrder_append_singleton,
      inTimeOrder_append_singleton, ih, ← List.map_reverse, insertByTime_map hh, List.map_reverse]

/-! ## The run -/

/-- The shift that a visit passes on, given the one before it. -/
def Visit.passOn (v : Visit) (shift : Duration) : Duration :=
  let growth := v.bound.duration - v.described.duration
  if v.described.binds .timing then (v.bound.timing - v.described.timing) + growth
  else shift + growth

namespace Walk

/-- The walk after some visits. -/
def after (w : Walk) (vs : List Visit) : Walk :=
  vs.foldl (fun w v => (w.step v).1) w

theorem shift_arrive (w : Walk) (time : Duration) : (w.arrive time).shift = w.shift := by
  unfold arrive
  split
  · rfl
  · rfl

theorem present_arrive (w : Walk) (time : Duration) : (w.arrive time).present = some time := by
  unfold arrive
  split
  · rfl
  · rfl

theorem presentShift_arrive (w : Walk) (time : Duration) : (w.arrive time).presentShift =
    if w.present.any (·.sameTime time) then w.presentShift else w.shift := by
  unfold arrive
  split
  · rfl
  · rfl

/-- A visit changes the shift of the walk that has arrived, and nothing else. -/
theorem step_walk (w : Walk) (v : Visit) :
    (w.step v).1 = { w.arrive v.described.timing with shift := v.passOn w.shift } := by
  unfold step Visit.passOn
  dsimp only
  rw [shift_arrive]
  split
  · rfl
  · rfl

theorem present_step (w : Walk) (v : Visit) : (w.step v).1.present = some v.described.timing := by
  rw [step_walk]
  exact present_arrive w _

/-- A visit gives a pulse a new timing at most. -/
theorem step_pulse (w : Walk) (v : Visit) :
    (w.step v).2 = { v.bound with timing := (w.step v).2.timing } := by
  simp only [step]
  split
  · rfl
  · split
    · rfl
    · rfl

/-- A visit does not move a fixed pulse. -/
theorem step_of_isFixed (w : Walk) {v : Visit} (h : v.described.isFixed = true) :
    (w.step v).2 = v.bound := by
  simp only [step, if_pos h]
  split
  · rfl
  · rfl

end Walk

theorem keys_walkThrough (w : Walk) (vs : List Visit) :
    (walkThrough w vs).map Prod.fst = vs.map (·.index) := by
  -- what a visit does to the walk matters to the pulses and not to their places
  induction vs generalizing w with
  | nil => rfl
  | cons v rest ih =>
    simp only [walkThrough, List.map_cons]
    rw [ih]

/-- A visit finds the walk that the visits before it have left. -/
theorem mem_walkThrough (w : Walk) (before : List Visit) (v : Visit) (later : List Visit) :
    (v.index, ((w.after before).step v).2) ∈ walkThrough w (before ++ v :: later) := by
  induction before generalizing w with
  | nil => exact List.mem_cons_self
  | cons u rest ih => exact List.mem_cons_of_mem _ (ih (w.step u).1)

/-! ## The result -/

/-- Writes to other places leave a place as it is. -/
theorem getElem?_writes_of_notMem {α : Type} {writes : List (Nat × α)} {a : Array α} {i : Nat}
    (h : i ∉ writes.map Prod.fst) :
    (writes.foldl (fun a w => a.setIfInBounds w.1 w.2) a)[i]? = a[i]? := by
  induction writes generalizing a with
  | nil => rfl
  | cons w rest ih =>
    rw [List.map_cons, List.mem_cons, not_or] at h
    obtain ⟨hw, hrest⟩ := h
    rw [List.foldl_cons, ih hrest]
    exact Array.getElem?_setIfInBounds_ne (Ne.symm hw)

/-- Of writes to different places each can be read afterwards. -/
theorem getElem?_writes_of_mem {α : Type} {writes : List (Nat × α)} {a : Array α} {i : Nat}
    {x : α} (hnodup : (writes.map Prod.fst).Nodup) (hmem : (i, x) ∈ writes) (hi : i < a.size) :
    (writes.foldl (fun a w => a.setIfInBounds w.1 w.2) a)[i]? = some x := by
  induction writes generalizing a with
  | nil => cases hmem
  | cons w rest ih =>
    obtain ⟨hw, hrest⟩ := List.nodup_cons.mp hnodup
    rw [List.foldl_cons]
    rcases List.mem_cons.mp hmem with rfl | hmem
    · -- the first write is the one, and no later write is to its place
      rw [getElem?_writes_of_notMem hw]
      exact Array.getElem?_setIfInBounds_self_of_lt hi
    · exact ih hrest hmem (by rwa [Array.size_setIfInBounds])

theorem size_writes {α : Type} (writes : List (Nat × α)) (a : Array α) :
    (writes.foldl (fun a w => a.setIfInBounds w.1 w.2) a).size = a.size := by
  induction writes generalizing a with
  | nil => rfl
  | cons w rest ih => rw [List.foldl_cons, ih, Array.size_setIfInBounds]

/-- The visits of pulses that are bound one by one. -/
theorem visits_map (l : List Pulse) (f : Pulse → Pulse) :
    visits l (l.map f) = l.zipIdx.map fun (p, i) => ⟨i, p, f p⟩ := by
  unfold visits
  rw [List.zip_map_right]
  have hself : l.zip l = l.map fun p => (p, p) := by
    induction l with
    | nil => rfl
    | cons p rest ih => rw [List.zip_cons_cons, ih, List.map_cons]
  rw [hself, List.map_map, List.zipIdx_map, List.map_map]
  rfl

/-- The visits are numbered as the pulses come. -/
theorem index_visits (described bound : List Pulse) : (visits described bound).map (·.index) =
    List.range' 0 (described.zip bound).length := by
  unfold visits
  rw [List.map_map]
  exact List.zipIdx_map_snd 0 _

theorem nodup_index_visits (described bound : List Pulse) :
    ((visits described bound).map (·.index)).Nodup := by
  rw [index_visits]
  exact List.nodup_range'

theorem length_moveAlong (described bound : List Pulse) :
    (moveAlong described bound).length = bound.length := by
  unfold moveAlong
  rw [Array.length_toList, size_writes, List.size_toArray]

/-- The same visit with a pulse put in by another rule. -/
def Visit.bindBy (f : Pulse → Pulse) (v : Visit) : Visit := { v with bound := f v.described }

/-- The order of the visits, for all values that are put in. -/
theorem inTimeOrder_visits (l : List Pulse) (f : Pulse → Pulse) :
    inTimeOrder (visits l (l.map f)) = (inTimeOrder (visits l (l.map id))).map (·.bindBy f) := by
  rw [← inTimeOrder_map (h := Visit.bindBy f) (fun _ => rfl), visits_map, visits_map,
    List.map_map]
  rfl

/-- Wherever in the order of the visits a pulse stands, it comes back to its own place as the visit
    to it has left it. -/
theorem getElem?_moveAlong_of_order {described bound : List Pulse} {v : Visit}
    {before later : List Visit} (h : v.index < bound.length)
    (horder : inTimeOrder (visits described bound) = before ++ v :: later) :
    (moveAlong described bound)[v.index]? = some ((Walk.start.after before).step v).2 := by
  unfold moveAlong
  rw [Array.getElem?_toList]
  apply getElem?_writes_of_mem
  · -- each pulse is written back once, in whatever order they are visited
    rw [keys_walkThrough]
    exact ((inTimeOrder_perm _).map _).nodup_iff.mpr (nodup_index_visits described bound)
  · rw [horder]
    exact mem_walkThrough _ _ _ _
  · rw [List.size_toArray]
    exact h

/-- **Result of the walk**, for all values at once: the visit to a pulse comes after the same visits
    whatever is put in, and each pulse comes back to its own place. -/
theorem exists_visit_of_getElem? {l : List Pulse} {i : Nat} {p : Pulse} (h : l[i]? = some p) :
    ∃ before later : List Visit, ∀ f : Pulse → Pulse,
      inTimeOrder (visits l (l.map f)) =
          before.map (Visit.bindBy f) ++ ⟨i, p, f p⟩ :: later.map (Visit.bindBy f) ∧
        (moveAlong l (l.map f))[i]? =
          some ((Walk.start.after (before.map (Visit.bindBy f))).step ⟨i, p, f p⟩).2 := by
  have hvisit : (⟨i, p, p⟩ : Visit) ∈ inTimeOrder (visits l (l.map id)) := by
    rw [(inTimeOrder_perm _).mem_iff, visits_map, List.mem_map]
    exact ⟨(p, i), List.mem_zipIdx_iff_getElem?.mpr h, rfl⟩
  obtain ⟨before, later, heq⟩ := List.append_of_mem hvisit
  refine ⟨before, later, fun f => ?_⟩
  have horder : inTimeOrder (visits l (l.map f)) =
      before.map (Visit.bindBy f) ++ ⟨i, p, f p⟩ :: later.map (Visit.bindBy f) := by
    rw [inTimeOrder_visits, heq, List.map_append, List.map_cons]
    rfl
  obtain ⟨hi, _⟩ := List.getElem?_eq_some_iff.mp h
  exact ⟨horder, getElem?_moveAlong_of_order (by rwa [List.length_map]) horder⟩

/-- **Result of the walk**: each pulse comes back to its own place, as the visit to it has left it.
    -/
theorem getElem?_moveAlong {l : List Pulse} (f : Pulse → Pulse) {i : Nat} {p : Pulse}
    (h : l[i]? = some p) :
    ∃ before later, inTimeOrder (visits l (l.map f)) = before ++ ⟨i, p, f p⟩ :: later ∧
      (moveAlong l (l.map f))[i]? = some ((Walk.start.after before).step ⟨i, p, f p⟩).2 := by
  obtain ⟨before, later, hvisit⟩ := exists_visit_of_getElem? h
  exact ⟨_, _, hvisit f⟩

/-- **Run**: what holds of a walk at first and is kept by every visit holds of it after any number
    of visits. -/
theorem Walk.after_invariant {P : Walk → Prop} {w : Walk} {vs : List Visit} (hw : P w)
    (hstep : ∀ w, ∀ v ∈ vs, P w → P (w.step v).1) : P (w.after vs) := by
  induction vs generalizing w with
  | nil => exact hw
  | cons v rest ih =>
    have hnext := hstep w v List.mem_cons_self hw
    exact ih hnext fun w u hu => hstep w u (List.mem_cons_of_mem _ hu)

/-- What every visit makes true of a pulse, when it finds a walk that keeps to an invariant, holds
    of all pulses when they have been moved. -/
theorem moveAlong_forall₂_of_invariant {P : Walk → Prop} {R : Pulse → Pulse → Prop}
    (l : List Pulse) (f : Pulse → Pulse) (hstart : P .start)
    (hstep : ∀ w i p, p ∈ l → P w →
      P (Walk.step w ⟨i, p, f p⟩).1 ∧ R p (Walk.step w ⟨i, p, f p⟩).2) :
    List.Forall₂ R l (moveAlong l (l.map f)) := by
  rw [List.forall₂_iff_get]
  have hlength : l.length = (moveAlong l (l.map f)).length := by
    rw [length_moveAlong, List.length_map]
  refine ⟨hlength, ?_⟩
  intro i hi hi'
  obtain ⟨before, later, horder, hmoved⟩ := getElem?_moveAlong f (List.getElem?_eq_getElem hi)
  obtain ⟨_, hget⟩ := List.getElem?_eq_some_iff.mp hmoved
  rw [List.get_eq_getElem, List.get_eq_getElem, hget]
  -- the invariant holds of the walk when it comes to the pulse
  have hbefore : P (Walk.start.after before) := by
    apply Walk.after_invariant hstart
    intro w v hv hw
    have hmem : v ∈ visits l (l.map f) := by
      rw [← (inTimeOrder_perm _).mem_iff, horder]
      exact List.mem_append_left _ hv
    rw [visits_map, List.mem_map] at hmem
    obtain ⟨⟨p, j⟩, hp, rfl⟩ := hmem
    exact (hstep w j p (List.fst_mem_of_mem_zipIdx hp) hw).1
  exact (hstep _ i _ (List.getElem_mem hi) hbefore).2

/-- What every visit makes true of a pulse holds of all pulses when they have been moved. -/
theorem moveAlong_forall₂ {R : Pulse → Pulse → Prop} (l : List Pulse) (f : Pulse → Pulse)
    (hstep : ∀ w i p, p ∈ l → R p (Walk.step w ⟨i, p, f p⟩).2) :
    List.Forall₂ R l (moveAlong l (l.map f)) :=
  moveAlong_forall₂_of_invariant (P := fun _ => True) l f trivial
    fun w i p hp _ => ⟨trivial, hstep w i p hp⟩

end PulseTrain.Scan
