import PulseTrain.Proofs.Scan.Walk
import PulseTrain.Proofs.Success
import PulseTrain.Scan.Timeline

/-! # The entries of a timeline

    Before they are sorted the entries of a timeline stand in the order of the pulses from
    which they were made, one entry to a pulse, and an unrolled loop counts once for each of
    its iterations.

    * **Origins**: `origins` lists what entries are made from, `Origin.Makes` says what one
      entry has to do with its origin;
    * **Result**: `placeAll_ok`, built from one lemma for each of the nested loops.
-/

namespace PulseTrain.Scan

open Success

/-! ## Origins -/

/-- From what an entry is made: a pulse of the sequence itself, or a pulse of a loop in one of the
    iterations. -/
inductive Origin where
  | topLevel (p : Pulse)
  | unrolled (l : Loop) (iteration : Nat) (p : Pulse)

/-- The origins in a loop, iteration by iteration. -/
def loopOrigins (l : Loop) : List Origin :=
  (List.range l.iterations.toNat).flatMap fun i => l.pulses.map (.unrolled l i)

/-- All origins in the order in which their entries are made: the pulses of the sequence, and if
    loops are unrolled, those of loop after loop. -/
def origins (s : Sequence) (settings : BuildSettings) : List Origin :=
  s.pulses.map .topLevel ++ if settings.unrolling then s.loops.flatMap loopOrigins else []

/-- The pulse of an entry that is made from an origin. A pulse of the sequence itself has the scan
    value put in and may have been moved, unless it is fixed. A pulse of a loop has its iteration
    added to its timing. -/
def Origin.Becomes (value : Option Float) : Origin → Pulse → Prop
  | topLevel p, q =>
    q = { bindTo value p with timing := q.timing } ∧ (p.isFixed = true → q = bindTo value p)
  | unrolled l i p, q => q = inIteration l value i p

/-- An entry stands at the samples to which its pulse rounds, and its end has a number. -/
structure Placed.OnGrid (rate : Float) (e : Placed) : Prop where
  start : Samples.ofDuration e.pulse.timing rate = .ok e.start
  length : Samples.ofDuration e.pulse.duration rate = .ok e.length
  ending : e.end? = some (e.start + e.length)

/-- An entry that is made from an origin. -/
def Origin.Makes (rate : Float) (value : Option Float) (o : Origin) (e : Placed) : Prop :=
  o.Becomes value e.pulse ∧ e.OnGrid rate

/-! ## Placing -/

/-- A pulse that can be placed is placed where it rounds to. -/
theorem place_ok {rate : Float} {scanIndex : Nat} {p : Pulse} {e : Placed}
    (h : place rate scanIndex p = .ok e) : e.pulse = p ∧ e.OnGrid rate := by
  unfold place at h
  split at h
  · cases h
  · split at h
    · cases h
    · obtain ⟨start, hstart, hrest⟩ := bind_ok.mp h
      obtain ⟨length, hlength, hend⟩ := bind_ok.mp hrest
      split at hend
      · next ending hadd =>
        cases hend
        -- the end is kept only where the sum does not leave the range of samples
        have hsum : ending = start + length := by
          unfold Samples.add? at hadd
          split at hadd
          · cases hadd
            rfl
          · cases hadd
        exact ⟨rfl, mapError_ok.mp hstart, mapError_ok.mp hlength, hsum ▸ hadd⟩
      · cases hend

/-- Pulses that come from some origins one by one are placed as entries of these origins. -/
theorem mapM_place_ok {rate : Float} {scanIndex : Nat} {value : Option Float}
    {os : List Origin} {ps : List Pulse} {es : List Placed}
    (hps : List.Forall₂ (Origin.Becomes value) os ps)
    (h : ps.mapM (place rate scanIndex) = .ok es) :
    List.Forall₂ (Origin.Makes rate value) os es := by
  have hplaced := mapM_ok h
  clear h
  induction hps generalizing es with
  | nil =>
    cases hplaced
    exact .nil
  | cons hp _ ih =>
    -- the two lists are as long as each other, entry by entry
    cases hplaced with
    | cons he hrest =>
      obtain ⟨hpulse, hgrid⟩ := place_ok he
      rw [← hpulse] at hp
      exact .cons ⟨hp, hgrid⟩ (ih hrest)

/-! ## Pulses of the sequence -/

theorem placeTopLevel_ok {s : Sequence} {scanIndex : Nat} {value : Option Float}
    {es : List Placed} (h : placeTopLevel s scanIndex value = .ok es) :
    List.Forall₂ (Origin.Makes s.sampleRate value) (s.pulses.map .topLevel) es := by
  have hmoved : List.Forall₂ (fun p q => Origin.Becomes value (.topLevel p) q) s.pulses
      (moveAlong s.pulses (s.pulses.map (bindTo value))) := by
    apply moveAlong_forall₂
    intro w i p _
    refine ⟨w.step_pulse _, ?_⟩
    intro hfixed
    exact w.step_of_isFixed (v := ⟨i, p, bindTo value p⟩) hfixed
  exact mapM_place_ok (List.forall₂_map_left_iff.mpr hmoved) h

/-! ## Pulses of loops -/

/-- One iteration after another adds its entries to those that are there. -/
theorem placeIterations_ok {l : Loop} {rate : Float} {scanIndex : Nat} {value : Option Float}
    {count iteration : Nat} {placed result : Array Placed}
    (h : placeIterations l rate scanIndex value count iteration placed = .ok result) :
    ∃ es, result.toList = placed.toList ++ es ∧
      List.Forall₂ (Origin.Makes rate value)
        ((List.range' iteration count).flatMap fun i => l.pulses.map (.unrolled l i)) es := by
  induction count generalizing iteration placed with
  | zero =>
    cases h
    exact ⟨[], (List.append_nil _).symm, .nil⟩
  | succ count ih =>
    obtain ⟨here, hhere, hrest⟩ := bind_ok.mp h
    obtain ⟨later, hresult, hlater⟩ := ih hrest
    -- the pulses of this iteration, which are not moved along
    have hnow : List.Forall₂ (Origin.Makes rate value)
        (l.pulses.map (.unrolled l iteration)) here := by
      apply mapM_place_ok _ hhere
      rw [List.forall₂_map_left_iff, List.forall₂_map_right_iff, List.forall₂_same]
      intro p _
      rfl
    refine ⟨here ++ later, ?_, ?_⟩
    · rw [hresult, Array.toList_appendList, List.append_assoc]
    · rw [List.range'_succ, List.flatMap_cons]
      exact List.rel_append hnow hlater

/-- One loop after another adds its entries to those that are there. -/
theorem placeLoops_ok {s : Sequence} {scanIndex : Nat} {value : Option Float}
    {placed result : Array Placed} (h : placeLoops s scanIndex value placed = .ok result) :
    ∃ es, result.toList = placed.toList ++ es ∧
      List.Forall₂ (Origin.Makes s.sampleRate value) (s.loops.flatMap loopOrigins) es := by
  unfold placeLoops at h
  generalize s.loops = loops at h ⊢
  -- by induction on the loops, with what has been placed before them
  induction loops generalizing placed with
  | nil =>
    cases h
    exact ⟨[], (List.append_nil _).symm, .nil⟩
  | cons l rest ih =>
    rw [List.foldlM_cons] at h
    obtain ⟨next, hnext, hrest⟩ := bind_ok.mp h
    obtain ⟨later, hresult, hlater⟩ := ih hrest
    have hloop : ∃ es, next.toList = placed.toList ++ es ∧
        List.Forall₂ (Origin.Makes s.sampleRate value) (loopOrigins l) es := by
      unfold loopOrigins
      split at hnext
      · next hempty =>
        -- however often it runs, a loop without pulses has no origins
        cases hnext
        refine ⟨[], (List.append_nil _).symm, ?_⟩
        rw [List.isEmpty_iff.mp hempty]
        simp
      · rw [List.range_eq_range']
        exact placeIterations_ok hnext
    obtain ⟨here, hhere, hmade⟩ := hloop
    refine ⟨here ++ later, ?_, ?_⟩
    · rw [hresult, hhere, List.append_assoc]
    · rw [List.flatMap_cons]
      exact List.rel_append hmade hlater

/-! ## All entries -/

/-- **Entries of a point**: one for each origin, in the order of the origins. -/
theorem placeAll_ok {s : Sequence} {settings : BuildSettings} {scanIndex : Nat}
    {value : Option Float} {es : List Placed}
    (h : placeAll s settings scanIndex value = .ok es) :
    List.Forall₂ (Origin.Makes s.sampleRate value) (origins s settings) es := by
  obtain ⟨topLevel, htop, hrest⟩ := bind_ok.mp h
  have hmade := placeTopLevel_ok htop
  unfold origins
  -- the unrolled pulses stand behind the others, in the order of the loops
  split at hrest
  · next hunroll =>
    obtain ⟨all, hall, hes⟩ := bind_ok.mp hrest
    cases hes
    obtain ⟨later, hresult, hlater⟩ := placeLoops_ok hall
    rw [if_pos hunroll, hresult]
    exact List.rel_append hmade hlater
  · next hroll =>
    cases hrest
    rw [if_neg hroll, List.append_nil]
    exact hmade

end PulseTrain.Scan
