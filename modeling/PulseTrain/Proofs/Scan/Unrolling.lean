import PulseTrain.Proofs.Scan.Binding
import PulseTrain.Proofs.Scan.Contract
import PulseTrain.Proofs.Scan.IdleVisits
import PulseTrain.Proofs.Scan.PointIndex

/-! # Loops written out

    A loop that is unrolled puts its pulses on the timeline behind those of the sequence itself,
    after these have been moved. A loop that is written out as fixed pulses lets its pulses go
    along with the others: they are sorted among them, visited with them and placed with them. If
    the loops are bound to nothing, both come to the same, errors and notes included, and only the
    marks of these pulses differ.

    * **Description**: `Sequence.writtenOut` has fixed pulses in place of the loops,
      `Sequence.Repeatable` says when it plays the same;
    * **Placing**: `placeAll_unrolling` and `placeAll_writtenOut` list the pulses in the order in
      which they are placed;
    * **Comparison**: `Placed.Matches`, `Timeline.Matches` and `Point.Matches`, from the entry to
      the point;
    * **Result**: `scan_writtenOut`.
-/

namespace PulseTrain

open Scan

/-! ## Description -/

/-- The same pulse with fixed timing. -/
def Pulse.anchored (p : Pulse) : Pulse := { p with isFixed := true }

namespace Pulse

theorem timing_anchored (p : Pulse) : p.anchored.timing = p.timing := rfl

theorem duration_anchored (p : Pulse) : p.anchored.duration = p.duration := rfl

end Pulse

/-- The pulses of a loop, iteration by iteration, as fixed pulses. -/
def Loop.writtenOut (l : Loop) : List Pulse :=
  (List.range l.iterations.toNat).flatMap fun i =>
    l.pulses.map fun p =>
      { p with timing := p.timing + l.period * Float.ofNat i, isFixed := true }

namespace Sequence

/-- The sequence without loops, in which their pulses come after those of the sequence itself. -/
def writtenOut (s : Sequence) : Sequence :=
  { s with pulses := s.pulses ++ s.loops.flatMap (·.writtenOut), loops := [] }

/-- A sequence with loops that do not take part in a scan, and with times that can be compared. -/
structure Repeatable (s : Sequence) : Prop where
  unbound : ∀ l ∈ s.loops, ∀ p ∈ l.pulses, p.bindings = []
  finite : ∀ l ∈ s.loops, ∀ p ∈ l.pulses, p.duration.IsFinite
  timed : ∀ p ∈ s.pulses, p.timing.IsNumber
  repeated : ∀ l ∈ s.loops, ∀ p ∈ l.pulses, ∀ i < l.iterations.toNat,
    (p.timing + l.period * Float.ofNat i).IsNumber

end Sequence

namespace Scan

/-! ## Placing -/

/-- The pulses of a loop in all its iterations. -/
def iterated (value : Option Float) (l : Loop) : List Pulse :=
  (List.range l.iterations.toNat).flatMap fun i => l.pulses.map (inIteration l value i)

/-- The pulses of all loops in all their iterations. -/
def unrolled (s : Sequence) (value : Option Float) : List Pulse := s.loops.flatMap (iterated value)

/-- The pulses of the sequence itself where they have been moved to. -/
def moved (s : Sequence) (value : Option Float) : List Pulse :=
  moveAlong s.pulses (s.pulses.map (bindTo value))

variable {s : Sequence} {rate : Float} {scanIndex : Nat} {value : Option Float} {p : Pulse}

theorem appendList_append {α : Type} (placed : Array α) (here later : List α) :
    placed ++ here ++ later = placed ++ (here ++ later) := by
  apply Array.ext'
  rw [Array.toList_appendList, Array.toList_appendList, Array.toList_appendList,
    List.append_assoc]

/-- Iteration by iteration, the pulses of a loop are placed behind those that are there. -/
theorem placeIterations_eq (l : Loop) (count iteration : Nat) (placed : Array Placed) :
    placeIterations l rate scanIndex value count iteration placed =
      ((List.range' iteration count).flatMap fun i => l.pulses.map (inIteration l value i)).mapM
          (place rate scanIndex) >>= fun es => pure (placed ++ es) := by
  induction count generalizing iteration placed with
  | zero => exact congrArg Except.ok Array.appendList_nil.symm
  | succ count ih =>
    rw [List.range'_succ, List.flatMap_cons, List.mapM_append]
    simp only [placeIterations, ih, bind_assoc, pure_bind, appendList_append]

/-- One loop after another is placed, and nothing shows where one ends and the next begins. -/
theorem placeLoops_eq (placed : Array Placed) :
    placeLoops s scanIndex value placed =
      (unrolled s value).mapM (place s.sampleRate scanIndex) >>= fun es =>
        pure (placed ++ es) := by
  unfold placeLoops unrolled
  generalize s.loops = loops
  -- by induction on the loops, with what has been placed before them
  induction loops generalizing placed with
  | nil => exact congrArg Except.ok Array.appendList_nil.symm
  | cons l rest ih =>
    have hloop : (if l.pulses.isEmpty then .ok placed
        else placeIterations l s.sampleRate scanIndex value l.iterations.toNat 0 placed) =
          (iterated value l).mapM (place s.sampleRate scanIndex) >>= fun es =>
            pure (placed ++ es) := by
      unfold iterated
      rw [placeIterations_eq, List.range_eq_range']
      split
      · next hempty =>
        -- however often it runs, a loop without pulses has nothing to place
        have hnone : (List.range' 0 l.iterations.toNat).flatMap
            (fun i => l.pulses.map (inIteration l value i)) = [] := by
          rw [List.flatMap_eq_nil_iff, List.isEmpty_iff.mp hempty]
          exact fun _ _ => rfl
        rw [hnone]
        exact congrArg Except.ok Array.appendList_nil.symm
      · rfl
    rw [List.foldlM_cons, hloop, List.flatMap_cons, List.mapM_append]
    simp only [ih, bind_assoc, pure_bind, appendList_append]

/-- **Placing** with loops unrolled: the pulses of the sequence itself, then those of the loops. -/
theorem placeAll_unrolling : placeAll s ⟨true⟩ scanIndex value =
    (moved s value ++ unrolled s value).mapM (place s.sampleRate scanIndex) := by
  show (placeTopLevel s scanIndex value >>= fun topLevel =>
    placeLoops s scanIndex value topLevel.toArray >>= fun all => pure all.toList) = _
  rw [List.mapM_append]
  simp only [placeLoops_eq, bind_assoc, pure_bind, Array.toList_appendList]
  rfl

/-! ## Loops without bindings -/

theorem bindTo_of_unbound (h : p.bindings = []) (value : Option Float) : bindTo value p = p := by
  cases value with
  | none => rfl
  | some x =>
    show p.bind x = p
    unfold Pulse.bind
    rw [h]
    rfl

/-- What is written out for a loop is what is unrolled, with fixed timing. -/
theorem map_anchored_iterated {l : Loop} (h : ∀ p ∈ l.pulses, p.bindings = [])
    (value : Option Float) : (iterated value l).map Pulse.anchored = l.writtenOut := by
  unfold iterated Loop.writtenOut
  rw [List.map_flatMap]
  congr 1
  funext i
  rw [List.map_map]
  apply List.map_congr_left
  intro p hp
  show (inIteration l value i p).anchored = _
  unfold inIteration
  rw [bindTo_of_unbound (h p hp)]
  rfl

theorem map_anchored_unrolled (h : s.Repeatable) (value : Option Float) :
    (unrolled s value).map Pulse.anchored = s.loops.flatMap (·.writtenOut) := by
  unfold unrolled
  rw [List.map_flatMap]
  exact List.flatMap_congr fun l hl => map_anchored_iterated (h.unbound l hl) value

/-- The pulses that are written out push nothing. -/
theorem idle_of_mem_writtenOut (h : s.Repeatable) (hp : p ∈ s.loops.flatMap (·.writtenOut)) :
    Idle p ∧ p.timing.IsNumber := by
  obtain ⟨l, hl, hp⟩ := List.mem_flatMap.mp hp
  obtain ⟨i, hi, hp⟩ := List.mem_flatMap.mp hp
  obtain ⟨q, hq, rfl⟩ := List.mem_map.mp hp
  exact ⟨⟨rfl, h.unbound l hl q hq, h.finite l hl q hq⟩,
    h.repeated l hl q hq i (List.mem_range.mp hi)⟩

/-- **Placing** with loops written out: among the visits the fixed pulses have disturbed none. -/
theorem placeAll_writtenOut (h : s.Repeatable) : placeAll s.writtenOut ⟨false⟩ scanIndex value =
    (moved s value ++ (unrolled s value).map Pulse.anchored).mapM
      (place s.sampleRate scanIndex) := by
  have hnumber : ∀ p ∈ s.pulses ++ s.loops.flatMap (·.writtenOut), p.timing.IsNumber := by
    intro p hp
    rcases List.mem_append.mp hp with hp | hp
    · exact h.timed p hp
    · exact (idle_of_mem_writtenOut h hp).2
  have hidle := fun p hp => (idle_of_mem_writtenOut (p := p) h hp).1
  have hmoved : moved s.writtenOut value = moved s value ++ s.loops.flatMap (·.writtenOut) :=
    moveAlong_append hnumber hidle fun p hp => bindTo_of_unbound (hidle p hp).bindings value
  show (placeTopLevel s.writtenOut scanIndex value >>= pure) = _
  rw [bind_pure, map_anchored_unrolled h, ← hmoved]
  rfl

/-! ## Comparison -/

/-- A pulse on the timeline of a sequence, and the one in its place when the loops are written out:
    they are the same, or the first is from a loop and the second the same with fixed timing. -/
inductive Stands (s : Sequence) (value : Option Float) : Pulse → Pulse → Prop where
  | same (p : Pulse) : Stands s value p p
  | anchored {p : Pulse} (h : p ∈ unrolled s value) : Stands s value p p.anchored

/-- An entry and the one in its place: their samples are the same. -/
structure Placed.Matches (s : Sequence) (value : Option Float) (e e' : Placed) : Prop where
  start : e'.start = e.start
  length : e'.length = e.length
  pulse : Stands s value e.pulse e'.pulse

/-- A timeline and the one in its place: they match entry by entry. -/
structure Timeline.Matches (s : Sequence) (t t' : Timeline) : Prop where
  scanIndex : t'.scanIndex = t.scanIndex
  value : t'.value = t.value
  length : t'.length = t.length
  pulses : List.Forall₂ (Placed.Matches s t.value) t.pulses t'.pulses

/-- The work for a point and the work in its place: the same notes, and the same error or timelines
    that match. -/
structure Point.Matches (s : Sequence) (point point' : Point) : Prop where
  log : point'.log = point.log
  result : SameOutcome (Timeline.Matches s) point.result point'.result

/-- The same entry with fixed timing. -/
def Placed.anchored (e : Placed) : Placed := { e with pulse := e.pulse.anchored }

/-- Entries that match are the same but for the mark. -/
theorem Placed.Matches.anchored_eq {e e' : Placed} (h : e.Matches s value e') :
    e'.anchored = e.anchored := by
  obtain ⟨start, length, pulse⟩ := e
  obtain ⟨start', length', pulse'⟩ := e'
  obtain ⟨hstart, hlength, hpulse⟩ := h
  cases hstart
  cases hlength
  cases hpulse with
  | same => rfl
  | anchored => rfl

/-- Neither the samples nor the faults of a pulse depend on its mark. -/
theorem place_anchored (p : Pulse) :
    place rate scanIndex p.anchored = (place rate scanIndex p).map Placed.anchored := by
  unfold place
  -- the checks come in this order, and none of them looks at the mark
  by_cases hearly : p.timing.isNegative = true
  · have hearly' : p.anchored.timing.isNegative = true := hearly
    rw [if_pos hearly, if_pos hearly']
    rfl
  · have hearly' : ¬p.anchored.timing.isNegative = true := hearly
    rw [if_neg hearly, if_neg hearly']
    by_cases hnegative : p.duration.isNegative = true
    · have hnegative' : p.anchored.duration.isNegative = true := hnegative
      rw [if_pos hnegative, if_pos hnegative']
      rfl
    · have hnegative' : ¬p.anchored.duration.isNegative = true := hnegative
      rw [if_neg hnegative, if_neg hnegative', Pulse.timing_anchored, Pulse.duration_anchored]
      -- what is left are the two conversions and the sum, which see the same times
      cases Samples.ofDuration p.timing rate with
      | error e => rfl
      | ok start =>
        cases Samples.ofDuration p.duration rate with
        | error e => rfl
        | ok length =>
          simp only [Except.mapError, bind, Except.bind]
          cases Samples.add? start length with
          | none => rfl
          | some ending => rfl

theorem sameOutcome_place {p p' : Pulse} (h : Stands s value p p') :
    SameOutcome (Placed.Matches s value) (place rate scanIndex p)
      (place rate scanIndex p') := by
  cases h with
  | same =>
    cases place rate scanIndex p with
    | error e => exact .error e
    | ok e => exact .ok ⟨rfl, rfl, .same _⟩
  | anchored hmem =>
    rw [place_anchored]
    cases hplace : place rate scanIndex p with
    | error e => exact .error e
    | ok e =>
      refine .ok ⟨rfl, rfl, .anchored ?_⟩
      rw [(place_ok hplace).1]
      exact hmem

/-- **Entries**: before they are checked and sorted they match one by one, or the same one is at
    fault. -/
theorem sameOutcome_placeAll (h : s.Repeatable) :
    SameOutcome (List.Forall₂ (Placed.Matches s value)) (placeAll s ⟨true⟩ scanIndex value)
      (placeAll s.writtenOut ⟨false⟩ scanIndex value) := by
  have htop : List.Forall₂ (Stands s value) (moved s value) (moved s value) :=
    List.forall₂_same.mpr fun p _ => .same p
  have hloops : List.Forall₂ (Stands s value) (unrolled s value)
      ((unrolled s value).map Pulse.anchored) := by
    rw [List.forall₂_map_right_iff, List.forall₂_same]
    exact fun p hp => .anchored hp
  rw [placeAll_unrolling, placeAll_writtenOut h]
  exact .mapM (List.rel_append htop hloops) fun p p' => sameOutcome_place

/-! ## Check, order and notes -/

variable {es es' : List Placed}

theorem map_anchored_eq (h : List.Forall₂ (Placed.Matches s value) es es') :
    es'.map Placed.anchored = es.map Placed.anchored := by
  induction h with
  | nil => rfl
  | cons he _ ih => rw [List.map_cons, List.map_cons, he.anchored_eq, ih]

theorem verifyDisjoint_anchored (es : List Placed) :
    verifyDisjoint scanIndex (es.map Placed.anchored) = verifyDisjoint scanIndex es := by
  unfold verifyDisjoint occupiedChannels conflictOn?
  simp only [List.filterMap_map, List.filter_map, List.map_map]
  rfl

theorem lateNotes_anchored (length : Samples) (es : List Placed) :
    lateNotes rate length scanIndex (es.map Placed.anchored) =
      lateNotes rate length scanIndex es := by
  unfold lateNotes
  rw [List.filterMap_map]
  rfl

/-- The entries of a point, checked and sorted. -/
def sortedEntries (s : Sequence) (settings : BuildSettings) (scanIndex : Nat)
    (value : Option Float) : Except ScanError (List Placed) := do
  let placed ← placeAll s settings scanIndex value
  verifyDisjoint scanIndex placed
  return placed.mergeSort Placed.le

theorem sameOutcome_sortedEntries (h : s.Repeatable) (scanIndex : Nat) (value : Option Float) :
    SameOutcome (List.Forall₂ (Placed.Matches s value)) (sortedEntries s ⟨true⟩ scanIndex value)
      (sortedEntries s.writtenOut ⟨false⟩ scanIndex value) := by
  refine (sameOutcome_placeAll h).bind fun es es' hes => ?_
  have hcheck : verifyDisjoint scanIndex es' = verifyDisjoint scanIndex es := by
    rw [← verifyDisjoint_anchored es', map_anchored_eq hes, verifyDisjoint_anchored]
  rw [hcheck]
  cases verifyDisjoint scanIndex es with
  | error e => exact .error e
  | ok _ =>
    -- the order looks at the samples and the channel
    refine .ok (forall₂_mergeSort ?_ hes)
    intro a b a' b' ha hb
    show a.anchored.le b.anchored = a'.anchored.le b'.anchored
    rw [ha.anchored_eq, hb.anchored_eq]

theorem buildTimeline_eq (s : Sequence) (settings : BuildSettings) (length : Samples)
    (scanIndex : Nat) (value : Option Float) :
    buildTimeline s settings length scanIndex value =
      match sortedEntries s settings scanIndex value with
      | .error e => ⟨[], .error e⟩
      | .ok pulses =>
        ⟨lateNotes s.sampleRate length scanIndex pulses
            ++ [.built scanIndex value pulses.length length],
          .ok ⟨scanIndex, value, length, pulses⟩⟩ :=
  rfl

/-- **Point**: the same error is found, or the same notes are taken and the timelines match. -/
theorem matches_buildTimeline (h : s.Repeatable) (length : Samples) :
    Point.Matches s (buildTimeline s ⟨true⟩ length scanIndex value)
      (buildTimeline s.writtenOut ⟨false⟩ length scanIndex value) := by
  have hentries := sameOutcome_sortedEntries h scanIndex value
  rw [buildTimeline_eq, buildTimeline_eq]
  generalize sortedEntries s ⟨true⟩ scanIndex value = entries at hentries ⊢
  generalize sortedEntries s.writtenOut ⟨false⟩ scanIndex value = entries' at hentries ⊢
  cases hentries with
  | error e => exact ⟨rfl, .error e⟩
  | @ok es es' hes =>
    have hlate : lateNotes s.sampleRate length scanIndex es' =
        lateNotes s.sampleRate length scanIndex es := by
      rw [← lateNotes_anchored length es', map_anchored_eq hes, lateNotes_anchored]
    refine ⟨?_, .ok ⟨rfl, rfl, rfl, hes⟩⟩
    show lateNotes s.sampleRate length scanIndex es' ++ [.built _ _ es'.length _] = _
    rw [hlate, ← hes.length_eq]

/-! ## Result -/

/-- What is written out is bound to nothing, so it passes the check of the bindings. -/
theorem verifyBindings_writtenOut (h : s.Repeatable) {source : Option Variable}
    (hbindings : verifyBindings source s.everyPulse = .ok ()) :
    verifyBindings source s.writtenOut.everyPulse = .ok () := by
  rw [verifyBindings_ok] at hbindings ⊢
  intro p hp b hb
  have hplace : p ∈ s.everyPulse ∨ p ∈ s.loops.flatMap (·.writtenOut) := by
    simp only [Sequence.everyPulse, Sequence.writtenOut, List.mem_append, List.flatMap_nil,
      List.append_nil] at hp ⊢
    tauto
  rcases hplace with hp | hp
  · exact hbindings p hp b hb
  · rw [(idle_of_mem_writtenOut h hp).1.bindings] at hb
    cases hb

/-- **Unrolling is writing out**: an accepted sequence, with loops that do not take part in the
    scan, is accepted with its loops written out, and at every point the unrolled loops and those
    written out come to the same, but that the latter are marked as fixed. -/
theorem scan_writtenOut {scan : Scan} (hs : s.Repeatable)
    (h : Scan.start? s ⟨true⟩ = .ok scan) :
    ∃ scan', Scan.start? s.writtenOut ⟨false⟩ = .ok scan' ∧
      ∀ index, Option.Rel (Point.Matches s) (scan.point? index) (scan'.point? index) := by
  obtain ⟨hrate, hsize, hbindings, length, hlength, rfl⟩ := start?_eq_ok.mp h
  refine ⟨⟨s.writtenOut, ⟨false⟩, length, s.declared.values.head?, 0⟩, ?_, fun index => ?_⟩
  · exact start?_eq_ok.mpr
      ⟨hrate, hsize, verifyBindings_writtenOut hs hbindings, length, hlength, rfl⟩
  · -- both scans have the same variable, so they have the same points
    show Option.Rel (Point.Matches s)
      ((Scan.valueAt? ⟨s, ⟨true⟩, length, s.declared.values.head?, 0⟩ index).map
        (buildTimeline s ⟨true⟩ length index))
      ((Scan.valueAt? ⟨s, ⟨true⟩, length, s.declared.values.head?, 0⟩ index).map
        (buildTimeline s.writtenOut ⟨false⟩ length index))
    cases Scan.valueAt? ⟨s, ⟨true⟩, length, s.declared.values.head?, 0⟩ index with
    | none => exact .none
    | some value => exact .some (matches_buildTimeline hs length)

/-- A pulse with a scanned duration, two movable pulses after it, and a loop that runs three times
    on a second channel, the first time together with one of the movable pulses. -/
def interleaved : Sequence :=
  let drive : Pulse :=
    { Pulse.new "drive" 1 with duration := ⟨1.0⟩, bindings := [⟨"width", .duration⟩] }
  let probe : Pulse := { Pulse.new "probe" 1 with timing := ⟨4.0⟩, duration := ⟨1.0⟩ }
  let echo : Pulse := { Pulse.new "echo" 1 with timing := ⟨6.0⟩, duration := ⟨1.0⟩ }
  let readout : Pulse := { Pulse.new "readout" 2 with timing := ⟨4.0⟩, duration := ⟨1.0⟩ }
  { Sequence.empty with
    sampleRate := 1.0
    totalDuration := ⟨10.0⟩
    pulses := [drive, probe, echo]
    loops := [.of 3 [readout]]
    declared := .ofList [("width", ⟨"width", 1.0, 3.0, 3, .time⟩)] }

/-- The pulses of the first point, those of the loop among the others in time. -/
theorem exists_yields_interleaved : ∃ t, Yields interleaved ⟨true⟩ t := by
  have hstart : Reached interleaved ⟨true⟩
      ⟨interleaved, ⟨true⟩, 10, some ⟨"width", 1.0, 3.0, 3, .time⟩, 0⟩ :=
    .start (by decide +kernel)
  have hspans : (placeAll interleaved ⟨true⟩ 0 (some 1.0)).map
      (·.map fun e => (e.pulse.channel, e.start, e.length)) =
        .ok [(1, 0, 1), (1, 4, 1), (1, 6, 1), (2, 4, 1), (2, 5, 1), (2, 6, 1)] := by
    decide +kernel
  exact hstart.exists_yields (by decide +kernel) hspans (by decide)

theorem interleaved_writtenOut : ∃ scan scan', Scan.start? interleaved ⟨true⟩ = .ok scan ∧
    interleaved.Repeatable ∧ Scan.start? interleaved.writtenOut ⟨false⟩ = .ok scan' ∧
    (∃ t, Yields interleaved ⟨true⟩ t) ∧
    ∀ index, Option.Rel (Point.Matches interleaved) (scan.point? index) (scan'.point? index) := by
  have hstart : Scan.start? interleaved ⟨true⟩ =
      .ok ⟨interleaved, ⟨true⟩, 10, some ⟨"width", 1.0, 3.0, 3, .time⟩, 0⟩ := by
    decide +kernel
  have hrepeatable : interleaved.Repeatable :=
    ⟨by decide +kernel, by decide +kernel, by decide +kernel, by decide +kernel⟩
  obtain ⟨scan', hstart', hpoints⟩ := scan_writtenOut hrepeatable hstart
  exact ⟨_, scan', hstart, hrepeatable, hstart', exists_yields_interleaved, hpoints⟩

end Scan

end PulseTrain
