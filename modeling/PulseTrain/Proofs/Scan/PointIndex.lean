import PulseTrain.Proofs.Failure
import PulseTrain.Scan.Basic

/-! # The index of a point

    A scan is looked at point by point, perhaps long after it was started. So everything that
    is built for a point says which point it was: the timeline, the error in its place, and
    the notes that were taken on the way.

    * **Errors**: `place_failsOnly_of`, `verifyDisjoint_failsOnly` and `buildTimeline_failsOnly_of`
      list the errors there are, and `placeAll_failsOnly` says that all of them are marked;
    * **Point**: `marked_buildTimeline`.
-/

namespace PulseTrain.Scan

/-- The point that an error is about. The errors of a whole sequence are about none. -/
def ScanError.scanIndex? : ScanError → Option Nat
  | severalVariables _ => none
  | undeclared _ _ => none
  | unsuitedBinding _ _ _ => none
  | fixedBound _ => none
  | badSampleRate _ => none
  | overlap scanIndex _ _ _ _ _ => some scanIndex
  | startsTooEarly scanIndex _ _ => some scanIndex
  | negativeLength scanIndex _ _ => some scanIndex
  | pulseOffGrid scanIndex _ _ => some scanIndex
  | sequenceOffGrid _ => none

/-- An error that names the point it is about. -/
def ScanError.About (k : Nat) (e : ScanError) : Prop := e.scanIndex? = some k

def ScanNote.scanIndex : ScanNote → Nat
  | endsLate _ _ _ scanIndex => scanIndex
  | built scanIndex _ _ _ => scanIndex

/-- The work done for a point: notes, and an error or a timeline. -/
abbrev Point : Type := Logged ScanNote ScanError Timeline

/-- All that comes of a point is marked with its index, and a timeline with its value too. -/
structure Point.Marked (point : Point) (scanIndex : Nat) (value : Option Float) : Prop where
  timeline : ∀ t, point.result = .ok t → t.scanIndex = scanIndex ∧ t.value = value
  error : ∀ e, point.result = .error e → e.scanIndex? = some scanIndex
  notes : ∀ note ∈ point.log, note.scanIndex = scanIndex

variable {s : Sequence} {rate : Float} {k : Nat} {value : Option Float}

/-! ## Errors -/

/-- What the three errors of a placement have in common. -/
theorem place_failsOnly_of {P : ScanError → Prop} (p : Pulse)
    (hstart : p.timing.isNegative = true → P (.startsTooEarly k p.name p.timing))
    (hlength : p.duration.isNegative = true → P (.negativeLength k p.name p.duration))
    (hgrid : ∀ overflow, P (.pulseOffGrid k p.name overflow)) :
    FailsOnly P (place rate k p) := by
  have hround : ∀ time, FailsOnly P
      ((Samples.ofDuration time rate).mapError (ScanError.pulseOffGrid k p.name)) :=
    fun time => .mapError hgrid
  unfold place
  split
  · next hnegative => exact .error (hstart hnegative)
  · split
    · next hnegative => exact .error (hlength hnegative)
    · refine (hround p.timing).bind fun start => ?_
      refine (hround p.duration).bind fun length => ?_
      split
      · exact .ok _
      · exact .error (hgrid _)

/-- A pulse that cannot be placed is reported with the index. -/
theorem place_failsOnly (p : Pulse) : FailsOnly (ScanError.About k) (place rate k p) :=
  place_failsOnly_of p (fun _ => rfl) (fun _ => rfl) fun _ => rfl

theorem placeIterations_failsOnly {l : Loop} (count iteration : Nat) (placed : Array Placed) :
    FailsOnly (ScanError.About k)
      (placeIterations l rate k value count iteration placed) := by
  induction count generalizing iteration placed with
  | zero => exact .ok placed
  | succ count ih =>
    have hhere : FailsOnly (ScanError.About k)
        ((l.pulses.map (inIteration l value iteration)).mapM (place rate k)) :=
      .mapM fun p _ => place_failsOnly p
    exact hhere.bind fun here => ih (iteration + 1) (placed ++ here)

theorem placeLoops_failsOnly (placed : Array Placed) :
    FailsOnly (ScanError.About k) (placeLoops s k value placed) := by
  refine FailsOnly.foldlM (fun placed l _ => ?_) placed
  split
  · exact .ok placed
  · exact placeIterations_failsOnly _ _ _

theorem placeAll_failsOnly (settings : BuildSettings) :
    FailsOnly (ScanError.About k) (placeAll s settings k value) := by
  have htop : FailsOnly (ScanError.About k) (placeTopLevel s k value) :=
    .mapM fun p _ => place_failsOnly p
  refine htop.bind fun topLevel => ?_
  split
  · exact (placeLoops_failsOnly topLevel.toArray).bind fun placed => .ok _
  · exact .ok topLevel

/-- A check for overlaps reports an overlap, or nothing. -/
theorem verifyDisjoint_failsOnly {P : ScanError → Prop}
    (hoverlap : ∀ channel first second firstEnd secondStart,
      P (.overlap k channel first second firstEnd secondStart)) (placed : List Placed) :
    FailsOnly P (verifyDisjoint k placed) := by
  refine .forM fun channel _ => ?_
  split
  · exact .ok ()
  · exact .error (hoverlap _ _ _ _ _)

/-- The errors of a point are those of placing its pulses, and overlaps. -/
theorem buildTimeline_failsOnly_of {P : ScanError → Prop} {settings : BuildSettings}
    (hplace : FailsOnly P (placeAll s settings k value))
    (hoverlap : ∀ channel first second firstEnd secondStart,
      P (.overlap k channel first second firstEnd secondStart)) (length : Samples) :
    FailsOnly P (buildTimeline s settings length k value).result := by
  -- what is built is placed, checked for overlaps and sorted, and sorting cannot fail
  have hsorted : FailsOnly P (do
      let placed ← placeAll s settings k value
      verifyDisjoint k placed
      return placed.mergeSort Placed.le) := by
    refine hplace.bind fun placed => ?_
    exact (verifyDisjoint_failsOnly hoverlap placed).bind fun _ => .ok _
  intro e h
  unfold buildTimeline at h
  dsimp only at h
  split at h
  · next e' he' =>
    cases h
    exact hsorted e he'
  · cases h

/-! ## Points -/

/-- A note on a pulse that ends late is about the point at which it does. -/
theorem scanIndex_of_mem_lateNotes {length : Samples} {pulses : List Placed} {note : ScanNote}
    (h : note ∈ lateNotes rate length k pulses) : note.scanIndex = k := by
  obtain ⟨p, _, hnote⟩ := List.mem_filterMap.mp h
  split at hnote
  · split at hnote
    · cases hnote
      rfl
    · cases hnote
  · cases hnote

/-- **Point**: whatever is built for a point is marked as being of this point. -/
theorem marked_buildTimeline (settings : BuildSettings) (length : Samples) :
    Point.Marked (buildTimeline s settings length k value) k value := by
  have hfails : FailsOnly (ScanError.About k) (buildTimeline s settings length k value).result :=
    buildTimeline_failsOnly_of (placeAll_failsOnly settings) (fun _ _ _ _ _ => rfl) length
  refine ⟨?_, hfails, ?_⟩
  · intro t ht
    unfold buildTimeline at ht
    dsimp only at ht
    split at ht
    · cases ht
    · cases ht
      exact ⟨rfl, rfl⟩
  · intro note hnote
    unfold buildTimeline at hnote
    dsimp only at hnote
    split at hnote
    · -- a point that fails notes nothing
      cases hnote
    · rcases List.mem_append.mp hnote with hlate | hbuilt
      · exact scanIndex_of_mem_lateNotes hlate
      · rw [List.mem_singleton] at hbuilt
        rw [hbuilt]
        rfl

end PulseTrain.Scan
