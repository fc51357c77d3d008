import PulseTrain.Proofs.Scan.Point
import PulseTrain.Proofs.Scan.PointIndex
import PulseTrain.Proofs.Variable

/-! # Lazy and eager scans

    A scan builds a point when it is asked for it. Whatever it is asked for, and in whatever
    order, it answers as if all points had been built beforehand, each from its own value and
    without regard to the others, and it only had to look them up.

    * **Table**: `points` builds all points at once;
    * **Spec**: `Serves` says how a request is answered from a table of which some points have
      been consumed, `ServesAll` answers a list of requests;
    * **Step**: `Over.serves`, with `Over.collectUpTo` for the loop inside it;
    * **Run**: `Over.servesAll`, and `answers_from_table` from the start of a scan.
-/

namespace PulseTrain.Scan

/-! ## Requests -/

/-- What a scan can be asked for. -/
inductive Request where
  /-- The number of points to come. -/
  | remaining
  /-- The next point. -/
  | next
  /-- All points to come, up to the first that fails. -/
  | collect

/-- What a scan answers. -/
inductive Answer where
  | remaining (count : Nat)
  | next (point : Option Point)
  | collect (timelines : Logged ScanNote ScanError (List Timeline))

/-- The answer to a request, and the scan after it. -/
def answer (scan : Scan) : Request → Answer × Scan
  | .remaining => (.remaining scan.remaining, scan)
  | .next => (.next scan.next.1, scan.next.2)
  | .collect => (.collect scan.collect.1, scan.collect.2)

/-- The answers to some requests, one after the other. -/
def answers (scan : Scan) : List Request → List Answer
  | [] => []
  | request :: rest => (scan.answer request).1 :: answers (scan.answer request).2 rest

/-! ## The table of all points -/

/-- The number of points of a sequence, a single one if there is no variable to scan. -/
def pointCount (s : Sequence) : Nat :=
  match s.declared.values.head? with
  | some v => v.size
  | none => 1

/-- The value of a point, which without a variable has none. -/
def valueOf? (s : Sequence) (k : Nat) : Option Float :=
  s.declared.values.head?.bind (·.valueAt? k)

/-- All points of a sequence, each built from its index and its value alone. -/
def points (s : Sequence) (settings : BuildSettings) (length : Samples) : List Point :=
  (List.range (pointCount s)).map fun k => buildTimeline s settings length k (valueOf? s k)

/-- The point at an index gives a timeline. -/
def Succeeds (table : List Point) (i : Nat) : Prop :=
  ∃ point t, table[i]? = some point ∧ Logged.result point = .ok t

/-- The point at `j` fails, and none from `c` on fails before it. -/
structure FirstFailure (table : List Point) (c j : Nat) (point : Point) (e : ScanError) :
    Prop where
  le : c ≤ j
  point_eq : table[j]? = some point
  fails : point.result = .error e
  least : ∀ i, c ≤ i → i < j → Succeeds table i

/-- What collecting points gives from the point at `c` on, and how many points it has consumed when
    it ends: all of them, or those up to the first that fails. -/
inductive Collects (table : List Point) (c : Nat) :
    List ScanNote → Except ScanError (List Timeline) → Nat → Prop where
  | all {timelines : List Timeline}
      (hgives : (table.drop c).map (·.result) = timelines.map .ok) :
      Collects table c ((table.drop c).flatMap (·.log)) (.ok timelines) table.length
  | upTo {j : Nat} {point : Point} {e : ScanError} (hfirst : FirstFailure table c j point e) :
      Collects table c (((table.take (j + 1)).drop c).flatMap (·.log)) (.error e) (j + 1)

/-- How a request is answered from a table of which `c` points have been consumed, and how many have
    been consumed then. -/
inductive Serves (table : List Point) (c : Nat) : Request → Answer → Nat → Prop where
  | remaining : Serves table c .remaining (.remaining (table.length - c)) c
  | next {point : Point} (hpoint : table[c]? = some point) :
      Serves table c .next (.next (some point)) (c + 1)
  | exhausted (hend : c = table.length) : Serves table c .next (.next none) c
  | collect {log : List ScanNote} {result : Except ScanError (List Timeline)} {c' : Nat}
      (hcollects : Collects table c log result c') :
      Serves table c .collect (.collect ⟨log, result⟩) c'

/-- How some requests are answered from a table, one after the other. -/
inductive ServesAll (table : List Point) : Nat → List Request → List Answer → Prop where
  | nil {c : Nat} : ServesAll table c [] []
  | cons {c c' : Nat} {request : Request} {answer : Answer} {requests : List Request}
      {answers : List Answer} (hfirst : Serves table c request answer c')
      (hrest : ServesAll table c' requests answers) :
      ServesAll table c (request :: requests) (answer :: answers)

/-! ## Collecting from a table -/

section Collecting

variable {table : List Point} {c : Nat} {point : Point}

/-- At the end of the table nothing is left to collect. -/
theorem Collects.none_left : Collects table table.length [] (.ok []) table.length := by
  have hgives : (table.drop table.length).map (·.result) = ([] : List Timeline).map .ok := by
    simp
  have h := Collects.all hgives
  rw [List.drop_length] at h
  exact h

/-- A point that gives a timeline is followed by what comes of the points after it. -/
theorem Collects.cons {t : Timeline} {log : List ScanNote}
    {result : Except ScanError (List Timeline)} {c' : Nat} (hpoint : table[c]? = some point)
    (hgives : point.result = .ok t) (h : Collects table (c + 1) log result c') :
    Collects table c (point.log ++ log) (result.map (t :: ·)) c' := by
  -- what is collected from the next point on is collected behind this one
  cases h with
  | @all timelines hrest =>
    have hdrop : table.drop c = point :: table.drop (c + 1) := by
      rw [List.drop_eq_getElem?_toList_append, hpoint]
      rfl
    have hall : (table.drop c).map (·.result) = (t :: timelines).map .ok := by
      rw [hdrop, List.map_cons, List.map_cons, hgives, hrest]
    have hlog : point.log ++ (table.drop (c + 1)).flatMap (·.log) =
        (table.drop c).flatMap (·.log) := by
      rw [hdrop, List.flatMap_cons]
    rw [hlog]
    exact .all hall
  | @upTo j failing e hfirst =>
    have hle : c + 1 ≤ j := hfirst.le
    have htake : (table.take (j + 1))[c]? = some point := by
      rw [List.getElem?_take_of_lt (by omega), hpoint]
    have hlog : point.log ++ ((table.take (j + 1)).drop (c + 1)).flatMap (·.log) =
        ((table.take (j + 1)).drop c).flatMap (·.log) := by
      rw [List.drop_eq_getElem?_toList_append (i := c), htake]
      rfl
    rw [hlog]
    refine .upTo ⟨by omega, hfirst.point_eq, hfirst.fails, ?_⟩
    intro i hci hij
    -- the point at `c` is the one that has been added to those before the failing one
    rcases Nat.eq_or_lt_of_le hci with rfl | hlt
    · exact ⟨point, t, hpoint, hgives⟩
    · exact hfirst.least i hlt hij

/-- A point that fails ends the collection. -/
theorem Collects.stop {e : ScanError} (hpoint : table[c]? = some point)
    (hfails : point.result = .error e) : Collects table c point.log (.error e) (c + 1) := by
  have hlog : ((table.take (c + 1)).drop c).flatMap (·.log) = point.log := by
    rw [List.drop_eq_getElem?_toList_append, List.getElem?_take_of_lt (Nat.lt_succ_self c),
      hpoint, List.drop_eq_nil_of_le (List.length_take_le (c + 1) table)]
    simp
  rw [← hlog]
  refine .upTo ⟨Nat.le_refl c, hpoint, hfails, ?_⟩
  intro i hci hic
  omega

/-- Where all points succeed there is no first failure. -/
theorem FirstFailure.not_all {j : Nat} {e : ScanError} {timelines : List Timeline}
    (h : FirstFailure table c j point e) : table.map (·.result) ≠ timelines.map .ok := by
  intro hgives
  have hmem : point.result ∈ table.map (·.result) :=
    List.mem_map_of_mem (List.mem_of_getElem? h.point_eq)
  rw [hgives, h.fails, List.mem_map] at hmem
  obtain ⟨_, _, hok⟩ := hmem
  cases hok

/-- No failure comes before the first. -/
theorem FirstFailure.not_lt {j j' : Nat} {point' : Point} {e e' : ScanError}
    (h : FirstFailure table c j point e) (h' : FirstFailure table c j' point' e') : ¬ j < j' := by
  intro hlt
  obtain ⟨before, t, hbefore, hgives⟩ := h'.least j h.le hlt
  rw [h.point_eq, Option.some.injEq] at hbefore
  rw [← hbefore, h.fails] at hgives
  cases hgives

/-- There is only one first failure. -/
theorem FirstFailure.unique {j j' : Nat} {point' : Point} {e e' : ScanError}
    (h : FirstFailure table c j point e) (h' : FirstFailure table c j' point' e') : e = e' := by
  have hsame : j = j' := by
    have hnotBefore := h.not_lt h'
    have hnotAfter := h'.not_lt h
    omega
  have hpoint := h'.point_eq
  rw [← hsame, h.point_eq, Option.some.injEq] at hpoint
  have hfails := h'.fails
  rw [← hpoint, h.fails] at hfails
  exact Except.error.inj hfails

variable {log : List ScanNote} {result : Except ScanError (List Timeline)} {c' : Nat}

/-- Collecting from the start succeeds exactly if every point does. -/
theorem Collects.eq_ok_iff (h : Collects table 0 log result c') (timelines : List Timeline) :
    result = .ok timelines ↔ table.map (·.result) = timelines.map .ok := by
  cases h with
  | @all found hgives =>
    rw [List.drop_zero] at hgives
    rw [hgives, Except.ok.injEq]
    exact (List.map_inj_right fun _ _ h => Except.ok.inj h).symm
  | upTo hfirst => exact ⟨fun hok => (by cases hok), fun hall => absurd hall hfirst.not_all⟩

/-- Collecting from the start fails with the error of the first point that fails. -/
theorem Collects.eq_error_iff (h : Collects table 0 log result c') (e : ScanError) :
    result = .error e ↔ ∃ j point, FirstFailure table 0 j point e := by
  -- collecting either takes every entry or stops at the first that fails
  cases h with
  | @all found hgives =>
    rw [List.drop_zero] at hgives
    constructor
    · intro herror
      cases herror
    · rintro ⟨j, point, hfirst⟩
      exact absurd hgives hfirst.not_all
  | @upTo j point e' hfirst =>
    constructor
    · intro herror
      cases herror
      exact ⟨j, point, hfirst⟩
    · rintro ⟨j', point', hfirst'⟩
      rw [hfirst.unique hfirst']

end Collecting

/-! ## A scan over a table -/

/-- A scan whose points are those of a table. -/
structure Over (table : List Point) (scan : Scan) : Prop where
  point : ∀ k, scan.point? k = table[k]?
  size : scan.size = table.length
  index_le : scan.index ≤ table.length

variable {table : List Point} {scan : Scan}

/-- Where a scan stands does not matter to its points. -/
theorem Over.move (h : Over table scan) {index : Nat} (hindex : index ≤ table.length) :
    Over table { scan with index := index } :=
  ⟨h.point, h.size, hindex⟩

/-- **Step**: the next point is the one at the index, and the index moves on with it. -/
theorem Over.next_eq (h : Over table scan) :
    (∃ point, table[scan.index]? = some point ∧
      scan.next = (some point, { scan with index := scan.index + 1 })) ∨
    (scan.index = table.length ∧ scan.next = (none, scan)) := by
  have hpoint := h.point scan.index
  unfold Scan.next
  cases htable : table[scan.index]? with
  | some point =>
    rw [htable] at hpoint
    rw [hpoint]
    exact Or.inl ⟨point, rfl, rfl⟩
  | none =>
    rw [htable] at hpoint
    rw [hpoint]
    have hge : table.length ≤ scan.index := List.getElem?_eq_none_iff.mp htable
    exact Or.inr ⟨Nat.le_antisymm h.index_le hge, rfl⟩

/-- **Loop**: collecting as many points as are left gives what the table gives, behind what has been
    collected before. -/
theorem Over.collectUpTo (h : Over table scan) {count : Nat}
    (hcount : scan.index + count = table.length) (timelines : List Timeline)
    (log : List ScanNote) :
    ∃ notes result c', Collects table scan.index notes result c' ∧ c' ≤ table.length ∧
      Scan.collectUpTo count scan timelines log =
        (⟨log.reverse ++ notes, result.map (timelines.reverse ++ ·)⟩,
          { scan with index := c' }) := by
  -- by induction on the points to go; the timelines and the notes so far stand reversed
  induction count generalizing scan timelines log with
  | zero =>
    have hend : scan.index = table.length := hcount
    have hnone : Collects table scan.index [] (.ok []) table.length := by
      rw [hend]
      exact Collects.none_left
    refine ⟨[], .ok [], table.length, hnone, Nat.le_refl _, ?_⟩
    simp only [Scan.collectUpTo, Except.map, List.append_nil]
    rw [← hend]
  | succ count ih =>
    rcases h.next_eq with ⟨point, hpoint, hnext⟩ | ⟨hend, _⟩
    · have hlt : scan.index < table.length := by omega
      simp only [Scan.collectUpTo, hnext]
      cases hresult : point.result with
      | error e =>
        refine ⟨point.log, .error e, scan.index + 1, .stop hpoint hresult, hlt, ?_⟩
        simp [Except.map]
      | ok t =>
        -- the scan has moved on by one point, and has one point less to go
        have hmoved : Over table { scan with index := scan.index + 1 } := h.move hlt
        obtain ⟨notes, result, c', hcollects, hle, hrest⟩ :=
          ih hmoved (by simp only; omega) (t :: timelines) (point.log.reverse ++ log)
        refine ⟨point.log ++ notes, result.map (t :: ·), c', .cons hpoint hresult hcollects,
          hle, ?_⟩
        simp only [hrest]
        cases result <;> simp [Except.map]
    · omega

/-- Collecting what is left of a scan is collecting what is left of the table. -/
theorem Over.collect_eq (h : Over table scan) :
    ∃ notes result c', Collects table scan.index notes result c' ∧ c' ≤ table.length ∧
      scan.collect = (⟨notes, result⟩, { scan with index := c' }) := by
  have hcount : scan.index + scan.remaining = table.length := by
    have hle := h.index_le
    have hsize := h.size
    unfold Scan.remaining
    omega
  obtain ⟨notes, result, c', hcollects, hle, hcollect⟩ := h.collectUpTo hcount [] []
  refine ⟨notes, result, c', hcollects, hle, ?_⟩
  unfold Scan.collect
  rw [hcollect]
  cases result <;> simp [Except.map]

/-- **Step**: any request is answered from the table at the index, and the index keeps count of the
    points that have been consumed. -/
theorem Over.serves (h : Over table scan) (request : Request) :
    Serves table scan.index request (scan.answer request).1 (scan.answer request).2.index ∧
      Over table (scan.answer request).2 := by
  -- each request is answered from the table, and moves the index as far as it consumes
  cases request with
  | remaining =>
    have hremaining : scan.remaining = table.length - scan.index := by
      unfold Scan.remaining
      rw [h.size]
    simp only [answer, hremaining]
    exact ⟨.remaining, h⟩
  | next =>
    rcases h.next_eq with ⟨point, hpoint, hnext⟩ | ⟨hend, hnext⟩
    · simp only [answer, hnext]
      have hlt : scan.index < table.length := (List.getElem?_eq_some_iff.mp hpoint).1
      exact ⟨.next hpoint, h.move hlt⟩
    · simp only [answer, hnext]
      exact ⟨.exhausted hend, h⟩
  | collect =>
    obtain ⟨notes, result, c', hcollects, hle, hcollect⟩ := h.collect_eq
    simp only [answer, hcollect]
    exact ⟨.collect hcollects, h.move hle⟩

/-- **Run**: all requests are answered from the table. -/
theorem Over.servesAll (h : Over table scan) (requests : List Request) :
    ServesAll table scan.index requests (scan.answers requests) := by
  induction requests generalizing scan with
  | nil => exact .nil
  | cons request rest ih =>
    obtain ⟨hserves, hover⟩ := h.serves request
    exact .cons hserves (ih hover)

/-! ## From the start -/

variable {s : Sequence} {settings : BuildSettings}

/-- A scan that has been started is one over the table of all points. -/
theorem over_points (h : Scan.start? s settings = .ok scan) :
    Over (points s settings scan.length) scan ∧ scan.index = 0 := by
  obtain ⟨_, length, _, rfl⟩ := start?_ok h
  refine ⟨⟨?_, ?_, Nat.zero_le _⟩, rfl⟩
  · intro k
    unfold points
    rw [List.getElem?_map]
    unfold Scan.point? Scan.valueAt? valueOf? pointCount
    cases s.declared.values.head? with
    | none =>
      -- the only point is the one at zero
      cases k with
      | zero => rfl
      | succ k => simp
    | some v =>
      -- with a variable the points are its values
      by_cases hk : k < v.size
      · obtain ⟨x, hx⟩ := Option.isSome_iff_exists.mp ((v.valueAt?_isSome_iff k).mpr hk)
        simp [hx, List.getElem?_range hk]
      · have hnone : v.valueAt? k = none := (v.valueAt?_eq_none_iff k).mpr (Nat.not_lt.mp hk)
        have hrange : (List.range v.size)[k]? = none := by simpa using hk
        simp [hnone, hrange]
  · have hlength : (points s settings length).length = pointCount s := by
      unfold points
      rw [List.length_map, List.length_range]
    exact hlength.symm

/-- What a scan promises: it cannot be told from a table in which all points were built before
    anything was asked for. -/
structure Tabulated (s : Sequence) (settings : BuildSettings) (scan : Scan) : Prop where
  /-- Every list of requests is answered from the table, of which nothing has been consumed. -/
  answers : ∀ requests,
    ServesAll (points s settings scan.length) 0 requests (scan.answers requests)
  /-- The point at `k` is marked with `k` and its value, be it a timeline or an error. -/
  marked : ∀ k (point : Point), (points s settings scan.length)[k]? = some point →
    point.Marked k (valueOf? s k)
  /-- The whole scan succeeds exactly if every point does. -/
  built : ∀ timelines, (buildAll s settings).result = .ok timelines ↔
    (points s settings scan.length).map (·.result) = timelines.map .ok
  /-- Otherwise it fails with the error of the first point that fails. -/
  failed : ∀ e, (buildAll s settings).result = .error e ↔
    ∃ j point, FirstFailure (points s settings scan.length) 0 j point e

/-- **Lazy is eager**: a scan answers all requests, in whatever order, from the table of its points.
    -/
theorem answers_from_table (h : Scan.start? s settings = .ok scan) :
    Tabulated s settings scan := by
  obtain ⟨hover, hindex⟩ := over_points h
  obtain ⟨notes, result, c', hcollects, _, hcollect⟩ := hover.collect_eq
  rw [hindex] at hcollects
  -- building at once is starting and collecting from the first point
  have hall : (buildAll s settings).result = result := by
    unfold buildAll
    rw [h]
    simp only [hcollect]
  refine ⟨?_, ?_, ?_, ?_⟩
  · intro requests
    have hrun := hover.servesAll requests
    rw [hindex] at hrun
    exact hrun
  · intro k point hpoint
    unfold points at hpoint
    -- the table is computed by the point, so what stands at `k` is the point `k`
    obtain ⟨hk, hget⟩ := List.getElem?_eq_some_iff.mp hpoint
    rw [List.getElem_map, List.getElem_range] at hget
    rw [← hget]
    exact marked_buildTimeline settings scan.length
  · intro timelines
    rw [hall]
    exact hcollects.eq_ok_iff timelines
  · intro e
    rw [hall]
    exact hcollects.eq_error_iff e

/-- A pulse whose start is scanned from before the start of the sequence to after it. -/
def dipping : Sequence :=
  let drive : Pulse :=
    { Pulse.new "drive" 1 with duration := ⟨2.0⟩, bindings := [⟨"begin", .timing⟩] }
  { Sequence.empty with
    sampleRate := 1.0
    totalDuration := ⟨10.0⟩
    pulses := [drive]
    declared := .ofList [("begin", ⟨"begin", -1.0, 1.0, 3, .time⟩)] }

/-- The scan of this sequence before anything is asked for. -/
def dippingScan : Scan :=
  ⟨dipping, ⟨false⟩, 10, some ⟨"begin", -1.0, 1.0, 3, .time⟩, 0⟩

theorem dipping_from_table :
    Scan.start? dipping ⟨false⟩ = .ok dippingScan ∧ Tabulated dipping ⟨false⟩ dippingScan := by
  have hstart : Scan.start? dipping ⟨false⟩ = .ok dippingScan := by decide +kernel
  exact ⟨hstart, answers_from_table hstart⟩

/-- The first point fails, and the two after it are still to come. -/
example :
    dippingScan.next.1.map (·.result) = some (.error (.startsTooEarly 0 "drive" ⟨-1.0⟩)) ∧
      dippingScan.next.2.remaining = 2 := by
  decide +kernel

end PulseTrain.Scan
