import PulseTrain.Proofs.Samples
import PulseTrain.Proofs.Scan.Anchor
import PulseTrain.Proofs.Scan.ExactWalk

/-! # Larger values start no pulse earlier

    The walks for two values of the variable visit the pulses in the same order and come to the
    same present times. A larger value makes no pulse shorter and no bound timing earlier, so the
    shifts of the walk for the larger value stay at or above those of the other, whether a visit
    adds to the shift or starts it anew.

    * **Hypothesis**: `NumericRun`, neither a described time nor a shift is NaN;
    * **Invariant**: `Walk.Behind`, the two walks side by side;
    * **Step and run**: `Walk.Behind.step`, `Walk.Behind.after`;
    * **Result**: `adjusted_mono`, for the timings and for the samples at which they are played.
-/

namespace PulseTrain

open Decimal

namespace Scan

open Duration Success

/-! ## Walks without NaN -/

/-- A walk all of whose shifts are numbers. -/
def NumericWalk : Walk → List Visit → Prop
  | _, [] => True
  | w, v :: rest => (w.step v).1.shift.IsNumber ∧ NumericWalk (w.step v).1 rest

/-- The described times of some pulses are numbers, and so are the shifts of the walk through them
    that is made for a value of the variable. -/
def NumericRun (x : Float) (l : List Pulse) : Prop :=
  (∀ p ∈ l, p.timing.IsNumber ∧ p.duration.IsNumber) ∧
    NumericWalk .start (inTimeOrder (visits l (l.map (·.bind x))))

instance decidableNumericWalk : (w : Walk) → (vs : List Visit) → Decidable (NumericWalk w vs)
  | _, [] => isTrue trivial
  | w, v :: rest =>
    have := decidableNumericWalk (w.step v).1 rest
    inferInstanceAs (Decidable (_ ∧ _))

instance (x : Float) (l : List Pulse) : Decidable (NumericRun x l) :=
  inferInstanceAs (Decidable (_ ∧ _))

/-! ## Bound fields -/

variable {x y : Float} {p : Pulse}

/-- A larger value makes no duration shorter. -/
theorem duration_bind_mono (hle : x ≤ y) (h : p.duration.IsNumber) :
    (p.bind x).duration.NoLater (p.bind y).duration := by
  rw [Pulse.duration_bind, Pulse.duration_bind]
  split
  · exact hle
  · exact .refl h

/-- A larger value makes no timing earlier. -/
theorem timing_bind_mono (hle : x ≤ y) (h : p.timing.IsNumber) :
    (p.bind x).timing.NoLater (p.bind y).timing := by
  rw [Pulse.timing_bind, Pulse.timing_bind]
  split
  · exact hle
  · exact .refl h

/-! ## Invariant -/

/-- **Invariant**: two walks that have visited the same pulses, with the shifts of the first at or
    below those of the second. -/
structure Walk.Behind (w w' : Walk) : Prop where
  shift : w.shift.NoLater w'.shift
  presentShift : w.presentShift.NoLater w'.presentShift
  present : w.present = w'.present

theorem Walk.Behind.start : Walk.start.Behind Walk.start :=
  ⟨by decide +kernel, by decide +kernel, rfl⟩

variable {w w' : Walk}

theorem Walk.Behind.arrive (h : w.Behind w') (time : Duration) :
    (w.arrive time).Behind (w'.arrive time) := by
  unfold Walk.arrive
  rw [h.present]
  split
  · exact ⟨h.shift, h.presentShift, rfl⟩
  · exact ⟨h.shift, h.shift, rfl⟩

/-- **Step**: a visit keeps the order of the walks. -/
theorem Walk.Behind.step {v : Visit} (h : w.Behind w') (hle : x ≤ y)
    (hdescribed : v.described.timing.IsNumber ∧ v.described.duration.IsNumber)
    (hx : (w.step (v.bindBy (·.bind x))).1.shift.IsNumber)
    (hy : (w'.step (v.bindBy (·.bind y))).1.shift.IsNumber) :
    (w.step (v.bindBy (·.bind x))).1.Behind (w'.step (v.bindBy (·.bind y))).1 := by
  have harrive := h.arrive v.described.timing
  have hduration := duration_bind_mono hle hdescribed.2
  have htiming := timing_bind_mono hle hdescribed.1
  unfold Walk.step Visit.bindBy at hx hy ⊢
  dsimp only at hx hy ⊢
  split
  · next hbound =>
    rw [if_pos hbound] at hx hy
    refine ⟨?_, harrive.presentShift, harrive.present⟩
    -- a sum that is a number has terms that are numbers
    obtain ⟨hdx, hgx⟩ := isNaN_of_add hx
    obtain ⟨hdy, hgy⟩ := isNaN_of_add hy
    exact (htiming.sub hdx hdy).add (hduration.sub hgx hgy) hx hy
  · next hfree =>
    rw [if_neg hfree] at hx hy
    refine ⟨?_, harrive.presentShift, harrive.present⟩
    obtain ⟨_, hgx⟩ := isNaN_of_add hx
    obtain ⟨_, hgy⟩ := isNaN_of_add hy
    exact harrive.shift.add (hduration.sub hgx hgy) hx hy

/-- **Run**: any number of visits keep the order of the walks. -/
theorem Walk.Behind.after {vs : List Visit} (h : w.Behind w') (hle : x ≤ y)
    (hdescribed : ∀ v ∈ vs, v.described.timing.IsNumber ∧ v.described.duration.IsNumber)
    (hx : NumericWalk w (vs.map (Visit.bindBy (·.bind x))))
    (hy : NumericWalk w' (vs.map (Visit.bindBy (·.bind y)))) :
    (w.after (vs.map (Visit.bindBy (·.bind x)))).Behind
      (w'.after (vs.map (Visit.bindBy (·.bind y)))) := by
  induction vs generalizing w w' with
  | nil => exact h
  | cons v rest ih =>
    obtain ⟨hvx, hrestx⟩ := hx
    obtain ⟨hvy, hresty⟩ := hy
    have hnext := h.step hle (hdescribed v List.mem_cons_self) hvx hvy
    exact ih hnext (fun u hu => hdescribed u (List.mem_cons_of_mem _ hu)) hrestx hresty

/-! ## Result -/

theorem NumericWalk.of_append {before later : List Visit} (h : NumericWalk w (before ++ later)) :
    NumericWalk w before := by
  induction before generalizing w with
  | nil => trivial
  | cons v rest ih => exact ⟨h.1, ih h.2⟩

/-- Where two walks put a pulse. Only an infinite time can be moved to where it is no number. -/
theorem Walk.Behind.moved {i : ℕ} (h : w.Behind w') (hle : x ≤ y) (hp : p.timing.IsNumber) :
    ((w.step ⟨i, p, p.bind x⟩).2.timing.IsNumber → (w'.step ⟨i, p, p.bind y⟩).2.timing.IsNumber →
      (w.step ⟨i, p, p.bind x⟩).2.timing.NoLater (w'.step ⟨i, p, p.bind y⟩).2.timing) ∧
    (p.timing.IsFinite →
      (w.step ⟨i, p, p.bind x⟩).2.timing.NoLater (w'.step ⟨i, p, p.bind y⟩).2.timing) := by
  have hbound := timing_bind_mono hle hp
  have hpresent := (h.arrive p.timing).presentShift
  unfold Walk.step
  dsimp only
  split
  · exact ⟨fun _ _ => hbound, fun _ => hbound⟩
  · split
    · exact ⟨fun _ _ => hbound, fun _ => hbound⟩
    · refine ⟨fun hx hy => (NoLater.refl hp).add hpresent hx hy, fun hfinite => ?_⟩
      obtain ⟨hshift, hshift'⟩ := isNaN_of_le hpresent
      exact (NoLater.refl hp).add hpresent (isNaN_finite_add hfinite hshift)
        (isNaN_finite_add hfinite hshift')

/-- The pulses for two values of the variable, moved along. -/
theorem adjusted_noLater {l : List Pulse} {i : ℕ} (hle : x ≤ y) (hx : NumericRun x l)
    (hy : NumericRun y l) (hp : l[i]? = some p) :
    ∃ q q', (adjusted x l)[i]? = some q ∧ (adjusted y l)[i]? = some q' ∧
      (q.timing.IsNumber → q'.timing.IsNumber → q.timing.NoLater q'.timing) ∧
      (p.timing.IsFinite → q.timing.NoLater q'.timing) := by
  obtain ⟨before, later, hvisit⟩ := exists_visit_of_getElem? hp
  obtain ⟨horderx, hgetx⟩ := hvisit (·.bind x)
  obtain ⟨hordery, hgety⟩ := hvisit (·.bind y)
  obtain ⟨hdescribed, hwalkx⟩ := hx
  have hwalky := hy.2
  rw [horderx] at hwalkx
  rw [hordery] at hwalky
  have hbefore : ∀ v ∈ before, v.described.timing.IsNumber ∧ v.described.duration.IsNumber := by
    intro v hv
    apply hdescribed
    have hmem : v.bindBy (·.bind x) ∈ inTimeOrder (visits l (l.map (·.bind x))) := by
      rw [horderx]
      exact List.mem_append_left _ (List.mem_map_of_mem hv)
    exact (bound_of_mem_visits ((inTimeOrder_perm _).mem_iff.mp hmem)).2
  -- the walk for the smaller value has the smaller shift, visit by visit
  have hbehind := Walk.Behind.start.after hle hbefore hwalkx.of_append hwalky.of_append
  have hnumber := (hdescribed p (List.mem_of_getElem? hp)).1
  exact ⟨_, _, hgetx, hgety, hbehind.moved hle hnumber⟩

/-! ## Entries -/

variable {s : Sequence} {settings : BuildSettings} {length : Samples} {k : ℕ}
  {value : Option Float} {t : Timeline} {i : ℕ} {q : Pulse}

/-- At a point that was built each pulse that has been moved along has its entry, at the sample to
    which its timing rounds. -/
theorem exists_entry_of_moved
    (h : (buildTimeline s settings length k value).result = .ok t)
    (hq : (moveAlong s.pulses (s.pulses.map (bindTo value)))[i]? = some q) :
    ∃ e, t.EntryOf s settings i e ∧ e.pulse = q ∧
      Samples.ofDuration q.timing s.sampleRate = .ok e.start := by
  obtain ⟨entries, hentries, _, rfl⟩ := buildTimeline_ok.mp h
  obtain ⟨topLevel, htop, hrest⟩ := bind_ok.mp hentries
  -- the pulses of the sequence itself come first
  have hprefix : ∃ later, entries = topLevel ++ later := by
    split at hrest
    · obtain ⟨all, hall, hes⟩ := bind_ok.mp hrest
      cases hes
      obtain ⟨later, hresult, _⟩ := placeLoops_ok hall
      exact ⟨later, hresult⟩
    · cases hrest
      exact ⟨[], (List.append_nil _).symm⟩
  obtain ⟨later, rfl⟩ := hprefix
  have hplaced := mapM_ok htop
  obtain ⟨hi, hget⟩ := List.getElem?_eq_some_iff.mp hq
  have hitop : i < topLevel.length := by
    rw [← hplaced.length_eq]
    exact hi
  -- the moved pulses and their entries are in step
  have hplace := hplaced.get hi hitop
  rw [List.get_eq_getElem, List.get_eq_getElem, hget] at hplace
  obtain ⟨hpulse, hgrid⟩ := place_ok hplace
  refine ⟨topLevel[i], ⟨?_, topLevel ++ later, hentries, ?_, ?_⟩, hpulse, hpulse ▸ hgrid.start⟩
  · rw [length_moveAlong, List.length_map] at hi
    exact hi
  · exact StablySorted.of_mergeSort Placed.le_iff_key_le _
  · rw [List.getElem?_append_left hitop]
    exact List.getElem?_eq_getElem hitop

/-- **Result**: for a larger value of the variable no pulse is moved to an earlier time, and if the
    points of both values can be built, no pulse starts at an earlier sample. -/
theorem adjusted_mono {scan : Scan} (hscan : Scan.start? s settings = .ok scan) (hle : x ≤ y)
    (hx : NumericRun x s.pulses) (hy : NumericRun y s.pulses) (hp : s.pulses[i]? = some p) :
    ∃ q q', (adjusted x s.pulses)[i]? = some q ∧ (adjusted y s.pulses)[i]? = some q' ∧
      q.timing.order q'.timing ≠ .gt ∧ (p.timing.IsFinite → q.timing.NoLater q'.timing) ∧
      ∀ k k' t t', (buildTimeline s settings scan.length k (some x)).result = .ok t →
        (buildTimeline s settings scan.length k' (some y)).result = .ok t' →
        ∃ e e', t.EntryOf s settings i e ∧ t'.EntryOf s settings i e' ∧ e.pulse = q ∧
          e'.pulse = q' ∧ e.start ≤ e'.start := by
  obtain ⟨q, q', hq, hq', hnumbers, hfinite⟩ := adjusted_noLater hle hx hy hp
  refine ⟨q, q', hq, hq', order_ne_gt hnumbers, hfinite, ?_⟩
  intro k k' t t' ht ht'
  obtain ⟨e, hentry, hpulse, hstart⟩ := exists_entry_of_moved ht hq
  obtain ⟨e', hentry', hpulse', hstart'⟩ := exists_entry_of_moved ht' hq'
  have hstarts := ofDuration_mono (rate_of_start? hscan) hnumbers hstart hstart'
  exact ⟨e, e', hentry, hentry', hpulse, hpulse', hstarts⟩

/-- A pulse that grows with the variable, one that starts at its value, and one that both of them
    may move. -/
def pushing : Sequence :=
  let drive : Pulse :=
    { Pulse.new "drive" 1 with duration := ⟨1.0⟩, bindings := [⟨"tau", .duration⟩] }
  let gate : Pulse :=
    { Pulse.new "gate" 2 with
      timing := ⟨2.0⟩, duration := ⟨1.0⟩, bindings := [⟨"tau", .timing⟩] }
  let readout : Pulse := { Pulse.new "readout" 3 with timing := ⟨4.0⟩, duration := ⟨1.0⟩ }
  { Sequence.empty with
    sampleRate := 1.0
    totalDuration := ⟨10.0⟩
    pulses := [drive, gate, readout]
    declared := .ofList [("tau", ⟨"tau", 1.0, 3.0, 3, .time⟩)] }

/-- The scan of this sequence before anything is asked for. -/
def pushingScan : Scan :=
  ⟨pushing, ⟨false⟩, 10, some ⟨"tau", 1.0, 3.0, 3, .time⟩, 0⟩

theorem pushing_adjusted_mono :
    Scan.start? pushing ⟨false⟩ = .ok pushingScan ∧ (1.0 : Float) ≤ 3.0 ∧
      NumericRun 1.0 pushing.pulses ∧ NumericRun 3.0 pushing.pulses ∧
      ∃ p, pushing.pulses[2]? = some p ∧
      ∃ q q', (adjusted 1.0 pushing.pulses)[2]? = some q ∧
        (adjusted 3.0 pushing.pulses)[2]? = some q' ∧
        q.timing.order q'.timing ≠ .gt ∧ (p.timing.IsFinite → q.timing.NoLater q'.timing) ∧
        ∀ k k' t t',
          (buildTimeline pushing ⟨false⟩ pushingScan.length k (some 1.0)).result = .ok t →
          (buildTimeline pushing ⟨false⟩ pushingScan.length k' (some 3.0)).result = .ok t' →
          ∃ e e', t.EntryOf pushing ⟨false⟩ 2 e ∧ t'.EntryOf pushing ⟨false⟩ 2 e' ∧ e.pulse = q ∧
            e'.pulse = q' ∧ e.start ≤ e'.start := by
  have hscan : Scan.start? pushing ⟨false⟩ = .ok pushingScan := by decide +kernel
  have hle : (1.0 : Float) ≤ 3.0 := by decide +kernel
  have hx : NumericRun 1.0 pushing.pulses := by decide +kernel
  have hy : NumericRun 3.0 pushing.pulses := by decide +kernel
  exact ⟨hscan, hle, hx, hy, _, rfl, adjusted_mono hscan hle hx hy rfl⟩

/-- The readout of this sequence is moved from one sample to another. -/
example : ((adjusted 1.0 pushing.pulses)[2]?.map (·.timing),
    (adjusted 3.0 pushing.pulses)[2]?.map (·.timing)) = (some ⟨3.0⟩, some ⟨5.0⟩) := by
  decide +kernel

end Scan

end PulseTrain
