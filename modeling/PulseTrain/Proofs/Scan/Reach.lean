import PulseTrain.Proofs.Scan.Anchor
import PulseTrain.Proofs.Scan.Unrolling

/-! # The reach of a value

    At each point of a scan the value of the variable stands in the bound fields of every entry, and
    in nothing else: what is not bound is as it was described, the free-form parameters in their
    order included. Only the timing has a story of its own. It is the value where it is bound, it
    stays where the pulse is fixed, and an unrolled loop adds its iteration to either; other pulses
    may have been moved.

    * **Pulse**: `Pulse.Carries` is what a value makes of a pulse but for the timing, and
      `carries_bind` that binding does it;
    * **Step**: `Origin.takes_step`, a visit of the walk, and `Origin.takes_inIteration`;
    * **Entries**: `placeAll_eq` lists the pulses that are placed, and `pulses_of_placeAll` finds
      them in the entries;
    * **Result**: `Yields.value_reaches`.
-/

namespace PulseTrain

/-! ## Pulses -/

namespace Pulse

variable {p q : Pulse} {x : Float}

/-- The names of the free-form parameters in their order. -/
def extraKeys (p : Pulse) : List String := p.parameters.extra.keys

/-- A name that is written for the first time comes behind all others, and nothing else happens to
    the names. -/
theorem extraKeys_write (p : Pulse) (f : Field) (x : Float) :
    ∃ added, (p.write f x).extraKeys = p.extraKeys ++ added ∧
      ∀ name ∈ added, f = .parameter (.extra name) := by
  have hnone : ∀ q : Pulse, q.extraKeys = p.extraKeys →
      ∃ added, q.extraKeys = p.extraKeys ++ added ∧
        ∀ name ∈ added, f = .parameter (.extra name) := by
    intro q hq
    exact ⟨[], by rw [hq, List.append_nil], by simp⟩
  -- only an extra field can put a key into the pulse, and only where it is not there yet
  match f with
  | .timing => exact hnone _ rfl
  | .duration => exact hnone _ rfl
  | .amplitude => exact hnone _ rfl
  | .parameter .amplitude => exact hnone _ rfl
  | .parameter .phase => exact hnone _ rfl
  | .parameter .frequency => exact hnone _ rfl
  | .parameter (.extra key) =>
    by_cases hkey : key ∈ p.extraKeys
    · exact hnone _ (p.parameters.extra.keys_insert_of_mem hkey _)
    · refine ⟨[key], p.parameters.extra.keys_insert_of_notMem hkey _, ?_⟩
      intro name hname
      rw [List.mem_singleton.mp hname]

/-- The names keep their order when a value is bound, and only bound names are added. -/
theorem extraKeys_bind (p : Pulse) (x : Float) :
    ∃ added, (p.bind x).extraKeys = p.extraKeys ++ added ∧
      ∀ name ∈ added, p.binds (.parameter (.extra name)) = true := by
  -- by induction on the bindings that are still to be written, whatever has been written before
  have hfold : ∀ (bs : List Binding) (q : Pulse), ∃ added,
      (bs.foldl (fun q b => q.write b.field x) q).extraKeys = q.extraKeys ++ added ∧
        ∀ name ∈ added, .parameter (.extra name) ∈ bs.map (·.field) := by
    intro bs
    induction bs with
    | nil =>
      intro q
      exact ⟨[], by simp, by simp⟩
    | cons b rest ih =>
      intro q
      -- this binding adds its keys behind those that are there, and the others add theirs behind it
      obtain ⟨here, hhere, hbound⟩ := q.extraKeys_write b.field x
      obtain ⟨later, hlater, hrest⟩ := ih (q.write b.field x)
      refine ⟨here ++ later, ?_, ?_⟩
      · rw [List.foldl_cons, hlater, hhere, List.append_assoc]
      · intro name hname
        rw [List.map_cons, List.mem_cons]
        rcases List.mem_append.mp hname with hname | hname
        · exact .inl (hbound name hname).symm
        · exact .inr (hrest name hname)
  obtain ⟨added, hkeys, hbound⟩ := hfold p.bindings p
  exact ⟨added, hkeys, fun name hname => binds_iff.mpr (hbound name hname)⟩

/-- What a value makes of a pulse `p`, but for the timing: the bound fields of `q` hold the value,
    and everything else is as in `p`. -/
structure Carries (x : Float) (p q : Pulse) : Prop where
  name : q.name = p.name
  kind : q.kind = p.kind
  channel : q.channel = p.channel
  shape : q.shape = p.shape
  isFixed : q.isFixed = p.isFixed
  bindings : q.bindings = p.bindings
  bound : ∀ f ≠ .timing, p.binds f = true → q.held? f = some (.number x)
  unbound : ∀ f ≠ .timing, p.binds f = false → q.held? f = p.held? f
  /-- The names of the free-form parameters are those of `p` in their order, followed by those that
      are bound and were not there. -/
  extra : ∃ added, q.extraKeys = p.extraKeys ++ added ∧
    ∀ name ∈ added, p.binds (.parameter (.extra name)) = true

theorem carries_bind (p : Pulse) (x : Float) : p.Carries x (p.bind x) where
  name := p.bind_frame (·.name) x fun b _ q => (q.name_kind_write b.field x).1
  kind := p.bind_frame (·.kind) x fun b _ q => (q.name_kind_write b.field x).2
  channel := p.bind_frame (·.channel) x fun b _ q => (q.channel_shape_write b.field x).1
  shape := p.bind_frame (·.shape) x fun b _ q => (q.channel_shape_write b.field x).2
  isFixed := p.bind_frame (·.isFixed) x fun b _ q => q.isFixed_write b.field x
  bindings := p.bind_frame (·.bindings) x fun b _ q => q.bindings_write b.field x
  bound := by
    intro f _ hf
    rw [held?_bind, if_pos (binds_iff.mp hf)]
  unbound := by
    intro f _ hf
    rw [held?_bind, if_neg]
    intro hmem
    rw [binds_iff.mpr hmem] at hf
    cases hf
  extra := p.extraKeys_bind x

/-- A new timing is no matter of the other fields. -/
theorem held?_retime (q : Pulse) (time : Duration) {f : Field} (hf : f ≠ .timing) :
    { q with timing := time }.held? f = q.held? f := by
  match f with
  | .timing => exact absurd rfl hf
  | .duration => rfl
  | .amplitude => rfl
  | .parameter .amplitude => rfl
  | .parameter .phase => rfl
  | .parameter .frequency => rfl
  | .parameter (.extra _) => rfl

theorem Carries.retime (h : p.Carries x q) (time : Duration) :
    p.Carries x { q with timing := time } where
  name := h.name
  kind := h.kind
  channel := h.channel
  shape := h.shape
  isFixed := h.isFixed
  bindings := h.bindings
  bound := fun f hf hbound => (q.held?_retime time hf).trans (h.bound f hf hbound)
  unbound := fun f hf hfree => (q.held?_retime time hf).trans (h.unbound f hf hfree)
  extra := h.extra

/-- The timing that is bound, or else the one that is described. -/
theorem timing_bind_eq (p : Pulse) (x : Float) :
    (p.bind x).timing = if p.binds .timing then ⟨x⟩ else p.timing := by
  rw [timing_bind]
  by_cases hbound : p.binds .timing = true
  · rw [if_pos hbound, if_pos (binds_iff.mp hbound)]
  · rw [if_neg hbound, if_neg (fun hmem => hbound (binds_iff.mpr hmem))]

end Pulse

namespace Scan

open Success

variable {s : Sequence} {settings : BuildSettings} {t : Timeline} {scanIndex : ℕ}
  {value : Option Float} {x : Float} {p : Pulse} {e : Placed} {es : List Placed}

/-! ## Step -/

/-- What a value makes of an origin. A pulse of the sequence itself starts at the value if its
    timing is bound, and where it was described to if it is fixed. In an unrolled loop the start of
    the iteration is added to the value or to the described timing. -/
def Origin.Takes (x : Float) : Origin → Pulse → Prop
  | .topLevel p, q => p.Carries x q ∧ (p.binds .timing = true → q.timing = ⟨x⟩) ∧
      (p.isFixed = true → q.timing = p.timing)
  | .unrolled l i p, q => p.Carries x q ∧
      q.timing = (if p.binds .timing then ⟨x⟩ else p.timing) + l.period * Float.ofNat i

/-- A visit leaves a pulse where its timing is bound to. -/
theorem Walk.step_of_binds (w : Walk) {v : Visit} (h : v.described.binds .timing = true) :
    (w.step v).2 = v.bound := by
  simp only [step, if_pos h]

/-- **Step**: whatever has been visited before, a visit moves a pulse and does nothing else to it,
    and it does not move one that is bound in its timing or fixed. -/
theorem Origin.takes_step (w : Walk) (i : ℕ)
    (hfree : p.isFixed = true → p.binds .timing = false) :
    (Origin.topLevel p).Takes x (w.step ⟨i, p, p.bind x⟩).2 := by
  refine ⟨?_, ?_, ?_⟩
  · rw [w.step_pulse]
    exact (p.carries_bind x).retime _
  · intro hbound
    rw [w.step_of_binds (v := ⟨i, p, p.bind x⟩) hbound, p.timing_bind_eq, if_pos hbound]
  · intro hfixed
    rw [w.step_of_isFixed (v := ⟨i, p, p.bind x⟩) hfixed, p.timing_bind_eq, hfree hfixed]
    rfl

theorem Origin.takes_inIteration (l : Loop) (i : ℕ) (p : Pulse) :
    (Origin.unrolled l i p).Takes x (inIteration l (some x) i p) := by
  refine ⟨(p.carries_bind x).retime _, ?_⟩
  show (p.bind x).timing + l.period * Float.ofNat i = _
  rw [p.timing_bind_eq]

/-! ## Entries -/

/-- The pulses of a point in the order in which they are placed. -/
def played (s : Sequence) (settings : BuildSettings) (value : Option Float) : List Pulse :=
  moved s value ++ if settings.unrolling then unrolled s value else []

/-- **Placing**: all pulses of a point are placed one after the other. -/
theorem placeAll_eq : placeAll s settings scanIndex value =
    (played s settings value).mapM (place s.sampleRate scanIndex) := by
  obtain ⟨unrolling⟩ := settings
  -- with loops left as they are only the top-level pulses are placed
  cases unrolling with
  | true => exact placeAll_unrolling
  | false =>
    show (placeTopLevel s scanIndex value >>= pure) = _
    rw [bind_pure]
    show _ = (moved s value ++ []).mapM _
    rw [List.append_nil]
    rfl

/-- Each entry is one of these pulses, and the entries stand in the order of the pulses. -/
theorem pulses_of_placeAll (h : placeAll s settings scanIndex value = .ok es) :
    es.map (·.pulse) = played s settings value := by
  rw [placeAll_eq] at h
  have hplaced := mapM_ok h
  clear h
  generalize played s settings value = ps at hplaced
  induction hplaced with
  | nil => rfl
  | cons he _ ih => rw [List.map_cons, (place_ok he).1, ih]

/-- An origin with the value put in, before anything is moved along. -/
def Origin.put (value : Option Float) : Origin → Pulse
  | .topLevel p => bindTo value p
  | .unrolled l i p => inIteration l value i p

theorem unrolled_eq_map : unrolled s value = (s.loops.flatMap loopOrigins).map (·.put value) := by
  unfold unrolled iterated loopOrigins
  rw [List.map_flatMap]
  refine List.flatMap_congr fun l _ => ?_
  rw [List.map_flatMap]
  refine List.flatMap_congr fun i _ => ?_
  rw [List.map_map]
  rfl

/-- **Run**: the pulses of a point take the value, each from its origin. -/
theorem forall₂_takes (hbindings : verifyBindings s.declared.values.head? s.everyPulse = .ok ()) :
    List.Forall₂ (Origin.Takes x) (origins s settings) (played s settings (some x)) := by
  refine List.rel_append ?_ ?_
  · rw [List.forall₂_map_left_iff]
    refine moveAlong_forall₂ s.pulses (·.bind x) fun w i p hp => Origin.takes_step w i ?_
    intro hfixed
    -- the checks at the start of a scan refuse a fixed pulse that is bound in its timing
    rw [← Bool.not_eq_true, Pulse.binds_iff]
    intro hbound
    obtain ⟨b, hb, htiming⟩ := List.mem_map.mp hbound
    have hmem : p ∈ s.everyPulse := Sequence.mem_everyPulse.mpr (.inl hp)
    exact field_ne_timing_of_isFixed hbindings hmem hfixed b hb htiming
  · -- the pulses of the loops are not moved, so there is no walk behind them
    by_cases hunroll : settings.unrolling = true
    · rw [if_pos hunroll, if_pos hunroll, unrolled_eq_map, List.forall₂_map_right_iff,
        List.forall₂_same]
      intro o ho
      obtain ⟨l, _, ho⟩ := List.mem_flatMap.mp ho
      obtain ⟨i, _, ho⟩ := List.mem_flatMap.mp ho
      obtain ⟨p, _, rfl⟩ := List.mem_map.mp ho
      exact Origin.takes_inIteration l i p
    · rw [if_neg hunroll, if_neg hunroll]
      exact .nil

/-- The entry of a timeline that was made from an origin. -/
def Timeline.MadeFrom (s : Sequence) (settings : BuildSettings) (t : Timeline) (o : Origin)
    (e : Placed) : Prop :=
  ∃ (entries : List Placed) (k : ℕ), placeAll s settings t.scanIndex t.value = .ok entries ∧
    StablySorted Placed.key entries t.pulses ∧ (origins s settings)[k]? = some o ∧
    entries[k]? = some e

/-! ## Result -/

/-- The value of a timeline is that of its point. -/
theorem Yields.value_eq {v : Variable} (h : Yields s settings t)
    (hv : s.declared.values.head? = some v) :
    ∃ x, t.value = some x ∧ v.valueAt? t.scanIndex = some x := by
  obtain ⟨scan, point, hreached, hpoint⟩ := h
  obtain ⟨first, hfirst, hscan⟩ := hreached.eq_start
  obtain ⟨_, length, _, rfl⟩ := start?_ok hfirst
  obtain ⟨value, _, hvalue, _, _, rfl⟩ := hreached.next_ok.mp ⟨point, hpoint⟩
  rw [hscan] at hvalue
  unfold Scan.valueAt? at hvalue
  rw [hv] at hvalue
  obtain ⟨x, hx, rfl⟩ := Option.map_eq_some_iff.mp hvalue
  exact ⟨x, rfl, hx⟩

/-- **Reach**: at every point the value of the variable stands in the bound fields of all entries
    and nowhere else. There is an entry for each pulse of the sequence itself, and if loops are
    unrolled, for each pulse of a loop in each iteration, and there is no other entry. -/
theorem Yields.value_reaches {v : Variable} (h : Yields s settings t)
    (hv : s.declared.values.head? = some v) :
    ∃ x, t.value = some x ∧ v.valueAt? t.scanIndex = some x ∧
      (∀ o ∈ origins s settings, ∃ e ∈ t.pulses, t.MadeFrom s settings o e) ∧
      (∀ e ∈ t.pulses, ∃ o ∈ origins s settings, t.MadeFrom s settings o e) ∧
      ∀ o e, t.MadeFrom s settings o e → o.Takes x e.pulse ∧ e.OnGrid s.sampleRate := by
  obtain ⟨x, hx, hvalue⟩ := h.value_eq hv
  obtain ⟨hbindings, _, entries, hentries, _, hsorted⟩ := h.parts
  have hsort : StablySorted Placed.key entries t.pulses := by
    rw [hsorted]
    exact StablySorted.of_mergeSort Placed.le_iff_key_le entries
  -- origins and entries are in step
  have htakes : List.Forall₂ (fun o e => o.Takes x e.pulse) (origins s settings) entries := by
    rw [← List.forall₂_map_right_iff, pulses_of_placeAll hentries, hx]
    exact forall₂_takes hbindings
  have hgrid := placeAll_ok hentries
  have hlength := htakes.length_eq
  refine ⟨x, hx, hvalue, ?_, ?_, ?_⟩
  · intro o ho
    obtain ⟨k, hk, rfl⟩ := List.getElem_of_mem ho
    have hk' : k < entries.length := by omega
    -- the sort moves the entry, but its origin is found at the old place
    refine ⟨entries[k], hsort.perm.mem_iff.mpr (List.getElem_mem hk'), entries, k, hentries, hsort,
      ?_, ?_⟩
    · exact List.getElem?_eq_getElem hk
    · exact List.getElem?_eq_getElem hk'
  · intro e he
    obtain ⟨k, hk, rfl⟩ := List.getElem_of_mem (hsort.perm.mem_iff.mp he)
    have hk' : k < (origins s settings).length := by omega
    refine ⟨(origins s settings)[k], List.getElem_mem hk', entries, k, hentries, hsort, ?_, ?_⟩
    · exact List.getElem?_eq_getElem hk'
    · exact List.getElem?_eq_getElem hk
  · rintro o e ⟨entries', k, hentries', _, ho, he⟩
    rw [hentries] at hentries'
    cases hentries'
    obtain ⟨hk, rfl⟩ := List.getElem?_eq_some_iff.mp ho
    obtain ⟨hk', rfl⟩ := List.getElem?_eq_some_iff.mp he
    exact ⟨htakes.get hk hk', (hgrid.get hk hk').2⟩

/-- A pulse that starts at the scanned time and notes it down, a fixed one that is as long, and a
    loop whose pulse starts at this time in each iteration. -/
def delayed : Sequence :=
  let probe : Pulse :=
    { Pulse.new "probe" 1 with
      duration := ⟨1.0⟩
      parameters := { Parameters.empty with extra := .ofList [("line", .text "upper")] }
      bindings := [⟨"delay", .timing⟩, ⟨"delay", .parameter (.extra "delay")⟩] }
  let mark : Pulse :=
    { Pulse.new "mark" 1 with
      timing := ⟨5.0⟩, isFixed := true, bindings := [⟨"delay", .duration⟩, ⟨"delay", .duration⟩] }
  let echo : Pulse :=
    { Pulse.new "echo" 2 with duration := ⟨3.0⟩, bindings := [⟨"delay", .timing⟩] }
  { Sequence.empty with
    sampleRate := 1.0
    totalDuration := ⟨10.0⟩
    pulses := [probe, mark]
    loops := [.of 2 [echo]]
    declared := .ofList [("delay", ⟨"delay", 2.0, 4.0, 3, .time⟩)] }

theorem exists_yields_delayed : ∃ t, Yields delayed ⟨true⟩ t := by
  have hstart : Reached delayed ⟨true⟩
      ⟨delayed, ⟨true⟩, 10, some ⟨"delay", 2.0, 4.0, 3, .time⟩, 0⟩ :=
    .start (by decide +kernel)
  have hspans : (placeAll delayed ⟨true⟩ 0 (some 2.0)).map
      (·.map fun e => (e.pulse.channel, e.start, e.length)) =
        .ok [(1, 2, 1), (1, 5, 2), (2, 2, 3), (2, 5, 3)] := by
    decide +kernel
  exact hstart.exists_yields (by decide +kernel) hspans (by decide)

/-- The probe starts at the value of each point and notes it down. -/
theorem delayed_value_reaches : ∃ t x, Yields delayed ⟨true⟩ t ∧ t.value = some x ∧
    (∀ o e, t.MadeFrom delayed ⟨true⟩ o e → o.Takes x e.pulse ∧ e.OnGrid delayed.sampleRate) ∧
    ∃ e ∈ t.pulses, e.pulse.name = "probe" ∧ e.pulse.timing = ⟨x⟩ ∧
      e.pulse.held? (.parameter (.extra "delay")) = some (.number x) ∧
      e.pulse.held? (.parameter (.extra "line")) = some (.text "upper") := by
  obtain ⟨t, h⟩ := exists_yields_delayed
  obtain ⟨x, hx, _, hevery, _, htakes⟩ := h.value_reaches rfl
  refine ⟨t, x, h, hx, htakes, ?_⟩
  obtain ⟨e, he, hmade⟩ := hevery (.topLevel delayed.pulses[0]) List.mem_cons_self
  obtain ⟨hcarries, htiming, _⟩ := (htakes _ e hmade).1
  refine ⟨e, he, hcarries.name, htiming (by decide), ?_, ?_⟩
  · exact hcarries.bound _ (by decide) (by decide)
  · exact hcarries.unbound _ (by decide) (by decide)

end Scan

end PulseTrain
