import PulseTrain.Proofs.Scan.Binding
import PulseTrain.Proofs.Scan.Contract

/-! # Fixed pulses as anchors

    A fixed pulse starts at the sample to which its described timing rounds, at every point of
    a scan, whatever the scan does to its other fields and to the other pulses. Three things
    have to agree for this: the check refuses to bind its timing, binding a value leaves an
    unbound timing alone, and the walk leaves a fixed pulse where it is.

    * `Timeline.EntryOf` picks out the entry that was made from a pulse;
    * `Yields.fixed_entry` is the result.
-/

namespace PulseTrain.Scan

variable {s : Sequence} {settings : BuildSettings} {t : Timeline} {i : ℕ} {p : Pulse}

/-- The entry of a timeline that was made from the pulse at index `i` of the sequence itself. -/
def Timeline.EntryOf (s : Sequence) (settings : BuildSettings) (t : Timeline) (i : ℕ)
    (e : Placed) : Prop :=
  i < s.pulses.length ∧ ∃ entries, placeAll s settings t.scanIndex t.value = .ok entries ∧
    StablySorted Placed.key entries t.pulses ∧ entries[i]? = some e

/-- A pulse has one entry at most. -/
theorem Timeline.EntryOf.unique {e e' : Placed} (h : t.EntryOf s settings i e)
    (h' : t.EntryOf s settings i e') : e = e' := by
  obtain ⟨_, entries, hentries, _, he⟩ := h
  obtain ⟨_, entries', hentries', _, he'⟩ := h'
  rw [hentries] at hentries'
  cases hentries'
  rw [he] at he'
  exact Option.some.inj he'

/-- In an accepted sequence the timing of a fixed pulse is not bound. -/
theorem field_ne_timing_of_isFixed {source : Option Variable} {pulses : List Pulse}
    (h : verifyBindings source pulses = .ok ()) (hp : p ∈ pulses) (hfixed : p.isFixed = true) :
    ∀ b ∈ p.bindings, b.field ≠ .timing := by
  intro b hb htiming
  obtain ⟨v, _, hsuits⟩ := verifyBindings_ok.mp h p hp b hb
  rw [hsuits.free htiming] at hfixed
  cases hfixed

/-- At each point every pulse of the sequence itself has its entry, which was made from it. -/
theorem Yields.exists_entry (h : Yields s settings t) (hp : s.pulses[i]? = some p) :
    ∃ e, t.EntryOf s settings i e ∧ e ∈ t.pulses ∧
      Origin.Makes s.sampleRate t.value (.topLevel p) e := by
  obtain ⟨_, _, entries, hentries, _, hsorted⟩ := h.parts
  have hsort := StablySorted.of_mergeSort Placed.le_iff_key_le entries
  rw [← hsorted] at hsort
  have hmade := placeAll_ok hentries
  obtain ⟨hi, hget⟩ := List.getElem?_eq_some_iff.mp hp
  -- the pulses of the sequence itself are the first origins, in their own order
  have horigin : (origins s settings)[i]? = some (.topLevel p) := by
    unfold origins
    rw [List.getElem?_append_left (by rwa [List.length_map]), List.getElem?_map, hp]
    rfl
  obtain ⟨hio, hgeto⟩ := List.getElem?_eq_some_iff.mp horigin
  have hie : i < entries.length := by
    rw [← hmade.length_eq]
    exact hio
  have hmakes := hmade.get hio hie
  rw [List.get_eq_getElem, List.get_eq_getElem, hgeto] at hmakes
  refine ⟨entries[i], ⟨hi, entries, hentries, hsort, List.getElem?_eq_getElem hie⟩, ?_, hmakes⟩
  exact hsort.perm.mem_iff.mpr (List.getElem_mem hie)

/-- The entry of a fixed pulse has the timing that is described. -/
theorem timing_of_makes {rate : Float} {value : Option Float} {e : Placed}
    (hmakes : Origin.Makes rate value (.topLevel p) e) (hfixed : p.isFixed = true)
    (hfree : ∀ b ∈ p.bindings, b.field ≠ .timing) :
    e.pulse.timing = p.timing ∧ Samples.ofDuration p.timing rate = .ok e.start := by
  obtain ⟨⟨_, hstays⟩, hgrid⟩ := hmakes
  have htiming : e.pulse.timing = p.timing := by
    rw [hstays hfixed, timing_bindTo hfree]
  exact ⟨htiming, htiming ▸ hgrid.start⟩

/-- **Anchors**: at every point of a scan the entry of a fixed pulse is the pulse with the scan
    value put in, it has the described timing, and it starts at the sample to which this timing
    rounds. So it starts at the same sample at all points. -/
theorem Yields.fixed_entry (h : Yields s settings t) (hp : s.pulses[i]? = some p)
    (hfixed : p.isFixed = true) :
    ∃ e, t.EntryOf s settings i e ∧ e ∈ t.pulses ∧ e.pulse = bindTo t.value p ∧
      e.pulse.timing = p.timing ∧ Samples.ofDuration p.timing s.sampleRate = .ok e.start ∧
      ∀ t' e', Yields s settings t' → t'.EntryOf s settings i e' → e'.start = e.start := by
  -- the check goes over all pulses, those of the sequence itself among them
  have hfree : ∀ b ∈ p.bindings, b.field ≠ .timing := by
    have hmem : p ∈ s.everyPulse :=
      List.mem_append_left _ (List.mem_append_left _ (List.mem_of_getElem? hp))
    exact field_ne_timing_of_isFixed h.parts.1 hmem hfixed
  obtain ⟨e, hentry, hmem, hmakes⟩ := h.exists_entry hp
  obtain ⟨htiming, hstart⟩ := timing_of_makes hmakes hfixed hfree
  refine ⟨e, hentry, hmem, hmakes.1.2 hfixed, htiming, hstart, ?_⟩
  intro t' e' h' hentry'
  -- the entry at the other point rounds the same timing at the same rate
  obtain ⟨e'', hentry'', _, hmakes'⟩ := h'.exists_entry hp
  rw [hentry'.unique hentry'']
  have hstart' := (timing_of_makes hmakes' hfixed hfree).2
  rw [hstart] at hstart'
  exact (Except.ok.inj hstart').symm

theorem burst_fixed_entry : ∃ t p, Yields burst ⟨true⟩ t ∧ burst.pulses[1]? = some p ∧
    p.isFixed = true ∧
    ∃ e, t.EntryOf burst ⟨true⟩ 1 e ∧ e ∈ t.pulses ∧ e.pulse = bindTo t.value p ∧
      e.pulse.timing = p.timing ∧ Samples.ofDuration p.timing burst.sampleRate = .ok e.start ∧
      ∀ t' e', Yields burst ⟨true⟩ t' → t'.EntryOf burst ⟨true⟩ 1 e' → e'.start = e.start := by
  obtain ⟨t, h⟩ := exists_yields_burst
  exact ⟨t, _, h, rfl, rfl, h.fixed_entry rfl rfl⟩

end PulseTrain.Scan
