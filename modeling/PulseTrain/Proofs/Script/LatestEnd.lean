import PulseTrain.Proofs.Latest
import PulseTrain.Proofs.Script.Attempts
import PulseTrain.Proofs.Script.Numbers

/-! # Derived total durations

    The total duration of a sequence is the last one that a header gives, in the script or in the
    text of a preset. If none does, it is the latest end of a pulse. A literal may be infinite, and
    a pulse that lasts from minus infinity for an infinite time has an end that is NaN. It ties with
    every other end, and so it hides the ends that were found before it. The derived duration covers
    all pulses exactly if no hidden end is later than all that come behind.

    * **Durations**: `durationsOf` lists those that a script gives, and `totalDuration_of_read` says
      which of them stands;
    * **Ends**: `ending_isNumber_iff`, `Sequence.settled` are the pulses whose ends are not hidden;
    * **Result**: `derived_covers_iff`.
-/

namespace PulseTrain

open Decimal

/-! ## Ends -/

/-- A pulse without a start and without an end: it begins at minus infinity and its length is
    infinite. -/
def Pulse.spansAllTime (p : Pulse) : Bool :=
  p.timing.isNegative && !p.timing.seconds.isFinite && !p.duration.seconds.isFinite

/-- The end of a pulse is NaN only if the pulse spans all time. -/
theorem ending_isNumber_iff {p : Pulse} (h : p.Timed) (hlasts : p.duration.isNegative = false) :
    p.ending.IsNumber ↔ p.spansAllTime = false := by
  have htiming : p.timing.seconds.isNaN = false := h.timing
  have hduration : p.duration.seconds.isNaN = false := h.duration
  have hzero : (0.0 : Float).isNaN = false := by decide +kernel
  -- a length that is not negative is no negative infinity
  have hnonneg : 0 ≤ extended p.duration.seconds :=
    not_negative_iff.mp (of_decide_eq_false hlasts) hduration
  have hbot : extended p.duration.seconds ≠ ⊥ := by
    intro hbot
    rw [hbot] at hnonneg
    exact absurd hnonneg (not_le.mpr EReal.bot_lt_zero)
  rw [← not_iff_not, Bool.not_eq_false]
  have hending : ¬p.ending.IsNumber ↔ (p.timing.seconds + p.duration.seconds).isNaN = true := by
    change ¬_ = false ↔ _
    rw [Bool.not_eq_false]
    rfl
  -- a sum of numbers is NaN only between opposite infinities, and a length is not below zero
  rw [hending, isNaN_add_iff htiming hduration]
  unfold Pulse.spansAllTime
  rw [Bool.and_eq_true, Bool.and_eq_true, Bool.not_eq_true', Bool.not_eq_true',
    isFinite_eq_false_iff htiming, isFinite_eq_false_iff hduration]
  unfold Duration.isNegative
  rw [decide_eq_true_eq, lt_iff_extended_lt htiming hzero, extended_zero]
  constructor
  · rintro (⟨_, hnot⟩ | ⟨hstart, hlength⟩)
    · exact absurd hnot hbot
    · exact ⟨⟨by rw [hstart]; exact EReal.bot_lt_zero, .inr hstart⟩, .inl hlength⟩
  · rintro ⟨⟨hneg, hstart⟩, hlength⟩
    refine .inr ⟨hstart.resolve_left fun htop => ?_, hlength.resolve_right hbot⟩
    rw [htop] at hneg
    exact absurd hneg not_top_lt

/-- The pulses behind the last one that spans all time. -/
def Sequence.settled (d : Sequence) : List Pulse := d.everyPulse.rtakeWhile (!·.spansAllTime)

/-- A total duration that no pulse ends after. -/
def Sequence.Covers (d : Sequence) : Prop := ∀ p ∈ d.everyPulse, ¬d.totalDuration < p.ending

theorem rtakeWhile_congr {α : Type} {p q : α → Bool} {l : List α} (h : ∀ a ∈ l, p a = q a) :
    l.rtakeWhile p = l.rtakeWhile q := by
  induction l using List.reverseRecOn with
  | nil => rfl
  | append_singleton l a ih =>
    rw [List.rtakeWhile_concat, List.rtakeWhile_concat, h a (by simp)]
    rw [ih fun b hb => h b (List.mem_append_left _ hb)]

theorem behindNaN_endings {d : Sequence} (htimed : ∀ p ∈ d.everyPulse, p.Timed)
    (hlasts : ∀ p ∈ d.everyPulse, p.duration.isNegative = false) :
    Duration.behindNaN (d.everyPulse.map (·.ending)) = d.settled.map (·.ending) := by
  have hsettled : d.settled =
      d.everyPulse.rtakeWhile ((fun t : Duration => decide t.IsNumber) ∘ (·.ending)) := by
    refine rtakeWhile_congr fun p hp => ?_
    have hiff := ending_isNumber_iff (htimed p hp) (hlasts p hp)
    rw [Bool.eq_iff_iff, Bool.not_eq_true', Function.comp_apply, decide_eq_true_eq, hiff]
  rw [hsettled]
  unfold Duration.behindNaN List.rtakeWhile
  rw [← List.map_reverse, List.takeWhile_map, List.map_reverse]

/-- **Ends**: a duration that is the latest end covers the pulses exactly if each pulse ends no
    later than one behind the last pulse that spans all time. -/
theorem covers_latestEnd_iff {d : Sequence} (htimed : ∀ p ∈ d.everyPulse, p.Timed)
    (hlasts : ∀ p ∈ d.everyPulse, p.duration.isNegative = false)
    (htotal : d.totalDuration = d.latestEnd) :
    d.Covers ↔ d.settled = [] ∨
      ∀ p ∈ d.everyPulse, ∃ q ∈ d.settled, ¬q.ending < p.ending := by
  have hiff := Duration.forall_not_latest_lt_iff (d.everyPulse.map (·.ending))
  rw [behindNaN_endings htimed hlasts, List.map_eq_nil_iff] at hiff
  simpa [Sequence.Covers, htotal, Sequence.latestEnd] using hiff

/-- What does not end later does not lie after the end either, since some slack is added to it. -/
theorem liesAfter_eq_false {time limit : Duration} (h : ¬limit < time) :
    liesAfter time limit = false := by
  refine decide_eq_false fun hlt => h ?_
  obtain ⟨hsum, htime⟩ := isNaN_of_lt hlt
  obtain ⟨hlimit, _⟩ := isNaN_of_add hsum
  have hslack : 0 ≤ extended slack := not_negative_iff.mp (by decide +kernel) (by decide +kernel)
  -- with the slack the limit is no earlier, even after it has been rounded
  have hle : extended limit.seconds ≤ extended (limit.seconds + slack) := by
    rw [extended_add hsum]
    calc extended limit.seconds = rounded (extended limit.seconds) :=
          (packable_unpack _).rounded_value.symm
      _ ≤ rounded (extended limit.seconds + extended slack) := by
          apply rounded_mono
          exact le_add_of_nonneg_right hslack
  rw [lt_iff_extended_lt hsum htime] at hlt
  exact (lt_iff_extended_lt hlimit htime).mpr (hle.trans_lt hlt)

namespace Script

open Success Logged

/-! ## Durations -/

/-- The total duration that an item of a header gives. -/
def durationOf? (item : List Char) : Option Duration :=
  match HeaderItem.read item with
  | .ok (.duration time) => some time
  | _ => none

/-- The total durations that a statement gives, where `inner` gives those of a preset line. -/
def Statement.durations (inner : State → List Char → List Duration) (s : State) :
    Statement → List Duration
  | .header _ body => (headerItems body).filterMap durationOf?
  | .preset _ body => inner s body
  | _ => []

/-- The total durations that the headers of a script give, those in the texts of presets included,
    in the order in which they are read. -/
def durationsOf (registry : Registry) (settings : Settings) (text : String) : List Duration :=
  along (interpret (loader registry settings.presetDepth settings.presetDepth))
    (Statement.durations
      (presetAlong registry settings.presetDepth Statement.durations settings.presetDepth))
    (.start settings) (Statement.ofText text.toList)

/-- The last of some durations stands, and it is known that there are any. -/
structure Gives (s s' : State) (ds : List Duration) : Prop where
  given : s'.durationGiven = (s.durationGiven || !ds.isEmpty)
  total : s'.sequence.totalDuration = ds.getLast?.getD s.sequence.totalDuration

variable {s s' s'' : State}

theorem Gives.refl (s : State) : Gives s s [] := ⟨by simp, rfl⟩

theorem Gives.trans {ds es : List Duration} (h : Gives s s' ds) (h' : Gives s' s'' es) :
    Gives s s'' (ds ++ es) := by
  refine ⟨?_, ?_⟩
  · rw [h'.given, h.given]
    cases ds <;> simp
  · rw [h'.total, h.total, List.getLast?_append]
    cases es.getLast? <;> rfl

/-! ## Step -/

theorem State.applyHeader_gives {line : Nat} {item : List Char}
    (h : (s.applyHeader line item).result = .ok s') : Gives s s' (durationOf? item).toList := by
  obtain ⟨given, hread, rfl⟩ := State.applyHeader_ok h
  unfold durationOf?
  rw [hread]
  cases given <;> exact ⟨rfl, rfl⟩

/-- Pulses have nothing to do with the total duration, wherever they stand. -/
theorem State.addPulses_gives {lines : List Line} (h : (s.addPulses lines).result = .ok s') :
    Gives s s' [] := by
  obtain ⟨ps, counters, _, rfl⟩ := State.addPulses_ok h
  exact ⟨(Gives.refl s).given, rfl⟩

theorem State.addBlock_gives {block : Block} (h : (s.addBlock block).result = .ok s') :
    Gives s s' [] := by
  cases block with
  | loop iterations body =>
    obtain ⟨ps, counters, _, rfl⟩ := State.addLoop_ok h
    exact ⟨(Gives.refl s).given, rfl⟩
  | conditional condition whenTrue whenFalse =>
    obtain ⟨trueOnes, falseOnes, counters, _, rfl⟩ := State.addConditional_ok h
    exact ⟨(Gives.refl s).given, rfl⟩

/-- **Step**: a statement gives its durations, if preset lines do. -/
theorem interpret_gives {load : Loader} {inner : State → List Char → List Duration}
    (hload : ∀ s number body s', (load s number body).result = .ok s' → Gives s s' (inner s body))
    {statement : Statement} (h : (interpret load s statement).result = .ok s') :
    Gives s s' (statement.durations inner s) := by
  -- only a header line gives durations, and a preset line those of its text
  match statement with
  | .header line body =>
    have hrun := along_foldlM (R := fun s s' _ ds => Gives s s' ds)
      (g := fun _ item => (durationOf? item).toList) Gives.refl Gives.trans
      (fun _ _ _ => State.applyHeader_gives) h
    rwa [along_of_ok h, ← List.filterMap_eq_flatMap_toList] at hrun
  | .declaration line body =>
    obtain ⟨v, _, _, rfl⟩ := State.declare_ok h
    exact ⟨by simp [Statement.durations], rfl⟩
  | .preset line body => exact hload s line body s' h
  | .block block => exact State.addBlock_gives h
  | .badBlock fault => cases h
  | .pulse line => exact State.addPulses_gives h

/-! ## Result -/

variable {registry : Registry} {settings : Settings} {text : String} {d : Sequence}

/-- **Durations**: the total duration of a sequence is the last one that a header gives, or else the
    latest end of a pulse. -/
theorem totalDuration_of_read (h : (readWith registry settings text).result = .ok d) :
    d.totalDuration = (durationsOf registry settings text).getLast?.getD d.latestEnd := by
  obtain ⟨s, hread, hfinish⟩ := result_bind_ok.mp h
  -- the durations that are given follow the run, through the presets as well
  have hgives : Gives (.start settings) s (durationsOf registry settings text) := by
    have hload := loader_along (R := fun s s' _ ds => Gives s s' ds) (f := Statement.durations)
      Gives.refl Gives.trans (fun s _ _ => Gives.refl s)
      (fun hload _ _ _ => interpret_gives hload) registry settings.presetDepth
      settings.presetDepth
    exact along_foldlM (R := fun s s' _ ds => Gives s s' ds) Gives.refl Gives.trans
      (fun _ _ _ => interpret_gives hload) hread
  have hlatest : d.latestEnd = s.sequence.latestEnd := by
    unfold Sequence.latestEnd
    rw [(State.finish_ok hfinish).2.2.2]
  have hgiven := hgives.given
  unfold State.finish at hfinish
  split at hfinish
  · cases hfinish
  · obtain ⟨_, _, hdone⟩ := result_bind_ok.mp hfinish
    cases hdone
    rw [hlatest]
    -- a header marks that it has given a duration; without one, finishing takes the latest end
    cases hds : durationsOf registry settings text with
    | nil =>
      rw [hds] at hgiven
      rw [if_neg (by rw [hgiven]; exact Bool.false_ne_true)]
      rfl
    | cons t ds =>
      have htotal := hgives.total
      rw [hds] at hgiven htotal
      rw [if_pos (by rw [hgiven]; rfl), htotal]
      simp [List.getLast?_cons]

/-- **Derived duration**: if no header gives a total duration, the latest end covers all pulses
    exactly if each ends no later than one behind the last pulse that spans all time, or if this
    pulse is the last of all. So it covers them if no pulse spans all time. Where it covers them,
    validation does not find that a pulse ends too late. -/
theorem derived_covers_iff (h : (readWith registry settings text).result = .ok d)
    (hnone : durationsOf registry settings text = []) :
    (d.Covers ↔ d.settled = [] ∨
      ∀ p ∈ d.everyPulse, ∃ q ∈ d.settled, ¬q.ending < p.ending) ∧
    ((∀ p ∈ d.everyPulse, p.spansAllTime = false) → d.Covers) ∧
    (d.Covers → ∀ limits e, validate limits d = .error e →
      ∀ ending total, e.violation ≠ .endsLate ending total) := by
  have htotal : d.totalDuration = d.latestEnd := by
    have htotal := totalDuration_of_read h
    rw [hnone] at htotal
    exact htotal
  have hiff := covers_latestEnd_iff (timed_of_read h)
    (fun p hp => ((traced_of_read h).2 p hp).lasts) htotal
  refine ⟨hiff, ?_, ?_⟩
  · intro hnumbers
    -- if no pulse spans all time, none is left out
    have hall : d.settled = d.everyPulse := by
      unfold Sequence.settled
      rw [List.rtakeWhile_eq_self_iff]
      intro p hp
      rw [hnumbers p hp]
      rfl
    rw [hiff, hall]
    exact .inr fun p hp => ⟨p, hp, Duration.not_lt_self _⟩
  · intro hcovers limits e herror ending total hlate
    -- a pulse that is reported late lies behind the end, which covering rules out
    obtain ⟨p, hp, hafter⟩ := exists_late_of_validate herror hlate
    have hmem : p ∈ d.everyPulse := List.mem_append_left _ (List.mem_append_left _ hp)
    rw [liesAfter_eq_false (hcovers p hmem)] at hafter
    cases hafter

/-- A pulse that spans all time, between two others. -/
def around (first last : String) : String :=
  "sequence: name=around\nmw pulse on channel 1 at 0s, square, " ++ first ++ ", 1\n" ++
  "mw pulse on channel 1 at -1e999s, square, 1e999s, 1\n" ++
  "mw pulse on channel 1 at 0s, square, " ++ last ++ ", 1"

theorem around_covered : ∃ d, (readWith (fun _ => none) {} (around "1s" "10s")).result = .ok d ∧
    durationsOf (fun _ => none) {} (around "1s" "10s") = [] ∧
    d.settled.map (·.name) = ["mw_3"] ∧ d.Covers ∧
    ∀ limits e, validate limits d = .error e →
      ∀ ending total, e.violation ≠ .endsLate ending total := by
  have hnone : durationsOf (fun _ => none) {} (around "1s" "10s") = [] := by decide +kernel
  have hresults : (readWith (fun _ => none) {} (around "1s" "10s")).result.map (fun d =>
      (d.settled.map (·.name),
        decide (∀ p ∈ d.everyPulse, ∃ q ∈ d.settled, ¬q.ending < p.ending))) =
          .ok (["mw_3"], true) := by
    decide +kernel
  obtain ⟨d, hread, hd⟩ := map_ok.mp hresults
  simp only [Prod.mk.injEq, decide_eq_true_eq] at hd
  obtain ⟨hiff, _, hvalid⟩ := derived_covers_iff hread hnone
  have hcovers := hiff.mpr (.inr hd.2)
  exact ⟨d, hread, hnone, hd.1, hcovers, hvalid hcovers⟩

/-- The end of the first pulse is hidden by the second, and the third does not make up for it. -/
theorem around_not_covered : ∃ d,
    (readWith (fun _ => none) {} (around "10s" "1s")).result = .ok d ∧
    durationsOf (fun _ => none) {} (around "10s" "1s") = [] ∧ ¬d.Covers ∧
    validate {} d = .error ⟨.pulse "mw_1", .endsLate ⟨10⟩ ⟨1⟩⟩ := by
  have hnone : durationsOf (fun _ => none) {} (around "10s" "1s") = [] := by decide +kernel
  have hresults : (readWith (fun _ => none) {} (around "10s" "1s")).result.map (fun d =>
      (decide (∀ p ∈ d.everyPulse, ¬d.totalDuration < p.ending), validate {} d)) =
        .ok (false, .error ⟨.pulse "mw_1", .endsLate ⟨10⟩ ⟨1⟩⟩) := by
    decide +kernel
  obtain ⟨d, hread, hd⟩ := map_ok.mp hresults
  simp only [Prod.mk.injEq, decide_eq_false_iff_not] at hd
  exact ⟨d, hread, hnone, hd.1, hd.2⟩

end Script

end PulseTrain
