import PulseTrain.Proofs.Script.Attempts
import PulseTrain.Proofs.Script.Legal

/-! # Names of pulses

    A pulse is named after its stem and its number among the pulses of this stem. The number stands
    behind the last underscore, so two names are the same only if stem and number are, also where
    the stem itself ends in an underscore and a number, and the numbers of a stem go on through
    all blocks and presets. So no two pulses of a sequence have the same name.

    * **Names**: `numberedName_inj`;
    * **Numbers**: `filter_stem_numberFrom`: the pulses of a stem are numbered one after another;
    * **Run**: `nodup_numberFrom`;
    * **Result**: `read_names`.
-/

namespace PulseTrain.Script

/-! ## Names -/

/-- Behind the last separator two texts without one are the same if the texts before them are joined
    to the same. -/
theorem append_cons_inj_of_notMem_right {α : Type} {sep : α} {xs ys ds es : List α}
    (hds : sep ∉ ds) (hes : sep ∉ es) (h : xs ++ sep :: ds = ys ++ sep :: es) :
    xs = ys ∧ ds = es := by
  -- a separator of the longer part would be found in what stands behind the last one
  have hbehind : ∀ {as ds es : List α}, sep ∉ ds → sep :: ds = as ++ sep :: es → as = [] := by
    intro as ds es hds h
    cases as with
    | nil => rfl
    | cons a as =>
      rw [List.cons_append, List.cons.injEq] at h
      rw [h.2] at hds
      exact absurd (List.mem_append_right as List.mem_cons_self) hds
  rcases List.append_eq_append_iff.mp h with ⟨as, hys, hrest⟩ | ⟨as, hxs, hrest⟩
  · have hnil := hbehind hds hrest
    subst hnil
    rw [List.append_nil] at hys
    exact ⟨hys.symm, List.tail_eq_of_cons_eq hrest⟩
  · have hnil := hbehind hes hrest
    subst hnil
    rw [List.append_nil] at hxs
    exact ⟨hxs, (List.tail_eq_of_cons_eq hrest).symm⟩

/-- Stem and number are found again in the name. -/
theorem numberedName_inj {stem stem' : String} {n n' : Nat} :
    numberedName stem n = numberedName stem' n' ↔ stem = stem' ∧ n = n' := by
  constructor
  · intro h
    have hchars := congrArg String.toList h
    simp only [numberedName, Nat.toString_eq_ofList_toDigits, String.toList_append,
      String.toList_ofList, List.append_assoc] at hchars
    -- the last underscore parts stem and number, since a number has none
    have hdigits : ∀ n : Nat, '_' ∉ Nat.toDigits 10 n := by
      intro n hmem
      have hdigit := Nat.isDigit_of_mem_toDigits (by decide) (by decide) hmem
      revert hdigit
      decide
    obtain ⟨hstem, hnumber⟩ :=
      append_cons_inj_of_notMem_right (hdigits n) (hdigits n') hchars
    have hvalue := congrArg (Nat.ofDigitChars 10 · 0) hnumber
    simp only [Nat.ofDigitChars_toDigits (by decide : 1 < 10) (Nat.le_refl 10)] at hvalue
    exact ⟨String.toList_inj.mp hstem, hvalue⟩
  · rintro ⟨rfl, rfl⟩
    rfl

/-! ## Numbers -/

variable {before as : List Acceptance}

/-- The pulses of a stem are numbered one after another, whatever is read between them. -/
theorem filter_stem_numberFrom (before as : List Acceptance) (stem : String) :
    (numberFrom before as).filter (·.stem = stem) =
      (as.filter (·.stem = stem)).mapIdx fun k a =>
        a.named (numberedName stem (before.countP (·.stem = stem) + (k + 1))) := by
  -- by induction on what is numbered, with what has been numbered before it
  induction as generalizing before with
  | nil => rfl
  | cons a as ih =>
    rw [numberFrom, List.filter_cons, List.filter_cons, Acceptance.stem_named, ih,
      List.countP_append, List.countP_singleton]
    by_cases hstem : a.stem = stem
    · subst hstem
      rw [if_pos (decide_eq_true rfl), if_pos (decide_eq_true rfl), if_pos (decide_eq_true rfl),
        List.mapIdx_cons]
      simp only [Nat.zero_add, Nat.add_assoc, Nat.add_comm 1]
    · have hother : ¬decide (a.stem = stem) = true := by
        rw [decide_eq_true_eq]
        exact hstem
      rw [if_neg hother, if_neg hother, if_neg hother, Nat.add_zero]

/-- **Run**: no name is given twice. -/
theorem nodup_numberFrom (before as : List Acceptance) :
    ((numberFrom before as).map (·.pulse.name)).Nodup := by
  induction as generalizing before with
  | nil => exact List.nodup_nil
  | cons a as ih =>
    rw [numberFrom, List.map_cons, List.nodup_cons]
    refine ⟨?_, ih _⟩
    intro hmem
    obtain ⟨b, hb, hname⟩ := List.mem_map.mp hmem
    obtain ⟨first, c, _, _, rfl⟩ := exists_of_mem_numberFrom hb
    -- a later pulse of the same stem has a greater number
    obtain ⟨hstem, hnumber⟩ := numberedName_inj.mp hname
    rw [List.countP_append, List.countP_append, List.countP_singleton, hstem,
      if_pos (decide_eq_true rfl)] at hnumber
    omega

/-! ## Result -/

variable {registry : Registry} {settings : Settings} {text : String} {d : Sequence}

/-- **Names**: no two pulses of a script have the same name, wherever they stand. The pulses are
    those of the accepted lines, each at its place, in the order in which the lines are read; and
    the `k`-th accepted line whose kind has some stem gives a pulse that is named after this stem
    and `k`. -/
theorem read_names (h : (readWith registry settings text).result = .ok d) :
    (d.everyPulse.map (·.name)).Nodup ∧
      (∀ place, d.pulsesAt place =
        standing place (numbered (accepted (attemptsOf registry settings text)))) ∧
      ∀ stem, (numbered (accepted (attemptsOf registry settings text))).filter (·.stem = stem) =
        ((accepted (attemptsOf registry settings text)).filter (·.stem = stem)).mapIdx
          fun k a => a.named (stem ++ "_" ++ toString (k + 1)) := by
  obtain ⟨hplaces, hevery, _⟩ := read_records h
  refine ⟨?_, hplaces, ?_⟩
  · have hnames := hevery.map (·.name)
    rw [List.map_map] at hnames
    exact hnames.nodup_iff.mpr (nodup_numberFrom [] _)
  · intro stem
    rw [numbered, filter_stem_numberFrom]
    simp only [List.countP_nil, Nat.zero_add, numberedName]

/-- Two kinds of one stem, a preset with a loop, and a conditional with a line that is no pulse. -/
theorem read_names_halves : ∃ d, (readWith blinking {}
    ("variable tau, start=1s, stop=2s, steps=2\npi/2 pulse on channel 1 at 0s, square, 1s, 1\n"
      ++ "load preset: blink\nif bright\nlaser pulse\nelse\n"
      ++ "pi_2 pulse on channel 1 at 5s, square, 1s, 1\nend")).result = .ok d ∧
    d.everyPulse.map (·.name) = ["pi_2_1", "laser_1", "pi_2_2"] ∧
    (d.everyPulse.map (·.name)).Nodup := by
  have hnames : (readWith blinking {}
      ("variable tau, start=1s, stop=2s, steps=2\npi/2 pulse on channel 1 at 0s, square, 1s, 1\n"
        ++ "load preset: blink\nif bright\nlaser pulse\nelse\n"
        ++ "pi_2 pulse on channel 1 at 5s, square, 1s, 1\nend")).result.map
          (·.everyPulse.map (·.name)) =
        .ok ["pi_2_1", "laser_1", "pi_2_2"] := by
    decide +kernel
  obtain ⟨d, hd, hpulses⟩ := Success.map_ok.mp hnames
  exact ⟨d, hd, hpulses, (read_names hd).1⟩

end PulseTrain.Script
