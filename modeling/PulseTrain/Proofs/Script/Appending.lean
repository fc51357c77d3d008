import PulseTrain.Proofs.Script.Inlining
import PulseTrain.Proofs.Table

/-! # Lines that are appended

    What has been read is never taken back. A pulse, a loop, a conditional or a variable that is
    read later stands behind those that were read before, and these stay as they are, whatever
    they are named after and whatever the later lines declare. So a script to which lines are
    appended gives a sequence that begins with the sequence of the script alone.

    * **Order**: `Sequence.Begins` compares two sequences list by list;
    * **Invariant**: `State.begins_invariant`, a case for each of the four obligations of a step;
    * **Result**: `read_append_begins`.
-/

namespace PulseTrain

/-- A sequence that another one continues: all its lists are beginnings of those of the other. -/
structure Sequence.Begins (d e : Sequence) : Prop where
  pulses : d.pulses <+: e.pulses
  loops : d.loops <+: e.loops
  conditionals : d.conditionals <+: e.conditionals
  declared : d.declared.entries <+: e.declared.entries

namespace Sequence.Begins

variable {d e f : Sequence}

theorem refl (d : Sequence) : d.Begins d :=
  ⟨List.prefix_rfl, List.prefix_rfl, List.prefix_rfl, List.prefix_rfl⟩

theorem trans (h : d.Begins e) (h' : e.Begins f) : d.Begins f :=
  ⟨h.pulses.trans h'.pulses, h.loops.trans h'.loops, h.conditionals.trans h'.conditionals,
    h.declared.trans h'.declared⟩

end Sequence.Begins

namespace Script

open Success Logged

variable {s s' : State}

/-! ## Invariant -/

/-- An item of a header touches none of the lists. -/
theorem HeaderItem.begins_apply (d : Sequence) (item : HeaderItem) : d.Begins (item.apply d) := by
  cases item <;>
    exact ⟨List.prefix_rfl, List.prefix_rfl, List.prefix_rfl, List.prefix_rfl⟩

theorem State.declare_begins {line : Nat} {body : List Char}
    (h : (s.declare line body).result = .ok s') : s.sequence.Begins s'.sequence := by
  obtain ⟨v, _, hnew, rfl⟩ := State.declare_ok h
  refine ⟨List.prefix_rfl, List.prefix_rfl, List.prefix_rfl, ?_⟩
  show _ <+: (s.sequence.declared.insert v.name v).entries
  rw [Table.entries_insert_of_new hnew v]
  exact List.prefix_append _ _

theorem State.addPulses_begins {lines : List Line} (h : (s.addPulses lines).result = .ok s') :
    s.sequence.Begins s'.sequence := by
  obtain ⟨ps, counters, _, rfl⟩ := State.addPulses_ok h
  exact ⟨List.prefix_append _ _, List.prefix_rfl, List.prefix_rfl, List.prefix_rfl⟩

theorem State.addBlock_begins {block : Block} (h : (s.addBlock block).result = .ok s') :
    s.sequence.Begins s'.sequence := by
  cases block with
  | loop iterations body =>
    obtain ⟨ps, counters, _, rfl⟩ := State.addLoop_ok h
    exact ⟨List.prefix_rfl, List.prefix_append _ _, List.prefix_rfl, List.prefix_rfl⟩
  | conditional condition whenTrue whenFalse =>
    obtain ⟨trueOnes, falseOnes, counters, _, rfl⟩ := State.addConditional_ok h
    exact ⟨List.prefix_rfl, List.prefix_rfl, List.prefix_append _ _, List.prefix_rfl⟩

/-- **Invariant**: a sequence that has been read is continued by every step. -/
theorem State.begins_invariant (d : Sequence) :
    State.Invariant fun s => d.Begins s.sequence where
  header := by
    intro s s' line item hs h
    obtain ⟨given, _, rfl⟩ := State.applyHeader_ok h
    exact hs.trans (HeaderItem.begins_apply s.sequence given)
  declaration := fun hs h => hs.trans (State.declare_begins h)
  pulses := fun hs h => hs.trans (State.addPulses_begins h)
  block := fun hs h => hs.trans (State.addBlock_begins h)

/-! ## Result -/

variable {registry : Registry} {settings : Settings} {above below : String} {d e : Sequence}

/-- **Run**: a script to which lines are appended is carried out up to these lines as it is alone.
    -/
theorem run_appended {load : Loader} (hload : load.Unnumbered)
    (habove : run load s (contentLines above.toList) = some s') :
    run load s (contentLines (above ++ "\n" ++ below).toList) =
      run load s' (contentLines below.toList) := by
  have hchars : (above ++ "\n" ++ below).toList = above.toList ++ '\n' :: below.toList := by simp
  have hgrouped := grouped_of_run habove
  rw [contentLines_eq] at habove hgrouped
  rw [hchars, contentLines_eq, Text.splitOn_append, run_behind hload hgrouped, habove,
    Option.bind_some]
  rfl

/-- **Appending**: if a script can be read alone and with further lines behind it, the pulses,
    loops, conditionals and variables that are read with the further lines begin with those that are
    read alone, under the same names and with the same values and bindings. -/
theorem read_append_begins (hd : (readWith registry settings above).result = .ok d)
    (he : (readWith registry settings (above ++ "\n" ++ below)).result = .ok e) :
    d.Begins e := by
  obtain ⟨s₁, habove, hd⟩ := readWith_ok_iff.mp hd
  obtain ⟨s₂, hrun, he⟩ := readWith_ok_iff.mp he
  rw [run_appended (loader_unnumbered registry _ _) habove] at hrun
  -- the further lines go on from where the script alone has ended
  have hinvariant := State.begins_invariant s₁.sequence
  have hbegins : s₁.sequence.Begins s₂.sequence :=
    hinvariant.readText (hinvariant.loader registry _ _) (.refl _) (value?_eq_some_iff.mp hrun)
  rw [State.finish_eq hd, State.finish_eq he]
  exact ⟨hbegins.pulses, hbegins.loops, hbegins.conditionals, hbegins.declared⟩

/-- Further lines that name a pulse after the same kind as before, declare the variable of a preset
    and load it. -/
theorem blinkingTwice_begins : ∃ d e,
    (readWith blinking {} "laser pulse on channel 2 at 0s, square, 1s, 1").result = .ok d ∧
      (readWith blinking {} ("laser pulse on channel 2 at 0s, square, 1s, 1" ++ "\n" ++
        ("variable tau, start=1s, stop=2s, steps=2\nload preset: blink\n"
          ++ "laser pulse on channel 2 at 9s, square, 1s, 1"))).result = .ok e ∧
      e.pulses.map (·.name) = ["laser_1", "laser_3"] ∧ d.Begins e := by
  have hshort : (readWith blinking {}
      "laser pulse on channel 2 at 0s, square, 1s, 1").result.isOk = true := by
    decide +kernel
  have hlong : (readWith blinking {} ("laser pulse on channel 2 at 0s, square, 1s, 1" ++ "\n" ++
      ("variable tau, start=1s, stop=2s, steps=2\nload preset: blink\n"
        ++ "laser pulse on channel 2 at 9s, square, 1s, 1"))).result.map
          (·.pulses.map (·.name)) = .ok ["laser_1", "laser_3"] := by
    decide +kernel
  obtain ⟨e, he, hnames⟩ := map_ok.mp hlong
  obtain ⟨d, hd⟩ := isOk_iff.mp hshort
  exact ⟨d, e, hd, he, hnames, read_append_begins hd he⟩

end Script

end PulseTrain
