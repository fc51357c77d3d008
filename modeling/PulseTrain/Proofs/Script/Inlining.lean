import PulseTrain.Proofs.Script.Legal
import PulseTrain.Proofs.Script.PresetLine

/-! # A preset line means its text

    The text of a preset may be written in the place of the line that loads the preset. The
    preset was carried out on what had been read so far, with lines numbered from one, blocks of
    its own and one level less to nest presets in; in the place of the line its text is carried
    out with the lines around it. What is read in the end is the same sequence.

    * **Runs**: `readWith_ok_iff` says what a script that is read comes to;
    * **Inlining**: `read_inline`.
-/

namespace PulseTrain.Script

open Logged Success

/-! ## Runs -/

/-- A script is read to a sequence if its lines are carried out to their end and the sequence can be
    finished. -/
theorem readWith_ok_iff {registry : Registry} {settings : Settings} {text : String}
    {d : Sequence} : (readWith registry settings text).result = .ok d ↔
      ∃ s, run (loader registry settings.presetDepth settings.presetDepth) (.start settings)
        (contentLines text.toList) = some s ∧ s.finish.result = .ok d := by
  unfold readWith
  rw [result_bind_ok]
  constructor
  · rintro ⟨s, hread, hfinish⟩
    exact ⟨s, value?_eq_some_iff.mpr hread, hfinish⟩
  · rintro ⟨s, hrun, hfinish⟩
    exact ⟨s, value?_eq_some_iff.mp hrun, hfinish⟩

/-! ## Inlining -/

/-- **Inlining**: a preset line that is reached at the top level of a script may be replaced by the
    text of its preset, rendered with the variables that are declared above the line. If the script
    could be read, it still can, and it is the same sequence. -/
theorem read_inline {registry : Registry} {settings : Settings} {above line below : String}
    {body text : List Char} {d : Sequence} (hline : '\n' ∉ line.toList)
    (hreached : .preset (lineCount above.toList + 1) body ∈
      Statement.ofText (above ++ "\n" ++ line ++ "\n" ++ below).toList)
    (htext : ∀ s, (readText (loader registry settings.presetDepth settings.presetDepth)
        (.start settings) above.toList).result = .ok s →
      presetText? registry s.sequence.declared.keys body = some text)
    (hread : (readWith registry settings
      (above ++ "\n" ++ line ++ "\n" ++ below)).result = .ok d) :
    (readWith registry settings
      (above ++ "\n" ++ String.ofList text ++ "\n" ++ below)).result = .ok d := by
  have hlines : contentLines (above ++ "\n" ++ line ++ "\n" ++ below).toList =
      linesFrom 1 (Text.splitOn '\n' above.toList ++
        line.toList :: Text.splitOn '\n' below.toList) := by
    rw [contentLines_between, Text.splitOn_of_notMem hline, List.singleton_append]
  rw [Statement.ofText, hlines] at hreached
  rw [readWith_ok_iff, hlines] at hread
  rw [readWith_ok_iff, contentLines_between, String.toList_ofList]
  have hload : Loader.Unnumbered (loader registry settings.presetDepth settings.presetDepth) :=
    loader_unnumbered registry _ _
  -- the run is taken apart at the preset line and put together again around the text
  obtain ⟨s, hrun, hfinish⟩ := hread
  rw [run_at_preset hload hreached] at hrun
  obtain ⟨s₁, habove, hrun⟩ := Option.bind_eq_some_iff.mp hrun
  obtain ⟨s₂, hpreset, hbelow⟩ := Option.bind_eq_some_iff.mp hrun
  have hrendered : presetText? registry s₁.sequence.declared.keys body = some text :=
    htext s₁ (value?_eq_some_iff.mp habove)
  have hmiddle := run_presetText hrendered hpreset
  refine ⟨s, ?_, hfinish⟩
  -- the lines below are read on from the same state, whatever their numbers are
  rw [run_behind hload (grouped_of_run habove), habove, Option.bind_some,
    run_behind hload (grouped_of_run hmiddle)]
  rw [contentLines_eq] at hmiddle
  rw [hmiddle, Option.bind_some, hbelow]

/-- The loop of the preset may stand in the script itself, between a declaration that it depends on
    and a pulse that is numbered after its own. -/
theorem read_inline_blink : ∃ d,
    (readWith blinking {} ("variable tau, start=1s, stop=2s, steps=2" ++ "\n" ++
      "load preset: blink" ++ "\n" ++ "laser pulse on channel 2 at 5s, square, 1s, 1")).result =
        .ok d ∧
    (readWith blinking {} ("variable tau, start=1s, stop=2s, steps=2" ++ "\n" ++
      String.ofList "loop: 2\nlaser pulse on channel 2 at 0s, square, tau, 1\nend".toList ++
      "\n" ++ "laser pulse on channel 2 at 5s, square, 1s, 1")).result = .ok d := by
  have hreached : .preset (lineCount "variable tau, start=1s, stop=2s, steps=2".toList + 1)
        " blink".toList ∈
      Statement.ofText ("variable tau, start=1s, stop=2s, steps=2" ++ "\n" ++
        "load preset: blink" ++ "\n" ++
        "laser pulse on channel 2 at 5s, square, 1s, 1").toList := by
    decide +kernel
  have hkeys : ((readText (loader blinking 4 4) (.start {})
      "variable tau, start=1s, stop=2s, steps=2".toList).value?.map
        (·.sequence.declared.keys)) = some ["tau"] := by
    decide +kernel
  -- what the preset is rendered to depends on the names declared above its line
  have htext : presetText? blinking ["tau"] " blink".toList =
      some "loop: 2\nlaser pulse on channel 2 at 0s, square, tau, 1\nend".toList := by
    decide +kernel
  have hread : (readWith blinking {} ("variable tau, start=1s, stop=2s, steps=2" ++ "\n" ++
      "load preset: blink" ++ "\n" ++
      "laser pulse on channel 2 at 5s, square, 1s, 1")).result.isOk = true := by
    decide +kernel
  obtain ⟨d, hd⟩ := isOk_iff.mp hread
  refine ⟨d, hd, read_inline (by decide) hreached ?_ hd⟩
  intro s hs
  rw [value?_eq_some_iff.mpr hs, Option.map_some, Option.some.injEq] at hkeys
  rw [hkeys]
  exact htext

end PulseTrain.Script
