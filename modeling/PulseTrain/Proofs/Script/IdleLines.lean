import PulseTrain.Proofs.Script.Inlining
import PulseTrain.Proofs.Script.Rejection

/-! # Lines without effect

    A line of a script may say nothing, may be read as a pulse and be none, or may load a preset
    that is not known. Such a line can be taken out of the script: what is read is the same
    sequence, with the same names, and a script that could not be read still cannot.

    * **Lines**: `Idle` lists the three, `withoutLine` takes a line out;
    * **Run**: `run_without_idle`;
    * **Isolation**: `read_without_idle`.
-/

namespace PulseTrain.Script

open Logged

/-! ## Lines -/

/-- A text without one of its lines, which are counted from zero. -/
def withoutLine (text : String) (i : Nat) : String :=
  String.ofList (Text.join ['\n'] ((Text.splitOn '\n' text.toList).eraseIdx i))

/-- A line that has no effect on what is read from a text. -/
inductive Idle (registry : Registry) (settings : Settings) (text : String) (i : Nat) : Prop where
  /-- The line is blank, or a comment. -/
  | silent {piece : List Char} : (Text.splitOn '\n' text.toList)[i]? = some piece →
    isSignificant (Text.trim piece) = false → Idle registry settings text i
  /-- The line is read as a pulse, at the top level or inside a block, and is none. -/
  | rejected {line : Line} {declared : Table Variable} {e : PulseError} : line.number = i + 1 →
    Handed (loader registry settings.presetDepth settings.presetDepth) (.start settings)
      (Statement.ofText text.toList) declared line →
    PulseLine.read declared line.text = .error e → Idle registry settings text i
  /-- The line loads a preset at the top level, by a name that is not known. -/
  | unknownPreset {body : List Char} : .preset (i + 1) body ∈ Statement.ofText text.toList →
    presetName body ≠ "" → registry (presetName body) = none → Idle registry settings text i

/-- An item stands between those before it and those behind it, and these are what is left when it
    is taken out. -/
theorem exists_around {α : Type} {l : List α} {i : Nat} (hi : i < l.length) :
    ∃ before a behind, l = before ++ a :: behind ∧ l.eraseIdx i = before ++ behind ∧
      before.length = i := by
  refine ⟨l.take i, l[i], l.drop (i + 1), ?_, List.eraseIdx_eq_take_drop_succ l i,
    List.length_take_of_le (Nat.le_of_lt hi)⟩
  rw [List.getElem_cons_drop hi, List.take_append_drop]

theorem contentLines_withoutLine (text : String) (i : Nat) :
    contentLines (withoutLine text i).toList =
      linesFrom 1 ((Text.splitOn '\n' text.toList).eraseIdx i) := by
  have hpieces : ∀ piece ∈ (Text.splitOn '\n' text.toList).eraseIdx i, '\n' ∉ piece :=
    fun piece hmem => Text.notMem_of_mem_splitOn (List.mem_of_mem_eraseIdx hmem)
  rw [withoutLine, String.toList_ofList, contentLines_join hpieces]

/-! ## Run -/

variable {load : Loader} {s : State} {before behind : List (List Char)} {piece : List Char}

/-- A line that says nothing is not carried out. -/
theorem run_without_silent (hload : load.Unnumbered)
    (hsilent : isSignificant (Text.trim piece) = false) :
    run load s (linesFrom 1 (before ++ behind)) =
      run load s (linesFrom 1 (before ++ piece :: behind)) := by
  have hnone : linesFrom (before.length + 1) [piece] = [] := by
    rw [linesFrom_singleton, hsilent]
    rfl
  rw [linesFrom_around, hnone, List.nil_append]
  exact run_congr hload s (text_linesFrom_append _ _ _ before behind)

/-- A line that is read as a pulse and is none is not carried out. -/
theorem run_without_handed {line : Line} {declared : Table Variable} {e : PulseError}
    (hload : load.Unnumbered) (hnumber : line.number = before.length + 1)
    (hhanded : Handed load s (Statement.ofLines (linesFrom 1 (before ++ piece :: behind)))
      declared line)
    (hread : PulseLine.read declared line.text = .error e) :
    run load s (linesFrom 1 (before ++ behind)) =
      run load s (linesFrom 1 (before ++ piece :: behind)) := by
  obtain ⟨xs, ys, hlines, hrun⟩ := run_without_rejected hhanded hread
  have hmem : line ∈ linesFrom 1 (before ++ piece :: behind) := by
    rw [hlines]
    simp
  -- the number tells which line was taken out
  obtain ⟨hpiece, hbefore, hbehind⟩ := line_at_number hmem hnumber
  rw [← hrun]
  rw [linesFrom_around, hpiece, List.singleton_append,
    List.append_cons_inj_of_notMem hbefore hbehind] at hlines
  obtain ⟨rfl, -, rfl⟩ := hlines
  exact run_congr hload s (text_linesFrom_append _ _ _ before behind)

/-- A line that loads an unknown preset is not carried out. -/
theorem run_without_unknown {registry : Registry} {limit depth : Nat} {body : List Char}
    (hreached : .preset (before.length + 1) body ∈
      Statement.ofLines (linesFrom 1 (before ++ piece :: behind)))
    (hname : presetName body ≠ "") (hunknown : registry (presetName body) = none) :
    run (loader registry limit depth) s (linesFrom 1 (before ++ behind)) =
      run (loader registry limit depth) s (linesFrom 1 (before ++ piece :: behind)) := by
  have hload : Loader.Unnumbered (loader registry limit depth) := loader_unnumbered registry _ _
  obtain ⟨⟨statements, hbefore⟩, _⟩ := reached_preset hreached
  rw [run_at_preset hload hreached, run_behind hload hbefore]
  congr 1
  funext s'
  rw [value?_loader_of_unknown hname hunknown, Option.bind_some]

/-- **Run**: a line that is idle is not carried out. -/
theorem run_without_idle {registry : Registry} {settings : Settings} {text : String} {i : Nat}
    (h : Idle registry settings text i) :
    run (loader registry settings.presetDepth settings.presetDepth) (.start settings)
        (contentLines (withoutLine text i).toList) =
      run (loader registry settings.presetDepth settings.presetDepth) (.start settings)
        (contentLines text.toList) := by
  have hload : Loader.Unnumbered (loader registry settings.presetDepth settings.presetDepth) :=
    loader_unnumbered registry _ _
  rw [contentLines_withoutLine, contentLines_eq]
  -- a number behind the last line takes nothing out
  by_cases hi : i < (Text.splitOn '\n' text.toList).length
  · obtain ⟨before, piece, behind, hpieces, herase, rfl⟩ := exists_around hi
    have hstatements : Statement.ofText text.toList =
        Statement.ofLines (linesFrom 1 (before ++ piece :: behind)) := by
      rw [Statement.ofText, contentLines_eq, hpieces]
    rw [herase, hpieces]
    -- the line is silent, a pulse that is rejected, or a preset that nobody knows
    cases h with
    | silent hpiece hsilent =>
      rw [hpieces, List.getElem?_append_right (Nat.le_refl _), Nat.sub_self] at hpiece
      cases hpiece
      exact run_without_silent hload hsilent
    | rejected hnumber hhanded hread =>
      rw [hstatements] at hhanded
      exact run_without_handed hload hnumber hhanded hread
    | unknownPreset hreached hname hunknown =>
      rw [hstatements] at hreached
      exact run_without_unknown hreached hname hunknown
  · rw [List.eraseIdx_of_length_le (Nat.le_of_not_lt hi)]

/-! ## Isolation -/

/-- **Isolation**: a line that says nothing, that is read as a pulse and is none, or that loads an
    unknown preset at the top level leaves no trace. Without it the text is carried out to the same
    sequence, the same numbers of names and the same header, or to an error again, and the script is
    read to a sequence exactly if it was, and to the same. -/
theorem read_without_idle {registry : Registry} {settings : Settings} {text : String} {i : Nat}
    (h : Idle registry settings text i) :
    (readText (loader registry settings.presetDepth settings.presetDepth) (.start settings)
        (withoutLine text i).toList).value? =
      (readText (loader registry settings.presetDepth settings.presetDepth) (.start settings)
        text.toList).value? ∧
    ∀ d, (readWith registry settings text).result = .ok d ↔
      (readWith registry settings (withoutLine text i)).result = .ok d := by
  have hrun := run_without_idle h
  refine ⟨hrun, ?_⟩
  intro d
  rw [readWith_ok_iff, readWith_ok_iff, hrun]

/-- A conditional with an `else` too many, on the fourth line. -/
def secondElse : String :=
  "mw pulse on channel 1 at 0s, square, 1s, 1\nif lit\nelse\nelse\n"
    ++ "mw pulse on channel 1 at 2s, square, 1s, 1\nend"

/-- The second `else` is a bad pulse in the false branch. It can be read, and the pulse after it is
    the second of its name, with the line or without it. -/
theorem read_without_secondElse :
    Idle blinking {} secondElse 3 ∧ ∃ d, (readWith blinking {} secondElse).result = .ok d ∧
      (readWith blinking {} (withoutLine secondElse 3)).result = .ok d := by
  have hrejected : PulseLine.read .empty "else".toList = .error (.tooFewFields 1) := by
    decide +kernel
  -- the second else is a line of the branch, and as a pulse it is rejected
  have hstatements : Statement.ofText secondElse.toList =
      [.pulse ⟨1, "mw pulse on channel 1 at 0s, square, 1s, 1".toList⟩] ++
        .block (.conditional "lit" []
          (some [⟨4, "else".toList⟩,
            ⟨5, "mw pulse on channel 1 at 2s, square, 1s, 1".toList⟩])) :: [] := by
    decide +kernel
  have hearlier : (([.pulse ⟨1, "mw pulse on channel 1 at 0s, square, 1s, 1".toList⟩] :
      List Statement).foldlM (interpret (loader blinking 4 4)) (.start {})).value?.map
        (·.sequence.declared) = some .empty := by
    decide +kernel
  obtain ⟨s, hs, hdeclared⟩ := Option.map_eq_some_iff.mp hearlier
  have hhanded : Handed (loader blinking 4 4) (.start {}) (Statement.ofText secondElse.toList)
      .empty ⟨4, "else".toList⟩ :=
    ⟨_, _, _, s, hstatements, value?_eq_some_iff.mp hs, by decide, hdeclared⟩
  have hidle : Idle blinking {} secondElse 3 := .rejected rfl hhanded hrejected
  have hread : (readWith blinking {} secondElse).result.isOk = true := by decide +kernel
  obtain ⟨d, hd⟩ := Success.isOk_iff.mp hread
  exact ⟨hidle, d, hd, ((read_without_idle hidle).2 d).mp hd⟩

end PulseTrain.Script
