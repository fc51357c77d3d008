import PulseTrain.Proofs.Script.Lines
import PulseTrain.Proofs.Script.Numbering

/-! # What a preset line comes to

    A preset line comes to what the text of its preset comes to. It comes to nothing if its name
    is empty, if its preset has no text for the overrides and the declared variables, or if it
    is nested too deep. A line whose preset is unknown leaves everything as it is.

    * **Step**: `value?_carryOutPreset`, which says all that a preset line can come to;
    * **Depth**: `loader_mono`: what is read at some depth is also read at a greater one;
    * **Numbers**: `loader_unnumbered`;
    * **Place**: `run_at_preset` takes a run apart at a preset line that it reaches.
-/

namespace PulseTrain.Script

open Logged

/-! ## Step -/

/-- The name of the preset on a preset line, given what follows the keyword. -/
def presetName (body : List Char) : String :=
  String.ofList (((Text.splitOn ',' body).map Text.trim).headD [])

/-- The text of the preset on a preset line, if the preset is known and can be rendered where some
    variables are declared. -/
def presetText? (registry : Registry) (declared : List String) (body : List Char) :
    Option (List Char) :=
  let items := (Text.splitOn ',' body).map Text.trim
  (registry (presetName body)).bind fun preset =>
    (readOverrides (presetName body) items.tail).toOption.bind fun overrides =>
      (preset.render overrides declared).toOption

theorem toOption_mapError {ε ε' α : Type} (f : ε → ε') (x : Except ε α) :
    (x.mapError f).toOption = x.toOption := by
  cases x with
  | error e => rfl
  | ok a => rfl

/-- **Step**: what a preset line comes to. -/
theorem value?_carryOutPreset (registry : Registry) (limit : Nat) (inner : Option Loader)
    (s : State) (number : Nat) (body : List Char) :
    (carryOutPreset registry limit inner s number body).value? =
      if presetName body = "" then none
      else if registry (presetName body) = none then some s
      else inner.bind fun load =>
        (presetText? registry s.sequence.declared.keys body).bind fun text =>
          run load s (contentLines text) := by
  unfold carryOutPreset presetText?
  simp only
  rw [← presetName]
  -- the name is asked for first, then the preset, and last the depth that is left
  by_cases hname : presetName body = ""
  · have hempty : (presetName body).isEmpty = true := by rw [hname]; rfl
    rw [if_pos hname, if_pos hempty]
    rfl
  · have hempty : ¬(presetName body).isEmpty = true := by rwa [String.isEmpty_iff]
    rw [if_neg hname, if_neg hempty]
    cases registry (presetName body) with
    | none => rfl
    | some preset =>
      cases inner with
      | none => rfl
      | some load =>
        simp only [value?_bind, value?_ofExcept, value?_mapError, toOption_mapError,
          value?_readText, reduceCtorEq, if_false, Option.bind_some, Option.bind_assoc]

section Known

variable {registry : Registry} {limit number : ℕ} {load : Loader} {s : State}
  {body text : List Char} {preset : Preset} {overrides : List (String × String)}

/-- The overrides of a known preset are read first, then its text, and then the lines of the text.
    -/
theorem carryOutPreset_of_known (hname : presetName body ≠ "")
    (hknown : registry (presetName body) = some preset) :
    carryOutPreset registry limit (some load) s number body =
      .ofExcept (readOverrides (presetName body) ((Text.splitOn ',' body).map Text.trim).tail)
        >>= fun overrides =>
      .ofExcept ((preset.render overrides s.sequence.declared.keys).mapError
        (.parameter preset.name)) >>= fun text =>
      (readText load s text).mapError (.inPreset (presetName body) number) := by
  have hempty : ¬(presetName body).isEmpty = true := by rwa [String.isEmpty_iff]
  unfold carryOutPreset
  dsimp only
  rw [← presetName, if_neg hempty, hknown]

/-- A preset line that is found in order is carried out by reading the text of the preset. -/
theorem carryOutPreset_of_render (hname : presetName body ≠ "")
    (hknown : registry (presetName body) = some preset)
    (hoverrides : readOverrides (presetName body) ((Text.splitOn ',' body).map Text.trim).tail =
      .ok overrides)
    (hrender : preset.render overrides s.sequence.declared.keys = .ok text) :
    carryOutPreset registry limit (some load) s number body =
      (readText load s text).mapError (.inPreset (presetName body) number) := by
  rw [carryOutPreset_of_known hname hknown, hoverrides, ofExcept_ok, pure_bind, hrender]
  rfl

end Known

/-- What carries out the preset lines in the text of a preset, if they may nest any further. -/
def innerLoader (registry : Registry) (limit : Nat) : (depth : Nat) → Option Loader
  | 0 => none
  | depth + 1 => some (loader registry limit depth)

theorem loader_eq (registry : Registry) (limit depth : Nat) :
    loader registry limit depth =
      carryOutPreset registry limit (innerLoader registry limit depth) := by
  cases depth with
  | zero => rfl
  | succ depth => rfl

/-- A line whose preset is not known leaves everything as it is. -/
theorem value?_loader_of_unknown {registry : Registry} {limit depth number : Nat}
    {body : List Char} (hname : presetName body ≠ "")
    (hunknown : registry (presetName body) = none) (s : State) :
    (loader registry limit depth s number body).value? = some s := by
  rw [loader_eq, value?_carryOutPreset, if_neg hname, if_pos hunknown]

/-! ## Depth -/

/-- A loader that comes to the same results as another wherever that comes to any. -/
def Loader.AtLeast (load load' : Loader) : Prop :=
  ∀ s number body s', (load s number body).value? = some s' →
    (load' s number body).value? = some s'

variable {registry : Registry} {limit : Nat} {load load' : Loader}

/-- What is read with a loader is read with one that comes to at least the same. -/
theorem run_mono (h : load.AtLeast load') {s s' : State} {lines : List Line}
    (hrun : run load s lines = some s') : run load' s lines = some s' := by
  refine value?_foldlM_mono ?_ hrun
  intro s statement s' hstep
  -- only a preset line asks the loader
  match statement with
  | .header _ _ => exact hstep
  | .declaration _ _ => exact hstep
  | .preset number body => exact h s number body s' hstep
  | .block _ => exact hstep
  | .badBlock _ => exact hstep
  | .pulse _ => exact hstep

theorem carryOutPreset_mono {inner inner' : Option Loader}
    (h : ∀ load ∈ inner, ∃ load' ∈ inner', load.AtLeast load') :
    Loader.AtLeast (carryOutPreset registry limit inner)
      (carryOutPreset registry limit inner') := by
  intro s number body s' hvalue
  rw [value?_carryOutPreset] at hvalue ⊢
  by_cases hname : presetName body = ""
  · rw [if_pos hname] at hvalue
    cases hvalue
  · rw [if_neg hname] at hvalue ⊢
    by_cases hknown : registry (presetName body) = none
    · rw [if_pos hknown] at hvalue ⊢
      exact hvalue
    · rw [if_neg hknown] at hvalue ⊢
      obtain ⟨load, hload, hvalue⟩ := Option.bind_eq_some_iff.mp hvalue
      obtain ⟨text, htext, hrun⟩ := Option.bind_eq_some_iff.mp hvalue
      -- the text is the same, and its lines are carried out by the other inner loader
      obtain ⟨load', hload', hmono⟩ := h load hload
      rw [hload', Option.bind_some, htext, Option.bind_some]
      exact run_mono hmono hrun

/-- What is read at some depth is also read at one more. -/
theorem loader_mono (registry : Registry) (limit : Nat) (depth : Nat) :
    Loader.AtLeast (loader registry limit depth) (loader registry limit (depth + 1)) := by
  induction depth with
  | zero =>
    -- without an inner loader nothing is read from a known preset
    apply carryOutPreset_mono
    intro load hload
    cases hload
  | succ depth ih =>
    apply carryOutPreset_mono
    intro load hload
    cases hload
    exact ⟨_, rfl, ih⟩

/-- A preset line comes to what its text comes to in the place of the line, where presets may be
    loaded one level deeper. -/
theorem run_presetText {depth number : Nat} {body text : List Char} {s s' : State}
    (htext : presetText? registry s.sequence.declared.keys body = some text)
    (h : (loader registry limit depth s number body).value? = some s') :
    run (loader registry limit depth) s (contentLines text) = some s' := by
  have hknown : registry (presetName body) ≠ none := by
    intro hunknown
    rw [presetText?, hunknown] at htext
    cases htext
  rw [loader_eq, value?_carryOutPreset] at h
  by_cases hname : presetName body = ""
  · rw [if_pos hname] at h
    cases h
  · rw [if_neg hname, if_neg hknown, htext] at h
    obtain ⟨load, hload, hrun⟩ := Option.bind_eq_some_iff.mp h
    rw [Option.bind_some] at hrun
    -- the text was carried out with one level less to nest in
    cases depth with
    | zero => cases hload
    | succ depth =>
      cases hload
      exact run_mono (loader_mono registry limit depth) hrun

/-! ## Numbers -/

/-- The number of a preset line is not in what the line comes to. -/
theorem loader_unnumbered (registry : Registry) (limit : Nat) (depth : Nat) :
    Loader.Unnumbered (loader registry limit depth) := by
  intro s number number' body
  rw [loader_eq, value?_carryOutPreset, value?_carryOutPreset]

/-! ## Place -/

variable {before behind : List (List Char)} {piece body : List Char}

/-- A preset line that is a statement stands in no block, so the lines before it are grouped
    completely. -/
theorem reached_preset (h : .preset (before.length + 1) body ∈
      Statement.ofLines (linesFrom 1 (before ++ piece :: behind))) :
    (∃ statements, Statement.Grouped (linesFrom 1 before) statements) ∧
      ∃ line, linesFrom (before.length + 1) [piece] = [line] ∧
        Statement.Makes [line] (.preset (before.length + 1) body) := by
  obtain ⟨earlier, later, hstatements⟩ := List.append_of_mem h
  obtain ⟨first, middle, rest, hlines, hfirst, hmiddle, _⟩ :=
    Statement.ofLines_eq_append_cons hstatements fun fault => by simp
  obtain ⟨line, rfl, hnumber, _⟩ := hmiddle.preset
  -- the number tells which line it is
  have hmem : line ∈ linesFrom 1 (before ++ piece :: behind) := by
    rw [hlines]
    simp
  obtain ⟨hpiece, hbefore, hbehind⟩ := line_at_number hmem hnumber
  rw [linesFrom_around, hpiece, List.singleton_append, List.singleton_append,
    List.append_cons_inj_of_notMem hbefore hbehind] at hlines
  obtain ⟨rfl, -, -⟩ := hlines
  exact ⟨⟨_, hfirst⟩, line, hpiece, hmiddle⟩

/-- Some lines that are grouped completely are carried out first, and the lines behind them as if
    they stood in a text of their own. -/
theorem run_behind {statements : List Statement} (hload : load.Unnumbered)
    (h : Statement.Grouped (linesFrom 1 before) statements) (s : State)
    (behind : List (List Char)) :
    run load s (linesFrom 1 (before ++ behind)) =
      (run load s (linesFrom 1 before)).bind fun s' => run load s' (linesFrom 1 behind) := by
  rw [run_congr hload s (text_linesFrom_append 1 1 1 before behind), run_append h]

/-- **Run**: a preset line that is reached comes to what its loader makes of it, between the lines
    before it and those behind it. -/
theorem run_at_preset (hload : load.Unnumbered) (h : .preset (before.length + 1) body ∈
      Statement.ofLines (linesFrom 1 (before ++ piece :: behind))) (s : State) :
    run load s (linesFrom 1 (before ++ piece :: behind)) =
      (run load s (linesFrom 1 before)).bind fun s' =>
        (load s' (before.length + 1) body).value?.bind fun s'' =>
          run load s'' (linesFrom 1 behind) := by
  obtain ⟨⟨statements, hbefore⟩, line, hpiece, hline⟩ := reached_preset h
  -- three parts: the lines above, the preset line as a statement of its own, the lines below
  rw [linesFrom_around, run_append hbefore, hpiece]
  congr 1
  funext s'
  rw [run_makes_append hline]
  congr 1
  funext s''
  exact run_congr hload s'' (text_linesFrom _ _ behind)

end PulseTrain.Script
