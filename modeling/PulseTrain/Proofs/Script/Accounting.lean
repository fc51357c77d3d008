import Mathlib.Algebra.GroupWithZero.Nat
import PulseTrain.Proofs.Script.Attempts
import PulseTrain.Proofs.Script.Inlining
import PulseTrain.Proofs.Script.Rejection

/-! # Every line is accounted for

    In a script that loads no preset every line is used once. A header, a declaration and a preset
    line are lines of their own; a block has its opening line, its `end`, and perhaps an `else`;
    and every other line is read as a pulse, and then either gives a pulse or is noted. So the
    lines are as many as all these together, none is noted twice, and the pulses of a place stand
    in the order of their lines.

    * **Grouping**: `Statement.Makes.accounts` for the lines of one statement,
      `Statement.Grouped.accounts` for all;
    * **Run**: `run_accounts`: the blocks that are added and the lines that are read as pulses;
    * **Result**: `read_accounts`.
-/

namespace PulseTrain.Script

open Logged Success

/-! ## Grouping -/

namespace Statement

/-- Whether the statement is a conditional with an `else` between its branches. -/
def hasElse : Statement → Bool
  | block (.conditional _ _ (some _)) => true
  | _ => false

/-- The lines of a statement that are not read as pulses. -/
def frame (statement : Statement) : Nat :=
  statement.isHeader.toNat + statement.isDeclaration.toNat + statement.isPreset.toNat +
    2 * statement.isBlock.toNat + statement.hasElse.toNat

variable {lines : List Line} {statement : Statement} {statements : List Statement}

/-- The lines inside a block are its pulse lines and perhaps an `else`. -/
theorem accounts_of (opener : Opener) (body : List Line) :
    body.length = (block (Block.of opener body)).hasElse.toNat +
        (Block.of opener body).pulseLines.length ∧
      (Block.of opener body).pulseLines.Sublist body := by
  cases opener with
  | loop iterations => exact ⟨(Nat.zero_add _).symm, List.Sublist.refl _⟩
  | conditional condition =>
    rcases Block.else_cases body with hall | ⟨whenTrue, middle, whenFalse, rfl, htrue, hmiddle⟩
    · rw [Block.of_noElse hall, Block.pulseLines, Option.getD_none, List.append_nil]
      exact ⟨(Nat.zero_add _).symm, List.Sublist.refl _⟩
    · rw [Block.of_else htrue hmiddle, Block.pulseLines, Option.getD_some]
      refine ⟨?_, (List.sublist_cons_self middle whenFalse).append_left whenTrue⟩
      simp only [hasElse, Bool.toNat_true, List.length_append, List.length_cons]
      omega

/-- The lines of a statement are its pulse lines and those of its frame. -/
theorem Makes.accounts (h : Makes lines statement) :
    lines.length = statement.frame + statement.pulseLines.length ∧
      statement.pulseLines.Sublist lines := by
  cases h with
  | @line line hopener =>
    -- a line is a header, a declaration, a preset line or a pulse, and only the last is read
    rcases ofLine_cases line with ⟨_, _, h⟩ | ⟨_, _, h⟩ | ⟨_, _, h⟩ | h
    · rw [h]
      exact ⟨rfl, List.nil_sublist _⟩
    · rw [h]
      exact ⟨rfl, List.nil_sublist _⟩
    · rw [h]
      exact ⟨rfl, List.nil_sublist _⟩
    · rw [h]
      exact ⟨rfl, List.Sublist.refl _⟩
  | @block opening last opener body hopener hbody hlast =>
    obtain ⟨hlength, hsublist⟩ := accounts_of opener body
    refine ⟨?_, (hsublist.trans (List.sublist_append_left body [last])).cons opening⟩
    simp only [frame, isHeader, isDeclaration, isPreset, isBlock, Bool.toNat_false,
      Bool.toNat_true, pulseLines, List.length_cons, List.length_append, List.length_nil]
    omega

/-- The lines of some statements are their pulse lines and those of their frames. -/
theorem Grouped.accounts (h : Grouped lines statements) :
    lines.length = (statements.map frame).sum + (statements.flatMap pulseLines).length ∧
      (statements.flatMap pulseLines).Sublist lines := by
  induction h with
  | nil => exact ⟨rfl, List.Sublist.refl _⟩
  | cons hfirst _ ih =>
    obtain ⟨hlength, hsublist⟩ := hfirst.accounts
    rw [List.flatMap_cons]
    refine ⟨?_, hsublist.append ih.2⟩
    simp only [List.length_append, List.map_cons, List.sum_cons]
    omega

/-- The frames counted by what they belong to. -/
theorem sum_frame (statements : List Statement) :
    (statements.map frame).sum = statements.countP isHeader + statements.countP isDeclaration +
      statements.countP isPreset + 2 * statements.countP isBlock +
      statements.countP hasElse := by
  induction statements with
  | nil => rfl
  | cons statement statements ih =>
    have htoNat : ∀ b : Bool, (if b = true then 1 else 0) = b.toNat := by decide
    simp only [List.map_cons, List.sum_cons, List.countP_cons, htoNat, ih, frame]
    omega

end Statement

/-! ## Run -/

/-- How many blocks a sequence has. -/
def blockCount (d : Sequence) : Nat := d.loops.length + d.conditionals.length

/-- A statement that loads no preset that is known. -/
def Statement.LoadsNothing (registry : Registry) : Statement → Prop
  | .preset _ body => registry (presetName body) = none
  | _ => True

instance (registry : Registry) : DecidablePred (Statement.LoadsNothing registry)
  | .preset _ _ => inferInstanceAs (Decidable (_ = none))
  | .header _ _ => .isTrue trivial
  | .declaration _ _ => .isTrue trivial
  | .block _ => .isTrue trivial
  | .badBlock _ => .isTrue trivial
  | .pulse _ => .isTrue trivial

variable {registry : Registry} {limit depth : Nat} {s s' : State}

theorem presetAttempts_of_unknown {body : List Char}
    (h : registry (presetName body) = none) (s : State) :
    presetAttempts registry limit depth s body = [] := by
  cases depth with
  | zero => rfl
  | succ depth => rw [presetAttempts, presetText?_of_unknown h, Option.elim_none]

/-- The lines that are read as pulses are the pulse lines of the statement. -/
theorem Statement.map_line_attempts {statement : Statement} (h : statement.LoadsNothing registry)
    (s : State) :
    (statement.attempts (presetAttempts registry limit depth) s).map (·.line) =
      statement.pulseLines := by
  have hlines : ∀ declared place lines,
      (attemptsAt declared place lines).map (·.line) = lines := by
    intro declared place lines
    rw [attemptsAt, List.map_map]
    exact List.map_id lines
  -- a case for each statement; a conditional reads the lines of its two branches in order
  match statement with
  | .header _ _ => rfl
  | .declaration _ _ => rfl
  | .preset number body =>
    rw [Statement.attempts, presetAttempts_of_unknown h]
    rfl
  | .block (.loop _ _) => exact hlines _ _ _
  | .block (.conditional _ _ _) =>
    rw [Statement.attempts, List.map_append, hlines, hlines]
    rfl
  | .badBlock _ => rfl
  | .pulse _ => rfl

/-- **Step**: a statement adds a block if it is one. -/
theorem interpret_blockCount {statement : Statement} (hnothing : statement.LoadsNothing registry)
    (h : (interpret (loader registry limit depth) s statement).result = .ok s') :
    blockCount s'.sequence = blockCount s.sequence + statement.isBlock.toNat := by
  -- only the two blocks add to the count, each of them one
  match statement with
  | .header line body =>
    refine result_foldlM_ok (P := fun s' => blockCount s'.sequence = blockCount s.sequence)
      ?_ rfl h
    intro s₁ item s₂ hs₁ hitem
    obtain ⟨given, _, rfl⟩ := State.applyHeader_ok hitem
    cases given <;> exact hs₁
  | .declaration line body =>
    obtain ⟨v, _, _, rfl⟩ := State.declare_ok h
    rfl
  | .preset number body =>
    -- no preset is loaded, so the line is noted and the description stays
    have hunknown : registry (presetName body) = none := hnothing
    have hsame := value?_eq_some_iff.mpr h
    simp only [interpret] at hsame
    rw [loader_eq, value?_carryOutPreset, if_pos hunknown] at hsame
    split at hsame
    · cases hsame
    · cases hsame
      rfl
  | .block (.loop iterations body) =>
    obtain ⟨ps, counters, _, rfl⟩ := State.addLoop_ok h
    simp only [blockCount, List.length_append, List.length_singleton]
    exact Nat.add_right_comm _ _ _
  | .block (.conditional condition whenTrue whenFalse) =>
    obtain ⟨trueOnes, falseOnes, counters, _, rfl⟩ := State.addConditional_ok h
    simp only [blockCount, List.length_append, List.length_singleton]
    rfl
  | .badBlock fault => cases h
  | .pulse line =>
    obtain ⟨ps, counters, _, rfl⟩ := State.addPulses_ok h
    rfl

/-- **Run**: the blocks of a script are those that it adds, and it reads its pulse lines as pulses,
    in their order. -/
theorem run_accounts {statements : List Statement}
    (hnothing : ∀ statement ∈ statements, statement.LoadsNothing registry)
    (h : (statements.foldlM (interpret (loader registry limit depth)) s).result = .ok s') :
    blockCount s'.sequence = blockCount s.sequence + statements.countP Statement.isBlock ∧
      (along (interpret (loader registry limit depth))
        (Statement.attempts (presetAttempts registry limit depth)) s statements).map (·.line) =
          statements.flatMap Statement.pulseLines := by
  -- by induction on the statements, from the state that each of them leaves
  induction statements generalizing s with
  | nil =>
    cases h
    exact ⟨rfl, rfl⟩
  | cons statement statements ih =>
    rw [List.foldlM_cons] at h
    obtain ⟨s₁, hfirst, hrest⟩ := result_bind_ok.mp h
    have hfirstNothing := hnothing statement List.mem_cons_self
    obtain ⟨hblocks, hlines⟩ := ih (fun x hx => hnothing x (List.mem_cons_of_mem _ hx)) hrest
    have htoNat : ∀ b : Bool, (if b = true then 1 else 0) = b.toNat := by decide
    refine ⟨?_, ?_⟩
    · rw [hblocks, interpret_blockCount hfirstNothing hfirst, List.countP_cons, htoNat]
      omega
    · rw [along, value?_eq_some_iff.mpr hfirst, List.map_append,
        Statement.map_line_attempts hfirstNothing, Option.elim_some, hlines, List.flatMap_cons]

/-! ## Notes -/

/-- The number of the line that a note says is no pulse. -/
def Note.skippedLine? : Note → Option Nat
  | .skippedPulse line _ => some line
  | _ => none

/-- Lines are numbered upwards. -/
theorem pairwise_number_linesFrom (first : Nat) (pieces : List (List Char)) :
    (linesFrom first pieces).Pairwise (·.number < ·.number) := by
  induction pieces generalizing first with
  | nil => exact List.Pairwise.nil
  | cons piece pieces ih =>
    rw [← List.singleton_append, linesFrom_append, List.pairwise_append]
    refine ⟨?_, ih _, ?_⟩
    · rw [linesFrom_singleton]
      split
      · exact List.pairwise_singleton _ _
      · exact List.Pairwise.nil
    · intro line hline later hlater
      have hbounds := number_of_mem_linesFrom hline
      have hbounds' := number_of_mem_linesFrom hlater
      omega

/-- An attempt gives a pulse or a note. -/
theorem length_accepted_add_length_rejected (as : List Attempt) :
    (accepted as).length + (rejected as).length = as.length := by
  induction as with
  | nil => rfl
  | cons a as ih =>
    have hplayed := congrArg List.length (map_pulse_accepted a.declared a.place [a.line])
    have hone := length_played_add_length_skipped a.declared [a.line]
    rw [List.length_map] at hplayed
    have haccepted : accepted (a :: as) =
        accepted (attemptsAt a.declared a.place [a.line]) ++ accepted as :=
      accepted_append [a] as
    have hrejected : rejected (a :: as) = skipped a.declared [a.line] ++ rejected as := rfl
    rw [haccepted, hrejected, List.length_append, List.length_append, List.length_cons]
    rw [List.length_singleton] at hone
    omega

/-- The numbers in the notes are those of some of the lines, in their order. -/
theorem skippedLines_rejected (as : List Attempt) :
    ((rejected as).filterMap Note.skippedLine?).Sublist (as.map (·.line.number)) := by
  induction as with
  | nil => exact List.Sublist.refl _
  | cons a as ih =>
    have hrejected : rejected (a :: as) = skipped a.declared [a.line] ++ rejected as := rfl
    rw [hrejected, List.filterMap_append]
    show List.Sublist (_ ++ _) ([a.line.number] ++ _)
    refine List.Sublist.append ?_ ih
    unfold skipped
    rw [List.filterMap_cons]
    cases PulseLine.read a.declared a.line.text with
    | ok p => exact List.nil_sublist _
    | error e => exact List.Sublist.refl _

/-- Only notes of skipped pulses give the number of a line. -/
theorem filterMap_skippedLine?_filter (log : List Note) :
    (log.filter Note.isSkipped).filterMap Note.skippedLine? = log.filterMap Note.skippedLine? := by
  rw [List.filterMap_filter]
  congr 1
  funext note
  cases note <;> rfl

theorem length_numbered (as : List Acceptance) : (numbered as).length = as.length := by
  have hplaced := congrArg List.length (map_place_numberFrom [] as)
  rwa [List.length_map, List.length_map] at hplaced

/-- Lines stand in a text in the order of their numbers. -/
theorem pairwise_number_contentLines (text : List Char) :
    ((contentLines text).map (·.number)).Pairwise (· < ·) := by
  rw [List.pairwise_map, contentLines_eq]
  exact pairwise_number_linesFrom 1 _

/-! ## Result -/

variable {settings : Settings} {text : String} {d : Sequence}

/-- **Accounting**: in a script that loads no known preset, the lines are the headers, the
    declarations, the lines of unknown presets, two lines for each block, the lines that part the
    branches of a conditional, the lines of the pulses and the lines that are noted as no pulses.
    The lines that are read as pulses are lines of the script in their order, each once; every one
    that is no pulse is noted under its number, so the numbers only go up; and the others give the
    pulses of all places, at each place in the order of their lines. -/
theorem read_accounts
    (hnothing : ∀ statement ∈ Statement.ofText text.toList, statement.LoadsNothing registry)
    (h : (readWith registry settings text).result = .ok d) :
    (contentLines text.toList).length =
        (Statement.ofText text.toList).countP Statement.isHeader +
          (Statement.ofText text.toList).countP Statement.isDeclaration +
          (Statement.ofText text.toList).countP Statement.isPreset +
          2 * (d.loops.length + d.conditionals.length) +
          (Statement.ofText text.toList).countP Statement.hasElse + d.everyPulse.length +
          (readWith registry settings text).log.countP Note.isSkipped ∧
      ((attemptsOf registry settings text).map (·.line)).Sublist (contentLines text.toList) ∧
      (readWith registry settings text).log.filter Note.isSkipped =
        rejected (attemptsOf registry settings text) ∧
      ((readWith registry settings text).log.filterMap Note.skippedLine?).Pairwise (· < ·) ∧
      ∀ place, d.pulsesAt place =
        standing place (numbered (accepted (attemptsOf registry settings text))) := by
  obtain ⟨hplaces, hevery, hlog⟩ := read_records h
  obtain ⟨s, hrun, hfinish⟩ := readWith_ok_iff.mp h
  obtain ⟨hlength, hsublist⟩ := (grouped_of_run hrun).accounts
  obtain ⟨hblocks, hlines⟩ := run_accounts hnothing (value?_eq_some_iff.mp hrun)
  replace hlines : (attemptsOf registry settings text).map (·.line) =
    (Statement.ofText text.toList).flatMap Statement.pulseLines := hlines
  rw [← Statement.ofText, ← hlines] at hlength hsublist
  refine ⟨?_, hsublist, hlog, ?_, hplaces⟩
  · have hd : blockCount d = blockCount s.sequence := by
      rw [State.finish_eq hfinish]
      rfl
    have hstart : blockCount (State.start settings).sequence = 0 := rfl
    -- a pulse stands for each line that is accepted, and a note for each that is rejected
    have hpulses : d.everyPulse.length = (accepted (attemptsOf registry settings text)).length := by
      rw [hevery.length_eq, List.length_map, length_numbered]
    have hnotes : (readWith registry settings text).log.countP Note.isSkipped =
        (rejected (attemptsOf registry settings text)).length := by
      rw [List.countP_eq_length_filter, hlog]
    have hattempts := length_accepted_add_length_rejected (attemptsOf registry settings text)
    rw [Statement.sum_frame, List.length_map] at hlength
    rw [blockCount] at hd
    omega
  · -- the noted lines are some of those that are read, whose numbers go up
    have hsome := hsublist.map (·.number)
    rw [List.map_map] at hsome
    rw [← filterMap_skippedLine?_filter, hlog]
    exact (pairwise_number_contentLines _).sublist ((skippedLines_rejected _).trans hsome)

/-- A header, a preset that is not known, a loop with an `else` that is no pulse, a conditional
    whose branches are empty, and an `end` without a block. -/
def strays : String :=
  "sequence: name=a\nload preset: blank\nloop: 2\nlaser pulse on channel 2 at 0s, square, 1s, 1\n"
    ++ "else\nend\nif dark\nelse\nend\nend"

theorem read_accounts_strays :
    (∀ statement ∈ Statement.ofText strays.toList, statement.LoadsNothing blinking) ∧
    ∃ d, (readWith blinking {} strays).result = .ok d ∧ d.loops.length = 1 ∧
      d.conditionals.length = 1 ∧ d.everyPulse.length = 1 ∧
      (readWith blinking {} strays).log.filterMap Note.skippedLine? = [5, 10] ∧
      (contentLines strays.toList).length =
        (Statement.ofText strays.toList).countP Statement.isHeader +
          (Statement.ofText strays.toList).countP Statement.isDeclaration +
          (Statement.ofText strays.toList).countP Statement.isPreset +
          2 * (d.loops.length + d.conditionals.length) +
          (Statement.ofText strays.toList).countP Statement.hasElse + d.everyPulse.length +
          (readWith blinking {} strays).log.countP Note.isSkipped := by
  have hnothing : ∀ statement ∈ Statement.ofText strays.toList,
      statement.LoadsNothing blinking := by
    decide +kernel
  have hread : (readWith blinking {} strays).result.map
      (fun d => (d.loops.length, d.conditionals.length, d.everyPulse.length)) =
        .ok (1, 1, 1) := by
    decide +kernel
  have hnumbers : (readWith blinking {} strays).log.filterMap Note.skippedLine? = [5, 10] := by
    decide +kernel
  obtain ⟨d, hd, hcounts⟩ := map_ok.mp hread
  simp only [Prod.mk.injEq] at hcounts
  exact ⟨hnothing, d, hd, hcounts.1, hcounts.2.1, hcounts.2.2, hnumbers,
    (read_accounts hnothing hd).1⟩

end PulseTrain.Script
