import Mathlib.Data.List.TakeWhile
import PulseTrain.Proofs.Script.Numbering
import PulseTrain.Proofs.Script.Provenance

/-! # Rejected lines

    Wherever a line is read as a pulse and is none, at the top level or inside a block, the rest
    of the script is read as if the line were not there: no name is numbered on, and the lines
    around it are grouped as before.

    * **Lines**: `Handed` says that a run reads a line as a pulse, and under which declarations;
    * **Blocks**: `Block.exists_drops` takes a line out of a block, `Block.Drops.value?_addBlock`
      says that a block comes to the same without it;
    * **Statements**: `Statement.Makes.without_rejected`;
    * **Run**: `run_without_rejected`.
-/

namespace PulseTrain.Script

open Logged

/-! ## Lines -/

/-- The lines of a block that are read as pulses: all but the `else` between the branches. -/
def Block.pulseLines : Block → List Line
  | .loop _ body => body
  | .conditional _ whenTrue whenFalse => whenTrue ++ whenFalse.getD []

/-- The lines of a statement that are read as pulses. -/
def Statement.pulseLines : Statement → List Line
  | .pulse line => [line]
  | .block lines => lines.pulseLines
  | _ => []

/-- A line that is read as a pulse when statements are carried out from `s` on, and what is declared
    at this moment. -/
def Handed (load : Loader) (s : State) (statements : List Statement) (declared : Table Variable)
    (line : Line) : Prop :=
  ∃ earlier statement later s', statements = earlier ++ statement :: later ∧
    (earlier.foldlM (interpret load) s).result = .ok s' ∧
    line ∈ statement.pulseLines ∧ s'.sequence.declared = declared

/-! ## Blocks -/

variable {s : State} {line : Line} {e : PulseError}

/-- What holds of some lines holds of the lines without one of them. -/
theorem forall_without {P : Line → Prop} {before behind : List Line}
    (h : ∀ x ∈ before ++ line :: behind, P x) : ∀ x ∈ before ++ behind, P x := by
  have hsublist : (before ++ behind).Sublist (before ++ line :: behind) :=
    (List.sublist_cons_self line behind).append_left before
  intro x hx
  exact h x (hsublist.subset hx)

/-- Lines are read in the same way without a line among them that is no pulse. -/
theorem State.value?_readPulses_skip
    (h : PulseLine.read s.sequence.declared line.text = .error e) (before behind : List Line) :
    (s.readPulses (before ++ line :: behind)).value? =
      (s.readPulses (before ++ behind)).value? := by
  induction before generalizing s with
  | nil => exact State.value?_readPulses_of_error h
  | cons first before ih =>
    rw [List.cons_append, List.cons_append]
    cases hfirst : PulseLine.read s.sequence.declared first.text with
    | error e' =>
      rw [State.value?_readPulses_of_error hfirst, State.value?_readPulses_of_error hfirst]
      exact ih h
    | ok p =>
      -- a number is given to a name, which changes no declaration
      have hnumbered : PulseLine.read (s.numberPulse p).1.sequence.declared line.text =
          .error e := h
      rw [State.value?_readPulses_of_ok hfirst, State.value?_readPulses_of_ok hfirst,
        ih hnumbered]

namespace Block

variable {condition : String} {body whenTrue whenFalse : List Line}

/-- Without an `else` a conditional has one branch. -/
theorem of_noElse (h : ∀ line ∈ body, isElse line = false) :
    of (.conditional condition) body = conditional condition body none := by
  have hdrop : body.dropWhile (!isElse ·) = [] := by
    rw [List.dropWhile_eq_nil_iff]
    intro line hline
    rw [h line hline]
    rfl
  simp only [of, hdrop]

/-- The first `else` of a conditional parts its branches. -/
theorem of_else {middle : Line} (h : ∀ line ∈ whenTrue, isElse line = false)
    (hmiddle : isElse middle = true) :
    of (.conditional condition) (whenTrue ++ middle :: whenFalse) =
      conditional condition whenTrue (some whenFalse) := by
  have htrue : ∀ line ∈ whenTrue, (!isElse line) = true := by
    intro line hline
    rw [h line hline]
    rfl
  have hdrop : (whenTrue ++ middle :: whenFalse).dropWhile (!isElse ·) = middle :: whenFalse := by
    rw [List.dropWhile_append_of_pos htrue, List.dropWhile_cons_of_neg]
    simp [hmiddle]
  have htake : (whenTrue ++ middle :: whenFalse).takeWhile (!isElse ·) = whenTrue := by
    rw [List.takeWhile_append_of_pos htrue, List.takeWhile_cons_of_neg, List.append_nil]
    simp [hmiddle]
  simp only [of, hdrop, htake]

/-- A body without an `else`, or parted at the first one. -/
theorem else_cases (body : List Line) : (∀ line ∈ body, isElse line = false) ∨
    ∃ whenTrue middle whenFalse, body = whenTrue ++ middle :: whenFalse ∧
      (∀ line ∈ whenTrue, isElse line = false) ∧ isElse middle = true := by
  induction body with
  | nil => exact .inl fun line hline => absurd hline List.not_mem_nil
  | cons line body ih =>
    cases hline : isElse line with
    | true => exact .inr ⟨[], line, body, rfl, fun x hx => absurd hx List.not_mem_nil, hline⟩
    | false =>
      rcases ih with hall | ⟨whenTrue, middle, whenFalse, rfl, htrue, hmiddle⟩
      · exact .inl (List.forall_mem_cons.mpr ⟨hline, hall⟩)
      · exact .inr ⟨line :: whenTrue, middle, whenFalse, rfl,
          List.forall_mem_cons.mpr ⟨hline, htrue⟩, hmiddle⟩

/-- The second block is the first without a line that is read as a pulse. -/
inductive Drops (line : Line) : Block → Block → Prop where
  | body {iterations : UInt32} {before behind : List Line} :
    Drops line (loop iterations (before ++ line :: behind)) (loop iterations (before ++ behind))
  | whenTrue {condition : String} {before behind : List Line} {whenFalse : Option (List Line)} :
    Drops line (conditional condition (before ++ line :: behind) whenFalse)
      (conditional condition (before ++ behind) whenFalse)
  | whenFalse {condition : String} {whenTrue before behind : List Line} :
    Drops line (conditional condition whenTrue (some (before ++ line :: behind)))
      (conditional condition whenTrue (some (before ++ behind)))

/-- A line that is read as a pulse can be taken out of the lines inside a block. -/
theorem exists_drops {opener : Opener} (hline : line ∈ (of opener body).pulseLines) :
    ∃ before behind, body = before ++ line :: behind ∧
      Drops line (of opener body) (of opener (before ++ behind)) := by
  cases opener with
  | loop iterations =>
    obtain ⟨before, behind, rfl⟩ := List.append_of_mem hline
    exact ⟨before, behind, rfl, .body⟩
  | conditional condition =>
    -- the line is no first `else`, so the branches stay parted where they are
    rcases else_cases body with hall | ⟨whenTrue, middle, whenFalse, rfl, htrue, hmiddle⟩
    · rw [of_noElse hall, pulseLines, Option.getD_none, List.append_nil] at hline
      obtain ⟨before, behind, rfl⟩ := List.append_of_mem hline
      refine ⟨before, behind, rfl, ?_⟩
      rw [of_noElse hall, of_noElse (forall_without hall)]
      exact .whenTrue
    · -- with an else the line belongs to one of the two branches, and leaves that branch only
      rw [of_else htrue hmiddle, pulseLines, Option.getD_some, List.mem_append] at hline
      rw [of_else htrue hmiddle]
      rcases hline with hline | hline
      · obtain ⟨before, behind, rfl⟩ := List.append_of_mem hline
        refine ⟨before, behind ++ middle :: whenFalse, by simp, ?_⟩
        rw [← List.append_assoc, of_else (forall_without htrue) hmiddle]
        exact .whenTrue
      · obtain ⟨before, behind, rfl⟩ := List.append_of_mem hline
        refine ⟨whenTrue ++ middle :: before, behind, by simp, ?_⟩
        rw [List.append_assoc, List.cons_append, of_else htrue hmiddle]
        exact .whenFalse

/-- A block is read in the same way without a line in it that is no pulse. -/
theorem Drops.value?_addBlock {block block' : Block} (h : Drops line block block')
    (hread : PulseLine.read s.sequence.declared line.text = .error e) :
    (s.addBlock block').value? = (s.addBlock block).value? := by
  cases h with
  | body => simp only [State.addBlock, value?_bind, State.value?_readPulses_skip hread]
  | whenTrue => simp only [State.addBlock, value?_bind, State.value?_readPulses_skip hread]
  | whenFalse =>
    simp only [State.addBlock, value?_bind, Option.getD_some]
    apply Option.bind_congr
    rintro ⟨s', trueOnes⟩ htrue
    -- the lines of the true branch, which are read before, declare nothing
    obtain ⟨⟨counters, rfl⟩, _⟩ := State.readPulses_ok (value?_eq_some_iff.mp htrue)
    simp only [State.value?_readPulses_skip (s := { s with counters := counters }) hread]

end Block

/-! ## Statements -/

/-- A line that is no pulse adds nothing to the sequence. -/
theorem State.value?_addPulses_of_error
    (h : PulseLine.read s.sequence.declared line.text = .error e) :
    (s.addPulses [line]).value? = some s := by
  have hnone : (s.readPulses [line]).value? = some (s, []) := State.value?_readPulses_of_error h
  rw [State.addPulses, value?_bind, hnone, Option.bind_some, value?_pure, List.append_nil]

/-- A line that is no pulse may be taken out of the lines of a statement. -/
theorem Statement.Makes.without_rejected {lines : List Line} {statement : Statement}
    (h : Makes lines statement) (hline : line ∈ statement.pulseLines) (load : Loader) :
    ∃ before behind, lines = before ++ line :: behind ∧ ∀ s rest e,
      PulseLine.read s.sequence.declared line.text = .error e →
      run load s (before ++ (behind ++ rest)) = run load s (lines ++ rest) := by
  cases h with
  | @line single hopener =>
    have hsingle : Makes [single] (ofLine single) := .line hopener
    rcases ofLine_cases single with ⟨_, _, h⟩ | ⟨_, _, h⟩ | ⟨_, _, h⟩ | h
    · simp [h, pulseLines] at hline
    · simp [h, pulseLines] at hline
    · simp [h, pulseLines] at hline
    · rw [h, pulseLines, List.mem_singleton] at hline
      -- a line of its own is rejected, and then the state stays as it is
      subst hline
      refine ⟨[], [], rfl, ?_⟩
      intro s rest e hread
      have hinterpret : (interpret load s (.pulse line)).value? = some s :=
        State.value?_addPulses_of_error hread
      rw [run_makes_append hsingle, h, hinterpret, Option.bind_some]
      rfl
  | @block opening last opener body hopener hbody hlast =>
    obtain ⟨before, behind, rfl, hdrops⟩ := Block.exists_drops hline
    refine ⟨opening :: before, behind ++ [last], by simp, ?_⟩
    intro s rest e hread
    -- the block without the line still makes a statement, so both are carried out in one step
    have hlonger : Makes (opening :: (before ++ line :: behind ++ [last])) _ :=
      .block hopener hbody hlast
    have hshorter : Makes (opening :: (before ++ behind ++ [last])) _ :=
      .block hopener (forall_without hbody) hlast
    have hlines : opening :: before ++ (behind ++ [last] ++ rest) =
        opening :: (before ++ behind ++ [last]) ++ rest := by simp
    rw [hlines, run_makes_append hshorter, run_makes_append hlonger]
    simp only [interpret]
    rw [hdrops.value?_addBlock hread]

/-! ## Run -/

/-- **Run**: a line that is read as a pulse and is none may be taken out of a script. Whatever was
    read with it is read without it, and whatever failed fails still. -/
theorem run_without_rejected {load : Loader} {lines : List Line} {declared : Table Variable}
    (hhanded : Handed load s (Statement.ofLines lines) declared line)
    (hread : PulseLine.read declared line.text = .error e) :
    ∃ xs ys, lines = xs ++ line :: ys ∧ run load s (xs ++ ys) = run load s lines := by
  obtain ⟨earlier, statement, later, s₁, hstatements, hearlier, hline, rfl⟩ := hhanded
  have hgood : ∀ fault, statement ≠ .badBlock fault := by
    rintro fault rfl
    cases hline
  obtain ⟨first, middle, rest, rfl, hfirst, hmiddle, _⟩ :=
    Statement.ofLines_eq_append_cons hstatements hgood
  obtain ⟨before, behind, rfl, hsame⟩ := hmiddle.without_rejected hline load
  refine ⟨first ++ before, behind ++ rest, by simp, ?_⟩
  -- the run comes to the statement in a state under whose declarations the line was read
  have hrun : run load s first = some s₁ := by
    rw [run, hfirst.ofLines]
    exact value?_eq_some_iff.mpr hearlier
  rw [List.append_assoc, run_append hfirst, run_append hfirst, hrun, Option.bind_some,
    Option.bind_some]
  exact hsame s₁ rest e hread

end PulseTrain.Script
