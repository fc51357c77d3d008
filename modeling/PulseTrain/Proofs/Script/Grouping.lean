import Mathlib.Data.List.Basic
import PulseTrain.Proofs.Failure
import PulseTrain.Proofs.Success
import PulseTrain.Script.Statement

/-! # Lines grouped to statements

    A statement is made of lines that stand next to each other: of one line, or of a block from
    its opening line to its `end`. What is made of the first lines of a script does not depend
    on the lines after them, unless a block is still open, and then the statement is a bad block
    and the last one.

    * **Kinds**: `isHeader` and the like sort statements;
    * **Parts**: `Makes` says of which lines a statement is made, `Grouped` the same for several
      statements;
    * **Parts are grouped alone**: `Grouped.ofLines_append`;
    * **Statements have parts**: `ofLines_eq_cons` for the first statement, `ofLines_eq_append`
      for those before a statement that is looked for, `grouped_of_noBadBlock` for all.
-/

namespace PulseTrain.Script

open Success

/-! ## Blocks -/

/-- A line that may stand inside a block: one that neither opens a block nor ends it. -/
def Inner (line : Line) : Prop :=
  openingKeyword? (LineRole.of line.text) = none ∧ LineRole.of line.text ≠ .ending

variable {opening : Line} {opener : Opener} {lines body after : List Line}

/-- Lines that may stand inside a block are taken into it, whatever comes of those after them. -/
theorem untilEnd_append (hbody : ∀ line ∈ body, Inner line) (rest : List Line) :
    untilEnd opening opener (body ++ rest) =
      (untilEnd opening opener rest).map fun (inner, after) => (body ++ inner, after) := by
  -- by induction on the body, whose lines neither open nor end anything
  induction body with
  | nil =>
    cases hrest : untilEnd opening opener rest with
    | error fault => simp [hrest, Except.map]
    | ok parts => simp [hrest, Except.map]
  | cons line body ih =>
    obtain ⟨hkeyword, hending⟩ := hbody line List.mem_cons_self
    have hmore := ih fun x hx => hbody x (List.mem_cons_of_mem line hx)
    simp only [List.cons_append, untilEnd, hkeyword, if_neg hending, hmore]
    cases untilEnd opening opener rest with
    | error fault => rfl
    | ok parts => rfl

/-- Lines that may stand inside a block are read up to the `end` after them. -/
theorem untilEnd_of_inner {last : Line} (hbody : ∀ line ∈ body, Inner line)
    (hlast : LineRole.of last.text = .ending) :
    untilEnd opening opener (body ++ last :: after) = .ok (body, after) := by
  -- an `end` opens no block
  have hkeyword : openingKeyword? (LineRole.of last.text) = none := by rw [hlast]; rfl
  have hend : untilEnd opening opener (last :: after) = .ok ([], after) := by
    simp only [untilEnd, hkeyword, if_pos hlast]
  rw [untilEnd_append hbody, hend]
  simp [Except.map]

/-- A block that is read runs up to the first `end`, and no line in it opens another block. -/
theorem untilEnd_ok (h : untilEnd opening opener lines = .ok (body, after)) :
    ∃ last, LineRole.of last.text = .ending ∧ (∀ line ∈ body, Inner line) ∧
      lines = body ++ last :: after := by
  -- by induction on the lines below the opening one, up to the first end among them
  induction lines generalizing body with
  | nil => cases h
  | cons line rest ih =>
    simp only [untilEnd] at h
    cases hkeyword : openingKeyword? (LineRole.of line.text) with
    | some keyword =>
      simp only [hkeyword] at h
      cases h
    | none =>
      simp only [hkeyword] at h
      by_cases hending : LineRole.of line.text = .ending
      · rw [if_pos hending] at h
        cases h
        exact ⟨line, hending, fun x hx => absurd hx List.not_mem_nil, rfl⟩
      · rw [if_neg hending] at h
        obtain ⟨⟨inner, after'⟩, hrest, hpair⟩ := map_ok.mp h
        cases hpair
        obtain ⟨last, hlast, hinner, hlines⟩ := ih hrest
        -- a line that neither opens nor ends is one of the body
        refine ⟨last, hlast, ?_, by rw [hlines, List.cons_append]⟩
        intro x hx
        rcases List.mem_cons.mp hx with rfl | hx
        · exact ⟨hkeyword, hending⟩
        · exact hinner x hx

/-- A block cannot be read if another one opens before it ends, or if it does not end. -/
theorem untilEnd_error {fault : BlockFault} (h : untilEnd opening opener lines = .error fault) :
    (∃ before nested later keyword, lines = before ++ nested :: later ∧
      (∀ line ∈ before, Inner line) ∧
      openingKeyword? (LineRole.of nested.text) = some keyword ∧
      fault = ⟨nested.number, .nested keyword opener.name opening.number⟩) ∨
    ((∀ line ∈ lines, Inner line) ∧ fault = ⟨opening.number, .unterminated opener.name⟩) := by
  induction lines with
  | nil =>
    cases h
    exact .inr ⟨fun line hline => absurd hline List.not_mem_nil, rfl⟩
  | cons line rest ih =>
    simp only [untilEnd] at h
    cases hkeyword : openingKeyword? (LineRole.of line.text) with
    | some keyword =>
      -- a block may not hold another one
      simp only [hkeyword] at h
      cases h
      exact .inl ⟨[], line, rest, keyword, rfl, fun x hx => absurd hx List.not_mem_nil, hkeyword,
        rfl⟩
    | none =>
      simp only [hkeyword] at h
      by_cases hending : LineRole.of line.text = .ending
      · rw [if_pos hending] at h
        cases h
      · rw [if_neg hending] at h
        have hline : Inner line := ⟨hkeyword, hending⟩
        -- the line goes in front of those that are read before the fault
        rcases ih (map_error.mp h) with
          ⟨before, nested, later, keyword, rfl, hbefore, hnested, hfault⟩ | ⟨hall, hfault⟩
        · exact .inl ⟨line :: before, nested, later, keyword, rfl,
            List.forall_mem_cons.mpr ⟨hline, hbefore⟩, hnested, hfault⟩
        · exact .inr ⟨List.forall_mem_cons.mpr ⟨hline, hall⟩, hfault⟩

/-! ## Kinds -/

namespace Statement

def isHeader : Statement → Bool
  | header .. => true
  | _ => false

def isDeclaration : Statement → Bool
  | declaration .. => true
  | _ => false

def isPreset : Statement → Bool
  | preset .. => true
  | _ => false

def isBlock : Statement → Bool
  | block _ => true
  | _ => false

/-! ## Parts -/

/-- The statement of a line that opens no block. -/
def ofLine (line : Line) : Statement :=
  match LineRole.of line.text with
  | .header body => header line.number body
  | .declaration body => declaration line.number body
  | .preset body => preset line.number body
  | _ => pulse line

/-- The lines that a statement is made of. -/
inductive Makes : List Line → Statement → Prop where
  | line {line : Line} : opener? (LineRole.of line.text) = none → Makes [line] (ofLine line)
  | block {opening last : Line} {opener : Opener} {body : List Line} :
    opener? (LineRole.of opening.text) = some (.ok opener) → (∀ line ∈ body, Inner line) →
    LineRole.of last.text = .ending →
    Makes (opening :: (body ++ [last])) (.block (Block.of opener body))

/-- The lines that several statements are made of, one after another. -/
inductive Grouped : List Line → List Statement → Prop where
  | nil : Grouped [] []
  | cons {first rest : List Line} {statement : Statement} {statements : List Statement} :
    Makes first statement → Grouped rest statements →
    Grouped (first ++ rest) (statement :: statements)

variable {statement : Statement} {before later statements : List Statement}

/-- A line that is its own statement is a header, a declaration, a preset line or a pulse. -/
theorem ofLine_cases (line : Line) :
    (∃ body, LineRole.of line.text = .header body ∧ ofLine line = header line.number body) ∨
    (∃ body, LineRole.of line.text = .declaration body ∧
      ofLine line = declaration line.number body) ∨
    (∃ body, LineRole.of line.text = .preset body ∧ ofLine line = preset line.number body) ∨
    ofLine line = pulse line := by
  unfold ofLine
  cases LineRole.of line.text with
  | header body => exact .inl ⟨body, rfl, rfl⟩
  | declaration body => exact .inr (.inl ⟨body, rfl, rfl⟩)
  | preset body => exact .inr (.inr (.inl ⟨body, rfl, rfl⟩))
  | loop count => exact .inr (.inr (.inr rfl))
  | conditional condition => exact .inr (.inr (.inr rfl))
  | otherwise => exact .inr (.inr (.inr rfl))
  | ending => exact .inr (.inr (.inr rfl))
  | pulse => exact .inr (.inr (.inr rfl))

/-- A statement that is made of lines is no bad block. -/
theorem Makes.ne_badBlock (h : Makes lines statement) (fault : BlockFault) :
    statement ≠ .badBlock fault := by
  cases h with
  | @line line hopener =>
    rcases ofLine_cases line with ⟨_, _, h⟩ | ⟨_, _, h⟩ | ⟨_, _, h⟩ | h <;> simp [h]
  | block => simp

/-- A preset line is a line by itself. -/
theorem Makes.preset {number : Nat} {body : List Char} (h : Makes lines (.preset number body)) :
    ∃ line, lines = [line] ∧ line.number = number ∧ LineRole.of line.text = .preset body := by
  generalize hstatement : Statement.preset number body = statement at h
  cases h with
  | @line line hopener =>
    rcases ofLine_cases line with ⟨_, _, h⟩ | ⟨_, _, h⟩ | ⟨_, hrole, h⟩ | h
    · simp [h] at hstatement
    · simp [h] at hstatement
    · rw [h] at hstatement
      cases hstatement
      exact ⟨line, rfl, rfl, hrole⟩
    · simp [h] at hstatement
  | block => cases hstatement

/-! ## Parts are grouped alone -/

theorem ofLines_nil : ofLines [] = [] := by
  rw [ofLines]

/-- A line that opens no block is a statement. -/
theorem ofLines_of_opener_none {line : Line} (h : opener? (LineRole.of line.text) = none)
    (rest : List Line) : ofLines (line :: rest) = ofLine line :: ofLines rest := by
  rw [ofLines]
  simp only [h]
  unfold ofLine
  cases LineRole.of line.text with
  | header body => rfl
  | declaration body => rfl
  | loop count => rfl
  | conditional condition => rfl
  | preset body => rfl
  | otherwise => rfl
  | ending => rfl
  | pulse => rfl

/-- A block from its opening line to its `end` is a statement. -/
theorem ofLines_of_collect {block : Block}
    (hopener : opener? (LineRole.of opening.text) = some (.ok opener))
    (h : Block.collect opening opener lines = .ok (block, after)) :
    ofLines (opening :: lines) = .block block :: ofLines after := by
  rw [ofLines]
  simp only [hopener]
  split
  · next fault hfault =>
    rw [h] at hfault
    cases hfault
  · next collected after' hok =>
    rw [h] at hok
    cases hok
    rfl

/-- A block that cannot be read is the last statement. -/
theorem ofLines_of_collect_error {fault : BlockFault}
    (hopener : opener? (LineRole.of opening.text) = some (.ok opener))
    (h : Block.collect opening opener lines = .error fault) :
    ofLines (opening :: lines) = [.badBlock fault] := by
  rw [ofLines]
  simp only [hopener]
  split
  · next fault' hfault =>
    rw [h] at hfault
    cases hfault
    rfl
  · next collected after' hok =>
    rw [h] at hok
    cases hok

/-- What follows a statement does not change it. -/
theorem Makes.ofLines_append (h : Makes lines statement) (rest : List Line) :
    ofLines (lines ++ rest) = statement :: ofLines rest := by
  cases h with
  | line hopener => exact ofLines_of_opener_none hopener rest
  | block hopener hbody hlast =>
    rw [List.cons_append, List.append_assoc, List.singleton_append]
    apply ofLines_of_collect hopener
    unfold Block.collect
    rw [untilEnd_of_inner hbody hlast]
    rfl

/-- What follows some statements does not change them. -/
theorem Grouped.ofLines_append (h : Grouped lines statements) (rest : List Line) :
    ofLines (lines ++ rest) = statements ++ ofLines rest := by
  induction h with
  | nil => rfl
  | cons hfirst _ ih => rw [List.append_assoc, hfirst.ofLines_append, ih, List.cons_append]

theorem Grouped.ofLines (h : Grouped lines statements) : ofLines lines = statements := by
  have happend := h.ofLines_append []
  rwa [List.append_nil, ofLines_nil, List.append_nil] at happend

/-! ## Statements have parts -/

/-- The first lines make a statement, or all lines are a bad block. -/
theorem makes_or_badBlock (line : Line) (rest : List Line) :
    (∃ first later statement, line :: rest = first ++ later ∧ Makes first statement) ∨
      ∃ fault, ofLines (line :: rest) = [.badBlock fault] := by
  -- a line that opens no block is a statement; a block that does not end takes the rest with it
  cases hopener : opener? (LineRole.of line.text) with
  | none => exact .inl ⟨[line], rest, ofLine line, rfl, .line hopener⟩
  | some outcome =>
    cases outcome with
    | error e =>
      refine .inr ⟨⟨line.number, e⟩, ?_⟩
      rw [ofLines]
      simp only [hopener]
    | ok opener =>
      cases hread : untilEnd line opener rest with
      | error fault =>
        have hcollect : Block.collect line opener rest = .error fault := by
          rw [Block.collect, hread]
          rfl
        exact .inr ⟨fault, ofLines_of_collect_error hopener hcollect⟩
      | ok parts =>
        obtain ⟨last, hlast, hbody, hrest⟩ := untilEnd_ok hread
        refine .inl ⟨line :: (parts.1 ++ [last]), parts.2, _, ?_, .block hopener hbody hlast⟩
        rw [hrest, List.cons_append, List.append_assoc, List.singleton_append]

/-- No line is lost: where there are lines, there is a statement. -/
theorem eq_nil_of_ofLines (h : ofLines lines = []) : lines = [] := by
  cases lines with
  | nil => rfl
  | cons line rest =>
    rcases makes_or_badBlock line rest with ⟨first, later, statement, hlines, hmakes⟩ | ⟨_, hbad⟩
    · rw [hlines, hmakes.ofLines_append] at h
      cases h
    · rw [hbad] at h
      cases h

/-- The first statement is a bad block, and then there is no other, or it is made of the first
    lines, and the other statements of the lines after them. -/
theorem ofLines_eq_cons (h : ofLines lines = statement :: later) :
    (∃ fault, statement = .badBlock fault ∧ later = []) ∨
      ∃ first rest, lines = first ++ rest ∧ Makes first statement ∧ ofLines rest = later := by
  cases lines with
  | nil =>
    rw [ofLines_nil] at h
    cases h
  | cons line rest =>
    rcases makes_or_badBlock line rest with ⟨first, after, made, hlines, hmakes⟩ | ⟨fault, hbad⟩
    · rw [hlines, hmakes.ofLines_append, List.cons.injEq] at h
      obtain ⟨rfl, hlater⟩ := h
      exact .inr ⟨first, after, hlines, hmakes, hlater⟩
    · rw [hbad, List.cons.injEq] at h
      exact .inl ⟨fault, h.1.symm, h.2.symm⟩

/-- The statements before others are made of the lines before those of the others. -/
theorem ofLines_eq_append (h : ofLines lines = before ++ later) (hlater : later ≠ []) :
    ∃ first rest, lines = first ++ rest ∧ Grouped first before ∧ ofLines rest = later := by
  induction before generalizing lines with
  | nil => exact ⟨[], lines, rfl, .nil, h⟩
  | cons statement before ih =>
    rcases ofLines_eq_cons h with ⟨fault, _, hlast⟩ | ⟨first, rest, rfl, hfirst, hrest⟩
    · -- a bad block is the last statement, but there are later ones
      exact absurd (List.append_eq_nil_iff.mp hlast).2 hlater
    · obtain ⟨middle, rest, rfl, hmiddle, hrest⟩ := ih hrest
      exact ⟨first ++ middle, rest, (List.append_assoc ..).symm, .cons hfirst hmiddle, hrest⟩

/-- A statement that is no bad block is made of some of the lines, those before it of the lines
    before them, and those after it of the lines after them. -/
theorem ofLines_eq_append_cons (h : ofLines lines = before ++ statement :: later)
    (hgood : ∀ fault, statement ≠ .badBlock fault) :
    ∃ first middle rest, lines = first ++ (middle ++ rest) ∧ Grouped first before ∧
      Makes middle statement ∧ ofLines rest = later := by
  obtain ⟨first, rest, rfl, hfirst, hrest⟩ := ofLines_eq_append h (List.cons_ne_nil _ _)
  rcases ofLines_eq_cons hrest with ⟨fault, hbad, _⟩ | ⟨middle, rest, rfl, hmiddle, hrest⟩
  · exact absurd hbad (hgood fault)
  · exact ⟨first, middle, rest, rfl, hfirst, hmiddle, hrest⟩

/-- Lines of which no bad block is made are grouped completely. -/
theorem grouped_of_noBadBlock (h : ∀ fault, .badBlock fault ∉ ofLines lines) :
    Grouped lines (Statement.ofLines lines) := by
  generalize hstatements : Statement.ofLines lines = statements at h ⊢
  -- by induction on the statements, each of which takes its own lines off
  induction statements generalizing lines with
  | nil =>
    rw [eq_nil_of_ofLines hstatements]
    exact .nil
  | cons statement later ih =>
    rcases ofLines_eq_cons hstatements with ⟨fault, rfl, _⟩ | ⟨first, rest, rfl, hfirst, hrest⟩
    · exact absurd List.mem_cons_self (h fault)
    · refine .cons hfirst (ih hrest ?_)
      intro fault hmem
      exact h fault (List.mem_cons_of_mem _ hmem)

end Statement

end PulseTrain.Script
