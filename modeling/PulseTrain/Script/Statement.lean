import PulseTrain.Script.Block

/-! # Statements

    A script is a list of statements. Most are a single line, and a block is one statement. A block
    that cannot be read is the last statement, because where it ends is not known.

    * `Statement.ofLines` groups lines to statements.
-/

namespace PulseTrain.Script

/-- What a script says in one step. -/
inductive Statement where
  | header (line : Nat) (body : List Char)
  | declaration (line : Nat) (body : List Char)
  | preset (line : Nat) (body : List Char)
  | block (block : Block)
  | badBlock (fault : BlockFault)
  /-- A pulse, or anything that no other statement is. -/
  | pulse (line : Line)
deriving DecidableEq, Repr

namespace Statement

def ofLines (lines : List Line) : List Statement :=
  match lines with
  | [] => []
  | line :: rest =>
    match opener? (LineRole.of line.text) with
    | some (.error error) => [badBlock ⟨line.number, error⟩]
    | some (.ok opener) =>
      match _h : Block.collect line opener rest with
      | .error fault => [badBlock fault]
      | .ok (collected, after) => block collected :: ofLines after
    | none =>
      match LineRole.of line.text with
      | .header body => header line.number body :: ofLines rest
      | .declaration body => declaration line.number body :: ofLines rest
      | .preset body => preset line.number body :: ofLines rest
      | _ => pulse line :: ofLines rest
termination_by lines.length
decreasing_by
  · have := Block.length_of_collect _h
    simp only [List.length_cons]
    omega
  all_goals simp

def ofText (text : List Char) : List Statement := ofLines (contentLines text)

end Statement

end PulseTrain.Script
