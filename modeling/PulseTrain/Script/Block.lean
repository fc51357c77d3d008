import PulseTrain.Script.Line
import PulseTrain.Text.Integer

/-! # Blocks

    A `loop:` or `if ` line opens a block, which runs to the next `end`. Blocks do not nest. The
    first `else` of a conditional parts its branches. Every other line of a block is a pulse, or is
    passed over as a bad one, whatever keyword it begins with.

    * `untilEnd` finds the lines of a block and the lines after it;
    * `Block.collect` makes a block of them.
-/

namespace PulseTrain.Script

inductive Opener where
  | loop (iterations : UInt32)
  | conditional (condition : String)
deriving DecidableEq, Repr

def Opener.name : Opener → String
  | .loop _ => "loop"
  | .conditional _ => "if"

inductive BlockError where
  | badCount (text : String)
  /-- A block opens inside the block that was opened on an earlier line. -/
  | nested (keyword : String) (outer : String) (openingLine : Nat)
  | unterminated (block : String)
deriving DecidableEq, Repr

def BlockError.message : BlockError → String
  | .badCount text => "loop count must be a non-negative integer, got '" ++ text ++ "'"
  | .nested keyword outer openingLine =>
    "nested '" ++ keyword ++ "' blocks are not supported (" ++ outer ++ " block opened at line "
      ++ toString openingLine ++ ")"
  | .unterminated block => "unterminated " ++ block ++ " block, missing 'end'"

/-- An error and the number of the line it is about. -/
structure BlockFault where
  line : Nat
  error : BlockError
deriving DecidableEq, Repr

/-- The block that a line opens, if it is an opening line; its count may be wrong. -/
def opener? : LineRole → Option (Except BlockError Opener)
  | .loop count =>
    let text := Text.trim count
    match Text.natural32? text with
    | some iterations => some (.ok (.loop iterations))
    | none => some (.error (.badCount (String.ofList text)))
  | .conditional condition => some (.ok (.conditional (String.ofList (Text.trim condition))))
  | _ => none

/-- The keyword of an opening line. -/
def openingKeyword? : LineRole → Option String
  | .loop _ => some "loop:"
  | .conditional _ => some "if"
  | _ => none

/-- The lines before the first `end`, and the lines after it. -/
def untilEnd (opening : Line) (opener : Opener) :
    List Line → Except BlockFault (List Line × List Line)
  | [] => .error ⟨opening.number, .unterminated opener.name⟩
  | line :: rest =>
    let kind := LineRole.of line.text
    match openingKeyword? kind with
    | some keyword => .error ⟨line.number, .nested keyword opener.name opening.number⟩
    | none =>
      if kind = .ending then .ok ([], rest)
      else (untilEnd opening opener rest).map fun (body, after) => (line :: body, after)

/-- Nothing after a block comes before it. -/
theorem length_of_untilEnd {opening : Line} {opener : Opener} {lines body after : List Line}
    (h : untilEnd opening opener lines = .ok (body, after)) : after.length < lines.length := by
  -- by induction on the lines, of which the one that ends the block is gone at least
  induction lines generalizing body with
  | nil => simp [untilEnd] at h
  | cons line rest ih =>
    simp only [untilEnd] at h
    split at h
    · cases h
    · split at h
      · cases h
        simp
      · cases hr : untilEnd opening opener rest with
        | error e => simp [hr, Except.map] at h
        | ok pair =>
          simp only [hr, Except.map, Except.ok.injEq, Prod.mk.injEq] at h
          have shorter : after.length < rest.length := @ih pair.1 (by rw [hr, ← h.2])
          simp only [List.length_cons]
          omega

/-- The lines of a block, parted at the first `else` if it is a conditional. -/
inductive Block where
  | loop (iterations : UInt32) (body : List Line)
  | conditional (condition : String) (whenTrue : List Line) (whenFalse : Option (List Line))
deriving DecidableEq, Repr

/-- Whether a line parts the branches of a conditional. -/
def isElse (line : Line) : Bool := LineRole.of line.text = .otherwise

namespace Block

/-- The block of the lines inside it. -/
def of : Opener → List Line → Block
  | .loop iterations, body => loop iterations body
  | .conditional condition, body =>
    match body.dropWhile (!isElse ·) with
    | [] => conditional condition body none
    | _ :: whenFalse => conditional condition (body.takeWhile (!isElse ·)) (some whenFalse)

/-- The block that `opening` opens at the start of `rest`, and the lines after its `end`. -/
def collect (opening : Line) (opener : Opener) (rest : List Line) :
    Except BlockFault (Block × List Line) :=
  (untilEnd opening opener rest).map fun (body, after) => (of opener body, after)

/-- Nothing after a block comes before it. -/
theorem length_of_collect {opening : Line} {opener : Opener} {lines after : List Line}
    {block : Block} (h : collect opening opener lines = .ok (block, after)) :
    after.length < lines.length := by
  unfold collect at h
  cases hu : untilEnd opening opener lines with
  | error e => simp [hu, Except.map] at h
  | ok pair =>
    simp only [hu, Except.map, Except.ok.injEq, Prod.mk.injEq] at h
    have same : untilEnd opening opener lines = .ok (pair.1, after) := by rw [hu, ← h.2]
    exact length_of_untilEnd same

end Block

end PulseTrain.Script
