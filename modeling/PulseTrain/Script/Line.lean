import PulseTrain.Text.Word
import PulseTrain.Text.Split

/-! # Lines of a script

    A script is read line by line. Blank lines and lines that begin with `#` say nothing; of the
    others the first word tells what they are, and a line that begins with no keyword is taken for a
    pulse.

    * `contentLines` numbers the lines from one and drops those that say nothing;
    * `LineRole.of` sorts a line by its keyword.
-/

namespace PulseTrain.Script

/-- A line of a text, without the blanks around it, under its number counted from one. -/
structure Line where
  number : Nat
  text : List Char
deriving DecidableEq, Repr

/-- Whether a line without blanks around it says anything. -/
def isSignificant (text : List Char) : Bool :=
  match text with
  | [] => false
  | c :: _ => c ≠ '#'

/-- The lines that say something, with their numbers in the whole text. -/
def contentLines (text : List Char) : List Line :=
  ((Text.splitOn '\n' text).zipIdx 1).filterMap fun (line, number) =>
    let trimmed := Text.trim line
    if isSignificant trimmed then some ⟨number, trimmed⟩ else none

/-- What a line is. The text is what follows the keyword. -/
inductive LineRole where
  | header (body : List Char)
  | declaration (body : List Char)
  | loop (count : List Char)
  | conditional (condition : List Char)
  | preset (body : List Char)
  | otherwise
  | ending
  | pulse
deriving DecidableEq, Repr

/-- The text after a word at its start. -/
def after? : (word s : List Char) → Option (List Char)
  | [], s => some s
  | _ :: _, [] => none
  | w :: word, c :: s => if w = c then after? word s else none

def startsBlank : List Char → Bool
  | [] => false
  | c :: _ => Text.isBlank c

namespace LineRole

/-- The kind of a line, told by its first word. The word `variable` needs a blank after it, because
    a pulse may be of a kind that begins with these letters. -/
def of (text : List Char) : LineRole :=
  match after? "sequence:".toList text with
  | some body => header body
  | none =>
    match (after? "variable".toList text).filter startsBlank with
    | some body => declaration body
    | none =>
      match after? "loop:".toList text with
      | some count => loop count
      | none =>
        match after? "if ".toList text with
        | some condition => conditional condition
        | none =>
          match after? "load preset:".toList text with
          | some body => preset body
          | none =>
            if text = "else".toList then otherwise
            else if text = "end".toList then ending
            else pulse

end LineRole

end PulseTrain.Script
