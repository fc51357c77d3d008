/-! # Separators

    Lines are cut at line breaks, fields at commas and pairs at an equals sign.

    * `splitOn` cuts at every separator, so a text without one is a single piece;
    * `splitOnce?` cuts at the first separator, if there is one;
    * `join` puts pieces together again with a separator between them.
-/

namespace PulseTrain.Text

/-- The pieces between the separators, at least one. -/
def splitOn (separator : Char) : List Char → List (List Char)
  | [] => [[]]
  | c :: rest =>
    if c = separator then [] :: splitOn separator rest
    else
      match splitOn separator rest with
      | [] => [[c]]
      | piece :: pieces => (c :: piece) :: pieces

/-- There is always a first piece. -/
theorem splitOn_ne_nil (separator : Char) (s : List Char) : splitOn separator s ≠ [] := by
  cases s with
  | nil => simp [splitOn]
  | cons c rest =>
    unfold splitOn
    split
    · simp
    · split <;> simp

/-- What stands before and after the first separator. -/
def splitOnce? (separator : Char) (s : List Char) : Option (List Char × List Char) :=
  match s.dropWhile (· ≠ separator) with
  | [] => none
  | _ :: after => some (s.takeWhile (· ≠ separator), after)

/-- The pieces with a separator between neighbours. -/
def join (separator : List Char) (pieces : List (List Char)) : List Char :=
  (pieces.intersperse separator).flatten

theorem join_cons {separator : List Char} {piece : List Char} {pieces : List (List Char)}
    (h : pieces ≠ []) :
    join separator (piece :: pieces) = piece ++ separator ++ join separator pieces := by
  cases pieces with
  | nil => exact absurd rfl h
  | cons next rest => simp [join, List.intersperse]

end PulseTrain.Text
