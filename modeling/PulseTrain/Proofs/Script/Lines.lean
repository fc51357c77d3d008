import Mathlib.Data.List.Basic
import PulseTrain.Script.Line

/-! # Lines of joined texts

    Texts that are joined with a line break between them have the lines of both, the lines of
    the second under higher numbers. Taking a line away leaves the other lines as they are, but
    for the numbers of those behind it.

    * **Pieces**: `splitOn_append` and `splitOn_join` cut a joined text where it was joined;
    * **Lines**: `linesFrom` numbers pieces, `text_linesFrom_append` says what joined lines say,
      `line_at_number` finds a line by its number, and `contentLines_between` and
      `contentLines_join` give the lines of a joined text.
-/

namespace PulseTrain.Text

variable {separator : Char}

/-! ## Pieces -/

/-- A text joined of two is cut into the pieces of both. -/
theorem splitOn_append (a b : List Char) :
    splitOn separator (a ++ separator :: b) = splitOn separator a ++ splitOn separator b := by
  -- by induction on the first part, up to the separator behind it
  induction a with
  | nil => simp [splitOn]
  | cons c a ih =>
    rw [List.cons_append, splitOn, splitOn]
    by_cases h : c = separator
    · rw [if_pos h, if_pos h, ih, List.cons_append]
    · rw [if_neg h, if_neg h, ih]
      cases hpieces : splitOn separator a with
      | nil => exact absurd hpieces (splitOn_ne_nil separator a)
      | cons piece pieces => rfl

/-- A text without a separator is a single piece. -/
theorem splitOn_of_notMem {s : List Char} (h : separator ∉ s) : splitOn separator s = [s] := by
  induction s with
  | nil => rfl
  | cons c rest ih =>
    rw [List.mem_cons, not_or] at h
    have hc : c ≠ separator := fun e => h.1 e.symm
    rw [splitOn, if_neg hc, ih h.2]

/-- No piece has a separator in it. -/
theorem notMem_of_mem_splitOn {s piece : List Char} (h : piece ∈ splitOn separator s) :
    separator ∉ piece := by
  -- by induction on the text, where each character is put before the pieces of the rest
  induction s generalizing piece with
  | nil =>
    rw [splitOn, List.mem_singleton] at h
    simp [h]
  | cons c rest ih =>
    rw [splitOn] at h
    by_cases hc : c = separator
    · rw [if_pos hc] at h
      rcases List.mem_cons.mp h with rfl | hrest
      · simp
      · exact ih hrest
    · rw [if_neg hc] at h
      cases hpieces : splitOn separator rest with
      | nil => exact absurd hpieces (splitOn_ne_nil separator rest)
      | cons first pieces =>
        rw [hpieces] at h ih
        -- the character is put before the first piece, which has no separator either
        rcases List.mem_cons.mp h with rfl | hlater
        · have hfirst := ih List.mem_cons_self
          rw [List.mem_cons, not_or]
          exact ⟨fun e => hc e.symm, hfirst⟩
        · exact ih (List.mem_cons_of_mem _ hlater)

/-- Pieces that are joined are found again by cutting. -/
theorem splitOn_join {pieces : List (List Char)} (hne : pieces ≠ [])
    (h : ∀ piece ∈ pieces, separator ∉ piece) :
    splitOn separator (join [separator] pieces) = pieces := by
  -- by induction on the pieces, since none of them holds a separator of its own
  induction pieces with
  | nil => exact absurd rfl hne
  | cons piece pieces ih =>
    have hpiece : splitOn separator piece = [piece] :=
      splitOn_of_notMem (h piece List.mem_cons_self)
    cases pieces with
    | nil =>
      rw [show join [separator] [piece] = piece by simp [join]]
      exact hpiece
    | cons next rest =>
      have hrest := ih (List.cons_ne_nil next rest) fun p hp => h p (List.mem_cons_of_mem _ hp)
      rw [join_cons (List.cons_ne_nil next rest), List.append_assoc, List.singleton_append,
        splitOn_append, hrest, hpiece]
      rfl

end PulseTrain.Text

namespace PulseTrain.Script

/-! ## Lines -/

/-- The lines of some pieces that say something, numbered from `first` on. -/
def linesFrom (first : Nat) (pieces : List (List Char)) : List Line :=
  (pieces.zipIdx first).filterMap fun (line, number) =>
    let trimmed := Text.trim line
    if isSignificant trimmed then some ⟨number, trimmed⟩ else none

theorem contentLines_eq (text : List Char) :
    contentLines text = linesFrom 1 (Text.splitOn '\n' text) := rfl

theorem linesFrom_append (first : Nat) (xs ys : List (List Char)) :
    linesFrom first (xs ++ ys) = linesFrom first xs ++ linesFrom (first + xs.length) ys := by
  unfold linesFrom
  rw [List.zipIdx_append, List.filterMap_append]

theorem linesFrom_singleton (first : Nat) (piece : List Char) :
    linesFrom first [piece] =
      if isSignificant (Text.trim piece) then [⟨first, Text.trim piece⟩] else [] := by
  by_cases h : isSignificant (Text.trim piece) = true
  · simp [linesFrom, h]
  · simp [linesFrom, h]

/-- The lines around a line that is looked at, which may say nothing. -/
theorem linesFrom_around (before : List (List Char)) (piece : List Char)
    (behind : List (List Char)) :
    linesFrom 1 (before ++ piece :: behind) =
      linesFrom 1 before ++
        (linesFrom (before.length + 1) [piece] ++ linesFrom (before.length + 2) behind) := by
  rw [← List.singleton_append, linesFrom_append, linesFrom_append, List.length_singleton,
    Nat.add_comm 1]

/-- Where the numbering begins does not matter to what the lines say. -/
theorem text_linesFrom (first first' : Nat) (pieces : List (List Char)) :
    (linesFrom first pieces).map (·.text) = (linesFrom first' pieces).map (·.text) := by
  -- by induction on the pieces; whether a line is significant does not depend on its number
  induction pieces generalizing first first' with
  | nil => rfl
  | cons piece pieces ih =>
    have hrest := ih (first + 1) (first' + 1)
    rw [← List.singleton_append, linesFrom_append, linesFrom_append, List.map_append,
      List.map_append, linesFrom_singleton, linesFrom_singleton]
    simp only [List.length_singleton, hrest]
    congr 1
    split
    · rfl
    · rfl

/-- The numbers of a text are those of its lines. -/
theorem number_of_mem_linesFrom {first : Nat} {pieces : List (List Char)} {line : Line}
    (h : line ∈ linesFrom first pieces) :
    first ≤ line.number ∧ line.number < first + pieces.length := by
  obtain ⟨⟨piece, number⟩, hmem, hline⟩ := List.mem_filterMap.mp h
  simp only at hline
  split at hline
  · cases hline
    exact ⟨List.le_snd_of_mem_zipIdx hmem, List.snd_lt_add_of_mem_zipIdx hmem⟩
  · cases hline

/-- A line is found again by its number. -/
theorem line_at_number {before behind : List (List Char)} {piece : List Char} {line : Line}
    (h : line ∈ linesFrom 1 (before ++ piece :: behind))
    (hnumber : line.number = before.length + 1) :
    linesFrom (before.length + 1) [piece] = [line] ∧ line ∉ linesFrom 1 before ∧
      line ∉ linesFrom (before.length + 2) behind := by
  have hbefore : line ∉ linesFrom 1 before := by
    intro hmem
    have hbounds := number_of_mem_linesFrom hmem
    omega
  have hbehind : line ∉ linesFrom (before.length + 2) behind := by
    intro hmem
    have hbounds := number_of_mem_linesFrom hmem
    omega
  -- the numbers before and behind are others, so the line is the one in the middle
  have hmem : line ∈ linesFrom (before.length + 1) [piece] := by
    rw [linesFrom_around, List.mem_append, List.mem_append] at h
    tauto
  refine ⟨?_, hbefore, hbehind⟩
  rw [linesFrom_singleton] at hmem ⊢
  by_cases hsignificant : isSignificant (Text.trim piece) = true
  · rw [if_pos hsignificant] at hmem ⊢
    rw [List.mem_singleton.mp hmem]
  · rw [if_neg hsignificant] at hmem
    cases hmem

/-- What joined lines say is what each of them says. -/
theorem text_linesFrom_append (first first' first'' : Nat) (xs ys : List (List Char)) :
    (linesFrom first (xs ++ ys)).map (·.text) =
      (linesFrom first' xs ++ linesFrom first'' ys).map (·.text) := by
  rw [linesFrom_append, List.map_append, List.map_append, text_linesFrom first first' xs,
    text_linesFrom _ first'' ys]

/-- The number of lines of a text, those counted that say nothing. -/
def lineCount (text : List Char) : Nat := (Text.splitOn '\n' text).length

/-- Three texts with line breaks between them have the lines of all three. -/
theorem contentLines_between (above middle below : String) :
    contentLines (above ++ "\n" ++ middle ++ "\n" ++ below).toList =
      linesFrom 1 (Text.splitOn '\n' above.toList ++
        (Text.splitOn '\n' middle.toList ++ Text.splitOn '\n' below.toList)) := by
  have hchars : (above ++ "\n" ++ middle ++ "\n" ++ below).toList =
      above.toList ++ '\n' :: (middle.toList ++ '\n' :: below.toList) := by simp
  rw [hchars, contentLines_eq, Text.splitOn_append, Text.splitOn_append]

/-- Pieces that are joined to a text are its lines. -/
theorem contentLines_join {pieces : List (List Char)} (h : ∀ piece ∈ pieces, '\n' ∉ piece) :
    contentLines (Text.join ['\n'] pieces) = linesFrom 1 pieces := by
  cases pieces with
  | nil => decide
  | cons piece rest =>
    rw [contentLines_eq, Text.splitOn_join (List.cons_ne_nil piece rest) h]

end PulseTrain.Script
