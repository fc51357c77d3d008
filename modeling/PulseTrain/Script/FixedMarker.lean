import PulseTrain.Text.Word

/-! # The fixed marker

    The marker `[fixed]` may stand anywhere in a pulse line, even inside a word. Its letters may be
    in any case, and blanks may stand inside the brackets. All markers are taken out before the line
    is read any further, in one pass from the left; what closes up around a marker is not searched
    again.

    * `removeMarkers` gives the line without markers, and whether there was one.
-/

namespace PulseTrain.Script

/-- The text after a marker at the start of `s`. -/
def afterMarker? (s : List Char) : Option (List Char) :=
  match s with
  | '[' :: inside =>
    let word := Text.trimStart inside
    if Text.isWord "fixed" (word.take 5) then
      match Text.trimStart (word.drop 5) with
      | ']' :: rest => some rest
      | _ => none
    else none
  | _ => none

theorem length_trimStart_le (s : List Char) : (Text.trimStart s).length ≤ s.length :=
  (List.dropWhile_sublist _).length_le

/-- A marker has at least two characters. -/
theorem length_of_afterMarker? {s rest : List Char} (h : afterMarker? s = some rest) :
    rest.length < s.length := by
  unfold afterMarker? at h
  split at h
  · rename_i inside
    simp only at h
    split at h
    · split at h
      · rename_i closing hclosing
        obtain rfl := Option.some.inj h
        -- trimming and dropping only shorten, and the closing bracket is taken for good
        have outer := length_trimStart_le ((Text.trimStart inside).drop 5)
        have inner := length_trimStart_le inside
        rw [hclosing] at outer
        simp only [List.length_cons, List.length_drop] at outer ⊢
        omega
      · cases h
    · cases h
  · cases h

/-- The text without markers, and whether there was one. -/
def removeMarkers (s : List Char) : List Char × Bool :=
  match s with
  | [] => ([], false)
  | c :: rest =>
    match _h : afterMarker? (c :: rest) with
    | some after => ((removeMarkers after).1, true)
    | none =>
      let (text, marked) := removeMarkers rest
      (c :: text, marked)
termination_by s.length
decreasing_by
  · exact length_of_afterMarker? _h
  · simp

/-- A marker at the start is taken out. -/
theorem removeMarkers_of_some {s rest : List Char} (h : afterMarker? s = some rest) :
    removeMarkers s = ((removeMarkers rest).1, true) := by
  cases s with
  | nil => cases h
  | cons c s =>
    rw [removeMarkers]
    split
    · rename_i after hafter
      rw [h] at hafter
      cases hafter
      rfl
    · rename_i hnone
      rw [h] at hnone
      cases hnone

/-- A character at which no marker starts stays. -/
theorem removeMarkers_of_none {c : Char} {s : List Char} (h : afterMarker? (c :: s) = none) :
    removeMarkers (c :: s) = (c :: (removeMarkers s).1, (removeMarkers s).2) := by
  rw [removeMarkers]
  split
  · rename_i after hafter
    rw [h] at hafter
    cases hafter
  · rfl

end PulseTrain.Script
