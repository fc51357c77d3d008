import PulseTrain.Proofs.Preset.Arguments
import PulseTrain.Proofs.Text.Integer

/-! # Argument texts that are read again

    An argument is put into a script as the text of its value. A parameter that has accepted some
    text as a value accepts the text of this value as well, and reads it as the same value, if the
    value is finite. A literal that is too great for a double is read as an infinite number, though,
    and the text of an infinity is no literal.

    * **Values**: `Value.IsFinite`, and `Value.refusal` for the report of the others;
    * **Kinds**: `readKind_toChars`, kind by kind;
    * **Result**: `read_toChars_of_read`.
-/

namespace PulseTrain.Preset

open Success

/-! ## Values -/

/-- What is said of the text of a value that is not finite. -/
def Value.refusal (v : Value) : ValueError :=
  match v with
  | .time _ => .expression (.notTime v.toText)
  | _ => .notNumber v.toText

variable {p : Parameter} {text : List Char} {v : Value} {kind : Kind}

/-! ## Kinds -/

theorem trim_time (t : Duration) :
    Text.trim (Value.time t).toChars = (Value.time t).toChars :=
  ((Decimal.word_chars rfl _).append (by decide)).trim_eq

/-- What a text was read as has no blanks around its own text. -/
theorem trim_toChars (h : Parameter.readKind (Text.trim text) kind = .ok v) :
    Text.trim v.toChars = v.toChars := by
  cases v with
  | time t => exact trim_time t
  | float y => exact (Decimal.word_chars rfl _).trim_eq
  | integer n => exact (Decimal.word_integerText n).trim_eq
  | reference name k => exact absurd rfl ((readKind_ok h).2 name k)
  -- a text is the only value that can hold blanks, and it is stored trimmed
  | text s =>
    cases kind with
    | text =>
      cases h
      show Text.trim (String.ofList _).toList = (String.ofList _).toList
      rw [String.toList_ofList, Text.trim_trim]
    | time => cases (readKind_ok h).1
    | float => cases (readKind_ok h).1
    | integer => cases (readKind_ok h).1

theorem readKind_time (t : Duration) : Parameter.readKind (Value.time t).toChars .time =
    if (Value.time t).IsFinite then .ok (.time t) else .error (Value.time t).refusal := by
  show ((Expression.time (Value.time t).toChars).map Value.time).mapError ValueError.expression = _
  cases hfinite : t.seconds.isFinite with
  | true =>
    rw [if_pos (by rintro x ⟨⟩; exact hfinite),
      show Expression.time (Value.time t).toChars = _ from Expression.time_chars hfinite]
    rfl
  | false =>
    have hread := Expression.read?_chars_of_not_finite Decimal.scientific hfinite (Or.inr rfl)
    rw [if_neg (fun h => by rw [h _ rfl] at hfinite; cases hfinite),
      show Expression.time (Value.time t).toChars = _ from Expression.time_of_read?_none hread,
      Expression.quoted, trim_time]
    rfl

theorem readKind_float (y : Float) : Parameter.readKind (Value.float y).toChars .float =
    if (Value.float y).IsFinite then .ok (.float y) else .error (Value.float y).refusal := by
  have hchars : (Value.float y).toChars = Decimal.plain.chars y := rfl
  simp only [Parameter.readKind, hchars]
  cases hfinite : y.isFinite with
  | true => rw [if_pos (by rintro x ⟨⟩; exact hfinite), Expression.number?_chars hfinite]
  | false =>
    have hread := Expression.read?_chars_of_not_finite Decimal.plain hfinite (Or.inl rfl)
    rw [List.append_nil] at hread
    rw [if_neg (fun h => by rw [h _ rfl] at hfinite; cases hfinite),
      Expression.number?_of_read?_none hread]
    rfl

/-- The text of a value that has been read, kind by kind. -/
theorem readKind_toChars (h : Parameter.readKind text kind = .ok v) :
    Parameter.readKind v.toChars kind = if v.IsFinite then .ok v else .error v.refusal := by
  obtain ⟨hkind, hreference⟩ := readKind_ok h
  subst hkind
  cases v with
  | time t => exact readKind_time t
  | float y => exact readKind_float y
  | integer n =>
    -- an integer that has been read is in range, so its digits are read again
    have hinteger : Text.integer64? text = some n := by
      simp only [Value.kind, Parameter.readKind] at h
      split at h
      · next m hm =>
        cases h
        exact hm
      · cases h
    rw [if_pos (by rintro x ⟨⟩)]
    simp only [Value.kind, Parameter.readKind, Value.toChars,
      Text.integer64?_integerText (Text.inRange_of_read hinteger)]
  | text s =>
    rw [if_pos (by rintro x ⟨⟩)]
    simp only [Value.kind, Parameter.readKind, Value.toChars, String.ofList_toList]
  | reference name k => exact absurd rfl (hreference name k)

/-! ## Result -/

/-- **Read back**: if a parameter has accepted a text as a value, it reads the text of the value as
    the same value if this is finite. If it is infinite, its text is refused as no time or no
    number. -/
theorem read_toChars_of_read (h : p.read text = .ok v) :
    p.read v.toChars = if v.IsFinite then .ok v else .error v.refusal := by
  unfold Parameter.read at h ⊢
  dsimp only at h ⊢
  obtain ⟨value, hvalue, h⟩ := bind_ok.mp h
  split at h
  · next hallowed =>
    cases h
    rw [trim_toChars hvalue, readKind_toChars hvalue]
    -- the value is allowed as before, if it can be read at all
    by_cases hfinite : v.IsFinite
    · rw [if_pos hfinite]
      exact if_pos hallowed
    · rw [if_neg hfinite]
      rfl
  · cases h

/-- A wait of 100 ns unless another one is given. -/
def wait : Parameter := ⟨"wait", .time ⟨1e-7⟩, []⟩

theorem wait_read_toChars : wait.read "2us".toList = .ok (.time ⟨2e-6⟩) ∧
    wait.read (Value.time ⟨2e-6⟩).toChars =
      if (Value.time ⟨2e-6⟩).IsFinite then .ok (.time ⟨2e-6⟩) else
        .error (Value.time ⟨2e-6⟩).refusal := by
  have h : wait.read "2us".toList = .ok (.time ⟨2e-6⟩) := by decide +kernel
  exact ⟨h, read_toChars_of_read h⟩

/-- A time that is too great for a double is accepted, and its text is refused. -/
theorem endless_wait_not_read : ∃ v, wait.read "1e999s".toList = .ok v ∧
    v.toText = "infs" ∧ wait.read v.toChars = .error (.expression (.notTime "infs")) := by
  refine ⟨.time ⟨1.0 / 0.0⟩, ?_, ?_, ?_⟩
  · decide +kernel
  · decide +kernel
  · decide +kernel

end PulseTrain.Preset
