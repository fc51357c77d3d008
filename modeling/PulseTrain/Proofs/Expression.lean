import PulseTrain.Expression
import PulseTrain.Proofs.Decimal.Writing
import PulseTrain.Proofs.Success
import PulseTrain.Proofs.Text.Words

/-! # Values that are written and read

    A time and an amplitude are written as a number, a time with its unit behind it. Both are read
    as what they were. What is written for an infinity or for NaN is no time and no amplitude, and
    is a name unless it has a sign.

    * **Characters**: `word_chars`, so that a value can stand between blanks and commas;
    * **Round trips**: `time_chars`, `number?_chars` and `amplitude_chars`;
    * **No values**: `read?_chars_of_not_finite` and `read?_of_isIdentifier`;
    * **Numbers**: whatever is read, it is never NaN, `isNaN_time` and `isNaN_value`.
-/

namespace PulseTrain.Decimal

/-! ## Characters of a number -/

/-- A digit, a sign, a point or the letter of an exponent. -/
def isNumeralChar (c : Char) : Bool := c.isDigit || c == '-' || c == '.' || c == 'e'

theorem all_numeral_of_digits {ds : List Char} (h : ∀ c ∈ ds, c.isDigit = true) :
    ds.all isNumeralChar = true := by
  rw [List.all_eq_true]
  intro c hc
  unfold isNumeralChar
  rw [h c hc]
  rfl

theorem all_signChars (negative : Bool) : (signChars negative).all isNumeralChar = true := by
  cases negative with
  | true => rfl
  | false => rfl

theorem all_integerText (n : ℤ) : (integerText n).all isNumeralChar = true := by
  rw [integerText_eq, List.all_append, all_signChars,
    all_numeral_of_digits fun c hc => isDigit_toDigits hc]
  rfl

theorem all_layOut {style : Style} (hending : style.wholeEnding = []) {d : Digits} {a : ℝ}
    (hd : d.Exact a) : (style.layOut d).all isNumeralChar = true := by
  -- the parts of a numeral, of which every character may stand in one
  have hdigits := all_numeral_of_digits hd.isDigit
  have htake : ∀ k, (d.digits.take k).all isNumeralChar = true := fun k =>
    all_numeral_of_digits fun c hc => hd.isDigit c (List.mem_of_mem_take hc)
  have hdrop : ∀ k, (d.digits.drop k).all isNumeralChar = true := fun k =>
    all_numeral_of_digits fun c hc => hd.isDigit c (List.mem_of_mem_drop hc)
  have hzeros : ∀ k, (List.replicate k '0').all isNumeralChar = true := fun k =>
    all_numeral_of_digits fun c hc => by rw [List.eq_of_mem_replicate hc]; rfl
  have hletter : isNumeralChar 'e' = true := rfl
  have hpoint : isNumeralChar '.' = true := rfl
  have hzero : isNumeralChar '0' = true := rfl
  -- each layout is put together from the parts above
  unfold Style.layOut
  split
  · unfold Digits.writeScientific
    rw [List.all_append, List.all_append, htake, List.all_cons, hletter, all_integerText]
    split
    · rfl
    · rw [List.all_cons, hpoint, hdrop]
      rfl
  · unfold Digits.writePositional
    dsimp only
    rw [hending]
    split
    · rw [List.all_cons, List.all_cons, List.all_append, hzero, hpoint, hzeros, hdigits]
      rfl
    · split
      · rw [List.append_nil, List.all_append, hdigits, hzeros]
        rfl
      · rw [List.all_append, List.all_cons, htake, hpoint, hdrop]
        rfl

theorem isWordChar_of_isNumeralChar {c : Char} (h : isNumeralChar c = true) :
    Text.isWordChar c = true := by
  unfold isNumeralChar at h
  simp only [Bool.or_eq_true, beq_iff_eq] at h
  -- a digit, a point, a minus or the letter of the exponent
  rcases h with ((hdigit | rfl) | rfl) | rfl
  · have hrange : 48 ≤ c.toNat ∧ c.toNat ≤ 57 := by
      simp only [Char.isDigit, Bool.and_eq_true, decide_eq_true_eq] at hdigit
      exact hdigit
    exact Text.isWordChar_of_toNat hrange.1 (by omega) (by omega)
  · decide
  · decide
  · decide

/-- What is written for a double is a word, also if it is no number. -/
theorem word_chars {style : Style} (hending : style.wholeEnding = []) (x : Float) :
    Text.Word (style.chars x) := by
  cases hb : Binary.ofFloat? x with
  | some b =>
    obtain ⟨⟨a, hexact⟩, _⟩ := shortest_readsBack hb
    have hall : (style.chars x).all isNumeralChar = true := by
      rw [chars_eq style hb, List.all_append, all_signChars, all_layOut hending hexact]
      rfl
    refine ⟨?_, ?_⟩
    · intro hnil
      -- an empty text would be read as a number again
      have hends : Ends [] := fun c hc => by cases hc
      obtain ⟨n, hread, _⟩ := read?_chars hending (isFinite_of_ofFloat? hb) hends
      rw [hnil] at hread
      cases hread
    · rw [List.all_eq_true] at hall ⊢
      exact fun c hc => isWordChar_of_isNumeralChar (hall c hc)
  | none =>
    -- NaN and the infinities have names of their own
    unfold Style.chars
    rw [hb]
    dsimp only
    split
    · decide
    · split
      · decide
      · decide

theorem word_integerText (n : ℤ) : Text.Word (integerText n) := by
  have hall := all_integerText n
  refine ⟨?_, ?_⟩
  · rw [integerText_eq]
    simp [Nat.toDigits_ne_nil]
  · rw [List.all_eq_true] at hall ⊢
    exact fun c hc => isWordChar_of_isNumeralChar (hall c hc)

/-- Letters and the underscore lie above the digits. -/
theorem isDigit_of_isNameStart {c : Char} (hc : Expression.isNameStart c = true) :
    c.isDigit = false := by
  have hrange : 65 ≤ c.toNat := by
    unfold Expression.isNameStart at hc
    simp only [Bool.or_eq_true, decide_eq_true_eq, Char.isAlpha, Char.isUpper, Char.isLower,
      Bool.and_eq_true, ge_iff_le, UInt32.le_iff_toNat_le] at hc
    rcases hc with (⟨hlow, _⟩ | ⟨hlow, _⟩) | rfl
    · exact hlow
    · exact le_trans (by decide) hlow
    · decide
  -- the letters and the underscore lie above the digits
  have hnot : ¬c.val ≤ 57 := by
    rw [UInt32.le_iff_toNat_le, not_le]
    exact lt_of_lt_of_le (by decide) hrange
  simp [Char.isDigit, hnot]

/-- No numeral begins like a name. -/
theorem read?_of_isNameStart {c : Char} (hc : Expression.isNameStart c = true) (s : List Char) :
    Numeral.read? (c :: s) = none := by
  have hother : ∀ d : Char, Expression.isNameStart d = false → c ≠ d := by
    rintro d hd rfl
    rw [hd] at hc
    cases hc
  -- it begins neither with a sign nor with a point, and the digits end before they begin
  have hdigit := isDigit_of_isNameStart hc
  have hsign : Numeral.readSign (c :: s) = (false, c :: s) := by
    unfold Numeral.readSign
    split
    · next heq => exact absurd (List.cons.inj heq).1 (hother '+' rfl)
    · next heq => exact absurd (List.cons.inj heq).1 (hother '-' rfl)
    · rfl
  have hfraction : Numeral.readFraction (c :: s) = ([], c :: s) := by
    unfold Numeral.readFraction
    split
    · next heq => exact absurd (List.cons.inj heq).1 (hother '.' rfl)
    · rfl
  -- so there is a digit neither before the point nor behind it
  unfold Numeral.read?
  rw [hsign]
  dsimp only
  rw [List.takeWhile_cons_of_neg (by rw [hdigit]; decide),
    List.dropWhile_cons_of_neg (by rw [hdigit]; decide), hfraction]
  rfl

end PulseTrain.Decimal

namespace PulseTrain.Expression

open Decimal Success

/-! ## Names -/

/-- A number that is written and what follows it are told apart when they are read. -/
theorem read?_trim_chars (style : Style) (hending : style.wholeEnding = []) {x : Float}
    (hx : x.isFinite = true) {unit : List Char} (hunit : unit = [] ∨ Text.Word unit ∧ Ends unit) :
    ∃ n : Numeral, Numeral.read? (Text.trim (style.chars x ++ unit)) = some (n, unit) ∧
      n.toFloat = x := by
  have hword := word_chars hending x
  rcases hunit with rfl | ⟨hunit, hends⟩
  · have hends : Ends [] := fun c hc => by cases hc
    obtain ⟨n, hread, hvalue⟩ := read?_chars hending hx hends
    rw [List.append_nil] at hread
    rw [List.append_nil, hword.trim_eq]
    exact ⟨n, hread, hvalue⟩
  · rw [(hword.append hunit).trim_eq]
    exact read?_chars hending hx hends

/-- **Round trip**: a time that is written in seconds is read as what it was. -/
theorem time_chars {x : Float} (hx : x.isFinite = true) :
    time (scientific.chars x ++ ['s']) = .ok ⟨x⟩ := by
  have hends : Ends ['s'] := by
    rintro c ⟨⟩
    decide
  obtain ⟨n, hread, hvalue⟩ := read?_trim_chars scientific rfl hx (Or.inr ⟨by decide, hends⟩)
  have hunit : withUnit? timeUnits (scientific.chars x ++ ['s']) = some (x, ['s']) := by
    unfold withUnit?
    rw [hread]
    dsimp only
    rw [hvalue]
    rfl
  unfold time
  rw [hunit]
  show Except.ok (⟨x * 1.0⟩ : Duration) = _
  -- seconds have the factor 1.0, which changes no double
  rw [mul_one_eq]

/-- **Round trip**: a plain number is read as what it was. -/
theorem number?_chars {x : Float} (hx : x.isFinite = true) :
    number? (plain.chars x) = some x := by
  obtain ⟨n, hread, hvalue⟩ := read?_trim_chars plain rfl hx (Or.inl rfl)
  rw [List.append_nil] at hread
  unfold number? Decimal.number?
  rw [hread, ← hvalue]

/-- **Round trip**: an amplitude that is written as a number is read as what it was. -/
theorem amplitude_chars {x : Float} (hx : x.isFinite = true) :
    amplitude (plain.chars x) = .ok x := by
  obtain ⟨n, hread, hvalue⟩ := read?_trim_chars plain rfl hx (Or.inl rfl)
  rw [List.append_nil] at hread
  have hnone : ∀ units : List String, (units.any fun u => Text.isWord u []) = false →
      withUnit? units (plain.chars x) = none := by
    intro units hunits
    unfold withUnit?
    rw [hread]
    exact if_neg (by rw [Bool.not_eq_true]; exact hunits)
  unfold amplitude value
  rw [hnone timeUnits rfl, hnone voltageUnits rfl, hnone frequencyUnits rfl, number?_chars hx]
  show Except.ok (x * 1.0) = _
  rw [mul_one_eq]

/-! ## What is no value -/

variable {s : List Char}

theorem withUnit?_of_read?_none (h : Numeral.read? (Text.trim s) = none) (units : List String) :
    withUnit? units s = none := by
  unfold withUnit?
  rw [h]

theorem time_of_read?_none (h : Numeral.read? (Text.trim s) = none) :
    time s = .error (.notTime (quoted s)) := by
  unfold time
  rw [withUnit?_of_read?_none h]

theorem frequency_of_read?_none (h : Numeral.read? (Text.trim s) = none) :
    frequency s = .error (.notFrequency (quoted s)) := by
  unfold frequency
  rw [withUnit?_of_read?_none h]

theorem number?_of_read?_none (h : Numeral.read? (Text.trim s) = none) : number? s = none := by
  unfold number? Decimal.number?
  rw [h]

theorem phase_of_read?_none (h : Numeral.read? (Text.trim s) = none) :
    phase s = .error (.notPhase (quoted s)) := by
  unfold phase
  rw [withUnit?_of_read?_none h, number?_of_read?_none h]

theorem amplitude_of_read?_none (h : Numeral.read? (Text.trim s) = none) :
    amplitude s = .error (.notValue (quoted s)) := by
  have hnone := withUnit?_of_read?_none h
  unfold amplitude value
  rw [hnone, hnone, hnone, number?_of_read?_none h]
  rfl

/-- What is written for an infinity or for NaN is no numeral. -/
theorem read?_chars_of_not_finite (style : Style) {x : Float} (hx : x.isFinite = false)
    {unit : List Char} (hunit : unit = [] ∨ unit = ['s']) :
    Numeral.read? (Text.trim (style.chars x ++ unit)) = none := by
  -- a double that is not finite is written by a name, which is no numeral
  have hnone : Binary.ofFloat? x = none := by
    cases hb : Binary.ofFloat? x with
    | none => rfl
    | some b => exact absurd (isFinite_of_ofFloat? hb) (by rw [hx]; decide)
  unfold Style.chars
  rw [hnone]
  dsimp only
  split
  · rcases hunit with rfl | rfl <;> decide
  · split
    · rcases hunit with rfl | rfl <;> decide
    · rcases hunit with rfl | rfl <;> decide

/-- A name is no numeral. -/
theorem read?_of_isIdentifier (h : isIdentifier s = true) :
    Numeral.read? (Text.trim s) = none := by
  unfold isIdentifier at h
  split at h
  · cases h
  · next c tail htrim =>
    rw [Bool.and_eq_true] at h
    rw [htrim, read?_of_isNameStart h.1]

/-! ## Numbers -/

variable {x : Float}

theorem isNaN_numeral (n : Numeral) : n.toFloat.isNaN = false := by
  have hmagnitude := (holds_ofScientific n.digits n.scale).extended.1
  unfold Numeral.toFloat
  dsimp only
  split
  · rw [isNaN_neg]
    exact hmagnitude
  · exact hmagnitude

theorem isNaN_number? (h : number? s = some x) : x.isNaN = false := by
  unfold number? Decimal.number? at h
  split at h
  · cases h
    exact isNaN_numeral _
  · cases h

theorem isNaN_withUnit? {units : List String} {unit : List Char}
    (h : withUnit? units s = some (x, unit)) : x.isNaN = false := by
  unfold withUnit? at h
  split at h
  · cases h
  · dsimp only at h
    split at h
    · cases h
      exact isNaN_numeral _
    · cases h

/-- No unit makes a number NaN, not even that of an infinity. -/
theorem isNaN_of (unit : MeasureUnit) (hx : x.isNaN = false) :
    (Quantity.of x unit).value.isNaN = false := by
  have hfactor : unit.factor.isFinite = true ∧ 0.0 < unit.factor := by
    cases unit with
    | time unit => cases unit <;> decide +kernel
    | frequency unit => cases unit <;> decide +kernel
    | volt => decide +kernel
    | plain => decide +kernel
  exact (extended_mul hx hfactor.1 hfactor.2).1

theorem isNaN_time {t : Duration} (h : time s = .ok t) : t.seconds.isNaN = false := by
  unfold time at h
  split at h
  · cases h
  · next hread =>
    obtain ⟨unit, _, hdone⟩ := bind_ok.mp h
    cases hdone
    exact isNaN_of (.time unit) (isNaN_withUnit? hread)

theorem isNaN_frequency (h : frequency s = .ok x) : x.isNaN = false := by
  unfold frequency at h
  split at h
  · cases h
  · next hread =>
    obtain ⟨unit, _, hdone⟩ := bind_ok.mp h
    cases hdone
    exact isNaN_of (.frequency unit) (isNaN_withUnit? hread)

theorem isNaN_value {q : Quantity} (h : value s = .ok q) : q.value.isNaN = false := by
  -- one case for each dimension that is tried, in the order of trying
  unfold value at h
  split at h
  · next hread =>
    obtain ⟨unit, _, hdone⟩ := bind_ok.mp h
    cases hdone
    exact isNaN_of _ (isNaN_withUnit? hread)
  · split at h
    · next hread =>
      cases h
      exact isNaN_of _ (isNaN_withUnit? hread)
    · split at h
      · next hread =>
        obtain ⟨unit, _, hdone⟩ := bind_ok.mp h
        cases hdone
        exact isNaN_of _ (isNaN_withUnit? hread)
      · split at h
        · next hread =>
          cases h
          exact isNaN_of _ (isNaN_number? hread)
        · cases h

theorem isNaN_phase (h : phase s = .ok x) : x.isNaN = false := by
  unfold phase at h
  split at h
  · next hread =>
    cases h
    split
    · exact (extended_mul (isNaN_withUnit? hread) (by decide +kernel) (by decide +kernel)).1
    · exact isNaN_withUnit? hread
  · split at h
    · next hread =>
      cases h
      exact isNaN_number? hread
    · cases h

theorem isNaN_amplitude (h : amplitude s = .ok x) : x.isNaN = false := by
  obtain ⟨q, hread, h⟩ := bind_ok.mp h
  split at h
  · cases h
    exact isNaN_value hread
  · cases h
    exact isNaN_value hread
  · cases h

end PulseTrain.Expression
