import PulseTrain.Proofs.Decimal.Writing

/-! # Grammar of numerals

    What a numeral is can be said without the reader: a sign, a mantissa and an exponent, each of
    them by its own rule. The reader takes the longest numeral at the start of a text. It takes
    nothing else, and it takes every numeral that what follows does not go on with.

    * **Grammar**: `IsSign`, `IsMantissa`, `IsExponent` and, of the three, `IsNumeral`;
      `isNumeralSymbol_of_mem` lists the characters that occur;
    * **Soundness**: what is read is made by the rules, part by part and in `read?_sound`;
    * **Completeness**: what is made by the rules is read, part by part and in `read?_complete`;
    * **Result**: `number?_isSome_iff`, and `isNumeral_prefix_unique`: only one numeral is
      followed by a text that ends it.
-/

namespace PulseTrain.Decimal

/-! ## Grammar -/

def AllDigits (ds : List Char) : Prop := ∀ c ∈ ds, c.isDigit = true

inductive IsSign : List Char → Prop where
  | left_out : IsSign []
  | plus : IsSign ['+']
  | minus : IsSign ['-']

/-- Digits with at most one point among them: the digits after the point may be left out if there
    are some before it, and those before it if there are some after it. -/
inductive IsMantissa : List Char → Prop where
  | whole {ds : List Char} (hds : AllDigits ds) (hne : ds ≠ []) : IsMantissa ds
  | pointed {ds fs : List Char} (hds : AllDigits ds) (hne : ds ≠ []) (hfs : AllDigits fs) :
      IsMantissa (ds ++ '.' :: fs)
  | fraction {fs : List Char} (hfs : AllDigits fs) (hne : fs ≠ []) : IsMantissa ('.' :: fs)

/-- An exponent may be left out. -/
inductive IsExponent : List Char → Prop where
  | left_out : IsExponent []
  | given {e : Char} {sign ds : List Char} (he : e = 'e' ∨ e = 'E') (hsign : IsSign sign)
      (hds : AllDigits ds) (hne : ds ≠ []) : IsExponent (e :: (sign ++ ds))

/-- **Grammar**: a sign, a mantissa and an exponent. -/
inductive IsNumeral : List Char → Prop where
  | parts {sign mantissa exponent : List Char} (hsign : IsSign sign)
      (hmantissa : IsMantissa mantissa) (hexponent : IsExponent exponent) :
      IsNumeral (sign ++ (mantissa ++ exponent))

/-- The characters of a numeral: digits, signs, a point and the letter of an exponent. -/
def isNumeralSymbol (c : Char) : Bool :=
  c.isDigit || c == '+' || c == '-' || c == '.' || c == 'e' || c == 'E'

variable {s t sign mantissa exponent rest : List Char} {c : Char}

theorem isNumeralSymbol_of_isDigit (h : c.isDigit = true) : isNumeralSymbol c = true := by
  unfold isNumeralSymbol
  rw [h]
  rfl

theorem IsSign.isNumeralSymbol (h : IsSign sign) (hc : c ∈ sign) : isNumeralSymbol c = true := by
  cases h with
  | left_out => cases hc
  | plus => rw [List.mem_singleton.mp hc]; rfl
  | minus => rw [List.mem_singleton.mp hc]; rfl

theorem IsMantissa.isNumeralSymbol (h : IsMantissa mantissa) (hc : c ∈ mantissa) :
    isNumeralSymbol c = true := by
  cases h with
  | whole hds _ => exact isNumeralSymbol_of_isDigit (hds c hc)
  | pointed hds _ hfs =>
    obtain hc | hc := List.mem_append.mp hc
    · exact isNumeralSymbol_of_isDigit (hds c hc)
    · obtain rfl | hc := List.mem_cons.mp hc
      · rfl
      · exact isNumeralSymbol_of_isDigit (hfs c hc)
  | fraction hfs _ =>
    obtain rfl | hc := List.mem_cons.mp hc
    · rfl
    · exact isNumeralSymbol_of_isDigit (hfs c hc)

theorem IsExponent.isNumeralSymbol (h : IsExponent exponent) (hc : c ∈ exponent) :
    isNumeralSymbol c = true := by
  cases h with
  | left_out => cases hc
  | given he hsign hds _ =>
    obtain rfl | hc := List.mem_cons.mp hc
    · obtain rfl | rfl := he
      · rfl
      · rfl
    · obtain hc | hc := List.mem_append.mp hc
      · exact hsign.isNumeralSymbol hc
      · exact isNumeralSymbol_of_isDigit (hds c hc)

/-- There is no other character in a numeral. -/
theorem IsNumeral.isNumeralSymbol (h : IsNumeral s) (hc : c ∈ s) : isNumeralSymbol c = true := by
  obtain ⟨hsign, hmantissa, hexponent⟩ := h
  obtain hc | hc := List.mem_append.mp hc
  · exact hsign.isNumeralSymbol hc
  · obtain hc | hc := List.mem_append.mp hc
    · exact hmantissa.isNumeralSymbol hc
    · exact hexponent.isNumeralSymbol hc

/-! ## Soundness -/

theorem allDigits_takeWhile (s : List Char) : AllDigits (s.takeWhile Char.isDigit) := by
  intro c hc
  exact List.mem_takeWhile_imp hc

theorem readSign_sound (s : List Char) :
    ∃ sign, IsSign sign ∧ s = sign ++ (Numeral.readSign s).2 := by
  unfold Numeral.readSign
  split
  · exact ⟨_, .plus, rfl⟩
  · exact ⟨_, .minus, rfl⟩
  · exact ⟨_, .left_out, rfl⟩

/-- Without a point there are no digits after it. -/
theorem readFraction_sound (s : List Char) :
    AllDigits (Numeral.readFraction s).1 ∧
      (s = '.' :: ((Numeral.readFraction s).1 ++ (Numeral.readFraction s).2) ∨
        (Numeral.readFraction s).1 = [] ∧ s = (Numeral.readFraction s).2) := by
  unfold Numeral.readFraction
  split
  · next rest =>
    refine ⟨allDigits_takeWhile rest, .inl ?_⟩
    show '.' :: rest = '.' :: (rest.takeWhile Char.isDigit ++ rest.dropWhile Char.isDigit)
    rw [List.takeWhile_append_dropWhile]
  · refine ⟨?_, .inr ⟨rfl, rfl⟩⟩
    intro c hc
    cases hc

theorem readExponent_sound (s : List Char) :
    ∃ exponent, IsExponent exponent ∧ s = exponent ++ (Numeral.readExponent s).2 := by
  cases s with
  | nil => exact ⟨[], .left_out, rfl⟩
  | cons e rest =>
    by_cases he : e = 'e' ∨ e = 'E'
    · by_cases hne : ((Numeral.readSign rest).2.takeWhile Char.isDigit).isEmpty = true
      · -- a letter without digits behind it is no exponent and is left in the text
        refine ⟨[], .left_out, ?_⟩
        unfold Numeral.readExponent
        simp only [he, hne, if_true, List.nil_append]
      · obtain ⟨sign, hsign, hrest⟩ := readSign_sound rest
        refine ⟨_, .given he hsign (allDigits_takeWhile (Numeral.readSign rest).2) ?_, ?_⟩
        · intro hnil
          exact hne (List.isEmpty_iff.mpr hnil)
        · unfold Numeral.readExponent
          simp only [he, hne, if_true, Bool.false_eq_true, if_false, List.cons_append,
            List.append_assoc, List.takeWhile_append_dropWhile]
          rw [← hrest]
    · refine ⟨[], .left_out, ?_⟩
      unfold Numeral.readExponent
      simp only [he, if_false, List.nil_append]

/-- Digits, and what is read after them as a fraction, are a mantissa if a digit is among them. -/
theorem mantissa_sound (s : List Char)
    (hne : ((s.takeWhile Char.isDigit).isEmpty &&
      (Numeral.readFraction (s.dropWhile Char.isDigit)).1.isEmpty) = false) :
    ∃ mantissa, IsMantissa mantissa ∧
      s = mantissa ++ (Numeral.readFraction (s.dropWhile Char.isDigit)).2 := by
  have hwhole := allDigits_takeWhile s
  have hs : s = s.takeWhile Char.isDigit ++ s.dropWhile Char.isDigit :=
    List.takeWhile_append_dropWhile.symm
  obtain ⟨hfraction, hpoint | ⟨hnone, hafter⟩⟩ := readFraction_sound (s.dropWhile Char.isDigit)
  · -- with a point the digits before it decide which of two forms it is
    by_cases hempty : s.takeWhile Char.isDigit = []
    · refine ⟨_, .fraction hfraction ?_, ?_⟩
      · rintro hnil
        rw [hempty, hnil] at hne
        cases hne
      · rw [hempty, hpoint] at hs
        exact hs
    · refine ⟨_, .pointed hwhole hempty hfraction, ?_⟩
      rw [List.append_assoc, List.cons_append, ← hpoint]
      exact hs
  · -- without a point there is nothing behind the digits, so there has to be a digit
    refine ⟨_, .whole hwhole ?_, ?_⟩
    · intro hempty
      rw [hempty, hnone] at hne
      cases hne
    · rw [← hafter]
      exact hs

/-- **Soundness**: what is read at the start of a text is a numeral. -/
theorem read?_sound {n : Numeral} (h : Numeral.read? s = some (n, rest)) :
    ∃ numeral, IsNumeral numeral ∧ s = numeral ++ rest := by
  obtain ⟨sign, hsign, hs⟩ := readSign_sound s
  unfold Numeral.read? at h
  dsimp only at h
  split at h
  · cases h
  · next hne =>
    -- the three parts leave the rest of the text one after the other
    obtain ⟨mantissa, hmantissa, hafter⟩ :=
      mantissa_sound (Numeral.readSign s).2 (Bool.eq_false_iff.mpr hne)
    obtain ⟨exponent, hexponent, hlast⟩ := readExponent_sound
      (Numeral.readFraction ((Numeral.readSign s).2.dropWhile Char.isDigit)).2
    refine ⟨_, .parts hsign hmantissa hexponent, ?_⟩
    rw [Option.some.injEq, Prod.mk.injEq] at h
    rw [← h.2, List.append_assoc, List.append_assoc, ← hlast, ← hafter]
    exact hs

/-! ## Completeness -/

/-- A text that does not begin with a sign. -/
def NoSign (s : List Char) : Prop := ∀ c ∈ s.head?, c ≠ '+' ∧ c ≠ '-'

theorem noSign_of_digits {ds : List Char} (hds : AllDigits ds) (hne : ds ≠ [])
    (rest : List Char) : NoSign (ds ++ rest) := by
  cases ds with
  | nil => exact absurd rfl hne
  | cons d ds =>
    rintro c ⟨⟩
    have hd : d.isDigit = true := hds d List.mem_cons_self
    constructor
    · rintro rfl
      cases hd
    · rintro rfl
      cases hd

theorem IsMantissa.noSign (h : IsMantissa mantissa) (rest : List Char) :
    NoSign (mantissa ++ rest) := by
  cases h with
  | whole hds hne => exact noSign_of_digits hds hne rest
  | pointed hds hne _ =>
    rw [List.append_assoc]
    exact noSign_of_digits hds hne _
  | fraction _ _ =>
    rintro c ⟨⟩
    exact ⟨by decide, by decide⟩

/-- A sign is taken off, whatever stands behind it. -/
theorem readSign_complete (h : IsSign sign) :
    ∃ negative, ∀ s, NoSign s → Numeral.readSign (sign ++ s) = (negative, s) := by
  cases h with
  | plus => exact ⟨false, fun s _ => rfl⟩
  | minus => exact ⟨true, fun s _ => rfl⟩
  | left_out =>
    refine ⟨false, ?_⟩
    intro s hs
    -- without a sign the text has to begin with something else
    show Numeral.readSign s = (false, s)
    unfold Numeral.readSign
    split
    · next rest => exact absurd rfl (hs '+' rfl).1
    · next rest => exact absurd rfl (hs '-' rfl).2
    · rfl

/-- Neither a digit nor a point stands at the start of what follows a mantissa. -/
theorem IsExponent.head_append (h : IsExponent exponent) (hrest : Ends rest) :
    ∀ c ∈ (exponent ++ rest).head?, c.isDigit = false ∧ c ≠ '.' := by
  cases h with
  | left_out => exact fun c hc => ⟨(hrest c hc).1, (hrest c hc).2.1⟩
  | given he _ _ _ =>
    rintro c ⟨⟩
    obtain rfl | rfl := he
    · exact ⟨rfl, by decide⟩
    · exact ⟨rfl, by decide⟩

/-- An exponent is taken off, whatever stands behind it and does not go on with its digits. -/
theorem readExponent_complete (h : IsExponent exponent) :
    ∃ value, ∀ rest, Ends rest → Numeral.readExponent (exponent ++ rest) = (value, rest) := by
  cases h with
  | left_out => exact ⟨0, fun rest hrest => readExponent_of_ends hrest⟩
  | given he hsign hds hne =>
    next e sign ds =>
    obtain ⟨negative, hreadSign⟩ := readSign_complete hsign
    refine ⟨if negative then -(digitsValue ds : ℤ) else digitsValue ds, ?_⟩
    intro rest hrest
    have hafter := hreadSign (ds ++ rest) (noSign_of_digits hds hne rest)
    obtain ⟨htake, hdrop⟩ := takeWhile_digits hds fun c hc => (hrest c hc).1
    unfold Numeral.readExponent
    simp only [List.cons_append, List.append_assoc, he, if_true, hafter, htake, hdrop,
      List.isEmpty_eq_false_iff.mpr hne, Bool.false_eq_true, if_false]

/-- The digits before the point and those after it are taken, whatever stands behind them and is
    neither a digit nor a point. -/
theorem mantissa_complete (h : IsMantissa mantissa) :
    ∃ whole fraction : List Char, (whole.isEmpty && fraction.isEmpty) = false ∧
      ∀ rest : List Char, (∀ c ∈ rest.head?, c.isDigit = false ∧ c ≠ '.') →
        (mantissa ++ rest).takeWhile Char.isDigit = whole ∧
          Numeral.readFraction ((mantissa ++ rest).dropWhile Char.isDigit) = (fraction, rest) := by
  -- one case for each form; what comes behind must not go on with the digits
  cases h with
  | whole hds hne =>
    refine ⟨mantissa, [], ?_, ?_⟩
    · rw [List.isEmpty_eq_false_iff.mpr hne]
      rfl
    · intro rest hrest
      obtain ⟨htake, hdrop⟩ := takeWhile_digits hds fun c hc => (hrest c hc).1
      rw [htake, hdrop]
      exact ⟨rfl, readFraction_pointed (List.forall_mem_nil _) hrest⟩
  | pointed hds hne hfs =>
    next ds fs =>
    refine ⟨ds, fs, ?_, ?_⟩
    · rw [List.isEmpty_eq_false_iff.mpr hne]
      rfl
    · intro rest hrest
      -- the digits before the point end at the point
      have hpoint : ∀ c ∈ ('.' :: (fs ++ rest)).head?, c.isDigit = false := by
        rintro c ⟨⟩
        rfl
      obtain ⟨htake, hdrop⟩ := takeWhile_digits hds hpoint
      obtain ⟨hfraction, hlast⟩ := takeWhile_digits hfs fun c hc => (hrest c hc).1
      rw [List.append_assoc, List.cons_append, htake, hdrop]
      exact ⟨rfl, Prod.ext hfraction hlast⟩
  | fraction hfs hne =>
    next fs =>
    refine ⟨[], fs, ?_, ?_⟩
    · rw [List.isEmpty_eq_false_iff.mpr hne]
      rfl
    · intro rest hrest
      obtain ⟨hfraction, hlast⟩ := takeWhile_digits hfs fun c hc => (hrest c hc).1
      exact ⟨rfl, Prod.ext hfraction hlast⟩

/-- **Completeness**: a numeral is read up to its end and to the same number, whatever stands behind
    it and does not go on with it. -/
theorem read?_complete (h : IsNumeral s) :
    ∃ n, ∀ rest, Ends rest → Numeral.read? (s ++ rest) = some (n, rest) := by
  obtain ⟨hsign, hmantissa, hexponent⟩ := h
  next sign mantissa exponent =>
  obtain ⟨negative, hreadSign⟩ := readSign_complete hsign
  obtain ⟨whole, fraction, hdigit, hreadMantissa⟩ := mantissa_complete hmantissa
  obtain ⟨value, hreadExponent⟩ := readExponent_complete hexponent
  refine ⟨⟨negative, digitsValue (whole ++ fraction), value - fraction.length⟩, ?_⟩
  intro rest hrest
  -- each part ends where the next one begins, so the reader stops there
  obtain ⟨htake, hfraction⟩ := hreadMantissa (exponent ++ rest) (hexponent.head_append hrest)
  unfold Numeral.read?
  dsimp only
  rw [List.append_assoc, List.append_assoc, hreadSign _ (hmantissa.noSign _)]
  dsimp only
  rw [htake, hfraction]
  dsimp only
  rw [hdigit, hreadExponent rest hrest]
  rfl

/-! ## Result -/

theorem ends_nil : Ends [] := by
  intro c hc
  cases hc

/-- **Numbers**: a text is a number exactly if it is a numeral from end to end. -/
theorem number?_isSome_iff : (number? s).isSome = true ↔ IsNumeral s := by
  constructor
  · intro h
    unfold number? at h
    split at h
    · next n hread =>
      obtain ⟨numeral, hnumeral, hs⟩ := read?_sound hread
      rw [List.append_nil] at hs
      rw [hs]
      exact hnumeral
    · cases h
  · intro h
    obtain ⟨n, hread⟩ := read?_complete h
    -- the reader takes the longest numeral, so nothing may be left behind it
    have hwhole := hread [] ends_nil
    rw [List.append_nil] at hwhole
    unfold number?
    rw [hwhole]
    rfl

/-- **Longest numeral**: a text goes on after one of the numerals at its start only as something
    else, because the reader finds this one. -/
theorem isNumeral_prefix_unique {rest' : List Char} (hs : IsNumeral s) (ht : IsNumeral t)
    (hrest : Ends rest) (hrest' : Ends rest') (heq : s ++ rest = t ++ rest') :
    s = t ∧ rest = rest' := by
  obtain ⟨n, hread⟩ := read?_complete hs
  obtain ⟨n', hread'⟩ := read?_complete ht
  have hfound := hread rest hrest
  rw [heq, hread' rest' hrest', Option.some.injEq, Prod.mk.injEq] at hfound
  have hsame : rest = rest' := hfound.2.symm
  rw [hsame] at heq
  exact ⟨List.append_cancel_right heq, hsame⟩

end PulseTrain.Decimal
