import PulseTrain.Proofs.Decimal.Grammar
import PulseTrain.Proofs.Expression.Agreement
import PulseTrain.Proofs.Text.Words

/-! # Grammar of numbers and times

    A number is a numeral, and a time is a numeral with a unit behind it. The reader looks for the
    unit up to case and to variants of letters first and then for its small letters in a table.
    Together the two accept just the units of which the small letters are in the table. No
    character of a numeral may stand in a unit or between the two, so a text is split in one way
    only.

    * **Characters**: `not_symbol_of_isWord`, what may stand in a unit;
    * **Grammar**: `TimeParts.Of` says that a text is made of a numeral, blanks and a unit;
    * **Soundness**: `timeParts_of_time`, **Completeness**: `time_of_timeParts`, and
      `TimeParts.Of.unique`;
    * **Result**: `grammars_exact`.
-/

namespace PulseTrain.Expression

open Decimal

/-! ## Characters -/

/-- No blank is a character of a numeral. -/
theorem isNumeralSymbol_of_isBlank {c : Char} (h : Text.isBlank c = true) :
    isNumeralSymbol c = false := by
  rw [← Bool.not_eq_true]
  intro hsymbol
  unfold isNumeralSymbol at hsymbol
  simp only [Bool.or_eq_true, beq_iff_eq] at hsymbol
  obtain ((((hdigit | rfl) | rfl) | rfl) | rfl) | rfl := hsymbol
  · -- a digit may stand in a word, and no blank may
    have hword : Text.isWordChar c = true :=
      isWordChar_of_isNumeralChar (by unfold isNumeralChar; rw [hdigit]; rfl)
    rw [Text.not_isBlank_of_isWordChar hword] at h
    cases h
  all_goals cases h

/-- A character of a numeral is one in any case. -/
theorem isNumeralSymbol_foldCase {c : Char} (h : isNumeralSymbol c = true) :
    isNumeralSymbol (Text.foldCase c) = true := by
  unfold isNumeralSymbol at h
  simp only [Bool.or_eq_true, beq_iff_eq] at h
  obtain ((((hdigit | rfl) | rfl) | rfl) | rfl) | rfl := h
  · rw [Text.foldCase_of_isDigit hdigit]
    exact isNumeralSymbol_of_isDigit hdigit
  all_goals decide

/-- Nothing in a unit is a blank or a character of a numeral. -/
theorem not_symbol_of_isWord {name : List Char} {u : String} {c : Char} (hu : u ∈ timeUnits)
    (h : Text.isWord u name = true) (hc : c ∈ name) :
    isNumeralSymbol c = false ∧ Text.isBlank c = false := by
  have hletters : ∀ u ∈ timeUnits, u.toList.all (!Text.isBlank ·) = true ∧
      u.toList.all (!isNumeralSymbol ·) = true := by
    decide
  obtain ⟨hblank, hsymbol⟩ := hletters u hu
  refine ⟨?_, Text.not_isBlank_of_isWord hblank h hc⟩
  -- up to case the character is a letter of the unit itself
  have hletter := List.all_eq_true.mp hsymbol _ (Text.foldCase_mem_of_isWord h hc)
  rw [← Bool.not_eq_true]
  intro hc
  rw [isNumeralSymbol_foldCase hc] at hletter
  cases hletter

/-! ## Grammar -/

/-- The units of a time in small letters. A Greek mu and a micro sign are two letters. -/
def timeSuffixes : List String := ["ns", "us", "\u03BCs", "\u00B5s", "ms", "s"]

/-- A time as it is written. -/
structure TimeParts where
  numeral : List Char
  gap : List Char
  unit : List Char

/-- **Grammar**: the text is made of a numeral, blanks, of which there may be none, and a unit of
    which the small letters are known. -/
structure TimeParts.Of (p : TimeParts) (s : List Char) : Prop where
  text : s = p.numeral ++ (p.gap ++ p.unit)
  numeral : IsNumeral p.numeral
  gap : ∀ c ∈ p.gap, Text.isBlank c = true
  unit : String.ofList (p.unit.map Text.lowerCase) ∈ timeSuffixes

variable {s name : List Char} {p q : TimeParts}

theorem named?_isSome_iff :
    (TimeUnit.named? name).isSome = true ↔
      String.ofList (name.map Text.lowerCase) ∈ timeSuffixes := by
  unfold TimeUnit.named? timeSuffixes
  constructor
  · intro h
    split at h
    all_goals simp_all
  · intro h
    simp only [List.mem_cons, List.not_mem_nil, or_false] at h
    obtain h | h | h | h | h | h := h
    all_goals rw [h]; rfl

/-- A unit that is known by its small letters is one of the words the reader looks for. -/
theorem isWord_of_suffix (h : String.ofList (name.map Text.lowerCase) ∈ timeSuffixes) :
    ∃ u ∈ timeUnits, Text.isWord u name = true := by
  have htable : ∀ w ∈ timeSuffixes, ∃ u ∈ timeUnits, Text.isWord u w.toList = true := by
    decide
  obtain ⟨u, hu, hword⟩ := htable _ h
  rw [String.toList_ofList, Text.isWord_map_lowerCase] at hword
  exact ⟨u, hu, hword⟩

/-! ## Soundness -/

/-- **Soundness**: a text that is read as a time is split where the reader splits it. -/
theorem timeParts_of_time {t : Duration} (h : time s = .ok t) :
    ∃ p : TimeParts, p.Of (Text.trim s) := by
  unfold time at h
  split at h
  · cases h
  · next x name hfound =>
    obtain ⟨n, rest, hread, _, hname, _⟩ := withUnit?_eq_some hfound
    obtain ⟨unit, hunit, _⟩ := Success.bind_ok.mp h
    obtain ⟨numeral, hnumeral, hs⟩ := read?_sound hread
    -- the blanks between number and unit are what the trimming of the rest takes away
    refine ⟨⟨numeral, rest.takeWhile Text.isBlank, name⟩, ?_, hnumeral, ?_, ?_⟩
    · rw [hs, ← hname]
      unfold Text.trimStart
      rw [List.takeWhile_append_dropWhile]
    · intro c hc
      exact List.mem_takeWhile_imp hc
    · -- what was looked for as a word is looked up again by its small letters
      apply named?_isSome_iff.mp
      unfold timeUnit at hunit
      split at hunit
      · next hnamed => rw [hnamed]; rfl
      · cases hunit

/-! ## Completeness -/

namespace TimeParts.Of

/-- The numeral ends where the blanks or the unit begin. -/
theorem ends (h : p.Of s) : Ends (p.gap ++ p.unit) := by
  intro c hc
  have hsymbol : isNumeralSymbol c = false := by
    obtain hc | hc := List.mem_append.mp (List.mem_of_mem_head? hc)
    · exact isNumeralSymbol_of_isBlank (h.gap c hc)
    · obtain ⟨u, hu, hword⟩ := isWord_of_suffix h.unit
      exact (not_symbol_of_isWord hu hword hc).1
  unfold isNumeralSymbol at hsymbol
  simp only [Bool.or_eq_false_iff, beq_eq_false_iff_ne] at hsymbol
  obtain ⟨⟨⟨⟨⟨hdigit, _⟩, _⟩, hpoint⟩, he⟩, hE⟩ := hsymbol
  exact ⟨hdigit, hpoint, he, hE⟩

/-- The blanks end where the unit begins. -/
theorem trimStart_eq (h : p.Of s) : Text.trimStart (p.gap ++ p.unit) = p.unit := by
  apply Text.trimStart_append h.gap
  intro c hc
  obtain ⟨u, hu, hword⟩ := isWord_of_suffix h.unit
  exact (not_symbol_of_isWord hu hword (List.mem_of_mem_head? hc)).2

/-- **One split**: two splits have the same numeral, since each is the longest one, and then the
    same unit, since no unit begins with a blank. -/
theorem unique (hp : p.Of s) (hq : q.Of s) : p = q := by
  have heq : p.numeral ++ (p.gap ++ p.unit) = q.numeral ++ (q.gap ++ q.unit) :=
    hp.text.symm.trans hq.text
  obtain ⟨hnumeral, hrest⟩ :=
    isNumeral_prefix_unique hp.numeral hq.numeral hp.ends hq.ends heq
  have hunit : p.unit = q.unit := by
    rw [← hp.trimStart_eq, hrest, hq.trimStart_eq]
  have hgap : p.gap = q.gap := by
    rw [hunit] at hrest
    exact List.append_cancel_right hrest
  cases p
  cases q
  simp_all

end TimeParts.Of

/-- **Completeness**: a numeral with a unit behind it is read as the product of the two. -/
theorem time_of_timeParts (h : p.Of (Text.trim s)) :
    ∃ x unit, Decimal.number? p.numeral = some x ∧ TimeUnit.named? p.unit = some unit ∧
      time s = .ok ⟨x * unit.factor⟩ := by
  obtain ⟨n, hread⟩ := read?_complete h.numeral
  obtain ⟨unit, hunit⟩ := Option.isSome_iff_exists.mp (named?_isSome_iff.mpr h.unit)
  refine ⟨n.toFloat, unit, ?_, hunit, ?_⟩
  · have halone := hread [] ends_nil
    rw [List.append_nil] at halone
    unfold Decimal.number?
    rw [halone]
  · have hword : (timeUnits.any fun u => Text.isWord u p.unit) = true :=
      List.any_eq_true.mpr (isWord_of_suffix h.unit)
    -- the unit that is found is the whole of what stands behind the numeral
    have hfound : withUnit? timeUnits s = some (n.toFloat, p.unit) := by
      unfold withUnit?
      rw [h.text, hread _ h.ends]
      dsimp only
      rw [h.trimStart_eq, if_pos hword]
    unfold time timeUnit
    rw [hfound]
    dsimp only
    rw [hunit]
    rfl

/-! ## Result -/

/-- **Grammars**: a text is a number exactly if it is a numeral apart from blanks around it, and
    then has no other characters than a numeral has. It is a time exactly if it is a numeral with a
    unit behind it. Such a text is split in one way only, and is read as the product of what its
    numeral and its unit stand for. -/
theorem grammars_exact (s : List Char) :
    ((number? s).isSome = true ↔ IsNumeral (Text.trim s)) ∧
    ((number? s).isSome = true → ∀ c ∈ Text.trim s, isNumeralSymbol c = true) ∧
    ((∃ t, time s = .ok t) ↔ ∃ p : TimeParts, p.Of (Text.trim s)) ∧
    (∀ p q : TimeParts, p.Of (Text.trim s) → q.Of (Text.trim s) → p = q) ∧
    (∀ p : TimeParts, p.Of (Text.trim s) →
      ∃ x unit, Decimal.number? p.numeral = some x ∧ TimeUnit.named? p.unit = some unit ∧
        time s = .ok ⟨x * unit.factor⟩) := by
  refine ⟨number?_isSome_iff, ?_, ⟨?_, ?_⟩, ?_, ?_⟩
  · intro h c hc
    exact (number?_isSome_iff.mp h).isNumeralSymbol hc
  · rintro ⟨t, ht⟩
    exact timeParts_of_time ht
  · rintro ⟨p, hp⟩
    obtain ⟨x, unit, _, _, htime⟩ := time_of_timeParts hp
    exact ⟨_, htime⟩
  · intro p q hp hq
    exact hp.unique hq
  · intro p hp
    exact time_of_timeParts hp

end PulseTrain.Expression
