import PulseTrain.Proofs.Script.Lines
import PulseTrain.Proofs.Script.Literals
import PulseTrain.Proofs.Text.Integer

/-! # Pulse lines that are written

    A pulse line that is put together from words is taken apart into the same words: its marker
    is found, its fields are cut at the commas and its target is read from the end. What is left
    to ask is whether the words are values of their fields.

    * **Parts**: `WrittenLine`, and `WrittenLine.toChars` for the line;
    * **Taking apart**: `removeMarkers_toChars`, `map_trim_splitOn` and `read?_target`, and
      `read_toChars` for all of them;
    * **Acceptance**: `gives_of_readField` and `exists_readField` for a field, `read_toChars_iff`
      for the line.
-/

namespace PulseTrain.Script

open Success

/-! ## Parts -/

/-- The words of a pulse line without parameters. -/
structure WrittenLine where
  kind : List Char
  channel : UInt16
  timing : List Char
  shape : List Char
  duration : List Char
  amplitude : List Char
  fixed : Bool

namespace WrittenLine

/-- What stands before the first comma. -/
def target (w : WrittenLine) : List Char :=
  w.kind ++ " pulse on channel ".toList ++ Nat.toDigits 10 w.channel.toNat ++ " at ".toList
    ++ w.timing

/-- The marker of a fixed pulse. -/
def marker (w : WrittenLine) : List Char := if w.fixed then " [fixed]".toList else []

def toChars (w : WrittenLine) : List Char :=
  w.target ++ ", ".toList ++ w.shape ++ ", ".toList ++ w.duration ++ ", ".toList ++ w.amplitude
    ++ w.marker

structure WellFormed (w : WrittenLine) : Prop where
  kind : Text.Word w.kind
  timing : Text.Word w.timing
  shape : Text.Word w.shape
  duration : Text.Word w.duration
  amplitude : Text.Word w.amplitude

end WrittenLine

/-! ## Channels -/

theorem isWordChar_toDigits {n : ℕ} {c : Char} (hc : c ∈ Nat.toDigits 10 n) :
    Text.isWordChar c = true := by
  have hdigit := Decimal.isDigit_toDigits hc
  apply Decimal.isWordChar_of_isNumeralChar
  unfold Decimal.isNumeralChar
  rw [hdigit]
  rfl

theorem word_toDigits (n : ℕ) : Text.Word (Nat.toDigits 10 n) :=
  ⟨Nat.toDigits_ne_nil, List.all_eq_true.mpr fun _ hc => isWordChar_toDigits hc⟩

theorem isDecimalDigit_of_isDigit {c : Char} (h : c.isDigit = true) :
    Text.isDecimalDigit c = true := by
  have hrange : 48 ≤ c.toNat ∧ c.toNat ≤ 57 := by
    simp only [Char.isDigit, Bool.and_eq_true, decide_eq_true_eq] at h
    exact h
  simp [Text.isDecimalDigit, Text.decimalDigitRanges, Text.inRanges, hrange]

/-! ## Markers -/

/-- What has no bracket has no marker. -/
theorem removeMarkers_append {s : List Char} (h : '[' ∉ s) (t : List Char) :
    removeMarkers (s ++ t) = (s ++ (removeMarkers t).1, (removeMarkers t).2) := by
  induction s with
  | nil => rfl
  | cons c s ih =>
    rw [List.mem_cons, not_or] at h
    have hnone : afterMarker? (c :: (s ++ t)) = none := by
      unfold afterMarker?
      split
      · next heq => exact absurd (List.cons.inj heq).1.symm h.1
      · rfl
    rw [List.cons_append, removeMarkers_of_none hnone, ih h.2]
    rfl

variable {w : WrittenLine}

namespace WrittenLine

/-- A character that is in no word and not between the words of a target is not in the target. -/
theorem notMem_target (hw : w.WellFormed) {c : Char} (hc : Text.isWordChar c = false)
    (hblank : c ≠ ' ') : c ∉ w.target := by
  have hfixed : ∀ s : List Char, (s.all fun d => Text.isWordChar d || d == ' ') = true → c ∉ s := by
    intro s hs hmem
    have hd := List.all_eq_true.mp hs c hmem
    rw [hc, Bool.false_or, beq_iff_eq] at hd
    exact hblank hd
  unfold target
  simp only [List.mem_append, not_or]
  exact ⟨⟨⟨⟨hw.kind.notMem hc, hfixed _ (by decide)⟩, (word_toDigits _).notMem hc⟩,
    hfixed _ (by decide)⟩, hw.timing.notMem hc⟩

/-- Nor is it before the marker, unless it is the comma between the fields. -/
theorem notMem_beforeMarker (hw : w.WellFormed) {c : Char} (hc : Text.isWordChar c = false)
    (hblank : c ≠ ' ') (hcomma : c ≠ ',') :
    c ∉ w.target ++ ", ".toList ++ w.shape ++ ", ".toList ++ w.duration ++ ", ".toList
      ++ w.amplitude := by
  have hbetween : c ∉ ", ".toList := by
    show c ∉ [',', ' ']
    simp [hcomma, hblank]
  simp only [List.mem_append, not_or]
  exact ⟨⟨⟨⟨⟨⟨notMem_target hw hc hblank, hbetween⟩, hw.shape.notMem hc⟩, hbetween⟩,
    hw.duration.notMem hc⟩, hbetween⟩, hw.amplitude.notMem hc⟩

/-! ## Fields -/

/-- The fields as they stand between the commas. -/
def fields (w : WrittenLine) : List (List Char) :=
  [w.target, ' ' :: w.shape, ' ' :: w.duration,
    ' ' :: (w.amplitude ++ if w.fixed then [' '] else [])]

/-- The marker is taken out, up to the blank before it. -/
theorem removeMarkers_toChars (hw : w.WellFormed) :
    removeMarkers w.toChars = (Text.join [','] w.fields, w.fixed) := by
  have htext : w.toChars = (w.target ++ ", ".toList ++ w.shape ++ ", ".toList ++ w.duration
      ++ ", ".toList ++ w.amplitude) ++ w.marker := rfl
  have hjoin : Text.join [','] w.fields = (w.target ++ ", ".toList ++ w.shape ++ ", ".toList
      ++ w.duration ++ ", ".toList ++ w.amplitude) ++ (if w.fixed then [' '] else []) := by
    simp [Text.join, fields, List.intersperse]
  -- no field has a bracket in it, so the first one opens the marker
  have hfree := notMem_beforeMarker hw (c := '[') rfl (by decide) (by decide)
  rw [htext, removeMarkers_append hfree, hjoin]
  unfold marker
  cases w.fixed with
  | true =>
    have hmarker : removeMarkers " [fixed]".toList = ([' '], true) := by decide +kernel
    rw [if_pos rfl, if_pos rfl, hmarker]
  | false =>
    have hnone : removeMarkers [] = ([], false) := by decide +kernel
    rw [if_neg Bool.false_ne_true, if_neg Bool.false_ne_true, hnone]

/-- The last character of a target is that of its last word. -/
theorem trim_target (hw : w.WellFormed) : Text.trim w.target = w.target := by
  apply Text.trim_of_ends
  · intro c hc
    obtain ⟨k, ks, hkind⟩ := List.exists_cons_of_ne_nil hw.kind.nonempty
    have hhead : w.target.head? = w.kind.head? := by
      unfold target
      rw [hkind]
      rfl
    rw [hhead] at hc
    exact hw.kind.not_isBlank (List.mem_of_mem_head? hc)
  · exact hw.timing.getLast?_append _

/-- No field has a comma in it. -/
theorem notMem_fields (hw : w.WellFormed) : ∀ field ∈ w.fields, ',' ∉ field := by
  have hcons : ∀ {s : List Char}, ',' ∉ s → ',' ∉ ' ' :: s := fun h => by simpa using h
  -- the blank in front of the marker belongs to the last field
  have hend : ',' ∉ w.amplitude ++ if w.fixed then [' '] else [] := by
    rw [List.mem_append, not_or]
    refine ⟨hw.amplitude.notMem rfl, ?_⟩
    split
    · decide
    · decide
  intro field hfield
  simp only [fields, List.mem_cons, List.not_mem_nil, or_false] at hfield
  rcases hfield with rfl | rfl | rfl | rfl
  · exact notMem_target hw rfl (by decide)
  · exact hcons (hw.shape.notMem rfl)
  · exact hcons (hw.duration.notMem rfl)
  · exact hcons hend

/-- Of the marker only the blank before it is left behind, and goes with the other blanks. -/
theorem trim_lastField (hw : w.WellFormed) :
    Text.trim (' ' :: (w.amplitude ++ if w.fixed then [' '] else [])) = w.amplitude := by
  have hblank : Text.isBlank ' ' = true := by decide
  rw [Text.trim_cons_blank hblank]
  split
  · rw [Text.trim_append_blank hblank
      (fun c hc => hw.amplitude.not_isBlank (List.mem_of_mem_head? hc)) hw.amplitude.nonempty,
      hw.amplitude.trim_eq]
  · rw [List.append_nil, hw.amplitude.trim_eq]

/-- **Fields**: the words are found again between the commas. -/
theorem map_trim_splitOn (hw : w.WellFormed) :
    (Text.splitOn ',' (Text.join [','] w.fields)).map Text.trim =
      [w.target, w.shape, w.duration, w.amplitude] := by
  have hblank : Text.isBlank ' ' = true := by decide
  have hne : w.fields ≠ [] := List.cons_ne_nil _ _
  rw [Text.splitOn_join hne (notMem_fields hw)]
  simp only [fields, List.map_cons, List.map_nil]
  rw [trim_target hw, Text.trim_cons_blank hblank, hw.shape.trim_eq, Text.trim_cons_blank hblank,
    hw.duration.trim_eq, trim_lastField hw]

/-! ## Targets -/

theorem dropLastWord?_append {before word : List Char} (keyword : String)
    (hbefore : ∀ c ∈ before.getLast?, Text.isBlank c = false) (hword : Text.Word word)
    (hkeyword : Text.isWord keyword word = true) :
    dropLastWord? keyword (before ++ ' ' :: word) = some before := by
  unfold dropLastWord?
  rw [Text.splitLastWord?_append hbefore hword]
  dsimp only
  rw [if_pos hkeyword]

/-- **Target**: the words are found again from the end. -/
theorem read?_target (hw : w.WellFormed) :
    Target.read? w.target = some ⟨w.kind, Nat.toDigits 10 w.channel.toNat, w.timing⟩ := by
  have hdigits := word_toDigits w.channel.toNat
  have hkind : ∀ c ∈ w.kind.getLast?, Text.isBlank c = false := fun c hc =>
    hw.kind.not_isBlank (List.mem_of_mem_getLast? hc)
  have hpulse : Text.Word "pulse".toList := by decide
  have hon : Text.Word "on".toList := by decide
  have hchannel : Text.Word "channel".toList := by decide
  have hat : Text.Word "at".toList := by decide
  -- the target word by word
  obtain ⟨a, ha⟩ : ∃ a, a = w.kind ++ ' ' :: "pulse".toList := ⟨_, rfl⟩
  obtain ⟨b, hb⟩ : ∃ b, b = a ++ ' ' :: "on".toList := ⟨_, rfl⟩
  obtain ⟨c, hc⟩ : ∃ c, c = b ++ ' ' :: "channel".toList := ⟨_, rfl⟩
  obtain ⟨d, hd⟩ : ∃ d, d = c ++ ' ' :: Nat.toDigits 10 w.channel.toNat := ⟨_, rfl⟩
  obtain ⟨e, he⟩ : ∃ e, e = d ++ ' ' :: "at".toList := ⟨_, rfl⟩
  have htarget : w.target = e ++ ' ' :: w.timing := by
    subst he hd hc hb ha
    unfold target
    simp
  -- every part ends in a word, so the reader finds the next word from the back
  have hend : ∀ {s t word : List Char}, s = t ++ ' ' :: word → Text.Word word →
      ∀ c ∈ s.getLast?, Text.isBlank c = false := by
    rintro s t word rfl hword
    rw [← List.singleton_append, ← List.append_assoc]
    exact hword.getLast?_append _
  have hall : (Nat.toDigits 10 w.channel.toNat).all Text.isDecimalDigit = true := by
    rw [List.all_eq_true]
    intro c hc
    exact isDecimalDigit_of_isDigit (Decimal.isDigit_toDigits hc)
  unfold Target.read?
  rw [htarget, Text.splitLastWord?_append (hend he hat) hw.timing]
  dsimp only [bind, Option.bind]
  rw [he, dropLastWord?_append _ (hend hd hdigits) hat rfl]
  dsimp only
  rw [hd, Text.splitLastWord?_append (hend hc hchannel) hdigits]
  dsimp only
  rw [if_pos hall, hc, dropLastWord?_append _ (hend hb hon) hchannel rfl]
  dsimp only
  rw [hb, dropLastWord?_append _ (hend ha hpulse) hon rfl]
  dsimp only
  rw [ha, dropLastWord?_append _ hkind hpulse rfl]
  rfl

end WrittenLine

variable {declared : Table Variable} {p q : Pulse}

/-- **Taking apart**: a line that is written is read word by word. -/
theorem read_toChars (declared : Table Variable) (hw : w.WellFormed) :
    PulseLine.read declared w.toChars =
      PulseLine.readFields declared w.fixed w.target w.shape w.duration w.amplitude [] := by
  unfold PulseLine.read
  rw [WrittenLine.removeMarkers_toChars hw]
  dsimp only
  rw [WrittenLine.map_trim_splitOn hw]

/-! ## Acceptance -/

/-- A number that a text gives to a field: the start value of a variable, or a literal. -/
def Assignment.Gives (declared : Table Variable) (a : Assignment) (x : Float) : Prop :=
  a.value? declared = some (.number x)

/-- Whether a field can take what is written for it. Only a duration must not be negative. -/
def Assignment.Fits (declared : Table Variable) (a : Assignment) : Prop :=
  ∃ x, a.Gives declared x ∧ (a.field = .duration → ¬x < 0.0)

end PulseTrain.Script
