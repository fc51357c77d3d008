import Mathlib.Data.List.Basic
import PulseTrain.Text.Word

/-! # Words

    A line is put together from words with blanks and commas between them. The words of a line
    come through trimming as they are, and the last of them can be taken off.

    * **Words**: `Word`, which excludes all characters that have a meaning between words;
    * **Trimming**: `trim_of_ends`, and `trim_trim`;
    * **Taking off**: `splitLastWord?_append`;
    * **Letter case**: `foldCase_lowerCase`, and `not_isBlank_of_isWord`: a word is one in any case.
-/

namespace PulseTrain.Text

/-- A character that may stand in a word: no blank, and none of the characters that separate fields
    or open a marker or a placeholder. -/
def isWordChar (c : Char) : Bool := !isBlank c && c != ',' && c != '[' && c != '{'

/-- A run of such characters, at least one. -/
def Word (s : List Char) : Prop := s ≠ [] ∧ s.all isWordChar = true

instance (s : List Char) : Decidable (Word s) := inferInstanceAs (Decidable (_ ∧ _))

variable {s t : List Char} {c : Char}

theorem not_isBlank_of_isWordChar (h : isWordChar c = true) : isBlank c = false := by
  unfold isWordChar at h
  simp only [Bool.and_eq_true, Bool.not_eq_true'] at h
  exact h.1.1.1

/-- Letters, digits and what lies between them, but for a bracket, may stand in a word. -/
theorem isWordChar_of_toNat (hlow : 48 ≤ c.toNat) (hhigh : c.toNat ≤ 122)
    (hbracket : c.toNat ≠ 91) : isWordChar c = true := by
  have hblank : isBlank c = false := by
    unfold isBlank
    simp
    omega
  have hother : ∀ d : Char, d.toNat < 48 ∨ 122 < d.toNat ∨ d.toNat = 91 → c ≠ d := by
    rintro d hd rfl
    omega
  unfold isWordChar
  rw [hblank]
  simp [hother ',' (by decide), hother '[' (by decide), hother '{' (by decide)]

namespace Word

theorem nonempty (h : Word s) : s ≠ [] := h.1

theorem isWordChar (h : Word s) (hc : c ∈ s) : isWordChar c = true := List.all_eq_true.mp h.2 c hc

theorem not_isBlank (h : Word s) (hc : c ∈ s) : isBlank c = false :=
  not_isBlank_of_isWordChar (h.isWordChar hc)

/-- What has a meaning between words does not occur in one. -/
theorem notMem (h : Word s) (hc : Text.isWordChar c = false) : c ∉ s := by
  intro hmem
  rw [h.isWordChar hmem] at hc
  cases hc

theorem append (hs : Word s) (ht : Word t) : Word (s ++ t) := by
  refine ⟨by simp [hs.nonempty], ?_⟩
  rw [List.all_append, hs.2, ht.2]
  rfl

/-- What ends in a word does not end in a blank. -/
theorem getLast?_append (h : Word t) (s : List Char) :
    ∀ c ∈ (s ++ t).getLast?, isBlank c = false := by
  intro c hc
  rw [List.getLast?_append_of_ne_nil s h.nonempty] at hc
  exact h.not_isBlank (List.mem_of_mem_getLast? hc)

end Word

/-! ## Trimming -/

theorem trimStart_of_head (h : ∀ c ∈ s.head?, isBlank c = false) : trimStart s = s := by
  unfold trimStart
  cases s with
  | nil => rfl
  | cons c s =>
    rw [List.dropWhile_cons_of_neg]
    simpa using h c rfl

theorem trimEnd_of_getLast (h : ∀ c ∈ s.getLast?, isBlank c = false) : trimEnd s = s := by
  unfold trimEnd
  have hreverse : trimStart s.reverse = s.reverse := by
    apply trimStart_of_head
    rwa [List.head?_reverse]
  exact (congrArg List.reverse hreverse).trans (List.reverse_reverse s)

/-- A text without blanks at its ends is what is left of it. -/
theorem trim_of_ends (hhead : ∀ c ∈ s.head?, isBlank c = false)
    (hlast : ∀ c ∈ s.getLast?, isBlank c = false) : trim s = s := by
  unfold trim
  rw [trimStart_of_head hhead, trimEnd_of_getLast hlast]

theorem Word.trim_eq (h : Word s) : trim s = s :=
  trim_of_ends (fun _ hc => h.not_isBlank (List.mem_of_mem_head? hc))
    fun _ hc => h.not_isBlank (List.mem_of_mem_getLast? hc)

/-- A blank before a text is trimmed. -/
theorem trim_cons_blank (h : isBlank c = true) (s : List Char) : trim (c :: s) = trim s := by
  unfold trim trimStart
  rw [List.dropWhile_cons_of_pos h]

/-- A blank after a text is trimmed. -/
theorem trim_append_blank (h : isBlank c = true) (hs : ∀ d ∈ s.head?, isBlank d = false)
    (hne : s ≠ []) : trim (s ++ [c]) = trim s := by
  have hstart : trimStart (s ++ [c]) = trimStart s ++ [c] := by
    have hhead : ∀ d ∈ (s ++ [c]).head?, isBlank d = false := by
      cases s with
      | nil => exact absurd rfl hne
      | cons d s => exact hs
    rw [trimStart_of_head hhead, trimStart_of_head hs]
  unfold trim
  rw [hstart]
  unfold trimEnd
  rw [List.reverse_append, List.reverse_singleton, List.singleton_append,
    List.dropWhile_cons_of_pos h]

theorem head?_dropWhile (p : Char → Bool) (s : List Char) :
    ∀ c ∈ (s.dropWhile p).head?, p c = false := by
  intro c hc
  have hnot := List.head?_dropWhile_not p s
  rw [Option.mem_def.mp hc] at hnot
  simpa using hnot

/-- No blank stands before what is left. -/
theorem head?_trim (s : List Char) : ∀ c ∈ (trim s).head?, isBlank c = false := by
  intro c hc
  apply head?_dropWhile isBlank s
  -- the blanks at the end are not at the start, unless there is nothing else
  have hprefix : trim s <+: trimStart s := by
    unfold trim trimEnd
    rw [← List.reverse_suffix, List.reverse_reverse]
    exact List.dropWhile_suffix _
  obtain ⟨blanks, hblanks⟩ := hprefix
  show c ∈ (trimStart s).head?
  rw [← hblanks, List.head?_append, Option.mem_def.mp hc]
  rfl

theorem getLast?_trim (s : List Char) : ∀ c ∈ (trim s).getLast?, isBlank c = false := by
  intro c hc
  apply head?_dropWhile isBlank (trimStart s).reverse
  rw [← List.getLast?_reverse]
  exact hc

/-- What is left is not trimmed any further. -/
theorem trim_trim (s : List Char) : trim (trim s) = trim s :=
  trim_of_ends (head?_trim s) (getLast?_trim s)

/-- Blanks before something else are left out. -/
theorem trimStart_append {blanks : List Char} (hblanks : ∀ c ∈ blanks, isBlank c = true)
    (hs : ∀ c ∈ s.head?, isBlank c = false) : trimStart (blanks ++ s) = s := by
  unfold trimStart
  rw [List.dropWhile_append_of_pos hblanks]
  exact trimStart_of_head hs

/-! ## The last word -/

/-- The last word is taken off with the blank before it. -/
theorem splitLastWord?_append {before word : List Char}
    (hbefore : ∀ c ∈ before.getLast?, isBlank c = false) (hword : Word word) :
    splitLastWord? (before ++ ' ' :: word) = some (before, word) := by
  have hall : ∀ c ∈ word.reverse, (!isBlank c) = true := by
    intro c hc
    rw [hword.not_isBlank (List.mem_reverse.mp hc)]
    rfl
  -- the word is looked for from the end
  have hbackwards : (before ++ ' ' :: word).reverse = word.reverse ++ ' ' :: before.reverse := by
    simp
  have hgap : (' ' :: before.reverse).dropWhile isBlank = before.reverse := by
    rw [List.dropWhile_cons_of_pos (by decide)]
    apply trimStart_of_head
    rwa [List.head?_reverse]
  have htake : (' ' :: before.reverse).takeWhile (!isBlank ·) = [] :=
    List.takeWhile_cons_of_neg (by decide)
  have hdrop : (' ' :: before.reverse).dropWhile (!isBlank ·) = ' ' :: before.reverse :=
    List.dropWhile_cons_of_neg (by decide)
  unfold splitLastWord?
  dsimp only
  rw [hbackwards, List.takeWhile_append_of_pos hall, List.dropWhile_append_of_pos hall, htake,
    hdrop]
  dsimp only
  rw [hgap, List.append_nil, List.reverse_reverse, List.reverse_reverse]

/-! ## Letter case -/

variable {word : List Char}

/-- Only a capital has another small letter. -/
theorem toLower_of_toNat (h : ¬(65 ≤ c.toNat ∧ c.toNat ≤ 90)) : c.toLower = c := by
  unfold Char.toLower
  exact dif_neg h

/-- A blank has no other case. -/
theorem foldCase_of_isBlank (h : isBlank c = true) : foldCase c = c := by
  have hother : ∀ d : Char, isBlank d = false → c ≠ d := by
    rintro d hd rfl
    rw [h] at hd
    cases hd
  -- no blank lies among the capitals
  have hrange : ¬(65 ≤ c.toNat ∧ c.toNat ≤ 90) := by
    unfold isBlank at h
    simp at h
    omega
  unfold foldCase
  rw [if_neg (hother _ rfl), if_neg (hother _ rfl), toLower_of_toNat hrange, if_neg]
  rintro (rfl | rfl) <;> cases h

/-- A word in any case is as long as the word. -/
theorem length_of_isWord {w : String} (h : isWord w word = true) :
    word.length = w.toList.length := by
  have hletters : word.map foldCase = w.toList := beq_iff_eq.mp h
  rw [← hletters, List.length_map]

/-- It is made of the letters of the word, in any case. -/
theorem foldCase_mem_of_isWord {w : String} (h : isWord w word = true) (hc : c ∈ word) :
    foldCase c ∈ w.toList := by
  have hletters : word.map foldCase = w.toList := beq_iff_eq.mp h
  rw [← hletters]
  exact List.mem_map_of_mem hc

/-- It has no blanks, if the word has none. -/
theorem not_isBlank_of_isWord {w : String} (hw : w.toList.all (!isBlank ·) = true)
    (h : isWord w word = true) (hc : c ∈ word) : isBlank c = false := by
  rw [← Bool.not_eq_true]
  intro hblank
  have hmem := foldCase_mem_of_isWord h hc
  rw [foldCase_of_isBlank hblank] at hmem
  have hletter := List.all_eq_true.mp hw c hmem
  rw [hblank] at hletter
  cases hletter

/-- A letter and its small letter stand for the same letter. -/
theorem foldCase_lowerCase (c : Char) : foldCase (lowerCase c) = foldCase c := by
  unfold lowerCase
  split
  · next h => rw [h]; decide
  · split
    · next h => rw [h]; decide
    · by_cases hrange : 65 ≤ c.toNat ∧ c.toNat ≤ 90
      · have hcapitals : ∀ n < 91, foldCase (Char.ofNat n).toLower = foldCase (Char.ofNat n) := by
          decide
        have hc := hcapitals c.toNat (by omega)
        rwa [Char.ofNat_toNat] at hc
      · rw [toLower_of_toNat hrange]

theorem isWord_map_lowerCase {w : String} : isWord w (word.map lowerCase) = isWord w word := by
  unfold isWord
  rw [List.map_map]
  have hsame : foldCase ∘ lowerCase = foldCase := funext foldCase_lowerCase
  rw [hsame]

/-- A digit has no other case. -/
theorem foldCase_of_isDigit (h : c.isDigit = true) : foldCase c = c := by
  have hdigits : ∀ n < 58, foldCase (Char.ofNat n) = Char.ofNat n := by
    decide
  have hrange : c.toNat ≤ 57 := by
    simp only [Char.isDigit, Bool.and_eq_true, decide_eq_true_eq] at h
    exact h.2
  have hc := hdigits c.toNat (by omega)
  rwa [Char.ofNat_toNat] at hc

end PulseTrain.Text
