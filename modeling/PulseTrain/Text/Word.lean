/-! # Words

    Text is trimmed of the blanks around it, and words are separated by blanks. The blanks are the
    characters with the property White_Space: the ASCII blanks and the wider ones used in
    typesetting. Keywords and units are matched without regard to case. Two rules are in use, and
    they differ beyond ASCII. Both are given on the letters that occur in a keyword, unit or shape
    name, and leave every other character as it is, so that no other character becomes one of these
    letters.

    * `isBlank` is the class of the blanks, and `trim` removes those at both ends;
    * `splitLastWord?` takes the last word off a text;
    * `foldCase` makes letters equal that differ in case or are variants of one letter: a long s is
      an s, a Kelvin sign is a k and a micro sign is a Greek mu;
    * `lowerCase` turns capitals into small letters and leaves variants of small letters alone.
-/

namespace PulseTrain.Text

/-! ## Blanks -/

/-- The characters with the property White_Space. -/
def isBlank (c : Char) : Bool :=
  let n := c.toNat
  (9 ≤ n && n ≤ 13) || n == 0x20 || n == 0x85 || n == 0xA0 || n == 0x1680
    || (0x2000 ≤ n && n ≤ 0x200A) || n == 0x2028 || n == 0x2029 || n == 0x202F || n == 0x205F
    || n == 0x3000

def trimStart (s : List Char) : List Char :=
  s.dropWhile isBlank

def trimEnd (s : List Char) : List Char :=
  (s.reverse.dropWhile isBlank).reverse

/-- The text without the blanks around it. -/
def trim (s : List Char) : List Char :=
  trimEnd (trimStart s)

/-- The last word of a text that does not end in a blank, and what stands before it without the
    blanks between the two. A text of one word has nothing to split off. -/
def splitLastWord? (s : List Char) : Option (List Char × List Char) :=
  let backwards := s.reverse
  let word := backwards.takeWhile (!isBlank ·)
  match backwards.dropWhile (!isBlank ·) with
  | [] => none
  | gap => some ((gap.dropWhile isBlank).reverse, word.reverse)

/-! ## Letter case -/

/-- The letter that stands for all letters with the same simple case folding. -/
def foldCase (c : Char) : Char :=
  if c = '\u017F' then 's'
  else if c = '\u212A' then 'k'
  else if c = '\u00B5' ∨ c = '\u039C' then '\u03BC'
  else c.toLower

def lowerCase (c : Char) : Char :=
  if c = '\u212A' then 'k'
  else if c = '\u039C' then '\u03BC'
  else c.toLower

/-- Whether `s` is the given word up to case. The word is in small letters. -/
def isWord (word : String) (s : List Char) : Bool :=
  s.map foldCase == word.toList

end PulseTrain.Text
