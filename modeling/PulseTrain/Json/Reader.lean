import PulseTrain.Json.Numeral

/-! # Reading JSON

    A document is read from its text as the standard lays down, with four characters for white space
    and nothing after the document but these.

    * `readString?` reads a text after its opening quote;
    * `JsonValue.read?` reads a whole document.
-/

namespace PulseTrain.Json

/-- The white space of JSON. -/
def isSpace (c : Char) : Bool := c = ' ' || c = '\n' || c = '\t' || c = '\r'

def skipSpace (s : List Char) : List Char := s.dropWhile isSpace

/-! ## Texts -/

/-- The value of a hexadecimal digit. -/
def hexValue? (c : Char) : Option Nat :=
  if '0' ≤ c ∧ c ≤ '9' then some (c.toNat - '0'.toNat)
  else if 'a' ≤ c ∧ c ≤ 'f' then some (c.toNat - 'a'.toNat + 10)
  else if 'A' ≤ c ∧ c ≤ 'F' then some (c.toNat - 'A'.toNat + 10)
  else none

def hexValues? (a b c d : Char) : Option Nat := do
  return (((← hexValue? a) * 16 + (← hexValue? b)) * 16 + (← hexValue? c)) * 16 + (← hexValue? d)

/-- A part of a text: a character, or half of a surrogate pair. -/
inductive Piece where
  | char (c : Char)
  | half (unit : Nat)
deriving DecidableEq, Repr

/-- The part that an escape by code unit stands for. -/
def Piece.ofUnit (unit : Nat) : Piece :=
  if 0xD800 ≤ unit ∧ unit < 0xE000 then half unit else char (Char.ofNat unit)

/-- The character of an escape with a single letter. -/
def escaped? : Char → Option Char
  | '"' => some '"'
  | '\\' => some '\\'
  | '/' => some '/'
  | 'b' => some '\x08'
  | 'f' => some '\x0C'
  | 'n' => some '\n'
  | 'r' => some '\r'
  | 't' => some '\t'
  | _ => none

/-- The parts of a text up to its closing quote, and what follows the quote. -/
def readPieces? : List Char → Option (List Piece × List Char)
  | [] => none
  | '"' :: rest => some ([], rest)
  | '\\' :: 'u' :: a :: b :: c :: d :: rest => do
    let unit ← hexValues? a b c d
    let (pieces, after) ← readPieces? rest
    return (.ofUnit unit :: pieces, after)
  | '\\' :: e :: rest => do
    let c ← escaped? e
    let (pieces, after) ← readPieces? rest
    return (.char c :: pieces, after)
  | c :: rest =>
    if c = '\\' ∨ c.toNat < 0x20 then none
    else do
      let (pieces, after) ← readPieces? rest
      return (.char c :: pieces, after)

/-- The characters of some parts. The two halves of a pair must stand together. -/
def assemble? : List Piece → Option (List Char)
  | [] => some []
  | .char c :: rest => (assemble? rest).map (c :: ·)
  | .half high :: .half low :: rest =>
    if high < 0xDC00 ∧ 0xDC00 ≤ low then
      let c := Char.ofNat (0x10000 + (high - 0xD800) * 0x400 + (low - 0xDC00))
      (assemble? rest).map (c :: ·)
    else none
  | .half _ :: _ => none

/-- Reads a text after its opening quote, and what follows it. -/
def readString? (s : List Char) : Option (Option String × List Char) :=
  (readPieces? s).map fun (pieces, rest) => ((assemble? pieces).map String.ofList, rest)

/-! ## Documents -/

/-- The text after a word at its start. -/
def afterWord? : (word s : List Char) → Option (List Char)
  | [], s => some s
  | _ :: _, [] => none
  | w :: word, c :: s => if w = c then afterWord? word s else none

mutual

/-- Reads a value at the start of a text, with at most `fuel` characters to go. -/
def readValue? : (fuel : Nat) → List Char → Option (JsonValue × List Char)
  | 0, _ => none
  | fuel + 1, s =>
    match skipSpace s with
    | [] => none
    | '"' :: rest => (readString? rest).map fun (text, rest) => (.text text, rest)
    | '[' :: rest =>
      match skipSpace rest with
      | ']' :: rest => some (.list [], rest)
      | rest => (readItems? fuel rest).map fun (items, rest) => (.list items, rest)
    | '{' :: rest =>
      match skipSpace rest with
      | '}' :: rest => some (.object [], rest)
      | rest => (readMembers? fuel rest).map fun (members, rest) => (.object members, rest)
    | c :: rest =>
      if c = 'n' then (afterWord? "ull".toList rest).map (.null, ·)
      else if c = 't' then (afterWord? "rue".toList rest).map (.bool true, ·)
      else if c = 'f' then (afterWord? "alse".toList rest).map (.bool false, ·)
      else (readNumeral? (c :: rest)).map fun (n, rest) => (.number n, rest)

/-- Reads the items of a list that is not empty, and its closing bracket. -/
def readItems? : (fuel : Nat) → List Char → Option (List JsonValue × List Char)
  | 0, _ => none
  | fuel + 1, s => do
    let (item, rest) ← readValue? fuel s
    match skipSpace rest with
    | ']' :: rest => return ([item], rest)
    | ',' :: rest =>
      let (items, rest) ← readItems? fuel rest
      return (item :: items, rest)
    | _ => none

/-- Reads the members of an object that is not empty, and its closing brace. -/
def readMembers? : (fuel : Nat) → List Char →
    Option (List (Option String × JsonValue) × List Char)
  | 0, _ => none
  | fuel + 1, s =>
    match skipSpace s with
    | '"' :: rest => do
      let (key, rest) ← readString? rest
      match skipSpace rest with
      | ':' :: rest =>
        let (value, rest) ← readValue? fuel rest
        match skipSpace rest with
        | '}' :: rest => return ([(key, value)], rest)
        | ',' :: rest =>
          let (members, rest) ← readMembers? fuel rest
          return ((key, value) :: members, rest)
        | _ => none
      | _ => none
    | _ => none

end

end PulseTrain.Json

namespace PulseTrain

/-- The document of a text that holds one and nothing else. A value and what is inside it take turns
    at the fuel, and each takes at least a character. -/
def JsonValue.read? (text : String) : Option JsonValue :=
  let s := text.toList
  match Json.readValue? (2 * s.length + 2) s with
  | some (value, rest) => if (Json.skipSpace rest).isEmpty then some value else none
  | none => none

end PulseTrain
