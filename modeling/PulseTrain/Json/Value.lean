/-! # JSON values

    A JSON document is a tree. Members of an object keep their order and may repeat a key; what a
    repeated key means is up to whoever reads the object. A text of a document may fail to be a
    text, because an escape can name half of a surrogate pair; such a text does no harm where it is
    not looked at.

    * `JsonValue` is the tree, with a `JsonNumber` at each numeral.
-/

namespace PulseTrain

inductive JsonNumber where
  /-- A numeral without point and exponent, in the range of 64-bit words. -/
  | integer (value : Int)
  | real (value : Float)
  /-- A numeral too large for a double. -/
  | outOfRange
deriving DecidableEq, Repr

/-- A JSON document. A text is absent where its escapes make no text. -/
inductive JsonValue where
  | null
  | bool (value : Bool)
  | number (value : JsonNumber)
  | text (value : Option String)
  | list (items : List JsonValue)
  | object (members : List (Option String × JsonValue))
deriving Repr

namespace JsonValue

def ofString (s : String) : JsonValue := text (some s)

def ofNat (n : Nat) : JsonValue := number (.integer n)

def ofInt (n : Int) : JsonValue := number (.integer n)

/-- A double; JSON has no infinities and no NaN. -/
def ofFloat (x : Float) : JsonValue := if x.isFinite then number (.real x) else null

def ofFloat? (x : Option Float) : JsonValue :=
  match x with
  | some x => ofFloat x
  | none => null

/-- An object with the given members. -/
def ofMembers (members : List (String × JsonValue)) : JsonValue :=
  object (members.map fun (key, value) => (some key, value))

end JsonValue

end PulseTrain
