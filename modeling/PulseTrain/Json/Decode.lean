import PulseTrain.Json.Value
import PulseTrain.Table

/-! # Values of JSON documents

    A document is decoded by what is expected of it. An object with known fields may have others
    beside them, which are not looked at, but must not repeat a known one. A list with the values of
    all fields in order will do as well.

    * `fields?` takes an object apart by the names of its fields;
    * `variant?` takes apart a choice, written as a name or as an object with a single member.
-/

namespace PulseTrain.JsonValue

/-- A double, written with a point or without. -/
def float? : JsonValue → Option Float
  | number (.integer n) => some (Float.ofInt n)
  | number (.real x) => some x
  | _ => none

/-- A double, or nothing. -/
def optionalFloat? : JsonValue → Option (Option Float)
  | null => some none
  | v => v.float?.map some

/-- A natural number below a bound, written without point and exponent. -/
def natBelow? (bound : Nat) : JsonValue → Option Nat
  | number (.integer n) => if 0 ≤ n ∧ n < bound then some n.toNat else none
  | _ => none

def nat32? (v : JsonValue) : Option UInt32 := (v.natBelow? UInt32.size).map UInt32.ofNat

def nat16? (v : JsonValue) : Option UInt16 := (v.natBelow? UInt16.size).map UInt16.ofNat

def string? : JsonValue → Option String
  | text s => s
  | _ => none

def bool? : JsonValue → Option Bool
  | bool b => some b
  | _ => none

def list? {α : Type} (decode : JsonValue → Option α) : JsonValue → Option (List α)
  | list items => items.mapM decode
  | _ => none

/-- The members of an object if all keys are texts. -/
def members? : JsonValue → Option (List (String × JsonValue))
  | object members => members.mapM fun (key, value) => key.map (·, value)
  | _ => none

/-- A table, where the last of several members of the same name counts. -/
def table? {α : Type} (decode : JsonValue → Option α) (v : JsonValue) : Option (Table α) := do
  let members ← v.members?
  let pairs ← members.mapM fun (key, value) => (decode value).map (key, ·)
  return .ofList pairs

/-- The values of a key. -/
def valuesOf (key : String) (members : List (String × JsonValue)) : List JsonValue :=
  members.filterMap fun (k, value) => if k = key then some value else none

/-- The value of a field, if there is one. A field must not be given twice. -/
def field? (members : List (String × JsonValue)) (name : String) : Option (Option JsonValue) :=
  match valuesOf name members with
  | [] => some none
  | [value] => some (some value)
  | _ => none

/-- The values of the fields of the given names, each present or not, of an object; or a list with a
    value for every field. -/
def fields? (names : List String) : JsonValue → Option (List (Option JsonValue))
  | list items => if items.length = names.length then some (items.map some) else none
  | v => do names.mapM (field? (← v.members?))

/-- Like `fields?` where every field has a default, so that a list may be short. -/
def defaultedFields? (names : List String) : JsonValue → Option (List (Option JsonValue))
  | list items =>
    if items.length ≤ names.length then
      some (items.map some ++ List.replicate (names.length - items.length) none)
    else none
  | v => v.fields? names

/-- A choice: its name, and its content if it is written as an object. -/
def variant? : JsonValue → Option (String × Option JsonValue)
  | text s => s.map (·, none)
  | object [(key, content)] => key.map (·, some content)
  | _ => none

/-- Whether a choice has no content. -/
def isBare : Option JsonValue → Bool
  | none => true
  | some null => true
  | _ => false

end PulseTrain.JsonValue
