import PulseTrain.Expression
import PulseTrain.Table
import PulseTrain.Text.Integer

/-! # Values of preset parameters

    A preset has parameters of four kinds, each with a default. A value is written in the same way
    as in a script. Where a time or a number is wanted, the scan variable may stand in for it.

    * `Value.text` is the text of a value, `Parameter.read` reads a text as a value;
    * `Arguments` holds a value for each parameter and hands it out by kind.
-/

namespace PulseTrain.Preset

/-! ## Values -/

inductive Kind where
  | time
  | float
  | integer
  | text
deriving DecidableEq, Repr

namespace Kind

def name : Kind → String
  | time => "time"
  | float => "float"
  | integer => "integer"
  | text => "text"

/-- Whether a scan variable can stand in for a value of the kind. -/
def admitsVariable : Kind → Bool
  | time => true
  | float => true
  | integer => false
  | text => false

end Kind

inductive Value where
  | time (value : Duration)
  | float (value : Float)
  | integer (value : Int)
  | text (value : String)
  /-- A scan variable in the place of a value of some kind. -/
  | reference (name : String) (kind : Kind)
deriving DecidableEq, Repr

namespace Value

def kind : Value → Kind
  | time _ => .time
  | float _ => .float
  | integer _ => .integer
  | text _ => .text
  | reference _ kind => kind

/-- The value as it stands in a script. -/
def toChars : Value → List Char
  | time value => Decimal.scientific.chars value.seconds ++ ['s']
  | float value => Decimal.plain.chars value
  | integer value => Decimal.integerText value
  | text value => value.toList
  | reference name _ => name.toList

def toText (v : Value) : String := String.ofList v.toChars

/-- Whether two values are the same: numbers are compared as numbers, so the two zeros are the same.
    -/
def same : Value → Value → Bool
  | time a, time b => a.sameTime b
  | float a, float b => a == b
  | integer a, integer b => a = b
  | text a, text b => a = b
  | reference a kindA, reference b kindB => a = b && kindA = kindB
  | _, _ => false

end Value

/-! ## Parameters -/

/-- Why a text is not a value of a parameter. -/
inductive ValueError where
  | expression (error : ExpressionError)
  | notNumber (text : String)
  | notInteger (text : String)
  | notAllowed (text : String) (allowed : List Value)
deriving DecidableEq, Repr

def ValueError.message : ValueError → String
  | expression error => error.message
  | notNumber text => "'" ++ text ++ "' is not a number"
  | notInteger text => "'" ++ text ++ "' is not an integer"
  | notAllowed text allowed =>
    "'" ++ text ++ "' is not one of the allowed values ("
      ++ ", ".intercalate (allowed.map Value.toText) ++ ")"

/-- A parameter with its default and, unless any value will do, the values it may have. -/
structure Parameter where
  name : String
  default : Value
  allowed : List Value
deriving DecidableEq, Repr

namespace Parameter

/-- The kind of a parameter is that of its default. -/
def kind (p : Parameter) : Kind := p.default.kind

/-- A text without blanks around it as a value of the given kind. -/
def readKind (text : List Char) : Kind → Except ValueError Value
  | .time => ((Expression.time text).map Value.time).mapError .expression
  | .float =>
    match Expression.number? text with
    | some x => .ok (.float x)
    | none => .error (.notNumber (String.ofList text))
  | .integer =>
    match Text.integer64? text with
    | some n => .ok (.integer n)
    | none => .error (.notInteger (String.ofList text))
  | .text => .ok (.text (String.ofList text))

/-- Reads a text as a value of the parameter. -/
def read (p : Parameter) (text : List Char) : Except ValueError Value := do
  let trimmed := Text.trim text
  let value ← readKind trimmed p.kind
  if p.allowed.isEmpty || p.allowed.any (·.same value) then return value
  else throw (.notAllowed (String.ofList trimmed) p.allowed)

end Parameter

/-! ## Arguments -/

/-- A value for each parameter of a preset. -/
abbrev Arguments : Type := Table Value

/-- Why an argument cannot be used. -/
inductive ArgumentError where
  | missing (name : String)
  | reference (name : String) (variableName : String)
  | wrongKind (name : String) (kind : Kind)
  | badChannel (name : String) (value : Int)
deriving DecidableEq, Repr

def ArgumentError.message : ArgumentError → String
  | missing name => "missing argument '" ++ name ++ "'"
  | reference name variableName =>
    "argument '" ++ name ++ "' cannot follow scan variable '" ++ variableName
      ++ "' in this preset"
  | wrongKind name kind => "argument '" ++ name ++ "' is not of kind " ++ kind.name
  | badChannel name value =>
    "'" ++ name ++ "' must be a channel id, got " ++ toString value

namespace Arguments

def require (a : Arguments) (name : String) : Except ArgumentError Value :=
  match a.get? name with
  | some value => .ok value
  | none => .error (.missing name)

/-- A time that does not follow a scan variable. -/
def time (a : Arguments) (name : String) : Except ArgumentError Duration := do
  match ← a.require name with
  | .time value => return value
  | .reference variableName _ => throw (.reference name variableName)
  | _ => throw (.wrongKind name .time)

/-- A number that does not follow a scan variable. -/
def float (a : Arguments) (name : String) : Except ArgumentError Float := do
  match ← a.require name with
  | .float value => return value
  | .reference variableName _ => throw (.reference name variableName)
  | _ => throw (.wrongKind name .float)

def integer (a : Arguments) (name : String) : Except ArgumentError Int := do
  match ← a.require name with
  | .integer value => return value
  | .reference variableName _ => throw (.reference name variableName)
  | _ => throw (.wrongKind name .integer)

def text (a : Arguments) (name : String) : Except ArgumentError String := do
  match ← a.require name with
  | .text value => return value
  | _ => throw (.wrongKind name .text)

def channel (a : Arguments) (name : String) : Except ArgumentError UInt16 := do
  let value ← a.integer name
  if 0 ≤ value ∧ value < UInt16.size then return UInt16.ofNat value.toNat
  else throw (.badChannel name value)

end Arguments

end PulseTrain.Preset
