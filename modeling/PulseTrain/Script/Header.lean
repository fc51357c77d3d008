import PulseTrain.Expression
import PulseTrain.Samples
import PulseTrain.Sequence
import PulseTrain.Text.Integer
import PulseTrain.Text.Split

/-! # Header lines

    A header line sets properties of the whole sequence: `key=value` items between commas, of which
    empty ones are passed over. Values may stand in double quotes. A key that is not known is
    reported and otherwise ignored.

    * `headerItems` gives the items of a line, `HeaderItem.read` reads one;
    * `HeaderItem.apply` sets the property in the sequence.
-/

namespace PulseTrain.Script

inductive HeaderError where
  | notPair (text : String)
  | expression (error : ExpressionError)
  | rateNotFrequency (text : String)
  | rateNotPositive (text : String)
  | badRepeatCount (text : String)
deriving DecidableEq, Repr

def HeaderError.message : HeaderError → String
  | notPair text => "expected key=value, found '" ++ text ++ "'"
  | expression error => error.message
  | rateNotFrequency text => "sample rate '" ++ text ++ "' is not a frequency"
  | rateNotPositive text => "sample rate must be positive, got '" ++ text ++ "'"
  | badRepeatCount text => "repeat count must be an integer >= 1, got '" ++ text ++ "'"

inductive HeaderItem where
  | name (value : String)
  | experiment (value : String)
  | duration (value : Duration)
  | sampleRate (value : Float)
  | repeatCount (value : UInt32)
  | unknown (key : String)
deriving DecidableEq, Repr

/-- A value without the double quotes around it, if there are quotes on both sides. -/
def dropQuotes (s : List Char) : List Char :=
  match s with
  | '"' :: inside =>
    match inside.reverse with
    | '"' :: backwards => backwards.reverse
    | _ => s
  | _ => s

/-- A sample rate in hertz, with a unit of frequency or without any. -/
def readSampleRate (text : List Char) : Except HeaderError Float :=
  match Expression.value text with
  | .error e => .error (.expression e)
  | .ok quantity =>
    if quantity.dimension = .frequency ∨ quantity.dimension = .dimensionless then
      if canSampleAt quantity.value then .ok quantity.value
      else .error (.rateNotPositive (String.ofList text))
    else .error (.rateNotFrequency (String.ofList text))

/-- A number of averages, at least one. -/
def readRepeatCount (text : List Char) : Except HeaderError UInt32 :=
  match Text.natural32? text with
  | some count => if 1 ≤ count then .ok count else .error (.badRepeatCount (String.ofList text))
  | none => .error (.badRepeatCount (String.ofList text))

/-- The items of a header line that are not empty. -/
def headerItems (body : List Char) : List (List Char) :=
  ((Text.splitOn ',' body).map Text.trim).filter (!·.isEmpty)

namespace HeaderItem

/-- Reads a `key=value` item. -/
def read (item : List Char) : Except HeaderError HeaderItem :=
  match Text.splitOnce? '=' item with
  | none => .error (.notPair (String.ofList item))
  | some (keyText, valueText) =>
    let value := dropQuotes (Text.trim valueText)
    match String.ofList (Text.trim keyText) with
    | "name" => .ok (name (String.ofList value))
    | "type" => .ok (experiment (String.ofList value))
    | "duration" =>
      match Expression.time value with
      | .ok time => .ok (duration time)
      | .error e => .error (.expression e)
    | "sample_rate" => (readSampleRate value).map sampleRate
    | "repeat" => (readRepeatCount value).map repeatCount
    | "repeat_count" => (readRepeatCount value).map repeatCount
    | key => .ok (unknown key)

def apply (s : Sequence) : HeaderItem → Sequence
  | name value => { s with name := value }
  | experiment value => { s with experiment := value }
  | duration value => { s with totalDuration := value }
  | sampleRate value => { s with sampleRate := value }
  | repeatCount value => { s with repeatCount := value }
  | unknown _ => s

def isDuration : HeaderItem → Bool
  | duration _ => true
  | _ => false

end HeaderItem

end PulseTrain.Script
