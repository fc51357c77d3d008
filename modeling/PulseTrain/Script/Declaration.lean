import PulseTrain.Expression
import PulseTrain.Text.Integer
import PulseTrain.Text.Split
import PulseTrain.Variable

/-! # Variable declarations

    A declaration has the form

    `variable <name>, start=<value>, stop=<value>, steps=<n>`

    with its fields in this order. Start and stop are written in the same unit, and there is at
    least one step.

    * `readDeclaration` reads what follows the keyword.
-/

namespace PulseTrain.Script

inductive DeclarationError where
  | fieldCount (count : Nat)
  | badName (text : String)
  | notPair (key : String) (text : String)
  | wrongKey (key : String) (found : String)
  | expression (error : ExpressionError)
  | differentUnits (start stop : MeasureUnit) (name : String)
  | badSteps (name : String) (text : String)
deriving DecidableEq, Repr

def DeclarationError.message : DeclarationError → String
  | fieldCount count =>
    "expected 'variable <name>, start=<v>, stop=<v>, steps=<n>', found " ++ toString count
      ++ " fields"
  | badName text => "invalid variable name '" ++ text ++ "'"
  | notPair key text => "expected " ++ key ++ "=<value>, found '" ++ text ++ "'"
  | wrongKey key found => "expected '" ++ key ++ "', found '" ++ found ++ "'"
  | expression error => error.message
  | differentUnits start stop name =>
    "start (" ++ start.symbol ++ ") and stop (" ++ stop.symbol ++ ") of variable '" ++ name
      ++ "' have different units"
  | badSteps name text =>
    "steps of variable '" ++ name ++ "' must be an integer >= 1, got '" ++ text ++ "'"

/-- The value of a field that must have the given key. -/
def keyedValue (key : String) (text : List Char) : Except DeclarationError (List Char) :=
  match Text.splitOnce? '=' text with
  | none => .error (.notPair key (String.ofList text))
  | some (found, value) =>
    let found := String.ofList (Text.trim found)
    if found = key then .ok (Text.trim value) else .error (.wrongKey key found)

/-- The quantity in a field that must have the given key. -/
def keyedQuantity (key : String) (text : List Char) : Except DeclarationError Quantity := do
  let value ← keyedValue key text
  (Expression.value value).mapError .expression

/-- A number of steps, at least one. -/
def readSteps (name : String) (text : List Char) : Except DeclarationError UInt32 :=
  match Text.natural32? text with
  | some steps => if 1 ≤ steps then .ok steps else .error (.badSteps name (String.ofList text))
  | none => .error (.badSteps name (String.ofList text))

/-- Reads what follows the keyword of a declaration. -/
def readDeclaration (body : List Char) : Except DeclarationError Variable :=
  match (Text.splitOn ',' body).map Text.trim with
  | [nameText, startText, stopText, stepsText] => do
    let name := String.ofList nameText
    if !Expression.isIdentifier nameText then throw (.badName name)
    let start ← keyedQuantity "start" startText
    let stop ← keyedQuantity "stop" stopText
    if start.unit ≠ stop.unit then throw (.differentUnits start.unit stop.unit name)
    let steps ← readSteps name (← keyedValue "steps" stepsText)
    return ⟨name, start.value, stop.value, steps, start.dimension⟩
  | fields => .error (.fieldCount fields.length)

end PulseTrain.Script
