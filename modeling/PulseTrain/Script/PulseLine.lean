import PulseTrain.Expression
import PulseTrain.Sequence
import PulseTrain.Script.FixedMarker
import PulseTrain.Text.Alphanumeric
import PulseTrain.Text.Integer
import PulseTrain.Text.Split

/-! # Pulse lines

    A pulse line has the form

    `<kind> pulse on channel <n> at <time>, <shape>, <duration>, <amplitude>, <key>=<value>, …`

    with any number of parameters and perhaps a fixed marker. In the place of a time, a duration, an
    amplitude or the value of a parameter may stand the name of a variable. The field is then bound
    to the variable and takes its start value for the time being.

    * `Target.read?` reads what stands before the first comma;
    * `readField` reads a field as the name of a variable or as a literal;
    * `PulseLine.read` reads the line.
-/

namespace PulseTrain.Script

inductive PulseError where
  | tooFewFields (count : Nat)
  | notTarget (text : String)
  | badChannel (text : String)
  | fixedBound
  | badShape (text : String)
  | expression (error : ExpressionError)
  | negativeLength (text : String)
  | notPair (text : String)
  | wrongDimension (name : String) (dimension : Dimension) (field : Field)
deriving DecidableEq, Repr

def PulseError.message : PulseError → String
  | tooFewFields count =>
    "expected at least 4 comma separated fields, found " ++ toString count
  | notTarget text =>
    "expected '<type> pulse on channel <N> at <time>', found '" ++ text ++ "'"
  | badChannel text => "invalid channel '" ++ text ++ "'"
  | fixedBound => "the timing of a fixed pulse cannot be bound to a variable"
  | badShape text => "invalid shape '" ++ text ++ "': " ++ Shape.expectation
  | expression error => error.message
  | negativeLength text => "negative duration '" ++ text ++ "'"
  | notPair text => "expected key=value, found '" ++ text ++ "'"
  | wrongDimension name dimension field =>
    "variable '" ++ name ++ "' of dimension " ++ dimension.name ++ " cannot drive the "
      ++ field.toText

/-! ## The target -/

structure Target where
  kind : List Char
  channel : List Char
  time : List Char
deriving DecidableEq, Repr

/-- Takes a given word off the end of a text. -/
def dropLastWord? (word : String) (s : List Char) : Option (List Char) :=
  match Text.splitLastWord? s with
  | some (before, last) => if Text.isWord word last then some before else none
  | none => none

/-- Reads `<kind> pulse on channel <n> at <time>` from its end, word by word. The kind is what is
    left, and may have blanks inside it. The text has no blanks around it. -/
def Target.read? (s : List Char) : Option Target := do
  let (s, time) ← Text.splitLastWord? s
  let s ← dropLastWord? "at" s
  let (s, channel) ← Text.splitLastWord? s
  let s ← if channel.all Text.isDecimalDigit then some s else none
  let s ← dropLastWord? "channel" s
  let s ← dropLastWord? "on" s
  let kind ← dropLastWord? "pulse" s
  return ⟨kind, channel, time⟩

/-! ## Fields -/

/-- The variable that a text names, if it names one that may drive the field. -/
def boundVariable? (declared : Table Variable) (field : Field) (text : List Char) :
    Except PulseError (Option Variable) :=
  if Expression.isIdentifier text then
    match declared.get? (String.ofList text) with
    | none => .ok none
    | some v =>
      if field.accepts v.dimension then .ok (some v)
      else .error (.wrongDimension v.name v.dimension field)
  else .ok none

/-- The value of a field that is written out, in the base unit of the field. -/
def literal (field : Field) (text : List Char) : Except ExpressionError Float :=
  match field with
  | .timing => (Expression.time text).map (·.seconds)
  | .duration => (Expression.time text).map (·.seconds)
  | .amplitude => Expression.amplitude text
  | .parameter .amplitude => Expression.amplitude text
  | .parameter .phase => Expression.phase text
  | .parameter .frequency => Expression.frequency text
  | .parameter (.extra _) =>
    match Expression.number? text with
    | some x => .ok x
    | none => .error (.notValue (String.ofList text))

/-- Sets a field to what is written: the start value of a variable, to which the field is then
    bound, or a literal. A free-form parameter that is no number is kept as a text. -/
def readField (declared : Table Variable) (p : Pulse) (field : Field) (text : List Char) :
    Except PulseError Pulse := do
  match ← boundVariable? declared field text with
  | some v =>
    return { p.write field v.start with bindings := p.bindings ++ [⟨v.name, field⟩] }
  | none =>
    -- only a free-form parameter may be something else than a literal of its field
    match field, literal field text with
    | _, .ok value => return p.write field value
    | .parameter (.extra name), .error _ => return p.writeExtra name (.text (String.ofList text))
    | _, .error e => throw (.expression e)

/-- Sets the parameter of a `key=value` item. -/
def readParameter (declared : Table Variable) (p : Pulse) (item : List Char) :
    Except PulseError Pulse :=
  match Text.splitOnce? '=' item with
  | none => .error (.notPair (String.ofList item))
  | some (key, value) =>
    let field := Field.parameter (.ofName (String.ofList (Text.trim key)))
    readField declared p field (Text.trim value)

/-! ## Lines -/

namespace PulseLine

/-- Reads the fields of a line, which are trimmed. The first fault from the left is reported, and a
    fixed pulse cannot have its timing bound. -/
def readFields (declared : Table Variable) (fixed : Bool)
    (target shape duration amplitude : List Char) (parameters : List (List Char)) :
    Except PulseError Pulse := do
  let some ⟨kind, channelText, time⟩ := Target.read? target
    | throw (.notTarget (String.ofList target))
  let some channel := Text.natural16? channelText
    | throw (.badChannel (String.ofList channelText))
  let p := Pulse.new (String.ofList kind) channel
  let p ← readField declared p .timing time
  -- the timing is the only field that can be bound so far
  if fixed && p.hasBindings then throw .fixedBound
  let some shapeRead := Shape.read? shape
    | throw (.badShape (String.ofList shape))
  let p ← readField declared { p with shape := shapeRead, isFixed := fixed } .duration duration
  if p.duration.isNegative then throw (.negativeLength (String.ofList duration))
  let p ← readField declared p .amplitude amplitude
  parameters.foldlM (readParameter declared) p

/-- Reads a pulse line. The pulse is named after its kind. -/
def read (declared : Table Variable) (line : List Char) : Except PulseError Pulse :=
  let (text, fixed) := removeMarkers line
  match (Text.splitOn ',' text).map Text.trim with
  | target :: shape :: duration :: amplitude :: parameters =>
    readFields declared fixed target shape duration amplitude parameters
  | fields => .error (.tooFewFields fields.length)

end PulseLine

end PulseTrain.Script
