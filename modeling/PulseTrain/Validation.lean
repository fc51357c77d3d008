import PulseTrain.Samples
import PulseTrain.Settings

/-! # Validation

    A sequence is valid if it has a name, lasts no negative time and has a sample rate; if its
    pulses start at or after zero on channels that exist and those of the sequence itself end before
    it does; and if its loops run at least once and its blocks are not reversed in time. The first
    violation is reported: those of the sequence come first, then its pulses, then loop by loop and
    conditional by conditional, each block before its pulses.

    * `validate` reports the first violation and the thing it is about.
-/

namespace PulseTrain

/-- What an error of validation is about. -/
inductive Subject where
  | anonymous
  | sequence (name : String)
  | pulse (name : String)
  /-- Loops are counted from one. -/
  | loop (number : Nat)
  | conditional (condition : String)
  /-- A thing in the words of a caller. -/
  | other (text : String)
deriving DecidableEq, Repr

def Subject.toText : Subject → String
  | anonymous => "sequence"
  | sequence name => "sequence '" ++ name ++ "'"
  | pulse name => "pulse '" ++ name ++ "'"
  | loop number => "loop #" ++ toString number
  | conditional condition => "conditional '" ++ condition ++ "'"
  | other text => text

inductive Violation where
  | emptyName
  | negativeTotal (total : Duration)
  | badSampleRate (rate : Float)
  | startsTooEarly (start : Duration)
  | unsupportedChannel (channel : UInt16) (supported : ChannelRange)
  | endsLate (ending total : Duration)
  | noIterations
  | reversed (start ending : Duration)
  /-- A violation in the words of a caller. -/
  | other (text : String)
deriving DecidableEq, Repr

def Violation.message : Violation → String
  | emptyName => "name must not be empty"
  | negativeTotal total => "negative total duration " ++ total.text
  | badSampleRate rate => "sample rate must be positive, got " ++ Decimal.plain.text rate ++ " Hz"
  | startsTooEarly start => "negative start time " ++ start.text
  | unsupportedChannel channel supported =>
    "channel " ++ toString channel ++ " is outside the supported channels "
      ++ toString supported.first ++ "..=" ++ toString supported.last
  | endsLate ending total =>
    "ends at " ++ ending.text ++ " after the end of the sequence at " ++ total.text
  | noIterations => "iteration count must be positive"
  | reversed start ending =>
    "end time " ++ ending.text ++ " before start time " ++ start.text
  | other text => text

/-- A violation and the thing it is about. -/
structure ValidationError where
  subject : Subject
  violation : Violation
deriving DecidableEq, Repr

def ValidationError.message (e : ValidationError) : String :=
  "Validation failed for " ++ e.subject.toText ++ ": " ++ e.violation.message

/-! ## The rules -/

/-- Slack for times that went through a conversion of units, in seconds. -/
def slack : Float := 1e-15

/-- Whether a time lies more than the tolerance after a limit. -/
def liesAfter (time limit : Duration) : Bool :=
  decide (limit.seconds + slack < time.seconds)

/-- Refuses a thing for which a condition holds. -/
def refuse (condition : Bool) (subject : Subject) (violation : Violation) :
    Except ValidationError Unit :=
  if condition then .error ⟨subject, violation⟩ else .ok ()

/-- The rules for every pulse. -/
def checkPulse (settings : Settings) (p : Pulse) : Except ValidationError Unit := do
  refuse p.timing.isNegative (.pulse p.name) (.startsTooEarly p.timing)
  refuse (!settings.channels.contains p.channel) (.pulse p.name)
    (.unsupportedChannel p.channel settings.channels)

/-- The rules for a pulse of the sequence itself. -/
def checkTopLevelPulse (settings : Settings) (total : Duration) (p : Pulse) :
    Except ValidationError Unit := do
  checkPulse settings p
  refuse (liesAfter p.ending total) (.pulse p.name) (.endsLate p.ending total)

/-- The rules for the times of a block. -/
def checkTimes (subject : Subject) (start ending : Duration) : Except ValidationError Unit := do
  refuse start.isNegative subject (.startsTooEarly start)
  refuse (decide (ending < start)) subject (.reversed start ending)

def checkLoop (settings : Settings) (l : Loop) (number : Nat) :
    Except ValidationError Unit := do
  refuse (l.iterations == 0) (.loop number) .noIterations
  checkTimes (.loop number) l.opensAt l.closesAt
  l.pulses.forM (checkPulse settings)

def checkConditional (settings : Settings) (c : Conditional) :
    Except ValidationError Unit := do
  checkTimes (.conditional c.condition) c.opensAt c.closesAt
  (c.whenTrue ++ c.whenFalse).forM (checkPulse settings)

def validate (settings : Settings) (s : Sequence) : Except ValidationError Unit := do
  refuse (Text.trim s.name.toList).isEmpty .anonymous .emptyName
  refuse s.totalDuration.isNegative (.sequence s.name) (.negativeTotal s.totalDuration)
  refuse (!canSampleAt s.sampleRate) (.sequence s.name) (.badSampleRate s.sampleRate)
  s.pulses.forM (checkTopLevelPulse settings s.totalDuration)
  (s.loops.zipIdx 1).forM fun (l, number) => checkLoop settings l number
  s.conditionals.forM (checkConditional settings)

end PulseTrain
