import PulseTrain.Scan.Error
import PulseTrain.Script.Reader
import PulseTrain.Validation

/-! # Files and errors

    A file holds a script if it exists and its bytes are valid UTF-8. Whatever goes wrong with it,
    or with any other request, the user sees one text: the message of the error and below it the
    causes behind it, the deepest first.

    * `Error.message` is the error itself, `Error.causes` what lies behind it, nearest first;
    * `Error.report` is the text for the user;
    * `Script.fromFile` reads the script in a file.
-/

namespace PulseTrain

/-! ## Errors -/

inductive FileFault where
  | missing
  | notUtf8
deriving DecidableEq, Repr

def FileFault.message : FileFault → String
  | missing => "No such file or directory (os error 2)"
  | notUtf8 => "stream did not contain valid UTF-8"

/-- Why a request to the library failed. -/
inductive Error where
  | script (error : Script.ReadError)
  | validation (error : ValidationError)
  | scan (error : Scan.ScanError)
  | file (path : String) (fault : FileFault)
  /-- An error in the words of a caller, with its causes, nearest first. -/
  | reported (message : String) (causes : List String)
deriving DecidableEq, Repr

namespace Error

def message : Error → String
  | script error => error.message
  | validation error => error.message
  | scan error => error.message
  | file path _ => "Failed to read '" ++ path ++ "'"
  | reported message _ => message

/-- The texts of what lies behind the error, nearest first. -/
def causes : Error → List String
  | script _ => []
  | validation _ => []
  | scan error => error.cause?.toList.map (·.message)
  | file _ fault => [fault.message]
  | reported _ causes => causes

/-- An error put into a context, which becomes the message. -/
def inContext (e : Error) (context : String) : Error :=
  reported context (e.message :: e.causes)

/-- The text for the user. -/
def report (e : Error) : String :=
  match e.causes with
  | [] => e.message
  | causes => e.message ++ "\nCaused by:\n  " ++ "\n  ".intercalate causes.reverse

end Error

/-! ## Files -/

namespace Script

/-- The text of a file with the given bytes, if it exists. -/
def fileText (path : String) (content : Option ByteArray) : Except Error String :=
  match content with
  | none => .error (.file path .missing)
  | some bytes =>
    match String.fromUTF8? bytes with
    | some text => .ok text
    | none => .error (.file path .notUtf8)

def fromFile (library : Library) (settings : Settings) (path : String)
    (content : Option ByteArray) : Logged Note Error Sequence :=
  match fileText path content with
  | .ok text => (read library settings text).mapError .script
  | .error e => .fail e

end Script

end PulseTrain
