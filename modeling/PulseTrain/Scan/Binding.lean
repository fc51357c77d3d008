import PulseTrain.Scan.Error
import PulseTrain.Sequence

/-! # Bindings to the scanned variable

    Every binding of a sequence must name the variable that is scanned, must not bind the timing of
    a fixed pulse, and must suit the dimension of the variable.

    * `verifyBindings` reports the first binding that does not;
    * `bindTo` puts the value of a scan point into a pulse.
-/

namespace PulseTrain.Scan

/-- Whether a binding of a pulse suits the scanned variable. -/
def checkBinding (source : Option Variable) (p : Pulse) (binding : Binding) :
    Except ScanError Unit :=
  match source.filter (·.name = binding.variableName) with
  | none => .error (.undeclared p.name binding.variableName)
  | some v =>
    if binding.field = .timing && p.isFixed then .error (.fixedBound p.name)
    else if binding.field.accepts v.dimension then .ok ()
    else .error (.unsuitedBinding p.name binding.field v.name)

/-- Whether all bindings of all pulses suit the scanned variable. -/
def verifyBindings (source : Option Variable) (pulses : List Pulse) : Except ScanError Unit :=
  pulses.forM fun p => p.bindings.forM (checkBinding source p)

/-- The pulse at a scan point; without a scanned variable there is nothing to put in. -/
def bindTo (value : Option Float) (p : Pulse) : Pulse :=
  match value with
  | some x => p.bind x
  | none => p

end PulseTrain.Scan
