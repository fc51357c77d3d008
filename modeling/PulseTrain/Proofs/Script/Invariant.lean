import PulseTrain.Proofs.Success
import PulseTrain.Script.Reader

/-! # Invariants of reading

    What has been read so far changes with items of headers, declarations, pulse lines and
    blocks, and with nothing else: a preset line carries out the lines of a preset, and these
    are headers, declarations, pulse lines, blocks and preset lines again. So a property of what
    has been read is kept by a whole script if these four keep it.

    * **Obligations**: `State.Invariant` lists the four;
    * **Step**: `Invariant.interpret`, a case for each kind of statement;
    * **Run**: `Invariant.readText` for the statements of a text, `Invariant.loader` by
      `loader_induction` on the depth to which presets nest, and `Invariant.readWith` for a whole
      script.
-/

namespace PulseTrain.Script

open Success

/-- A property of what has been read that every step keeps. -/
structure State.Invariant (P : State → Prop) : Prop where
  header : ∀ {s s' : State} {line : Nat} {item : List Char}, P s →
    (s.applyHeader line item).result = .ok s' → P s'
  declaration : ∀ {s s' : State} {line : Nat} {body : List Char}, P s →
    (s.declare line body).result = .ok s' → P s'
  pulses : ∀ {s s' : State} {lines : List Line}, P s →
    (s.addPulses lines).result = .ok s' → P s'
  block : ∀ {s s' : State} {block : Block}, P s → (s.addBlock block).result = .ok s' → P s'

/-- Carrying out preset lines keeps the property. -/
def Loader.Keeps (P : State → Prop) (load : Loader) : Prop :=
  ∀ s line body s', P s → (load s line body).result = .ok s' → P s'

/-- What holds of the loader of a preset line if it holds of the one for the lines in the text of
    the preset holds however deep presets nest. -/
theorem loader_induction {P : Loader → Prop} {registry : Registry} {limit : Nat}
    (h : ∀ inner : Option Loader, (∀ load ∈ inner, P load) →
      P (carryOutPreset registry limit inner)) (depth : Nat) : P (loader registry limit depth) := by
  induction depth with
  | zero =>
    apply h none
    intro load hload
    cases hload
  | succ depth ih =>
    apply h
    intro load hload
    cases hload
    exact ih

namespace State.Invariant

variable {P : State → Prop} {s s' : State}

/-- **Step**: a statement that is carried out keeps the property. -/
theorem interpret (hP : Invariant P) {load : Loader} (hload : load.Keeps P)
    {statement : Statement} (hs : P s)
    (h : (Script.interpret load s statement).result = .ok s') : P s' := by
  match statement with
  | .header line body => exact result_foldlM_ok (fun _ _ _ => hP.header) hs h
  | .declaration line body => exact hP.declaration hs h
  | .preset line body => exact hload s line body s' hs h
  | .block block => exact hP.block hs h
  | .badBlock fault => cases h
  | .pulse line => exact hP.pulses hs h

/-- **Run**: a text that is carried out to its end keeps the property. -/
theorem readText (hP : Invariant P) {load : Loader} (hload : load.Keeps P) {text : List Char}
    (hs : P s) (h : (Script.readText load s text).result = .ok s') : P s' :=
  result_foldlM_ok (fun _ _ _ => hP.interpret hload) hs h

/-- A preset keeps the property, whatever its text is, if the presets that it loads do. -/
theorem carryOutPreset (hP : Invariant P) (registry : Registry) (limit : Nat)
    {inner : Option Loader} (hinner : ∀ load ∈ inner, Loader.Keeps P load) :
    Loader.Keeps P (Script.carryOutPreset registry limit inner) := by
  intro s line body s' hs h
  unfold Script.carryOutPreset at h
  simp only at h
  split at h
  · cases h
  · split at h
    · -- an unknown preset
      obtain ⟨_, _, hdone⟩ := result_bind_ok.mp h
      cases hdone
      exact hs
    · cases h
    · next preset load _ =>
      obtain ⟨_, _, h⟩ := result_bind_ok.mp h
      obtain ⟨text, _, h⟩ := result_bind_ok.mp h
      have hread : (Script.readText load s text).result = .ok s' := mapError_ok.mp h
      exact hP.readText (hinner load rfl) hs hread

/-- **Run**: presets keep the property however deep they nest. -/
theorem loader (hP : Invariant P) (registry : Registry) (limit : Nat) (depth : Nat) :
    Loader.Keeps P (Script.loader registry limit depth) :=
  loader_induction (fun _ hinner => hP.carryOutPreset registry limit hinner) depth

/-- **Run**: a script that is read to its end keeps the property up to where it is finished. -/
theorem readWith (hP : Invariant P) {registry : Registry} {settings : Settings} {text : String}
    {d : Sequence} (hstart : P (.start settings))
    (h : (Script.readWith registry settings text).result = .ok d) :
    ∃ s, P s ∧ s.finish.result = .ok d := by
  obtain ⟨s, hread, hfinish⟩ := result_bind_ok.mp h
  exact ⟨s, hP.readText (hP.loader registry _ _) hstart hread, hfinish⟩

end State.Invariant

end PulseTrain.Script
