import PulseTrain.Proofs.Script.Provenance
import PulseTrain.Proofs.Script.WrittenLine

/-! # Names of variables

    A variable can only be declared under a name, so what is no name stands for itself wherever it
    is written, and a name is found again as it was written.

    * **Names**: `Declarable`, which every line keeps by `State.declarable_invariant`, and every
      text by `declarable_of_readText`;
    * **Fields**: `gives_iff` says what a text gives to a field under such declarations.
-/

namespace PulseTrain.Script

open Success

/-- Every variable is declared under a name, without blanks around it. -/
def Declarable (declared : Table Variable) : Prop :=
  ∀ name v, declared.get? name = some v →
    Expression.isIdentifier name.toList = true ∧ Text.trim name.toList = name.toList

variable {declared : Table Variable}

/-! ## Declarations -/

theorem readSteps_ok {name : String} {text : List Char} {steps : UInt32}
    (h : readSteps name text = .ok steps) : 1 ≤ steps := by
  unfold readSteps at h
  split at h
  · split at h
    · next hsteps =>
      cases h
      exact hsteps
    · cases h
  · cases h

theorem isNaN_keyedQuantity {key : String} {text : List Char} {q : Quantity}
    (h : keyedQuantity key text = .ok q) : q.value.isNaN = false := by
  obtain ⟨value, _, hread⟩ := bind_ok.mp h
  exact Expression.isNaN_value (mapError_ok.mp hread)

/-- A declaration gives a variable a name, at least one step, and a number to start with. -/
theorem readDeclaration_ok {body : List Char} {v : Variable} (h : readDeclaration body = .ok v) :
    Expression.isIdentifier v.name.toList = true ∧ Text.trim v.name.toList = v.name.toList ∧
      1 ≤ v.steps ∧ v.start.isNaN = false := by
  unfold readDeclaration at h
  split at h
  · next nameText startText stopText stepsText hfields =>
    -- the four parts come trimmed out of the split at the commas
    have htrim : Text.trim nameText = nameText := by
      have hmem : nameText ∈ (Text.splitOn ',' body).map Text.trim := by
        rw [hfields]
        exact List.mem_cons_self
      obtain ⟨piece, _, rfl⟩ := List.mem_map.mp hmem
      exact Text.trim_trim piece
    dsimp only at h
    split at h
    · obtain ⟨_, hthrow, _⟩ := bind_ok.mp h
      cases hthrow
    · next hname =>
      obtain ⟨start, hstart, h⟩ := bind_ok.mp h
      obtain ⟨stop, _, h⟩ := bind_ok.mp h
      split at h
      · obtain ⟨_, hthrow, _⟩ := bind_ok.mp h
        cases hthrow
      · obtain ⟨text, _, h⟩ := bind_ok.mp h
        obtain ⟨steps, hsteps, h⟩ := bind_ok.mp h
        cases h
        dsimp only
        rw [String.toList_ofList]
        exact ⟨by simpa using hname, htrim, readSteps_ok hsteps, isNaN_keyedQuantity hstart⟩
  · cases h

theorem Declarable.insert {v : Variable} (h : Declarable declared)
    (hname : Expression.isIdentifier v.name.toList = true)
    (htrim : Text.trim v.name.toList = v.name.toList) :
    Declarable (declared.insert v.name v) :=
  Table.forall_get?_insert h ⟨hname, htrim⟩

/-- **Invariant**: whatever is read, variables are declared under names. -/
theorem State.declarable_invariant : State.Invariant fun s => Declarable s.sequence.declared :=
  State.declared_invariant fun h =>
    ⟨(readDeclaration_ok h).1, (readDeclaration_ok h).2.1⟩

/-- Wherever a text has been read to, variables are declared under names. -/
theorem declarable_of_readText {registry : Registry} {settings : Settings} {limit depth : ℕ}
    {text : List Char} {s : State}
    (h : (readText (loader registry limit depth) (.start settings) text).result = .ok s) :
    Declarable s.sequence.declared := by
  refine State.declarable_invariant.readText
    (State.declarable_invariant.loader registry limit depth) ?_ h
  intro name v hv
  cases hv

/-- A text under which a variable is declared is a name. -/
theorem Declarable.isIdentifier {text : List Char} {v : Variable} (h : Declarable declared)
    (hget : declared.get? (String.ofList text) = some v) :
    Expression.isIdentifier text = true := by
  have hname := (h _ v hget).1
  rwa [String.toList_ofList] at hname

/-- A field is not bound if its text is not declared. -/
theorem Assignment.source?_of_undeclared {a : Assignment}
    (hget : declared.get? (String.ofList a.text) = none) : a.source? declared = none := by
  cases hsource : a.source? declared with
  | none => rfl
  | some v =>
    rw [Assignment.source?_ok hsource] at hget
    cases hget

/-- A field that is not bound is given a literal. -/
theorem gives_of_source?_none {a : Assignment} (hfield : ∀ key, a.field ≠ .parameter key)
    (h : a.source? declared = none) (x : Float) :
    a.Gives declared x ↔ literal a.field a.text = .ok x := by
  obtain ⟨field, text⟩ := a
  unfold Assignment.Gives Assignment.value?
  rw [h]
  dsimp only
  cases hliteral : literal field text with
  | ok y => simp
  | error e =>
    cases field with
    | parameter key => exact absurd rfl (hfield key)
    | _ => simp

/-- **Field**: the name of a variable gives the start value of the variable, if the field accepts
    it, and any other text gives what it is as a literal. -/
theorem gives_iff (hdeclared : Declarable declared) {a : Assignment} {x : Float}
    (hfield : ∀ key, a.field ≠ .parameter key) :
    a.Gives declared x ↔
      match declared.get? (String.ofList a.text) with
      | some v => a.field.accepts v.dimension = true ∧ v.start = x
      | none => literal a.field a.text = .ok x := by
  cases hget : declared.get? (String.ofList a.text) with
  | none => exact gives_of_source?_none hfield (Assignment.source?_of_undeclared hget) x
  | some v =>
    have hname := hdeclared.isIdentifier hget
    by_cases haccepts : a.field.accepts v.dimension = true
    · have hsource : a.source? declared = some v := by
        simp [Assignment.source?, boundVariable?, hname, hget, haccepts]
      simp [Assignment.Gives, Assignment.value?, hsource, haccepts]
    · have hsource : a.source? declared = none := by
        simp [Assignment.source?, boundVariable?, hname, hget, haccepts]
      -- a name that may not drive the field is no literal either
      rw [gives_of_source?_none hfield hsource]
      simp [haccepts, literal_of_isIdentifier hname x]

end PulseTrain.Script
