import PulseTrain.Proofs.Expression
import PulseTrain.Proofs.Script.StartValue
import PulseTrain.Proofs.Table

/-! # Literals on a pulse line

    A field is looked up as the name of a variable before it is read as a literal. No literal is
    a name, because a name does not begin like a numeral. So a line of literals means the same
    under all declarations; only a free-form parameter may hold a text that is a name, and such a
    text must not be declared.

    * **Literals**: `literal_of_isIdentifier`, no name is a literal;
    * **Field**: `readField_of_undeclared`, **Parameters**: `readParameters_of_undeclared`;
    * **Line**: `read_conservative`.
-/

namespace PulseTrain.Script

open Success

variable {declared : Table Variable} {p q : Pulse} {field : Field} {text : List Char}

/-! ## Literals -/

/-- What does not begin with a numeral is no literal of any field. -/
theorem literal_of_read?_none (h : Decimal.Numeral.read? (Text.trim text) = none) (x : Float) :
    literal field text ≠ .ok x := by
  have htime := Expression.time_of_read?_none h
  have hamplitude := Expression.amplitude_of_read?_none h
  have hphase := Expression.phase_of_read?_none h
  have hfrequency := Expression.frequency_of_read?_none h
  have hnumber := Expression.number?_of_read?_none h
  rcases field with _ | _ | _ | (_ | _ | _ | key) <;>
    simp [literal, Except.map, htime, hamplitude, hphase, hfrequency, hnumber]

/-- A name is no literal. -/
theorem literal_of_isIdentifier (h : Expression.isIdentifier text = true) (x : Float) :
    literal field text ≠ .ok x :=
  literal_of_read?_none (Expression.read?_of_isIdentifier h) x

/-- A literal does not name a variable, whatever variables are declared. -/
theorem boundVariable?_of_literal {x : Float} (h : literal field text = .ok x) :
    boundVariable? declared field text = .ok none := by
  have hname : ¬Expression.isIdentifier text = true := by
    intro hname
    exact literal_of_isIdentifier hname x h
  unfold boundVariable?
  rw [if_neg hname]

/-- Nor does a text under which no variable is declared. -/
theorem boundVariable?_of_notMem (h : String.ofList text ∉ declared.keys) :
    boundVariable? declared field text = .ok none := by
  -- a name that is not among the keys is not found
  have hget : declared.get? (String.ofList text) = none := by
    cases hget : declared.get? (String.ofList text) with
    | none => rfl
    | some v =>
      have hcontains : declared.contains (String.ofList text) = true := by
        simp [Table.contains, hget]
      exact absurd (Table.contains_iff.mp hcontains) h
  unfold boundVariable?
  rw [hget]
  by_cases hname : Expression.isIdentifier text = true <;> simp [hname]

/-- Where nothing is declared no text is a variable. -/
theorem boundVariable?_empty : boundVariable? .empty field text = .ok none :=
  boundVariable?_of_notMem List.not_mem_nil

/-! ## Fields -/

/-- A field that is not bound is read as it is where nothing is declared. -/
theorem readField_of_unbound (h : boundVariable? declared field text = .ok none) (p : Pulse) :
    readField declared p field text = readField .empty p field text := by
  unfold readField
  rw [h, boundVariable?_empty]

/-- A literal is written into its field, whatever is declared. -/
theorem readField_of_literal {x : Float} (h : literal field text = .ok x) (p : Pulse) :
    readField declared p field text = .ok (p.write field x) := by
  unfold readField
  rw [boundVariable?_of_literal h, h]
  rfl

/-- **Field**: a field that is read where nothing is declared is read in the same way under all
    declarations, if the text of a free-form parameter is not declared. -/
theorem readField_of_undeclared
    (hfree : ∀ key, field = .parameter (.extra key) → String.ofList text ∉ declared.keys)
    (h : readField .empty p field text = .ok q) : readField declared p field text = .ok q := by
  have hunbound : boundVariable? declared field text = .ok none := by
    rcases readField_cases h with ⟨v, hfound, _⟩ | ⟨x, _, hliteral, _⟩ | ⟨key, _, _, _, hfield, _⟩
    · rw [boundVariable?_empty] at hfound
      cases hfound
    · exact boundVariable?_of_literal hliteral
    · -- only a free-form parameter is read although it is no literal
      exact boundVariable?_of_notMem (hfree key hfield)
  rw [readField_of_unbound hunbound, h]

/-- **Parameters**: the same for the parameters, one after another. -/
theorem readParameters_of_undeclared {items : List (List Char)}
    (hfree : ∀ a ∈ items.filterMap Assignment.ofItem?, ∀ key,
      a.field = .parameter (.extra key) → String.ofList a.text ∉ declared.keys)
    (h : items.foldlM (readParameter .empty) p = .ok q) :
    items.foldlM (readParameter declared) p = .ok q := by
  -- by induction on the items, each of which reads the same with and without the table
  induction items generalizing p with
  | nil => exact h
  | cons item rest ih =>
    rw [List.foldlM_cons] at h ⊢
    obtain ⟨p₁, hitem, hrest⟩ := bind_ok.mp h
    have hlater : ∀ a ∈ rest.filterMap Assignment.ofItem?, ∀ key,
        a.field = .parameter (.extra key) → String.ofList a.text ∉ declared.keys := by
      intro a ha
      obtain ⟨other, hother, hofItem⟩ := List.mem_filterMap.mp ha
      exact hfree a (List.mem_filterMap.mpr ⟨other, List.mem_cons_of_mem _ hother, hofItem⟩)
    obtain ⟨a, hassignment, hfield⟩ := Assignment.readParameter_ok_iff.mp hitem
    have hitemFree := hfree a (List.mem_filterMap.mpr ⟨item, List.mem_cons_self, hassignment⟩)
    have hread := Assignment.readParameter_ok_iff.mpr
      ⟨a, hassignment, readField_of_undeclared hitemFree hfield⟩
    exact bind_ok.mpr ⟨p₁, hread, ih hlater hrest⟩

/-! ## Lines -/

/-- **Line**: a line that is read where nothing is declared is read as the same pulse under all
    declarations that do not name the text of a free-form parameter on it. For no literal is a name,
    of whatever field it is a literal, and a text that is no name never stands for a variable. -/
theorem read_conservative :
    (∀ (declared : Table Variable) (line : List Char) (p : Pulse),
      PulseLine.read .empty line = .ok p →
      (∀ a ∈ assignments line, ∀ key,
        a.field = .parameter (.extra key) → String.ofList a.text ∉ declared.keys) →
      PulseLine.read declared line = .ok p) ∧
    (∀ (field : Field) (text : List Char) (x : Float), literal field text = .ok x →
      Expression.isIdentifier text = false ∧
      ∀ declared, boundVariable? declared field text = .ok none) := by
  refine ⟨?_, ?_⟩
  · intro declared line p hread hfree
    unfold PulseLine.read at hread ⊢
    simp only at hread ⊢
    split at hread
    · next target shape duration amplitude parameters hfields =>
      obtain ⟨kind, channelText, time, channel, timed, shapeRead, lasting, played, htarget,
        hchannel, htiming, hunbound, hshape, hduration, hlength, hamplitude, hparameters⟩ :=
        readFields_ok hread
      rw [assignments_of_fields hfields htarget] at hfree
      -- the fields that are no free-form parameters
      have hfixed : ∀ {p q : Pulse} {field : Field} {text : List Char},
          (∀ key, field ≠ .parameter (.extra key)) → readField .empty p field text = .ok q →
          readField declared p field text = .ok q :=
        fun hfield h => readField_of_undeclared (fun key hkey => absurd hkey (hfield key)) h
      -- a free-form parameter is read as before where its text names no variable
      have hlater : ∀ a ∈ parameters.filterMap Assignment.ofItem?, ∀ key,
          a.field = .parameter (.extra key) → String.ofList a.text ∉ declared.keys :=
        fun a ha => hfree a (List.mem_append_right _ ha)
      rw [readFields_of htarget hchannel (hfixed (by simp) htiming) (by simpa using hunbound)
        hshape (hfixed (by simp) hduration) (by simpa using hlength) (hfixed (by simp) hamplitude)]
      exact readParameters_of_undeclared hlater hparameters
    · cases hread
  · intro field text x h
    refine ⟨?_, fun declared => boundVariable?_of_literal h⟩
    rw [Bool.eq_false_iff]
    intro hname
    exact literal_of_isIdentifier hname x h

/-- A line of literals, with a free-form number and a free-form text. -/
def literalLine : List Char :=
  "mw pulse on channel 1 at 5s, square, 10s, 1V, phase=90deg, detuning=2, label=x_axis".toList

def literalPulse : Pulse :=
  { Pulse.new "mw" 1 with
    timing := ⟨5.0⟩, duration := ⟨10.0⟩
    parameters := ⟨none, some 90.0, none,
      (Table.empty.insert "detuning" (.number 2.0)).insert "label" (.text "x_axis")⟩ }

/-- Variables with the names of units and of a key. -/
def unitNames : Table Variable :=
  ((Table.empty.insert "s" ⟨"s", 1.0, 2.0, 2, .time⟩).insert "deg"
    ⟨"deg", 3.0, 4.0, 2, .dimensionless⟩).insert "label" ⟨"label", 5.0, 6.0, 2, .frequency⟩

theorem literalLine_conservative :
    PulseLine.read .empty literalLine = .ok literalPulse ∧
    (∀ a ∈ assignments literalLine, String.ofList a.text ∉ unitNames.keys) ∧
    PulseLine.read unitNames literalLine = .ok literalPulse := by
  have hread : PulseLine.read .empty literalLine = .ok literalPulse := by decide +kernel
  have hfree : ∀ a ∈ assignments literalLine, String.ofList a.text ∉ unitNames.keys := by
    decide +kernel
  exact ⟨hread, hfree,
    read_conservative.1 unitNames literalLine literalPulse hread fun a ha _ _ => hfree a ha⟩

end PulseTrain.Script
