import PulseTrain.Proofs.Expression

/-! # Agreement of the readers

    A field that expects a time, a frequency, an amplitude or a number has a reader of its own,
    and where a value may have any unit a reader tries all of them. They do not contradict each
    other: the unit behind the numeral is a unit of one dimension only, so no text is read in two
    ways, and the reader that tries all of them finds what the reader of the field finds.

    * **Alternatives**: `attempt` reads a text as a value of one dimension, `attempt_unique` says
      that a text has one dimension at most;
    * **Order**: `tryInOrder` tries the dimensions one after another, `tryInOrder_perm` says that
      the order does not matter, and `value_ok_iff` what `value` finds;
    * **Fields**: `time_iff_attempt`, `frequency_iff_attempt`, `number?_iff_attempt`;
    * **Result**: `readers_agree`.
-/

namespace PulseTrain.Expression

open Decimal Success

/-! ## Alternatives -/

/-- The units of the values of a dimension. A plain number has nothing behind its numeral. -/
def unitsOf : Dimension → List String
  | .time => timeUnits
  | .voltage => voltageUnits
  | .frequency => frequencyUnits
  | .dimensionless => [""]

/-- The text as a value of one dimension, if a numeral and a unit of the dimension are written. A
    variant of a letter may still make the unit an unknown one. -/
def attempt (s : List Char) : Dimension → Option (Except ExpressionError Quantity)
  | .time => (withUnit? timeUnits s).map fun (x, name) => do
    let unit ← timeUnit name
    return .of x (.time unit)
  | .voltage => (withUnit? voltageUnits s).map fun (x, _) => .ok (.of x .volt)
  | .frequency => (withUnit? frequencyUnits s).map fun (x, name) => do
    let unit ← frequencyUnit name
    return .of x (.frequency unit)
  | .dimensionless => (number? s).map fun x => .ok (.of x .plain)

/-- The first of some dimensions in which the text can be read decides what it is. -/
def tryInOrder (order : List Dimension) (s : List Char) : Except ExpressionError Quantity :=
  (order.findSome? (attempt s)).getD (.error (.notValue (quoted s)))

variable {s : List Char} {d e : Dimension} {x : Float}

theorem withUnit?_eq_some {units : List String} {unit : List Char}
    (h : withUnit? units s = some (x, unit)) :
    ∃ n rest, Numeral.read? (Text.trim s) = some (n, rest) ∧ n.toFloat = x ∧
      Text.trimStart rest = unit ∧ ∃ u ∈ units, Text.isWord u unit = true := by
  unfold withUnit? at h
  split at h
  · cases h
  · next n rest hread =>
    by_cases hany : (units.any fun u => Text.isWord u (Text.trimStart rest)) = true
    · simp only [hany, if_true, Option.some.injEq, Prod.mk.injEq] at h
      obtain ⟨rfl, rfl⟩ := h
      exact ⟨n, rest, hread, rfl, rfl, List.any_eq_true.mp hany⟩
    · simp [hany] at h

/-- A text that is read in a dimension is a numeral with a unit of this dimension behind it. -/
theorem unit_of_attempt {r : Except ExpressionError Quantity} (h : attempt s d = some r) :
    ∃ n rest, Numeral.read? (Text.trim s) = some (n, rest) ∧
      ∃ u ∈ unitsOf d, Text.isWord u (Text.trimStart rest) = true := by
  -- with a unit it is the same for all three tables of units
  have hunits : ∀ {units : List String} {found : Float × List Char},
      withUnit? units s = some found → ∃ n rest, Numeral.read? (Text.trim s) = some (n, rest) ∧
        ∃ u ∈ units, Text.isWord u (Text.trimStart rest) = true := by
    intro units found hfound
    obtain ⟨n, rest, hread, _, hunit, hword⟩ := withUnit?_eq_some hfound
    rw [← hunit] at hword
    exact ⟨n, rest, hread, hword⟩
  cases d with
  | time =>
    obtain ⟨_, hfound, _⟩ := Option.map_eq_some_iff.mp h
    exact hunits hfound
  | voltage =>
    obtain ⟨_, hfound, _⟩ := Option.map_eq_some_iff.mp h
    exact hunits hfound
  | frequency =>
    obtain ⟨_, hfound, _⟩ := Option.map_eq_some_iff.mp h
    exact hunits hfound
  | dimensionless =>
    -- a plain number has the empty unit, behind which the text ends
    obtain ⟨y, hfound, _⟩ := Option.map_eq_some_iff.mp h
    unfold number? Decimal.number? at hfound
    split at hfound
    · next n hread => exact ⟨n, [], hread, "", List.mem_singleton.mpr rfl, rfl⟩
    · cases hfound

/-- No unit belongs to two dimensions. -/
theorem eq_of_mem_unitsOf {u : String} (hd : u ∈ unitsOf d) (he : u ∈ unitsOf e) : d = e := by
  -- the lists are finite, and there are only a few pairs of them
  have hdisjoint : ∀ u ∈ unitsOf d, u ∈ unitsOf e → d = e := by
    cases d <;> cases e <;> decide
  exact hdisjoint u hd he

/-- **Alternatives**: a text is read in one dimension at most. The numeral is the longest one, so
    what stands behind it is the same in both cases, and only one dimension has it as a unit. -/
theorem attempt_unique (hd : (attempt s d).isSome = true) (he : (attempt s e).isSome = true) :
    d = e := by
  obtain ⟨r, hr⟩ := Option.isSome_iff_exists.mp hd
  obtain ⟨r', hr'⟩ := Option.isSome_iff_exists.mp he
  obtain ⟨n, rest, hread, u, hu, hword⟩ := unit_of_attempt hr
  obtain ⟨n', rest', hread', v, hv, hword'⟩ := unit_of_attempt hr'
  have hrest : rest = rest' := by
    rw [hread] at hread'
    exact (Prod.mk.inj (Option.some.inj hread')).2
  -- the word behind the number is that of both units
  have huv : u = v := by
    unfold Text.isWord at hword hword'
    rw [beq_iff_eq] at hword hword'
    rw [← hrest, hword] at hword'
    exact String.toList_inj.mp hword'
  rw [huv] at hu
  exact eq_of_mem_unitsOf hu hv

/-! ## Order -/

/-- What is found first is all that is there to find. -/
theorem findSome?_attempt_iff {order : List Dimension} {r : Except ExpressionError Quantity} :
    order.findSome? (attempt s) = some r ↔ ∃ d ∈ order, attempt s d = some r := by
  constructor
  · intro h
    exact List.exists_of_findSome?_eq_some h
  · rintro ⟨d, hd, hr⟩
    cases hfound : order.findSome? (attempt s) with
    | none =>
      have hnone := List.findSome?_eq_none_iff.mp hfound d hd
      rw [hr] at hnone
      cases hnone
    | some r' =>
      -- whatever is found before has the same dimension
      obtain ⟨e, _, hr'⟩ := List.exists_of_findSome?_eq_some hfound
      have hd' : (attempt s d).isSome = true := by rw [hr]; rfl
      have he' : (attempt s e).isSome = true := by rw [hr']; rfl
      have hsame : d = e := attempt_unique hd' he'
      rw [← hr, hsame, hr']

/-- **Order**: in which order the dimensions are tried does not matter. -/
theorem tryInOrder_perm {order order' : List Dimension} (h : order.Perm order')
    (s : List Char) : tryInOrder order s = tryInOrder order' s := by
  have hfound : order.findSome? (attempt s) = order'.findSome? (attempt s) := by
    apply Option.ext
    intro r
    simp only [findSome?_attempt_iff, h.mem_iff]
  unfold tryInOrder
  rw [hfound]

/-- The order in which they are tried. -/
theorem value_eq_tryInOrder (s : List Char) :
    value s = tryInOrder [.time, .voltage, .frequency, .dimensionless] s := by
  unfold value tryInOrder
  simp only [List.findSome?_cons, List.findSome?_nil, attempt]
  -- a case for each alternative, tried in the order in which the reader tries them
  cases withUnit? timeUnits s with
  | some found => rfl
  | none =>
    cases withUnit? voltageUnits s with
    | some found => rfl
    | none =>
      cases withUnit? frequencyUnits s with
      | some found => rfl
      | none =>
        cases number? s with
        | some x => rfl
        | none => rfl

/-- What is read in a dimension has this dimension. -/
theorem dimension_of_attempt {q : Quantity} (h : attempt s d = some (.ok q)) :
    q.dimension = d := by
  -- each alternative writes its own dimension into the quantity that it gives
  cases d with
  | time =>
    obtain ⟨_, _, hdone⟩ := Option.map_eq_some_iff.mp h
    obtain ⟨unit, _, hq⟩ := bind_ok.mp hdone
    cases hq
    rfl
  | voltage =>
    obtain ⟨_, _, hq⟩ := Option.map_eq_some_iff.mp h
    cases hq
    rfl
  | frequency =>
    obtain ⟨_, _, hdone⟩ := Option.map_eq_some_iff.mp h
    obtain ⟨unit, _, hq⟩ := bind_ok.mp hdone
    cases hq
    rfl
  | dimensionless =>
    obtain ⟨_, _, hq⟩ := Option.map_eq_some_iff.mp h
    cases hq
    rfl

/-- The reader that tries all dimensions finds a quantity exactly if the reading in the dimension of
    the quantity does. -/
theorem value_ok_iff {q : Quantity} :
    value s = .ok q ↔ attempt s q.dimension = some (.ok q) := by
  rw [value_eq_tryInOrder]
  unfold tryInOrder
  constructor
  · intro h
    cases hfound : List.findSome? (attempt s) [.time, .voltage, .frequency, .dimensionless] with
    | none => simp [hfound] at h
    | some r =>
      simp only [hfound, Option.getD_some] at h
      -- the alternative that was taken is that of the dimension of its result
      obtain ⟨d, _, hd⟩ := findSome?_attempt_iff.mp hfound
      rw [h] at hd
      rw [dimension_of_attempt hd]
      exact hd
  · intro h
    have hmem : q.dimension ∈ [Dimension.time, .voltage, .frequency, .dimensionless] := by
      cases q.dimension <;> simp
    rw [findSome?_attempt_iff.mpr ⟨q.dimension, hmem, h⟩]
    rfl

/-! ## Fields -/

theorem time_iff_attempt {t : Duration} :
    time s = .ok t ↔ ∃ unit, attempt s .time = some (.ok ⟨t.seconds, .time unit⟩) := by
  obtain ⟨y⟩ := t
  unfold time
  simp only [attempt]
  cases withUnit? timeUnits s with
  | none => simp
  | some found =>
    -- both look the unit up by the same word, and the time forgets which unit it was
    obtain ⟨x, name⟩ := found
    simp only [Option.map_some, Option.some.injEq, bind_ok]
    constructor
    · rintro ⟨unit, hunit, ht⟩
      cases ht
      exact ⟨unit, unit, hunit, rfl⟩
    · rintro ⟨unit, unit', hunit, hq⟩
      cases hq
      exact ⟨unit, hunit, rfl⟩

theorem frequency_iff_attempt :
    frequency s = .ok x ↔ ∃ unit, attempt s .frequency = some (.ok ⟨x, .frequency unit⟩) := by
  unfold frequency
  simp only [attempt]
  cases withUnit? frequencyUnits s with
  | none => simp
  | some found =>
    -- as for a time: the same word is looked up, and the number forgets the unit
    obtain ⟨y, name⟩ := found
    simp only [Option.map_some, Option.some.injEq, bind_ok]
    constructor
    · rintro ⟨unit, hunit, hx⟩
      cases hx
      exact ⟨unit, unit, hunit, rfl⟩
    · rintro ⟨unit, unit', hunit, hq⟩
      cases hq
      exact ⟨unit, hunit, rfl⟩

/-- A plain number is multiplied by one, which leaves every double as it is. -/
theorem number?_iff_attempt :
    number? s = some x ↔ attempt s .dimensionless = some (.ok ⟨x, .plain⟩) := by
  -- a plain number has the factor 1.0
  have hplain : ∀ y, Quantity.of y .plain = ⟨y, .plain⟩ := by
    intro y
    show (⟨y * 1.0, .plain⟩ : Quantity) = ⟨y, .plain⟩
    rw [mul_one_eq]
  simp only [attempt, hplain]
  cases number? s with
  | none => simp
  | some y => simp

/-! ## Result -/

/-- **Agreement**: a text is read in one dimension at most, so the order in which the dimensions are
    tried does not matter, and each of the other readers reads exactly the texts that are read in
    its dimension, to the same value. -/
theorem readers_agree (s : List Char) :
    (∀ d e, (attempt s d).isSome = true → (attempt s e).isSome = true → d = e) ∧
    (∀ order : List Dimension, order.Perm [.time, .voltage, .frequency, .dimensionless] →
      tryInOrder order s = value s) ∧
    (∀ t, time s = .ok t ↔ ∃ unit, value s = .ok ⟨t.seconds, .time unit⟩) ∧
    (∀ x, frequency s = .ok x ↔ ∃ unit, value s = .ok ⟨x, .frequency unit⟩) ∧
    (∀ x, number? s = some x ↔ value s = .ok ⟨x, .plain⟩) ∧
    (∀ x, amplitude s = .ok x ↔ value s = .ok ⟨x, .volt⟩ ∨ value s = .ok ⟨x, .plain⟩) := by
  refine ⟨fun d e => attempt_unique, ?_, ?_, ?_, ?_, ?_⟩
  · intro order horder
    -- the order does not matter, because two alternatives never match the same text
    rw [value_eq_tryInOrder, tryInOrder_perm horder]
  · intro t
    simp only [value_ok_iff]
    exact time_iff_attempt
  · intro x
    simp only [value_ok_iff]
    exact frequency_iff_attempt
  · intro x
    rw [value_ok_iff]
    exact number?_iff_attempt
  · intro x
    unfold amplitude
    rw [bind_ok]
    -- of the values with any unit an amplitude takes two kinds
    constructor
    · rintro ⟨⟨y, unit⟩, hvalue, hunit⟩
      cases unit with
      | volt =>
        cases hunit
        exact .inl hvalue
      | plain =>
        cases hunit
        exact .inr hvalue
      | time unit => cases hunit
      | frequency unit => cases hunit
    · rintro (hvalue | hvalue)
      · exact ⟨_, hvalue, rfl⟩
      · exact ⟨_, hvalue, rfl⟩

end PulseTrain.Expression
