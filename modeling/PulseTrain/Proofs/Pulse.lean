import PulseTrain.Pulse

/-! # Writing fields

    Writing a field changes this field and nothing else, and binding a value writes the bound
    fields one after the other.

    * **Write**: `timing_write` and `duration_write`, and `write_eq` for what is no field;
    * **Bind**: `bind_frame`, whatever no write touches stays as it is;
    * **Read back**: `held?` is what a field holds, `held?_write` and `held?_bind` what it holds
      after a write, and `bind_eq_self_iff` says when a value changes nothing.
-/

namespace PulseTrain.Pulse

theorem timing_write {field : Field} (h : field ≠ .timing) (p : Pulse) (x : Float) :
    (p.write field x).timing = p.timing := by
  match field with
  | .timing => exact absurd rfl h
  | .duration => rfl
  | .amplitude => rfl
  | .parameter .amplitude => rfl
  | .parameter .phase => rfl
  | .parameter .frequency => rfl
  | .parameter (.extra _) => rfl

theorem duration_write {field : Field} (h : field ≠ .duration) (p : Pulse) (x : Float) :
    (p.write field x).duration = p.duration := by
  match field with
  | .timing => rfl
  | .duration => exact absurd rfl h
  | .amplitude => rfl
  | .parameter .amplitude => rfl
  | .parameter .phase => rfl
  | .parameter .frequency => rfl
  | .parameter (.extra _) => rfl

/-- Neither the name nor the kind, the channel, the shape, the marker or the bindings is a field
    that is written. -/
theorem write_eq (p : Pulse) (field : Field) (x : Float) :
    p.write field x =
      { p.write field x with
        name := p.name, kind := p.kind, channel := p.channel, shape := p.shape,
        isFixed := p.isFixed, bindings := p.bindings } := by
  match field with
  | .timing => rfl
  | .duration => rfl
  | .amplitude => rfl
  | .parameter .amplitude => rfl
  | .parameter .phase => rfl
  | .parameter .frequency => rfl
  | .parameter (.extra _) => rfl

@[simp] theorem bindings_write (p : Pulse) (field : Field) (x : Float) :
    (p.write field x).bindings = p.bindings := by
  rw [write_eq]

@[simp] theorem isFixed_write (p : Pulse) (field : Field) (x : Float) :
    (p.write field x).isFixed = p.isFixed := by
  rw [write_eq]

theorem name_kind_write (p : Pulse) (field : Field) (x : Float) :
    (p.write field x).name = p.name ∧ (p.write field x).kind = p.kind := by
  rw [write_eq]
  exact ⟨rfl, rfl⟩

theorem channel_shape_write (p : Pulse) (field : Field) (x : Float) :
    (p.write field x).channel = p.channel ∧ (p.write field x).shape = p.shape := by
  rw [write_eq]
  exact ⟨rfl, rfl⟩

theorem binds_iff {p : Pulse} {f : Field} : p.binds f = true ↔ f ∈ p.bindings.map (·.field) := by
  unfold binds binding?
  rw [List.find?_isSome, List.mem_map]
  simp only [decide_eq_true_eq]

/-- **Frame**: what no write to a bound field touches stays as it is when a value is bound. -/
theorem bind_frame {α : Type} (π : Pulse → α) (p : Pulse) (x : Float)
    (h : ∀ b ∈ p.bindings, ∀ q : Pulse, π (q.write b.field x) = π q) : π (p.bind x) = π p := by
  -- the pulse changes on the way while its bindings are gone through
  have hfold : ∀ bs : List Binding,
      (∀ b ∈ bs, ∀ q : Pulse, π (q.write b.field x) = π q) → ∀ q : Pulse,
      π (bs.foldl (fun q b => q.write b.field x) q) = π q := by
    intro bs
    induction bs with
    | nil =>
      intro _ q
      rfl
    | cons b rest ih =>
      intro hbs q
      have hrest := ih (fun b' hb' => hbs b' (List.mem_cons_of_mem _ hb')) (q.write b.field x)
      rw [List.foldl_cons, hrest, hbs b List.mem_cons_self]
  exact hfold p.bindings h p

/-! ## Reading back -/

/-- What a field holds, if the pulse has the field. -/
def held? (p : Pulse) : Field → Option FreeValue
  | .timing => some (.number p.timing.seconds)
  | .duration => some (.number p.duration.seconds)
  | .amplitude => some (.number p.amplitude)
  | .parameter .amplitude => p.parameters.amplitude.map .number
  | .parameter .phase => p.parameters.phase.map .number
  | .parameter .frequency => p.parameters.frequency.map .number
  | .parameter (.extra name) => p.parameters.extra.get? name

/-- A free-form parameter holds what was written last, and no other field is touched. -/
theorem held?_writeExtra (p : Pulse) (name : String) (value : FreeValue) (g : Field) :
    (p.writeExtra name value).held? g =
      if g = .parameter (.extra name) then some value else p.held? g := by
  match g with
  | .timing => rfl
  | .duration => rfl
  | .amplitude => rfl
  | .parameter .amplitude => rfl
  | .parameter .phase => rfl
  | .parameter .frequency => rfl
  | .parameter (.extra other) =>
    show (p.parameters.extra.insert name value).get? other = _
    -- another key of the table keeps its value
    by_cases h : other = name
    · rw [if_pos (by rw [h]), h, Table.get?_insert_self]
    · rw [if_neg (by simpa using h), Table.get?_insert_of_ne _ h]
      rfl

/-- A field that is written holds the value, and no other field is touched. -/
theorem held?_write (p : Pulse) (f g : Field) (x : Float) :
    (p.write f x).held? g = if g = f then some (.number x) else p.held? g := by
  match f with
  | .parameter (.extra name) => exact p.held?_writeExtra name (.number x) g
  | .timing => rcases g with _ | _ | _ | (_ | _ | _ | _) <;> rfl
  | .duration => rcases g with _ | _ | _ | (_ | _ | _ | _) <;> rfl
  | .amplitude => rcases g with _ | _ | _ | (_ | _ | _ | _) <;> rfl
  | .parameter .amplitude => rcases g with _ | _ | _ | (_ | _ | _ | _) <;> rfl
  | .parameter .phase => rcases g with _ | _ | _ | (_ | _ | _ | _) <;> rfl
  | .parameter .frequency => rcases g with _ | _ | _ | (_ | _ | _ | _) <;> rfl

/-- Writing what a field already holds changes nothing. -/
theorem write_of_held {p : Pulse} {f : Field} {x : Float} (h : p.held? f = some (.number x)) :
    p.write f x = p := by
  -- with the record taken apart, writing what is held is the same record
  obtain ⟨name, kind, channel, shape, duration, amplitude, timing, parameters, isFixed,
    bindings⟩ := p
  obtain ⟨own, phase, frequency, extra⟩ := parameters
  match f with
  | .timing =>
    cases h
    rfl
  | .duration =>
    cases h
    rfl
  | .amplitude =>
    cases h
    rfl
  | .parameter .amplitude =>
    obtain ⟨y, rfl, hy⟩ := Option.map_eq_some_iff.mp h
    cases hy
    rfl
  | .parameter .phase =>
    obtain ⟨y, rfl, hy⟩ := Option.map_eq_some_iff.mp h
    cases hy
    rfl
  | .parameter .frequency =>
    obtain ⟨y, rfl, hy⟩ := Option.map_eq_some_iff.mp h
    cases hy
    rfl
  | .parameter (.extra key) =>
    simp only [write, writeExtra]
    rw [Table.insert_of_get? h]

/-- After a value has been bound, the bound fields hold it. -/
theorem held?_bind (p : Pulse) (x : Float) (g : Field) :
    (p.bind x).held? g =
      if g ∈ p.bindings.map (·.field) then some (.number x) else p.held? g := by
  -- for any list of bindings, since the pulse is not the same at the second of them
  have hfold : ∀ (bs : List Binding) (q : Pulse),
      (bs.foldl (fun q b => q.write b.field x) q).held? g =
        if g ∈ bs.map (·.field) then some (.number x) else q.held? g := by
    intro bs
    induction bs with
    | nil =>
      intro q
      rfl
    | cons b rest ih =>
      intro q
      rw [List.foldl_cons, ih, held?_write, List.map_cons]
      by_cases hrest : g ∈ rest.map (·.field)
      · rw [if_pos hrest, if_pos (List.mem_cons_of_mem _ hrest)]
      · rw [if_neg hrest]
        simp only [List.mem_cons, hrest, or_false]
  exact hfold p.bindings p

theorem timing_of_held? {p : Pulse} {x : Float}
    (h : p.held? .timing = some (.number x)) : p.timing = ⟨x⟩ :=
  congrArg Duration.mk (FreeValue.number.inj (Option.some.inj h))

theorem duration_of_held? {p : Pulse} {x : Float}
    (h : p.held? .duration = some (.number x)) : p.duration = ⟨x⟩ :=
  congrArg Duration.mk (FreeValue.number.inj (Option.some.inj h))

/-- The timing after a value has been bound. -/
theorem timing_bind (p : Pulse) (x : Float) :
    (p.bind x).timing = if Field.timing ∈ p.bindings.map (·.field) then ⟨x⟩ else p.timing := by
  have hheld := p.held?_bind x .timing
  by_cases hbound : Field.timing ∈ p.bindings.map (·.field)
  · rw [if_pos hbound] at hheld ⊢
    exact timing_of_held? hheld
  · rw [if_neg hbound] at hheld ⊢
    exact timing_of_held? hheld

/-- The duration after a value has been bound. -/
theorem duration_bind (p : Pulse) (x : Float) :
    (p.bind x).duration =
      if Field.duration ∈ p.bindings.map (·.field) then ⟨x⟩ else p.duration := by
  have hheld := p.held?_bind x .duration
  by_cases hbound : Field.duration ∈ p.bindings.map (·.field)
  · rw [if_pos hbound] at hheld ⊢
    exact duration_of_held? hheld
  · rw [if_neg hbound] at hheld ⊢
    exact duration_of_held? hheld

/-- **Fixed point**: binding a value changes nothing exactly if all bound fields hold it. -/
theorem bind_eq_self_iff (p : Pulse) (x : Float) :
    p.bind x = p ↔ ∀ b ∈ p.bindings, p.held? b.field = some (.number x) := by
  constructor
  · intro h b hb
    have hheld := p.held?_bind x b.field
    rw [h, if_pos (List.mem_map_of_mem hb)] at hheld
    exact hheld
  · intro h
    -- for any bindings, since the fold goes through them one by one
    have hfold : ∀ bs : List Binding, (∀ b ∈ bs, p.held? b.field = some (.number x)) →
        bs.foldl (fun q b => q.write b.field x) p = p := by
      intro bs
      induction bs with
      | nil =>
        intro _
        rfl
      | cons b rest ih =>
        intro hbs
        rw [List.foldl_cons, write_of_held (hbs b List.mem_cons_self)]
        exact ih fun b' hb' => hbs b' (List.mem_cons_of_mem _ hb')
    exact hfold p.bindings h

end PulseTrain.Pulse
