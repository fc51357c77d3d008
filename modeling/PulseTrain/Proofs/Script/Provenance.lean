import PulseTrain.Proofs.Script.Invariant
import PulseTrain.Proofs.Script.PulseLine
import PulseTrain.Proofs.Table

/-! # Where pulses come from

    Wherever a pulse of a sequence stands, it was read from a line, under the declarations that
    stood above this line, and was then given its final name. What is declared is never taken
    back, so the declarations under which a pulse was read hold to the end.

    * **Steps**: `State.addPulses_ok`, `State.addLoop_ok`, `State.addConditional_ok`,
      `State.applyHeader_ok` and `State.declare_ok` say what each kind of step has done;
    * **Gains**: `Gains`, by which pulse lines and blocks add pulses from lines and change
      neither the declarations nor the sample rate;
    * **Invariant**: `State.Traced`, kept by `State.traced_invariant`, and
      `State.table_invariant` for what is said of the variables alone, with
      `State.declared_invariant` and `State.extends_invariant` as its two cases.
-/

namespace PulseTrain.Script

open Success

variable {declared : Table Variable} {p : Pulse}

/-! ## Lines of pulses -/

/-- All that is declared in one table is declared in the other in the same way. -/
def Extends (earlier declared : Table Variable) : Prop :=
  ∀ name v, earlier.get? name = some v → declared.get? name = some v

theorem Extends.refl (declared : Table Variable) : Extends declared declared :=
  fun _ _ h => h

theorem Extends.trans {first second third : Table Variable} (h : Extends first second)
    (h' : Extends second third) : Extends first third :=
  fun name v hv => h' name v (h name v hv)

/-- A new variable takes nothing away from what is declared. -/
theorem Extends.insert {v : Variable} (hnew : declared.contains v.name = false) :
    Extends declared (declared.insert v.name v) := by
  intro name w hw
  rw [Table.get?_insert_of_ne]
  · exact hw
  · intro heq
    unfold Table.contains at hnew
    rw [← heq, hw] at hnew
    cases hnew

/-- A pulse that was read from a line, under declarations that still hold, and has only been given
    another name since. -/
def FromLine (declared : Table Variable) (p : Pulse) : Prop :=
  ∃ earlier line q, Extends earlier declared ∧ PulseLine.read earlier line = .ok q ∧
    p = { q with name := p.name }

/-- A pulse is from a line as soon as it is read, whatever it is called then. -/
theorem FromLine.of_read {line : List Char} {q : Pulse} (name : String)
    (h : PulseLine.read declared line = .ok q) : FromLine declared { q with name := name } :=
  ⟨declared, line, q, .refl declared, h, rfl⟩

theorem FromLine.declare {v : Variable} (h : FromLine declared p)
    (hnew : declared.contains v.name = false) : FromLine (declared.insert v.name v) p := by
  obtain ⟨earlier, line, q, hextends, hread, hname⟩ := h
  exact ⟨earlier, line, q, hextends.trans (.insert hnew), hread, hname⟩

/-- What justified the bindings of a pulse when it was read justifies them still. -/
theorem FromLine.justified (h : FromLine declared p) (hnamed : Named declared) :
    Justified declared p := by
  obtain ⟨earlier, line, q, hextends, hread, hname⟩ := h
  have hearlier : Named earlier := fun name v hv => hnamed name v (hextends name v hv)
  rw [hname]
  intro b hb
  obtain ⟨v, hv, hsuits⟩ := read_justified hearlier hread b hb
  exact ⟨v, hextends b.variableName v hv, hsuits.congr rfl⟩

/-! ## Steps

    What each kind of step has done if it ends well. All that is kept by reading is derived from
    these, so that no other proof opens a step. -/

variable {s s' : State}

/-- The pulses of some lines are from these lines, and reading them changes no more than the numbers
    in the names. -/
theorem State.readPulses_ok {lines : List Line} {ps : List Pulse}
    (h : (s.readPulses lines).result = .ok (s', ps)) :
    (∃ counters, s' = { s with counters := counters }) ∧
      ∀ p ∈ ps, FromLine s.sequence.declared p := by
  induction lines generalizing s ps with
  | nil =>
    cases h
    refine ⟨⟨_, rfl⟩, ?_⟩
    intro p hp
    cases hp
  | cons line rest ih =>
    unfold State.readPulses State.readPulse at h
    cases hread : PulseLine.read s.sequence.declared line.text with
    | error e =>
      -- a bad line is passed over with a note
      simp only [hread] at h
      obtain ⟨_, _, hrest⟩ := result_bind_ok.mp h
      exact ih hrest
    | ok p =>
      -- a number is added to the name and nothing else is changed
      simp only [hread] at h
      obtain ⟨⟨s₁, ps₁⟩, hrest, hdone⟩ := result_bind_ok.mp h
      cases hdone
      obtain ⟨⟨counters, hsame⟩, hps₁⟩ := ih (s := (s.numberPulse p).1) hrest
      refine ⟨⟨counters, hsame⟩, ?_⟩
      intro q hq
      rcases List.mem_cons.mp hq with rfl | hq
      · exact FromLine.of_read _ hread
      · exact hps₁ q hq

/-- Pulse lines add their pulses to the sequence itself. -/
theorem State.addPulses_ok {lines : List Line} (h : (s.addPulses lines).result = .ok s') :
    ∃ ps counters, (∀ p ∈ ps, FromLine s.sequence.declared p) ∧
      s' = { s with sequence := { s.sequence with pulses := s.sequence.pulses ++ ps },
                    counters := counters } := by
  obtain ⟨⟨s₁, ps⟩, hread, hdone⟩ := result_bind_ok.mp h
  obtain ⟨⟨counters, rfl⟩, hps⟩ := State.readPulses_ok hread
  cases hdone
  exact ⟨ps, counters, hps, rfl⟩

/-- A loop is added with the pulses of its lines. -/
theorem State.addLoop_ok {iterations : UInt32} {body : List Line}
    (h : (s.addBlock (.loop iterations body)).result = .ok s') :
    ∃ ps counters, (∀ p ∈ ps, FromLine s.sequence.declared p) ∧
      s' = { s with sequence :=
              { s.sequence with loops := s.sequence.loops ++ [.of iterations ps] },
                    counters := counters } := by
  obtain ⟨⟨s₁, ps⟩, hread, hdone⟩ := result_bind_ok.mp h
  obtain ⟨⟨counters, rfl⟩, hps⟩ := State.readPulses_ok hread
  cases hdone
  exact ⟨ps, counters, hps, rfl⟩

/-- A conditional is added with the pulses of the lines of both branches. -/
theorem State.addConditional_ok {condition : String} {whenTrue : List Line}
    {whenFalse : Option (List Line)}
    (h : (s.addBlock (.conditional condition whenTrue whenFalse)).result = .ok s') :
    ∃ trueOnes falseOnes counters,
      (∀ p ∈ trueOnes ++ falseOnes, FromLine s.sequence.declared p) ∧
      s' = { s with sequence :=
              { s.sequence with
                conditionals := s.sequence.conditionals ++ [.of condition trueOnes falseOnes] },
                    counters := counters } := by
  obtain ⟨⟨s₁, trueOnes⟩, htrue, hrest⟩ := result_bind_ok.mp h
  obtain ⟨⟨s₂, falseOnes⟩, hfalse, hdone⟩ := result_bind_ok.mp hrest
  obtain ⟨⟨_, rfl⟩, htrueOnes⟩ := State.readPulses_ok htrue
  -- the false branch is read after the true one, with the same variables
  obtain ⟨⟨counters, rfl⟩, hfalseOnes⟩ := State.readPulses_ok hfalse
  cases hdone
  exact ⟨trueOnes, falseOnes, counters,
    List.forall_mem_append.mpr ⟨htrueOnes, hfalseOnes⟩, rfl⟩

/-- An item of a header sets what it gives, and sets nothing if its key is unknown. -/
theorem State.applyHeader_ok {line : Nat} {item : List Char}
    (h : (s.applyHeader line item).result = .ok s') :
    ∃ given, HeaderItem.read item = .ok given ∧
      s' = { s with sequence := given.apply s.sequence,
                    durationGiven := s.durationGiven || given.isDuration } := by
  unfold State.applyHeader at h
  split at h
  · cases h
  · next key hread =>
    cases h
    refine ⟨.unknown key, hread, ?_⟩
    simp [HeaderItem.apply, HeaderItem.isDuration]
  · next given _ hread =>
    cases h
    exact ⟨given, hread, rfl⟩

/-- A declaration adds a variable under a new name. -/
theorem State.declare_ok {line : Nat} {body : List Char}
    (h : (s.declare line body).result = .ok s') :
    ∃ v, readDeclaration body = .ok v ∧ s.sequence.declared.contains v.name = false ∧
      s' = { s with sequence :=
        { s.sequence with declared := s.sequence.declared.insert v.name v } } := by
  unfold State.declare at h
  split at h
  · cases h
  · next v hread =>
    split at h
    · cases h
    · next hnew =>
      rw [Bool.not_eq_true] at hnew
      cases h
      exact ⟨v, hread, hnew, rfl⟩

/-! ## Gains -/

/-- A sequence that has gained pulses from lines, while its variables and its sample rate are what
    they were. -/
structure Gains (d d' : Sequence) : Prop where
  rate : d'.sampleRate = d.sampleRate
  declared : d'.declared = d.declared
  pulses : ∀ p ∈ d'.everyPulse, p ∈ d.everyPulse ∨ FromLine d.declared p

theorem State.addPulses_gains {lines : List Line} (h : (s.addPulses lines).result = .ok s') :
    Gains s.sequence s'.sequence := by
  obtain ⟨ps, counters, hps, rfl⟩ := State.addPulses_ok h
  refine ⟨rfl, rfl, ?_⟩
  intro p hp
  have hnew := hps p
  simp only [Sequence.everyPulse, List.mem_append] at hp ⊢
  tauto

theorem State.addBlock_gains {block : Block} (h : (s.addBlock block).result = .ok s') :
    Gains s.sequence s'.sequence := by
  cases block with
  | loop iterations body =>
    obtain ⟨ps, counters, hps, rfl⟩ := State.addLoop_ok h
    refine ⟨rfl, rfl, ?_⟩
    intro p hp
    -- a pulse of the sequence is one that it had before, or one of the new block
    have hnew : p ∈ (Loop.of iterations ps).pulses → FromLine s.sequence.declared p := hps p
    simp only [Sequence.everyPulse, List.mem_append, List.flatMap_append,
      List.flatMap_singleton] at hp ⊢
    tauto
  | conditional condition whenTrue whenFalse =>
    obtain ⟨trueOnes, falseOnes, counters, hps, rfl⟩ := State.addConditional_ok h
    refine ⟨rfl, rfl, ?_⟩
    intro p hp
    have hnew : p ∈ (Conditional.of condition trueOnes falseOnes).whenTrue ++
        (Conditional.of condition trueOnes falseOnes).whenFalse →
        FromLine s.sequence.declared p := hps p
    simp only [Sequence.everyPulse, List.mem_append, List.flatMap_append,
      List.flatMap_singleton] at hp hnew ⊢
    tauto

/-- A header changes neither the pulses nor the variables. -/
theorem HeaderItem.apply_frame (s : Sequence) (item : HeaderItem) :
    (item.apply s).declared = s.declared ∧ (item.apply s).everyPulse = s.everyPulse := by
  cases item with
  | name value => exact ⟨rfl, rfl⟩
  | experiment value => exact ⟨rfl, rfl⟩
  | duration value => exact ⟨rfl, rfl⟩
  | sampleRate value => exact ⟨rfl, rfl⟩
  | repeatCount value => exact ⟨rfl, rfl⟩
  | unknown key => exact ⟨rfl, rfl⟩

/-! ## Invariant -/

/-- Every variable is declared under its own name, and every pulse was read from a line. -/
structure State.Traced (s : State) : Prop where
  named : Named s.sequence.declared
  fromLine : ∀ p ∈ s.sequence.everyPulse, FromLine s.sequence.declared p

theorem State.start_traced (settings : Settings) : (State.start settings).Traced := by
  refine ⟨?_, ?_⟩
  · intro name v hv
    cases hv
  · intro p hp
    cases hp

/-- Pulses that are gained are from lines as those before. -/
theorem State.Traced.gain (hs : s.Traced) (h : Gains s.sequence s'.sequence) : s'.Traced := by
  refine ⟨?_, ?_⟩
  · rw [h.declared]
    exact hs.named
  · intro p hp
    rw [h.declared]
    rcases h.pulses p hp with hold | hnew
    · exact hs.fromLine p hold
    · exact hnew

theorem State.Traced.declare {line : Nat} {body : List Char} (hs : s.Traced)
    (h : (s.declare line body).result = .ok s') : s'.Traced := by
  obtain ⟨v, _, hnew, rfl⟩ := State.declare_ok h
  refine ⟨?_, fun p hp => (hs.fromLine p hp).declare hnew⟩
  -- the new name leads to the new variable, any other name where it led before
  exact Table.forall_get?_insert hs.named rfl

/-- **Invariant**: every step keeps track of where the pulses come from. -/
theorem State.traced_invariant : State.Invariant State.Traced where
  header := by
    intro s s' line item hs h
    obtain ⟨given, _, rfl⟩ := State.applyHeader_ok h
    obtain ⟨hdeclared, hpulses⟩ := HeaderItem.apply_frame s.sequence given
    refine ⟨?_, ?_⟩
    · simp only [hdeclared]
      exact hs.named
    · simp only [hdeclared, hpulses]
      exact hs.fromLine
  declaration := fun hs h => hs.declare h
  pulses := fun hs h => hs.gain (State.addPulses_gains h)
  block := fun hs h => hs.gain (State.addBlock_gains h)

/-- **Invariant**: of the table of variables whatever a declaration keeps. -/
theorem State.table_invariant {T : Table Variable → Prop}
    (hdeclare : ∀ {declared : Table Variable} {body : List Char} {v : Variable}, T declared →
      readDeclaration body = .ok v → declared.contains v.name = false →
      T (declared.insert v.name v)) :
    State.Invariant fun s => T s.sequence.declared where
  header := by
    intro s s' line item hs h
    obtain ⟨given, _, rfl⟩ := State.applyHeader_ok h
    rw [(HeaderItem.apply_frame s.sequence given).1]
    exact hs
  declaration := by
    intro s s' line body hs h
    obtain ⟨v, hv, hnew, rfl⟩ := State.declare_ok h
    exact hdeclare hs hv hnew
  pulses := by
    intro s s' lines hs h
    rw [(State.addPulses_gains h).declared]
    exact hs
  block := by
    intro s s' block hs h
    rw [(State.addBlock_gains h).declared]
    exact hs

/-- **Invariant**: what every declaration says of its variable holds of whatever is declared. -/
theorem State.declared_invariant {Q : String → Variable → Prop}
    (hQ : ∀ {body : List Char} {v : Variable}, readDeclaration body = .ok v → Q v.name v) :
    State.Invariant fun s => ∀ name v, s.sequence.declared.get? name = some v → Q name v :=
  State.table_invariant (T := fun declared => ∀ name v, declared.get? name = some v → Q name v)
    fun h hv _ => Table.forall_get?_insert h (hQ hv)

/-- **Invariant**: what is declared is never taken back. -/
theorem State.extends_invariant (earlier : Table Variable) :
    State.Invariant fun s => Extends earlier s.sequence.declared :=
  State.table_invariant fun h _ hnew => h.trans (.insert hnew)

/-! ## Finished sequences -/

/-- At the end of a script only the total duration may still change. -/
theorem State.finish_eq {d : Sequence} (h : s.finish.result = .ok d) :
    d = { s.sequence with totalDuration := d.totalDuration } := by
  unfold State.finish at h
  split at h
  · cases h
  · obtain ⟨_, _, hdone⟩ := result_bind_ok.mp h
    cases hdone
    split
    · rfl
    · rfl

/-- At most one variable is declared in a finished sequence, and nothing has changed at the end but
    the total duration. -/
theorem State.finish_ok {d : Sequence} (h : s.finish.result = .ok d) :
    d.declared.size ≤ 1 ∧ d.declared = s.sequence.declared ∧
      d.sampleRate = s.sequence.sampleRate ∧ d.everyPulse = s.sequence.everyPulse := by
  have hd := State.finish_eq h
  have hsize : s.sequence.declared.size ≤ 1 := by
    unfold State.finish at h
    split at h
    · cases h
    · omega
  rw [hd]
  exact ⟨hsize, rfl, rfl, rfl⟩

/-- Whatever is found in a table with one value at most is its only value. -/
theorem values_of_get? {α : Type} {t : Table α} {name : String} {a : α} (hsize : t.size ≤ 1)
    (h : t.get? name = some a) : t.values = [a] := by
  obtain ⟨entries, hnodup⟩ := t
  -- of at most one entry the one that is found is all there is
  match entries, hnodup, hsize, h with
  | [], _, _, h => cases h
  | [(key, w)], _, _, h =>
    simp only [Table.get?, Table.lookup?] at h
    split at h
    · cases h
      rfl
    · cases h
  | _ :: _ :: _, _, hsize, _ =>
    simp only [Table.size, List.length_cons] at hsize
    omega

end PulseTrain.Script
