import PulseTrain.Proofs.Scan.Binding
import PulseTrain.Script.PulseLine

/-! # The bindings of a pulse line

    A line binds a field only to a variable that is declared above it and suits the field, and
    it never binds the timing of a fixed pulse. So each binding is justified from the moment
    the pulse is read, and the check before a scan has nothing to object to.

    * **Field**: `readField_cases` says what reading a field can do, and `readField_justified` is
      the step;
    * **Line**: `read_ok` and `readFields_ok` take the reading of a line apart, `read_justified`
      goes along it field by field and then over all parameters.
-/

namespace PulseTrain.Script

open Success

def Named (declared : Table Variable) : Prop :=
  ∀ name v, declared.get? name = some v → v.name = name

/-- Every binding of a pulse is to a declared variable, which suits it. -/
def Justified (declared : Table Variable) (p : Pulse) : Prop :=
  ∀ b ∈ p.bindings, ∃ v, declared.get? b.variableName = some v ∧ Scan.Binding.Suits v p b

variable {declared : Table Variable} {p q : Pulse}

/-- Of a pulse only its bindings and its marker matter. -/
theorem Justified.congr (h : Justified declared p) (hbindings : q.bindings = p.bindings)
    (hfixed : q.isFixed = p.isFixed) : Justified declared q := by
  intro b hb
  rw [hbindings] at hb
  obtain ⟨v, hv, hsuits⟩ := h b hb
  exact ⟨v, hv, hsuits.congr hfixed⟩

/-! ## Fields -/

theorem boundVariable?_ok {field : Field} {text : List Char} {v : Variable}
    (h : boundVariable? declared field text = .ok (some v)) :
    declared.get? (String.ofList text) = some v ∧ field.accepts v.dimension = true := by
  unfold boundVariable? at h
  split at h
  · split at h
    · cases h
    · next w hw =>
      split at h
      · next haccepts =>
        cases h
        exact ⟨hw, haccepts⟩
      · cases h
  · cases h

/-- All that the reading of a field can do: it sets the field to the start value of the variable
    that the text names, and binds it, or to a literal, or it keeps the text of a free-form
    parameter. -/
theorem readField_cases {field : Field} {text : List Char}
    (h : readField declared p field text = .ok q) :
    (∃ v, boundVariable? declared field text = .ok (some v) ∧
      q = { p.write field v.start with bindings := p.bindings ++ [⟨v.name, field⟩] }) ∨
    (∃ x, boundVariable? declared field text = .ok none ∧ literal field text = .ok x ∧
      q = p.write field x) ∨
    ∃ key e, boundVariable? declared field text = .ok none ∧ literal field text = .error e ∧
      field = .parameter (.extra key) ∧ q = p.writeExtra key (.text (String.ofList text)) := by
  obtain ⟨found, hfound, hrest⟩ := bind_ok.mp h
  -- a variable is written by its start value, and anything else by the literal or as a text
  cases found with
  | some v =>
    cases hrest
    exact .inl ⟨v, hfound, rfl⟩
  | none =>
    simp only at hrest
    split at hrest
    · next hliteral =>
      cases hrest
      exact .inr (.inl ⟨_, hfound, hliteral, rfl⟩)
    · next hliteral =>
      cases hrest
      exact .inr (.inr ⟨_, _, hfound, hliteral, rfl, rfl⟩)
    · cases hrest

/-- Reading a field adds one binding or none. -/
theorem readField_ok {field : Field} {text : List Char}
    (h : readField declared p field text = .ok q) :
    q.isFixed = p.isFixed ∧ (q.bindings = p.bindings ∨
      ∃ v, declared.get? (String.ofList text) = some v ∧ field.accepts v.dimension = true ∧
        q.bindings = p.bindings ++ [⟨v.name, field⟩]) := by
  rcases readField_cases h with ⟨v, hfound, rfl⟩ | ⟨x, _, _, rfl⟩ | ⟨key, _, _, _, _, rfl⟩
  · obtain ⟨hget, haccepts⟩ := boundVariable?_ok hfound
    exact ⟨p.isFixed_write field v.start, Or.inr ⟨v, hget, haccepts, rfl⟩⟩
  · exact ⟨p.isFixed_write field x, Or.inl (p.bindings_write field x)⟩
  · exact ⟨rfl, Or.inl rfl⟩

/-- **Step**: a field that may be bound is bound for a reason. -/
theorem readField_justified {field : Field} {text : List Char} (hnamed : Named declared)
    (hfree : field = .timing → p.isFixed = false) (hp : Justified declared p)
    (h : readField declared p field text = .ok q) :
    Justified declared q ∧ q.isFixed = p.isFixed := by
  obtain ⟨hfixed, hbindings⟩ := readField_ok h
  refine ⟨?_, hfixed⟩
  rcases hbindings with hsame | ⟨v, hget, haccepts, hnew⟩
  · exact hp.congr hsame hfixed
  · have hname : v.name = String.ofList text := hnamed _ v hget
    intro b hb
    rw [hnew] at hb
    rcases List.mem_append.mp hb with hb | hb
    · -- a binding from before, of a pulse that is as fixed as it was
      obtain ⟨w, hw, hsuits⟩ := hp b hb
      exact ⟨w, hw, hsuits.congr hfixed⟩
    · -- the new binding, under the name that is written and declared
      rw [List.mem_singleton] at hb
      subst hb
      refine ⟨v, ?_, rfl, haccepts, ?_⟩
      · rw [hname]
        exact hget
      · rw [hfixed]
        exact hfree

/-- A parameter is read as the field that its key names. -/
theorem readParameter_ok_iff {item : List Char} :
    readParameter declared p item = .ok q ↔
      ∃ key value, Text.splitOnce? '=' item = some (key, value) ∧
        readField declared p (.parameter (.ofName (String.ofList (Text.trim key))))
          (Text.trim value) = .ok q := by
  unfold readParameter
  cases Text.splitOnce? '=' item with
  | none => simp
  | some parts =>
    obtain ⟨key, value⟩ := parts
    constructor
    · intro h
      exact ⟨key, value, rfl, h⟩
    · rintro ⟨_, _, hparts, h⟩
      cases hparts
      exact h

theorem readParameter_justified {item : List Char} (hnamed : Named declared)
    (hp : Justified declared p) (h : readParameter declared p item = .ok q) :
    Justified declared q := by
  obtain ⟨_, _, _, hfield⟩ := readParameter_ok_iff.mp h
  exact (readField_justified hnamed (fun htiming => by cases htiming) hp hfield).1

/-! ## Lines -/

/-- The marker may be put on a pulse as long as nothing but its timing has been read, if the timing
    is not bound. -/
theorem Justified.mark {fixed : Bool} (s : Shape) (h : Justified declared p)
    (hfree : p.isFixed = false) (hunbound : ¬(fixed && p.hasBindings) = true) :
    Justified declared { p with shape := s, isFixed := fixed } := by
  cases fixed with
  | false => exact h.congr rfl hfree.symm
  | true =>
    -- a line that is marked has no binding yet, so there is nothing to justify
    have hnone : p.bindings = [] := by
      simpa [Pulse.hasBindings] using hunbound
    intro b hb
    change b ∈ p.bindings at hb
    rw [hnone] at hb
    cases hb

/-- A line that is read as a pulse has four fields and perhaps parameters, apart from its markers.
    -/
theorem read_ok {line : List Char} (h : PulseLine.read declared line = .ok q) :
    ∃ target shape duration amplitude parameters,
      (Text.splitOn ',' (removeMarkers line).1).map Text.trim =
        target :: shape :: duration :: amplitude :: parameters ∧
      PulseLine.readFields declared (removeMarkers line).2 target shape duration amplitude
        parameters = .ok q := by
  unfold PulseLine.read at h
  simp only at h
  split at h
  · next target shape duration amplitude parameters hfields =>
    exact ⟨target, shape, duration, amplitude, parameters, hfields, h⟩
  · cases h

/-- The steps in which the fields of a line are read, and the checks in between: of the timing
    before the marker is put on, and of the duration before the amplitude is read. -/
theorem readFields_ok {fixed : Bool} {target shape duration amplitude : List Char}
    {parameters : List (List Char)}
    (h : PulseLine.readFields declared fixed target shape duration amplitude parameters = .ok q) :
    ∃ kind channelText time channel timed shapeRead lasting played,
      Target.read? target = some ⟨kind, channelText, time⟩ ∧
      Text.natural16? channelText = some channel ∧
      readField declared (Pulse.new (String.ofList kind) channel) .timing time = .ok timed ∧
      ¬(fixed && timed.hasBindings) = true ∧
      Shape.read? shape = some shapeRead ∧
      readField declared { timed with shape := shapeRead, isFixed := fixed } .duration duration =
        .ok lasting ∧
      ¬lasting.duration.isNegative = true ∧
      readField declared lasting .amplitude amplitude = .ok played ∧
      parameters.foldlM (readParameter declared) played = .ok q := by
  -- the reader is taken apart step by step, with the cases that fail left on the way
  unfold PulseLine.readFields at h
  split at h
  · next kind channelText time htarget =>
    split at h
    · next channel hchannel =>
      obtain ⟨timed, htiming, h⟩ := bind_ok.mp h
      simp only at h
      split at h
      · obtain ⟨_, hthrow, _⟩ := bind_ok.mp h
        cases hthrow
      · next hmarked =>
        split at h
        · next shapeRead hshape =>
          obtain ⟨lasting, hduration, h⟩ := bind_ok.mp h
          split at h
          · obtain ⟨_, hthrow, _⟩ := bind_ok.mp h
            cases hthrow
          · next hlength =>
            obtain ⟨played, hamplitude, hparameters⟩ := bind_ok.mp h
            -- every step on the way is one of the facts that are asked for
            exact ⟨kind, channelText, time, channel, timed, shapeRead, lasting, played, htarget,
              hchannel, htiming, hmarked, hshape, hduration, hlength, hamplitude, hparameters⟩
        · cases h
    · cases h
  · cases h

/-- The steps in which the fields of a line are read lead to a pulse. -/
theorem readFields_of {fixed : Bool} {target shape duration amplitude : List Char}
    {parameters : List (List Char)} {kind channelText time : List Char} {channel : UInt16}
    {shapeRead : Shape} {timed lasting played : Pulse}
    (htarget : Target.read? target = some ⟨kind, channelText, time⟩)
    (hchannel : Text.natural16? channelText = some channel)
    (htiming : readField declared (Pulse.new (String.ofList kind) channel) .timing time = .ok timed)
    (hunbound : (fixed && timed.hasBindings) = false) (hshape : Shape.read? shape = some shapeRead)
    (hduration : readField declared { timed with shape := shapeRead, isFixed := fixed } .duration
      duration = .ok lasting)
    (hlength : lasting.duration.isNegative = false)
    (hamplitude : readField declared lasting .amplitude amplitude = .ok played) :
    PulseLine.readFields declared fixed target shape duration amplitude parameters =
      parameters.foldlM (readParameter declared) played := by
  unfold PulseLine.readFields
  rw [htarget]
  dsimp only
  rw [hchannel]
  dsimp only
  rw [htiming]
  dsimp only [bind, Except.bind]
  rw [if_neg (by rw [hunbound]; exact Bool.false_ne_true), hshape]
  dsimp only
  rw [hduration]
  dsimp only
  rw [if_neg (by rw [hlength]; exact Bool.false_ne_true), hamplitude]

/-- The fields of a line are bound for a reason. The timing is read before the pulse has its marker,
    and is then looked at once more. -/
theorem readFields_justified {fixed : Bool} {target shape duration amplitude : List Char}
    {parameters : List (List Char)} (hnamed : Named declared)
    (h : PulseLine.readFields declared fixed target shape duration amplitude parameters = .ok q) :
    Justified declared q := by
  obtain ⟨kind, _, time, channel, timed, shapeRead, lasting, played, _, _, htiming, hunbound, _,
    hduration, _, hamplitude, hparameters⟩ := readFields_ok h
  have hnew : Justified declared (Pulse.new (String.ofList kind) channel) := by
    intro b hb
    cases hb
  obtain ⟨htimed, hfree⟩ := readField_justified hnamed (fun _ => rfl) hnew htiming
  have hmarked := htimed.mark shapeRead hfree hunbound
  have hlasting := (readField_justified hnamed (fun e => by cases e) hmarked hduration).1
  have hplayed := (readField_justified hnamed (fun e => by cases e) hlasting hamplitude).1
  exact foldlM_ok (fun _ _ _ => readParameter_justified hnamed) hplayed hparameters

/-- **Line**: every binding of a pulse that is read from a line is justified by the declarations
    above it. -/
theorem read_justified {line : List Char} (hnamed : Named declared)
    (h : PulseLine.read declared line = .ok q) : Justified declared q := by
  obtain ⟨_, _, _, _, _, _, hfields⟩ := read_ok h
  exact readFields_justified hnamed hfields

end PulseTrain.Script
