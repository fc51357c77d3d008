import Mathlib.Data.List.TakeWhile
import PulseTrain.Proofs.Pulse
import PulseTrain.Proofs.Script.PulseLine
import PulseTrain.Proofs.Text.Words

/-! # Marked lines

    A marker may be put anywhere into a line that has none, also inside a word. It is the only
    marker then: one that began before it would have to contain its bracket, and one behind it
    would have been there before. So the line is read as it was without the marker, with the same
    fields, and the pulse is fixed. The line is refused only if its timing is bound.

    * **Markers**: `IsMarker` says what a marker is, `HasMarker` where a text has one;
      `afterMarker?_append` and `exists_marker_of_afterMarker?` say that these are found;
    * **Taking out**: `removeMarkers_of_not_hasMarker`, `removeMarkers_splice`;
    * **Fields**: `readField_mark`, the mark plays no part when a field is read;
    * **Lines**: `readFields_mark` and `read_splice`.
-/

namespace PulseTrain

/-! ## Pulses -/

namespace Pulse

/-- The pulse with its timing fixed. -/
def mark (p : Pulse) : Pulse := { p with isFixed := true }

theorem write_mark (p : Pulse) (field : Field) (x : Float) :
    p.mark.write field x = (p.write field x).mark := by
  match field with
  | .timing => rfl
  | .duration => rfl
  | .amplitude => rfl
  | .parameter .amplitude => rfl
  | .parameter .phase => rfl
  | .parameter .frequency => rfl
  | .parameter (.extra _) => rfl

end Pulse

namespace Script

open Success

/-! ## Markers -/

/-- A marker: brackets around the word, with blanks inside them or without. -/
inductive IsMarker : List Char → Prop where
  | mk (before word after : List Char) (hbefore : ∀ c ∈ before, Text.isBlank c = true)
      (hword : Text.isWord "fixed" word = true) (hafter : ∀ c ∈ after, Text.isBlank c = true) :
      IsMarker ('[' :: (before ++ word ++ after ++ [']']))

/-- A marker stands somewhere in the text. -/
def HasMarker (s : List Char) : Prop := ∃ m, IsMarker m ∧ m <:+: s

variable {a b m s : List Char}

/-- A marker has one opening bracket, at its start. -/
theorem IsMarker.exists_inside (h : IsMarker m) : ∃ inside, m = '[' :: inside ∧ '[' ∉ inside := by
  obtain ⟨before, word, after, hbefore, hword, hafter⟩ := h
  refine ⟨_, rfl, ?_⟩
  simp only [List.mem_append, not_or]
  refine ⟨⟨⟨?_, ?_⟩, ?_⟩, by decide⟩
  · intro hmem
    cases hbefore _ hmem
  · intro hmem
    exact absurd (Text.foldCase_mem_of_isWord hword hmem) (by decide)
  · intro hmem
    cases hafter _ hmem

/-- A marker at the start is found, and what comes after it is left. -/
theorem afterMarker?_append (h : IsMarker m) (rest : List Char) :
    afterMarker? (m ++ rest) = some rest := by
  obtain ⟨before, word, after, hbefore, hword, hafter⟩ := h
  -- as many characters are taken for the word as it has
  have hlength : word.length = 5 := Text.length_of_isWord hword
  have htext : '[' :: (before ++ word ++ after ++ [']']) ++ rest =
      '[' :: (before ++ (word ++ (after ++ ']' :: rest))) := by
    simp
  -- the word begins with a letter, so the blanks end where it begins
  have hhead : ∀ c ∈ (word ++ (after ++ ']' :: rest)).head?, Text.isBlank c = false := by
    intro c hc
    cases word with
    | nil => cases hlength
    | cons d word =>
      cases hc
      exact Text.not_isBlank_of_isWord (by decide) hword List.mem_cons_self
  have hinside := Text.trimStart_append hbefore hhead
  have hclosing : Text.trimStart (after ++ ']' :: rest) = ']' :: rest := by
    apply Text.trimStart_append hafter
    intro c hc
    cases hc
    rfl
  rw [htext]
  unfold afterMarker?
  simp only [hinside]
  rw [List.take_left' hlength, List.drop_left' hlength, if_pos hword, hclosing]
  rfl

/-- What is found is a marker. -/
theorem exists_marker_of_afterMarker? {rest : List Char} (h : afterMarker? s = some rest) :
    ∃ m, IsMarker m ∧ s = m ++ rest := by
  have hsplit : ∀ t : List Char, t.takeWhile Text.isBlank ++ Text.trimStart t = t :=
    fun t => List.takeWhile_append_dropWhile
  -- what is trimmed in front is blanks and nothing else
  have hblanks : ∀ (t : List Char), ∀ c ∈ t.takeWhile Text.isBlank, Text.isBlank c = true :=
    fun t c hc => List.mem_takeWhile_imp hc
  unfold afterMarker? at h
  split at h
  · rename_i inside
    simp only at h
    split at h
    · rename_i hword
      split at h
      · rename_i closing hclosing
        obtain rfl := Option.some.inj h
        -- the bracket, blanks, the word, blanks and the closing bracket, as they were taken off
        refine ⟨_, .mk _ _ _ (hblanks inside) hword
          (hblanks ((Text.trimStart inside).drop 5)), ?_⟩
        calc '[' :: inside
            = '[' :: (inside.takeWhile Text.isBlank ++ Text.trimStart inside) := by
              rw [hsplit]
          _ = '[' :: (inside.takeWhile Text.isBlank ++ ((Text.trimStart inside).take 5 ++
                (((Text.trimStart inside).drop 5).takeWhile Text.isBlank ++ ']' :: closing))) := by
              rw [← hclosing, hsplit ((Text.trimStart inside).drop 5), List.take_append_drop]
          _ = _ := by simp
      · cases h
    · cases h
  · cases h

/-! ## Taking out -/

/-- What stands before a text takes no marker away. -/
theorem HasMarker.cons (h : HasMarker s) (c : Char) : HasMarker (c :: s) := by
  obtain ⟨m, hm, hinfix⟩ := h
  exact ⟨m, hm, hinfix.trans (List.suffix_cons c s).isInfix⟩

/-- A text without a marker stays as it is. -/
theorem removeMarkers_of_not_hasMarker (h : ¬HasMarker s) : removeMarkers s = (s, false) := by
  -- by induction on the text, where no marker begins at any character
  induction s with
  | nil => rw [removeMarkers]
  | cons c s ih =>
    have hrest : ¬HasMarker s := fun hs => h (hs.cons c)
    have hnone : afterMarker? (c :: s) = none := by
      rw [Option.eq_none_iff_forall_ne_some]
      intro rest hsome
      obtain ⟨m, hm, hsplit⟩ := exists_marker_of_afterMarker? hsome
      exact h ⟨m, hm, ⟨[], rest, by rw [hsplit]; rfl⟩⟩
    rw [removeMarkers_of_none hnone, ih hrest]

/-- No marker begins before one that is put in: it would end before the other, and so have been
    there already, or contain the bracket of the other. -/
theorem afterMarker?_before (h : ¬HasMarker (a ++ b)) (hm : IsMarker m) (ha : a ≠ []) :
    afterMarker? (a ++ (m ++ b)) = none := by
  rw [Option.eq_none_iff_forall_ne_some]
  intro rest hsome
  obtain ⟨m', hm', hsplit⟩ := exists_marker_of_afterMarker? hsome
  have hinside : ¬m' <+: a := by
    intro hstart
    exact h ⟨m', hm', (hstart.trans (List.prefix_append a b)).isInfix⟩
  -- the found marker reaches to the other one or into it, or it ends before
  rcases List.append_eq_append_iff.mp hsplit with ⟨r, hlong, hrest⟩ | ⟨r, hshort, -⟩
  · obtain ⟨inside, rfl, -⟩ := hm.exists_inside
    obtain ⟨inside', rfl, hfree⟩ := hm'.exists_inside
    cases r with
    | nil =>
      rw [List.append_nil] at hlong
      exact hinside (hlong ▸ List.prefix_rfl)
    | cons c r =>
      -- what the found marker has in common with the other begins with a bracket
      have hbracket : c = '[' := (List.cons.inj hrest).1.symm
      cases a with
      | nil => exact ha rfl
      | cons d a =>
        have htail : inside' = a ++ c :: r := (List.cons.inj hlong).2
        apply hfree
        rw [htail, hbracket]
        simp
  · exact hinside ⟨r, hshort.symm⟩

/-- **Splicing**: a marker that is put into a text without one is taken out again, and nothing else.
    -/
theorem removeMarkers_splice (h : ¬HasMarker (a ++ b)) (hm : IsMarker m) :
    removeMarkers (a ++ (m ++ b)) = (a ++ b, true) := by
  -- by induction on what stands before the marker, in which no other begins
  induction a with
  | nil =>
    rw [List.nil_append] at h ⊢
    rw [removeMarkers_of_some (afterMarker?_append hm b), removeMarkers_of_not_hasMarker h]
    rfl
  | cons c a ih =>
    have hrest : ¬HasMarker (a ++ b) := fun hs => h (hs.cons c)
    have hnone := afterMarker?_before h hm (List.cons_ne_nil c a)
    rw [List.cons_append] at hnone ⊢
    rw [removeMarkers_of_none hnone, ih hrest]
    rfl

/-- Whether a text has a marker is found when markers are taken out. -/
theorem hasMarker_iff : HasMarker s ↔ (removeMarkers s).2 = true := by
  constructor
  · rintro ⟨m, hm, before, after, rfl⟩
    -- along what stands before the marker, where another one may be found first
    induction before with
    | nil =>
      rw [List.nil_append, removeMarkers_of_some (afterMarker?_append hm after)]
    | cons c before ih =>
      rw [List.cons_append, List.cons_append]
      cases hfound : afterMarker? (c :: (before ++ m ++ after)) with
      | none => rwa [removeMarkers_of_none hfound]
      | some rest => rw [removeMarkers_of_some hfound]
  · intro hmarked
    by_contra hnone
    rw [removeMarkers_of_not_hasMarker hnone] at hmarked
    cases hmarked

instance : DecidablePred HasMarker := fun _ => decidable_of_iff _ hasMarker_iff.symm

/-! ## Fields -/

variable {declared : Table Variable} {p q : Pulse} {field : Field}

/-- The mark plays no part when a field is read. -/
theorem readField_mark (declared : Table Variable) (p : Pulse) (field : Field)
    (text : List Char) :
    readField declared p.mark field text = (readField declared p field text).map Pulse.mark := by
  unfold readField
  cases boundVariable? declared field text with
  | error e => rfl
  | ok found =>
    cases found with
    | some v =>
      show Except.ok _ = Except.ok _
      rw [Pulse.write_mark]
      rfl
    | none =>
      dsimp only [bind, Except.bind]
      cases literal field text with
      | ok x =>
        show Except.ok _ = Except.ok _
        rw [Pulse.write_mark]
      | error e =>
        -- an error is kept as text only by a free-form parameter
        rcases field with _ | _ | _ | (_ | _ | _ | name) <;> rfl

theorem readParameter_mark (declared : Table Variable) (p : Pulse) (item : List Char) :
    readParameter declared p.mark item = (readParameter declared p item).map Pulse.mark := by
  unfold readParameter
  split
  · rfl
  · exact readField_mark declared p _ _

/-- Nor when the parameters are read. -/
theorem readParameters_mark (declared : Table Variable) (items : List (List Char)) (p : Pulse) :
    items.foldlM (readParameter declared) p.mark =
      (items.foldlM (readParameter declared) p).map Pulse.mark := by
  induction items generalizing p with
  | nil => rfl
  | cons item items ih =>
    rw [List.foldlM_cons, List.foldlM_cons, readParameter_mark]
    cases readParameter declared p item with
    | error e => rfl
    | ok q => exact ih q

/-! ## The timing -/

/-- Only the timing is bound when the timing is read. -/
theorem binds_timing_of_readField {kind : String} {channel : UInt16} {text : List Char}
    (h : readField declared (Pulse.new kind channel) .timing text = .ok q) :
    q.binds .timing = q.hasBindings := by
  obtain ⟨-, hsame | ⟨v, -, -, hnew⟩⟩ := readField_ok h
  · simp [Pulse.binds, Pulse.binding?, Pulse.hasBindings, hsame, Pulse.new]
  · simp [Pulse.binds, Pulse.binding?, Pulse.hasBindings, hnew, Pulse.new]

/-- Reading another field does not bind the timing. -/
theorem binds_timing_readField {text : List Char} (hfield : field ≠ .timing)
    (h : readField declared p field text = .ok q) : q.binds .timing = p.binds .timing := by
  rw [Bool.eq_iff_iff, Pulse.binds_iff, Pulse.binds_iff]
  obtain ⟨-, hsame | ⟨v, -, -, hnew⟩⟩ := readField_ok h
  · rw [hsame]
  · simp [hnew, hfield.symm]

theorem binds_timing_readParameters {items : List (List Char)}
    (h : items.foldlM (readParameter declared) p = .ok q) :
    q.binds .timing = p.binds .timing := by
  refine foldlM_ok (P := fun r => r.binds .timing = p.binds .timing) ?_ rfl h
  intro r item r' hr hstep
  obtain ⟨_, _, _, hfield⟩ := readParameter_ok_iff.mp hstep
  rw [binds_timing_readField (fun htiming => by cases htiming) hfield, hr]

/-- So the timing of a line is bound if anything is bound once the timing has been read. -/
theorem binds_timing_of_steps {kind : String} {channel : UInt16}
    {time duration amplitude : List Char}
    {parameters : List (List Char)} {fixed : Bool} {shape : Shape} {timed lasting played : Pulse}
    (htiming : readField declared (Pulse.new kind channel) .timing time = .ok timed)
    (hduration : readField declared { timed with shape, isFixed := fixed } .duration duration =
      .ok lasting)
    (hamplitude : readField declared lasting .amplitude amplitude = .ok played)
    (hparameters : parameters.foldlM (readParameter declared) played = .ok p) :
    p.binds .timing = timed.hasBindings :=
  calc p.binds .timing
      = played.binds .timing := binds_timing_readParameters hparameters
    _ = lasting.binds .timing := binds_timing_readField Field.noConfusion hamplitude
    _ = ({ timed with shape, isFixed := fixed } : Pulse).binds .timing :=
      binds_timing_readField Field.noConfusion hduration
    _ = timed.binds .timing := rfl
    _ = timed.hasBindings := binds_timing_of_readField htiming

/-! ## Lines -/

/-- A line is read with the mark as without it, if its timing is not bound. -/
theorem readFields_mark {target shape duration amplitude : List Char}
    {parameters : List (List Char)} :
    PulseLine.readFields declared true target shape duration amplitude parameters = .ok q ↔
      ∃ p, PulseLine.readFields declared false target shape duration amplitude parameters =
          .ok p ∧ p.binds .timing = false ∧ q = p.mark := by
  constructor
  · intro h
    obtain ⟨kind, channelText, time, channel, timed, shapeRead, lasting, played, htarget,
      hchannel, htiming, hunbound, hshape, hduration, hlength, hamplitude, hparameters⟩ :=
      readFields_ok h
    have hfree : timed.hasBindings = false := by simpa using hunbound
    -- the mark is on the pulse from here, and is taken off field by field
    have hmarked : ({ timed with shape := shapeRead, isFixed := true } : Pulse) =
      ({ timed with shape := shapeRead, isFixed := false } : Pulse).mark := rfl
    rw [hmarked, readField_mark] at hduration
    obtain ⟨lasting, hlasting, rfl⟩ := map_ok.mp hduration
    rw [readField_mark] at hamplitude
    obtain ⟨played, hplayed, rfl⟩ := map_ok.mp hamplitude
    rw [readParameters_mark] at hparameters
    obtain ⟨p, hp, rfl⟩ := map_ok.mp hparameters
    have hread : PulseLine.readFields declared false target shape duration amplitude parameters =
        parameters.foldlM (readParameter declared) played :=
      readFields_of htarget hchannel htiming (Bool.false_and _) hshape hlasting
        (eq_false_of_ne_true hlength) hplayed
    have hbinds := binds_timing_of_steps htiming hlasting hplayed hp
    exact ⟨p, hread.trans hp, hbinds.trans hfree, rfl⟩
  · rintro ⟨p, h, htimed, rfl⟩
    obtain ⟨kind, channelText, time, channel, timed, shapeRead, lasting, played, htarget,
      hchannel, htiming, -, hshape, hduration, hlength, hamplitude, hparameters⟩ :=
      readFields_ok h
    have hbinds := binds_timing_of_steps htiming hduration hamplitude hparameters
    have hfree : timed.hasBindings = false := hbinds.symm.trans htimed
    -- the other way around the mark is put on field by field
    have hduration' : readField declared { timed with shape := shapeRead, isFixed := true }
        .duration duration = .ok lasting.mark := by
      have hmark := readField_mark declared
        { timed with shape := shapeRead, isFixed := false } .duration duration
      rw [hduration] at hmark
      exact hmark
    have hamplitude' : readField declared lasting.mark .amplitude amplitude = .ok played.mark := by
      rw [readField_mark, hamplitude]
      rfl
    rw [readFields_of htarget hchannel htiming (by rw [hfree]; rfl) hshape hduration'
      (eq_false_of_ne_true hlength) hamplitude', readParameters_mark, hparameters]
    rfl

/-- **Marking**: a marker may be put anywhere into a line without one. The line is then read as it
    was, and the pulse is fixed; it is refused if it was refused before or its timing is bound. -/
theorem read_splice (declared : Table Variable) {a b m : List Char} (hnone : ¬HasMarker (a ++ b))
    (hm : IsMarker m) (q : Pulse) :
    PulseLine.read declared (a ++ m ++ b) = .ok q ↔
      ∃ p, PulseLine.read declared (a ++ b) = .ok p ∧ p.binds .timing = false ∧
        q = { p with isFixed := true } := by
  unfold PulseLine.read
  rw [List.append_assoc, removeMarkers_splice hnone hm, removeMarkers_of_not_hasMarker hnone]
  dsimp only
  split
  · exact readFields_mark
  · constructor
    · intro h
      cases h
    · rintro ⟨p, h, -⟩
      cases h

def declaredLength : Table Variable := Table.empty.insert "tau" ⟨"tau", 1.0, 2.0, 2, .time⟩

/-- What stands before and behind a place in the middle of a kind. The kind has brackets, but a
    blank keeps it from being a marker. -/
def openKind : List Char × List Char :=
  ("[fix".toList, " ed] pulse on channel 1 at 5s, square, tau, 1V".toList)

/-- The pulse on this line, whose length is bound. -/
def openPulse : Pulse :=
  { Pulse.new "[fix ed]" 1 with
    timing := ⟨5.0⟩, duration := ⟨1.0⟩, bindings := [⟨"tau", .duration⟩] }

theorem openKind_marked :
    ¬HasMarker (openKind.1 ++ openKind.2) ∧ IsMarker "[ FiXed]".toList ∧
    PulseLine.read declaredLength (openKind.1 ++ openKind.2) = .ok openPulse ∧
    PulseLine.read declaredLength (openKind.1 ++ "[ FiXed]".toList ++ openKind.2) =
      .ok { openPulse with isFixed := true } := by
  have hnone : ¬HasMarker (openKind.1 ++ openKind.2) := by decide +kernel
  have hmarker : IsMarker "[ FiXed]".toList :=
    .mk [' '] "FiXed".toList [] (List.forall_mem_singleton.mpr rfl) (by decide)
      (List.forall_mem_nil _)
  have hread : PulseLine.read declaredLength (openKind.1 ++ openKind.2) = .ok openPulse := by
    decide +kernel
  exact ⟨hnone, hmarker, hread, (read_splice declaredLength hnone hmarker _).mpr
    ⟨openPulse, hread, by decide, rfl⟩⟩

end Script
end PulseTrain
