import Mathlib.Data.List.Perm.Basic
import PulseTrain.Proofs.Script.PresetLine
import PulseTrain.Proofs.Script.Provenance

/-! # Lines that are read as pulses

    A run reads some of its lines as pulses, one after another: those of the script itself, those
    inside its blocks, and those of the presets that it loads. Every such line either gives a
    pulse, which stands at a place that is known when the line is read, or is noted and passed
    over. A pulse is numbered among the pulses of its stem that were read before it, at whatever
    place. So the lines that are read as pulses say all there is to say about the pulses of the
    sequence and about the notes.

    * **Lines**: `played` has the pulses of some lines, `skipped` the notes about the others, and
      `State.readPulses_eq` says that reading lines comes to nothing else;
    * **Order of reading**: `attemptsOf` lists the lines that a script reads as pulses, `accepted`
      those that are pulses, `rejected` the notes about the others, `numbered` gives the names;
    * **Invariant**: `State.Records`, kept by every step as `Takes` says: `interpret_takes`, a case
      for each kind of statement, `loader_takes` by induction on the depth of presets;
    * **Result**: `read_records`.
-/

namespace PulseTrain

/-! ## Places -/

/-- Where the pulses of a sequence stand. -/
inductive Place where
  | main
  | loop (index : Nat)
  | whenTrue (index : Nat)
  | whenFalse (index : Nat)
deriving DecidableEq, Repr

/-- The pulses that stand at a place, in their order. -/
def Sequence.pulsesAt (d : Sequence) : Place → List Pulse
  | .main => d.pulses
  | .loop index => d.loops[index]?.elim [] (·.pulses)
  | .whenTrue index => d.conditionals[index]?.elim [] (·.whenTrue)
  | .whenFalse index => d.conditionals[index]?.elim [] (·.whenFalse)

/-- What is found behind a list to which one more item is appended. -/
theorem elim_getElem?_append_singleton {α β : Type} (l : List α) (a : α) (f : α → List β)
    (i : Nat) : (l ++ [a])[i]?.elim [] f = l[i]?.elim [] f ++ if i = l.length then f a else [] := by
  rcases Nat.lt_trichotomy i l.length with h | rfl | h
  · rw [List.getElem?_append_left h, if_neg (Nat.ne_of_lt h), List.append_nil]
  · rw [List.getElem?_concat_length, if_pos rfl, List.getElem?_eq_none (Nat.le_refl _)]
    rfl
  · have hlength : (l ++ [a]).length ≤ i := by
      rw [List.length_append, List.length_singleton]
      omega
    rw [List.getElem?_eq_none hlength, List.getElem?_eq_none (Nat.le_of_lt h),
      if_neg (Nat.ne_of_gt h)]
    rfl

namespace Script

open Success Logged

/-! ## Lines -/

section Lines

variable {declared : Table Variable} {lines : List Line}

/-- The pulses of the lines that can be read. -/
def played (declared : Table Variable) (lines : List Line) : List Pulse :=
  lines.filterMap fun line => (PulseLine.read declared line.text).toOption

/-- The notes about the lines that cannot be read. -/
def skipped (declared : Table Variable) (lines : List Line) : List Note :=
  lines.filterMap fun line =>
    match PulseLine.read declared line.text with
    | .ok _ => none
    | .error e => some (.skippedPulse line.number e)

theorem skipped_cons (declared : Table Variable) (line : Line) (lines : List Line) :
    skipped declared (line :: lines) = skipped declared [line] ++ skipped declared lines := by
  rw [← List.singleton_append, skipped, List.filterMap_append]
  rfl

/-- A line is played or noted. -/
theorem length_played_add_length_skipped (declared : Table Variable) (lines : List Line) :
    (played declared lines).length + (skipped declared lines).length = lines.length := by
  induction lines with
  | nil => rfl
  | cons line lines ih =>
    unfold played skipped at ih ⊢
    rw [List.filterMap_cons, List.filterMap_cons, List.length_cons, ← ih]
    cases PulseLine.read declared line.text with
    | ok p =>
      simp only [Except.toOption, List.length_cons]
      omega
    | error e =>
      simp only [Except.toOption, List.length_cons]
      omega

/-- Only lines that are no pulses are noted. -/
theorem exists_of_mem_skipped {note : Note} (h : note ∈ skipped declared lines) :
    ∃ line e, note = .skippedPulse line e := by
  unfold skipped at h
  obtain ⟨line, _, hnote⟩ := List.mem_filterMap.mp h
  split at hnote
  · cases hnote
  · cases hnote
    exact ⟨_, _, rfl⟩

/-- The pulses under their final names. -/
def State.numberAll (s : State) : List Pulse → State × List Pulse
  | [] => (s, [])
  | p :: ps =>
    let rest := (s.numberPulse p).1.numberAll ps
    (rest.1, (s.numberPulse p).2 :: rest.2)

/-- Lines are always read to their end: the pulses are numbered and the other lines noted. -/
theorem State.readPulses_eq (s : State) (lines : List Line) :
    s.readPulses lines = ⟨skipped s.sequence.declared lines,
      .ok (s.numberAll (played s.sequence.declared lines))⟩ := by
  induction lines generalizing s with
  | nil => rfl
  | cons line lines ih =>
    unfold State.readPulses State.readPulse played skipped
    cases hread : PulseLine.read s.sequence.declared line.text with
    | ok p =>
      -- a pulse that is numbered declares nothing, so the table stays the same for the rest
      have hrest := ih (s.numberPulse p).1
      simp only [List.filterMap_cons, hread, Except.toOption, hrest]
      rw [bind_of_ok rfl]
      show Logged.mk (_ ++ []) _ = _
      rw [List.append_nil]
      rfl
    | error e =>
      simp only [List.filterMap_cons, hread, Except.toOption, ih s]
      rfl

/-- Numbering pulses changes no sequence. -/
theorem State.sequence_numberAll (s : State) (ps : List Pulse) :
    (s.numberAll ps).1.sequence = s.sequence := by
  induction ps generalizing s with
  | nil => rfl
  | cons p ps ih => exact ih (s.numberPulse p).1

end Lines

/-! ## Order of reading -/

/-- A line that is read as a pulse, where the pulse is to stand, and what is declared by then. -/
structure Attempt where
  place : Place
  line : Line
  declared : Table Variable
deriving DecidableEq, Repr

/-- A pulse that was read from a line, and where it stands. -/
structure Acceptance where
  place : Place
  line : Line
  pulse : Pulse
deriving DecidableEq, Repr

/-- The pulse of the line, if it is one. -/
def Attempt.accepted? (a : Attempt) : Option Acceptance :=
  (PulseLine.read a.declared a.line.text).toOption.map (Acceptance.mk a.place a.line)

def accepted (as : List Attempt) : List Acceptance := as.filterMap Attempt.accepted?

/-- Whether the note is about a line that is no pulse. -/
def Note.isSkipped : Note → Bool
  | .skippedPulse .. => true
  | _ => false

/-- The notes about the lines that are no pulses. -/
def rejected (as : List Attempt) : List Note := as.flatMap fun a => skipped a.declared [a.line]

/-- Lines that are read as pulses for the same place. -/
def attemptsAt (declared : Table Variable) (place : Place) (lines : List Line) : List Attempt :=
  lines.map fun line => ⟨place, line, declared⟩

/-- The lines that a statement reads as pulses, where `inner` gives those of a preset line. A block
    stands behind the blocks before it. -/
def Statement.attempts (inner : State → List Char → List Attempt) (s : State) :
    Statement → List Attempt
  | .pulse line => attemptsAt s.sequence.declared .main [line]
  | .block (.loop _ body) =>
    attemptsAt s.sequence.declared (.loop s.sequence.loops.length) body
  | .block (.conditional _ whenTrue whenFalse) =>
    attemptsAt s.sequence.declared (.whenTrue s.sequence.conditionals.length) whenTrue ++
      attemptsAt s.sequence.declared (.whenFalse s.sequence.conditionals.length)
        (whenFalse.getD [])
  | .preset _ body => inner s body
  | _ => []

/-- What the steps of a run come by, as long as none of them fails. -/
def along {ν ε α β σ : Type} (f : σ → α → Logged ν ε σ) (g : σ → α → List β) :
    σ → List α → List β
  | _, [] => []
  | s, a :: l => g s a ++ (f s a).value?.elim [] fun s' => along f g s' l

/-- What the text of a preset comes by, given what its statements do if `inner` is what a preset
    line comes by. -/
def presetAlong {β : Type} (registry : Registry) (limit : Nat)
    (own : (State → List Char → List β) → State → Statement → List β) :
    (depth : Nat) → State → List Char → List β
  | 0, _, _ => []
  | depth + 1, s, body =>
    (presetText? registry s.sequence.declared.keys body).elim [] fun text =>
      along (interpret (loader registry limit depth))
        (own (presetAlong registry limit own depth)) s (Statement.ofText text)

/-- The lines that a text reads as pulses. -/
def attemptsIn (load : Loader) (inner : State → List Char → List Attempt) (s : State)
    (text : List Char) : List Attempt :=
  along (interpret load) (Statement.attempts inner) s (Statement.ofText text)

/-- The lines that the text of a preset reads as pulses, those of the presets inside it included. -/
def presetAttempts (registry : Registry) (limit : Nat) :
    (depth : Nat) → State → List Char → List Attempt
  | 0, _, _ => []
  | depth + 1, s, body =>
    (presetText? registry s.sequence.declared.keys body).elim [] fun text =>
      attemptsIn (loader registry limit depth) (presetAttempts registry limit depth) s text

theorem presetAttempts_eq (registry : Registry) (limit depth : Nat) :
    presetAttempts registry limit depth =
      presetAlong registry limit Statement.attempts depth := by
  induction depth with
  | zero => rfl
  | succ depth ih =>
    funext s body
    rw [presetAttempts, presetAlong, ← ih]
    rfl

/-- The lines that a script reads as pulses, in the order in which it reads them. -/
def attemptsOf (registry : Registry) (settings : Settings) (text : String) : List Attempt :=
  attemptsIn (loader registry settings.presetDepth settings.presetDepth)
    (presetAttempts registry settings.presetDepth settings.presetDepth) (.start settings)
    text.toList

/-! ## Names -/

namespace Acceptance

/-- What the name of the pulse begins with. -/
def stem (a : Acceptance) : String := Pulse.stem a.pulse.kind

/-- The pulse under another name. -/
def named (a : Acceptance) (name : String) : Acceptance :=
  { a with pulse := { a.pulse with name := name } }

theorem stem_named (a : Acceptance) (name : String) : (a.named name).stem = a.stem := rfl

end Acceptance

/-- The name of the pulse with this number among those of a stem. -/
def numberedName (stem : String) (number : Nat) : String := stem ++ "_" ++ toString number

/-- The name of the next pulse of a stem, where some pulses were read before it. -/
def nextName (before : List Acceptance) (stem : String) : String :=
  numberedName stem (before.countP (·.stem = stem) + 1)

/-- The pulses under their final names, where others were read before them. -/
def numberFrom (before : List Acceptance) : List Acceptance → List Acceptance
  | [] => []
  | a :: as =>
    a.named (numberedName a.stem (before.countP (·.stem = a.stem) + 1)) ::
      numberFrom (before ++ [a]) as

/-- The pulses under their final names: each is numbered among those of its stem. -/
def numbered (as : List Acceptance) : List Acceptance := numberFrom [] as

/-- The pulses that stand at a place. -/
def standing (place : Place) (as : List Acceptance) : List Pulse :=
  (as.filter (·.place = place)).map (·.pulse)

theorem numberFrom_append (before as bs : List Acceptance) :
    numberFrom before (as ++ bs) = numberFrom before as ++ numberFrom (before ++ as) bs := by
  induction as generalizing before with
  | nil => rw [List.append_nil]; rfl
  | cons a as ih => simp only [List.cons_append, numberFrom, ih, List.append_assoc, List.nil_append]

theorem numbered_append (as bs : List Acceptance) :
    numbered (as ++ bs) = numbered as ++ numberFrom as bs :=
  numberFrom_append [] as bs

/-- Another name leaves a pulse where it is. -/
theorem map_place_numberFrom (before as : List Acceptance) :
    (numberFrom before as).map (·.place) = as.map (·.place) := by
  induction as generalizing before with
  | nil => rfl
  | cons a as ih => rw [numberFrom, List.map_cons, List.map_cons, ih]; rfl

/-- A pulse with its final name is that of a line, numbered behind the lines before it. -/
theorem exists_of_mem_numberFrom {before as : List Acceptance} {b : Acceptance}
    (h : b ∈ numberFrom before as) : ∃ first a rest, as = first ++ a :: rest ∧
      b = a.named (nextName (before ++ first) a.stem) := by
  induction as generalizing before with
  | nil => cases h
  | cons a as ih =>
    rcases List.mem_cons.mp h with rfl | hrest
    · exact ⟨[], a, as, rfl, by rw [List.append_nil, nextName]⟩
    · obtain ⟨first, c, rest, rfl, hnamed⟩ := ih hrest
      rw [List.append_assoc] at hnamed
      exact ⟨a :: first, c, rest, rfl, hnamed⟩

theorem place_of_mem_numberFrom {place : Place} {before as : List Acceptance}
    (h : ∀ a ∈ as, a.place = place) : ∀ a ∈ numberFrom before as, a.place = place := by
  have hplaces := map_place_numberFrom before as
  intro a ha
  have hmem := List.mem_map_of_mem (f := (·.place)) ha
  rw [hplaces] at hmem
  obtain ⟨b, hb, hplace⟩ := List.mem_map.mp hmem
  rw [← hplace, h b hb]

theorem standing_append (place : Place) (as bs : List Acceptance) :
    standing place (as ++ bs) = standing place as ++ standing place bs := by
  unfold standing
  rw [List.filter_append, List.map_append]

/-- Pulses that all stand at one place. -/
theorem standing_of_place {place : Place} {as : List Acceptance} (h : ∀ a ∈ as, a.place = place)
    (place' : Place) : standing place' as = if place' = place then as.map (·.pulse) else [] := by
  unfold standing
  by_cases hplace : place' = place
  · rw [if_pos hplace, List.filter_eq_self.mpr]
    intro a ha
    rw [decide_eq_true_eq, h a ha, hplace]
  · rw [if_neg hplace, List.filter_eq_nil_iff.mpr]
    · rfl
    · intro a ha
      rw [decide_eq_true_eq, h a ha]
      exact fun e => hplace e.symm

/-! ## Stems -/

section Stems

variable {declared : Table Variable} {p q : Pulse}

theorem readField_name_kind {field : Field} {text : List Char}
    (h : readField declared p field text = .ok q) : q.name = p.name ∧ q.kind = p.kind := by
  rcases readField_cases h with ⟨v, _, rfl⟩ | ⟨x, _, _, rfl⟩ | ⟨key, _, _, _, _, rfl⟩
  · exact p.name_kind_write field v.start
  · exact p.name_kind_write field x
  · exact ⟨rfl, rfl⟩

/-- A pulse is named after its kind from the start, and no field of the line changes this. -/
theorem name_of_read {line : List Char} (h : PulseLine.read declared line = .ok q) :
    q.name = Pulse.stem q.kind := by
  obtain ⟨_, _, _, _, _, _, hfields⟩ := read_ok h
  obtain ⟨_, _, _, _, timed, shape, lasting, played, _, _, htiming, _, _, hduration, _,
    hamplitude, hparameters⟩ := readFields_ok hfields
  -- each step keeps the kind and the name
  have hnamed : ∀ {p q : Pulse}, p.name = Pulse.stem p.kind → q.name = p.name ∧ q.kind = p.kind →
      q.name = Pulse.stem q.kind := by
    rintro p q hp ⟨hname, hkind⟩
    rw [hname, hkind, hp]
  have htimed := hnamed rfl (readField_name_kind htiming)
  have hlasting := hnamed (p := { timed with shape, isFixed := (removeMarkers line).2 }) htimed
    (readField_name_kind hduration)
  have hplayed := hnamed hlasting (readField_name_kind hamplitude)
  refine foldlM_ok (P := fun p => p.name = Pulse.stem p.kind) ?_ hplayed hparameters
  intro p item p' hp hitem
  obtain ⟨_, _, _, hfield⟩ := readParameter_ok_iff.mp hitem
  exact hnamed hp (readField_name_kind hfield)

/-- A pulse that is accepted is that of the line at some place among those that were tried. -/
theorem exists_of_accepted_eq {as : List Attempt} {first rest : List Acceptance} {b : Acceptance}
    (h : accepted as = first ++ b :: rest) : ∃ before a after, as = before ++ a :: after ∧
      accepted before = first ∧ PulseLine.read a.declared a.line.text = .ok b.pulse := by
  obtain ⟨before, behind, rfl, hfirst, hrest⟩ := List.filterMap_eq_append_iff.mp h
  obtain ⟨passed, a, after, rfl, hpassed, ha, _⟩ := List.filterMap_eq_cons_iff.mp hrest
  obtain ⟨p, hp, rfl⟩ := Option.map_eq_some_iff.mp ha
  refine ⟨before ++ passed, a, after, (List.append_assoc ..).symm, ?_, toOption_eq_some_iff.mp hp⟩
  unfold accepted
  rw [List.filterMap_append, hfirst, List.filterMap_eq_nil_iff.mpr hpassed, List.append_nil]

/-- The pulses that are accepted are named after their kind. -/
theorem name_of_mem_accepted (as : List Attempt) :
    ∀ a ∈ accepted as, a.pulse.name = a.stem := by
  intro a ha
  obtain ⟨attempt, _, hattempt⟩ := List.mem_filterMap.mp ha
  unfold Attempt.accepted? at hattempt
  cases hread : PulseLine.read attempt.declared attempt.line.text with
  | error e =>
    rw [hread] at hattempt
    cases hattempt
  | ok p =>
    rw [hread] at hattempt
    cases hattempt
    exact name_of_read hread

end Stems

/-! ## Invariant -/

section Records

variable {before : List Acceptance}

theorem map_pulse_accepted (declared : Table Variable) (place : Place) (lines : List Line) :
    (accepted (attemptsAt declared place lines)).map (·.pulse) = played declared lines := by
  unfold accepted attemptsAt played
  rw [List.filterMap_map, List.map_filterMap]
  congr 1
  funext line
  simp only [Function.comp_apply, Attempt.accepted?]
  cases PulseLine.read declared line.text with
  | error e => rfl
  | ok p => rfl

theorem rejected_attemptsAt (declared : Table Variable) (place : Place) (lines : List Line) :
    rejected (attemptsAt declared place lines) = skipped declared lines := by
  induction lines with
  | nil => rfl
  | cons line lines ih =>
    rw [skipped_cons, ← ih]
    rfl

theorem place_of_mem_accepted (declared : Table Variable) (place : Place) (lines : List Line) :
    ∀ a ∈ accepted (attemptsAt declared place lines), a.place = place := by
  intro a hmem
  obtain ⟨attempt, hattempt, ha⟩ := List.mem_filterMap.mp hmem
  obtain ⟨line, _, rfl⟩ := List.mem_map.mp hattempt
  obtain ⟨p, _, rfl⟩ := Option.map_eq_some_iff.mp ha
  rfl

theorem accepted_append (as bs : List Attempt) :
    accepted (as ++ bs) = accepted as ++ accepted bs :=
  List.filterMap_append

theorem rejected_append (as bs : List Attempt) :
    rejected (as ++ bs) = rejected as ++ rejected bs :=
  List.flatMap_append

variable {s s' s'' : State}

/-- The pulses that were read so far are counted by their stems. -/
def State.Counts (s : State) (as : List Acceptance) : Prop :=
  ∀ stem, (s.counters.get? stem).getD 0 = as.countP (·.stem = stem)

theorem State.Counts.numberPulse {a : Acceptance} (h : s.Counts before)
    (hname : a.pulse.name = a.stem) : (s.numberPulse a.pulse).1.Counts (before ++ [a]) ∧
      (s.numberPulse a.pulse).2 =
        (a.named (numberedName a.stem (before.countP (·.stem = a.stem) + 1))).pulse := by
  refine ⟨?_, ?_⟩
  · intro stem
    show ((s.counters.insert a.pulse.name _).get? stem).getD 0 = _
    rw [List.countP_append, List.countP_singleton, hname]
    -- the counter of the own stem goes up by one, and no other counter is touched
    by_cases hstem : stem = a.stem
    · subst hstem
      rw [Table.get?_insert_self, h]
      simp
    · have hother : ¬decide (a.stem = stem) = true := by
        rw [decide_eq_true_eq]
        exact fun e => hstem e.symm
      rw [Table.get?_insert_of_ne _ hstem, h, if_neg hother, Nat.add_zero]
  · unfold State.numberPulse Acceptance.named numberedName
    rw [hname, h]

/-- **Run**: pulses are numbered on from those that were read before. -/
theorem State.Counts.numberAll {as : List Acceptance} (h : s.Counts before)
    (hnames : ∀ a ∈ as, a.pulse.name = a.stem) :
    (s.numberAll (as.map (·.pulse))).1.Counts (before ++ as) ∧
      (s.numberAll (as.map (·.pulse))).2 = (numberFrom before as).map (·.pulse) := by
  induction as generalizing s before with
  | nil => exact ⟨by rwa [List.append_nil], rfl⟩
  | cons a as ih =>
    obtain ⟨hcounts, hpulse⟩ := h.numberPulse (hnames a List.mem_cons_self)
    obtain ⟨hcounts', hrest⟩ := ih hcounts fun b hb => hnames b (List.mem_cons_of_mem a hb)
    refine ⟨?_, ?_⟩
    · rwa [List.append_assoc] at hcounts'
    · rw [numberFrom, List.map_cons, List.map_cons, ← hpulse, ← hrest]
      rfl

/-- A sequence that has been given some more pulses at their places. -/
structure Receives (d d' : Sequence) (as : List Acceptance) : Prop where
  places : ∀ place, d'.pulsesAt place = d.pulsesAt place ++ standing place as
  every : d'.everyPulse.Perm (d.everyPulse ++ as.map (·.pulse))

/-- What is at none of the places is received nowhere. -/
theorem Receives.of_eq {d d' : Sequence} (hpulses : d'.pulses = d.pulses)
    (hloops : d'.loops = d.loops) (hconditionals : d'.conditionals = d.conditionals) :
    Receives d d' [] := by
  refine ⟨?_, ?_⟩
  · intro place
    unfold Sequence.pulsesAt
    rw [hpulses, hloops, hconditionals]
    exact (List.append_nil _).symm
  · unfold Sequence.everyPulse
    rw [hpulses, hloops, hconditionals, List.map_nil, List.append_nil]

theorem Receives.main (d : Sequence) {as : List Acceptance} (h : ∀ a ∈ as, a.place = .main) :
    Receives d { d with pulses := d.pulses ++ as.map (·.pulse) } as := by
  refine ⟨?_, ?_⟩
  · intro place
    rw [standing_of_place h]
    cases place with
    | main => rfl
    | loop index => exact (List.append_nil _).symm
    | whenTrue index => exact (List.append_nil _).symm
    | whenFalse index => exact (List.append_nil _).symm
  · simp only [Sequence.everyPulse, List.append_assoc]
    apply List.Perm.append_left
    refine List.perm_append_comm.trans ?_
    rw [List.append_assoc]

theorem Receives.loop (d : Sequence) (iterations : UInt32) {as : List Acceptance}
    (h : ∀ a ∈ as, a.place = .loop d.loops.length) :
    Receives d { d with loops := d.loops ++ [.of iterations (as.map (·.pulse))] } as := by
  refine ⟨?_, ?_⟩
  · intro place
    rw [standing_of_place h]
    -- only the place of the new loop receives anything
    cases place with
    | main => exact (List.append_nil _).symm
    | loop index =>
      simp only [Sequence.pulsesAt, elim_getElem?_append_singleton, Place.loop.injEq, Loop.of]
    | whenTrue index => exact (List.append_nil _).symm
    | whenFalse index => exact (List.append_nil _).symm
  · simp only [Sequence.everyPulse, List.append_assoc, List.flatMap_append,
      List.flatMap_singleton, Loop.of]
    apply List.Perm.append_left
    apply List.Perm.append_left
    exact List.perm_append_comm

theorem Receives.conditional (d : Sequence) (condition : String) {as bs : List Acceptance}
    (has : ∀ a ∈ as, a.place = .whenTrue d.conditionals.length)
    (hbs : ∀ b ∈ bs, b.place = .whenFalse d.conditionals.length) :
    Receives d { d with conditionals := d.conditionals ++
      [.of condition (as.map (·.pulse)) (bs.map (·.pulse))] } (as ++ bs) := by
  refine ⟨?_, ?_⟩
  · intro place
    rw [standing_append, standing_of_place has, standing_of_place hbs]
    cases place with
    | main => exact (List.append_nil _).symm
    | loop index => exact (List.append_nil _).symm
    | whenTrue index =>
      simp [Sequence.pulsesAt, elim_getElem?_append_singleton, Conditional.of]
    | whenFalse index =>
      simp [Sequence.pulsesAt, elim_getElem?_append_singleton, Conditional.of]
  · simp only [Sequence.everyPulse, List.append_assoc, List.flatMap_append,
      List.flatMap_singleton, Conditional.of, List.map_append]
    exact List.Perm.refl _

/-- What has been read so far is what some lines give, numbered in their order. -/
structure State.Records (s : State) (as : List Acceptance) : Prop where
  counts : s.Counts as
  places : ∀ place, s.sequence.pulsesAt place = standing place (numbered as)
  every : s.sequence.everyPulse.Perm ((numbered as).map (·.pulse))

theorem State.start_records (settings : Settings) : (State.start settings).Records [] := by
  refine ⟨fun _ => rfl, ?_, List.Perm.refl _⟩
  intro place
  cases place with
  | main => rfl
  | loop index => rfl
  | whenTrue index => rfl
  | whenFalse index => rfl

theorem State.Records.receive {as : List Acceptance} (h : s.Records before)
    (hreceives : Receives s.sequence s'.sequence (numberFrom before as))
    (hcounts : s'.Counts (before ++ as)) : s'.Records (before ++ as) := by
  refine ⟨hcounts, ?_, ?_⟩
  · intro place
    rw [hreceives.places, h.places, numbered_append, standing_append]
  · rw [numbered_append, List.map_append]
    exact hreceives.every.trans (h.every.append_right _)

/-- A step that changes what has been read by the lines that it reads as pulses, and notes those of
    them that are none. -/
structure Accords (s s' : State) (log : List Note) (as : List Attempt) : Prop where
  records : ∀ before, s.Records before → s'.Records (before ++ accepted as)
  skipped : log.filter Note.isSkipped = rejected as

namespace Accords

variable {log log' : List Note} {as bs : List Attempt}

theorem refl (s : State) : Accords s s [] [] := by
  refine ⟨?_, rfl⟩
  intro before hs
  rwa [show accepted [] = [] from rfl, List.append_nil]

theorem trans (h : Accords s s' log as) (h' : Accords s' s'' log' bs) :
    Accords s s'' (log ++ log') (as ++ bs) := by
  refine ⟨?_, ?_⟩
  · intro before hs
    rw [accepted_append, ← List.append_assoc]
    exact h'.records _ (h.records before hs)
  · rw [List.filter_append, rejected_append, h.skipped, h'.skipped]

/-- A step that reads no line as a pulse and leaves all pulses where they are. -/
theorem of_eq (hpulses : s'.sequence.pulses = s.sequence.pulses)
    (hloops : s'.sequence.loops = s.sequence.loops)
    (hconditionals : s'.sequence.conditionals = s.sequence.conditionals)
    (hcounters : s'.counters = s.counters) (hlog : log.filter Note.isSkipped = []) :
    Accords s s' log [] := by
  refine ⟨?_, hlog⟩
  intro before hs
  refine hs.receive (.of_eq hpulses hloops hconditionals) ?_
  intro stem
  rw [hcounters, show accepted [] = [] from rfl, List.append_nil]
  exact hs.counts stem

end Accords

/-! ## Step -/

/-- Lines that are read as pulses of a place come to the pulses that are accepted, and to notes
    about the others. -/
theorem State.readPulses_at (s : State) (place : Place) (lines : List Line) :
    s.readPulses lines = ⟨rejected (attemptsAt s.sequence.declared place lines),
      .ok (s.numberAll
        ((accepted (attemptsAt s.sequence.declared place lines)).map (·.pulse)))⟩ := by
  rw [State.readPulses_eq, map_pulse_accepted, rejected_attemptsAt]

theorem filter_isSkipped_rejected (as : List Attempt) :
    (rejected as).filter Note.isSkipped = rejected as := by
  rw [List.filter_eq_self]
  intro note hnote
  obtain ⟨a, _, hskipped⟩ := List.mem_flatMap.mp hnote
  obtain ⟨line, e, rfl⟩ := exists_of_mem_skipped hskipped
  rfl

theorem State.addPulses_accords {lines : List Line} (h : (s.addPulses lines).result = .ok s') :
    Accords s s' (s.addPulses lines).log (attemptsAt s.sequence.declared .main lines) := by
  unfold State.addPulses at h ⊢
  rw [State.readPulses_at s .main, bind_of_ok rfl] at h ⊢
  cases h
  refine ⟨?_, ?_⟩
  · intro before hs
    obtain ⟨hcounts, hpulses⟩ := hs.counts.numberAll
      (name_of_mem_accepted (attemptsAt s.sequence.declared .main lines))
    refine hs.receive ?_ hcounts
    simp only [hpulses, State.sequence_numberAll]
    apply Receives.main
    exact place_of_mem_numberFrom (place_of_mem_accepted _ _ _)
  · exact (congrArg _ (List.append_nil _)).trans (filter_isSkipped_rejected _)

theorem State.addLoop_accords {iterations : UInt32} {body : List Line}
    (h : (s.addBlock (.loop iterations body)).result = .ok s') :
    Accords s s' (s.addBlock (.loop iterations body)).log
      (attemptsAt s.sequence.declared (.loop s.sequence.loops.length) body) := by
  simp only [State.addBlock] at h ⊢
  rw [State.readPulses_at s (.loop s.sequence.loops.length), bind_of_ok rfl] at h ⊢
  cases h
  refine ⟨?_, ?_⟩
  · intro before hs
    obtain ⟨hcounts, hpulses⟩ := hs.counts.numberAll
      (name_of_mem_accepted
        (attemptsAt s.sequence.declared (.loop s.sequence.loops.length) body))
    refine hs.receive ?_ hcounts
    simp only [hpulses, State.sequence_numberAll]
    apply Receives.loop
    exact place_of_mem_numberFrom (place_of_mem_accepted _ _ _)
  · exact (congrArg _ (List.append_nil _)).trans (filter_isSkipped_rejected _)

theorem State.addConditional_accords {condition : String} {whenTrue : List Line}
    {whenFalse : Option (List Line)}
    (h : (s.addBlock (.conditional condition whenTrue whenFalse)).result = .ok s') :
    Accords s s' (s.addBlock (.conditional condition whenTrue whenFalse)).log
      (attemptsAt s.sequence.declared (.whenTrue s.sequence.conditionals.length) whenTrue ++
        attemptsAt s.sequence.declared (.whenFalse s.sequence.conditionals.length)
          (whenFalse.getD [])) := by
  simp only [State.addBlock] at h ⊢
  rw [State.readPulses_at s (.whenTrue s.sequence.conditionals.length), bind_of_ok rfl] at h ⊢
  simp only [State.readPulses_at _ (.whenFalse s.sequence.conditionals.length),
    State.sequence_numberAll] at h ⊢
  cases h
  -- the false branch is numbered on from the true one
  generalize htrue : attemptsAt s.sequence.declared (.whenTrue s.sequence.conditionals.length)
    whenTrue = as
  generalize hfalse : attemptsAt s.sequence.declared (.whenFalse s.sequence.conditionals.length)
    (whenFalse.getD []) = bs
  refine ⟨?_, ?_⟩
  · intro before hs
    obtain ⟨hcounts, hpulses⟩ := hs.counts.numberAll (name_of_mem_accepted as)
    -- the counters that the true branch leaves are those that the false one starts from
    obtain ⟨hcounts', hpulses'⟩ := hcounts.numberAll (name_of_mem_accepted bs)
    rw [List.append_assoc, ← accepted_append] at hcounts'
    refine hs.receive ?_ hcounts'
    simp only [hpulses, hpulses', State.sequence_numberAll]
    rw [accepted_append, numberFrom_append]
    apply Receives.conditional
    · exact place_of_mem_numberFrom (htrue ▸ place_of_mem_accepted _ _ _)
    · exact place_of_mem_numberFrom (hfalse ▸ place_of_mem_accepted _ _ _)
  · show (rejected as ++ (rejected bs ++ [])).filter Note.isSkipped = _
    rw [List.append_nil, ← rejected_append, filter_isSkipped_rejected]

theorem State.applyHeader_accords {line : Nat} {item : List Char}
    (h : (s.applyHeader line item).result = .ok s') :
    Accords s s' (s.applyHeader line item).log [] := by
  obtain ⟨given, hread, rfl⟩ := State.applyHeader_ok h
  have hlog : (s.applyHeader line item).log.filter Note.isSkipped = [] := by
    unfold State.applyHeader
    rw [hread]
    cases given <;> rfl
  cases given <;> exact .of_eq rfl rfl rfl rfl hlog

theorem State.declare_accords {line : Nat} {body : List Char}
    (h : (s.declare line body).result = .ok s') : Accords s s' (s.declare line body).log [] := by
  obtain ⟨v, hread, hnew, rfl⟩ := State.declare_ok h
  refine .of_eq rfl rfl rfl rfl ?_
  unfold State.declare
  simp only [hread, hnew]
  rfl

/-! ## Run -/

/-- **Run**: what is between two states if a step leads from the one to the other, takes some notes
    and comes by some items, is between the ends of a run if steps can be put together. -/
theorem along_foldlM {ν ε α β σ : Type} {f : σ → α → Logged ν ε σ} {g : σ → α → List β}
    {R : σ → σ → List ν → List β → Prop} (hrefl : ∀ s, R s s [] [])
    (htrans : ∀ {s s' s'' log log' as bs}, R s s' log as → R s' s'' log' bs →
      R s s'' (log ++ log') (as ++ bs))
    (hstep : ∀ s a s', (f s a).result = .ok s' → R s s' (f s a).log (g s a))
    {s s' : σ} {l : List α} (h : (l.foldlM f s).result = .ok s') :
    R s s' (l.foldlM f s).log (along f g s l) := by
  induction l generalizing s with
  | nil =>
    cases h
    exact hrefl _
  | cons a l ih =>
    rw [List.foldlM_cons] at h ⊢
    obtain ⟨s₁, hfirst, hrest⟩ := result_bind_ok.mp h
    rw [bind_of_ok hfirst, along, value?_eq_some_iff.mpr hfirst]
    exact htrans (hstep s a s₁ hfirst) (ih hrest)

/-- **Run**: steps that accord with what they read make a run that does. -/
theorem accords_foldlM {α : Type} {f : State → α → Reading State}
    {g : State → α → List Attempt} {l : List α}
    (hstep : ∀ s a s', (f s a).result = .ok s' → Accords s s' (f s a).log (g s a))
    (h : (l.foldlM f s).result = .ok s') : Accords s s' (l.foldlM f s).log (along f g s l) :=
  along_foldlM Accords.refl Accords.trans hstep h

/-- What the steps of a successful run come by does not depend on the states between them, if that
    of no step does. -/
theorem along_of_ok {ν ε α β σ : Type} {f : σ → α → Logged ν ε σ} {g : α → List β} {s s' : σ}
    {l : List α} (h : (l.foldlM f s).result = .ok s') :
    along f (fun _ a => g a) s l = l.flatMap g := by
  induction l generalizing s with
  | nil => rfl
  | cons a l ih =>
    rw [List.foldlM_cons] at h
    obtain ⟨s₁, hfirst, hrest⟩ := result_bind_ok.mp h
    rw [along, value?_eq_some_iff.mpr hfirst, Option.elim_some, ih hrest, List.flatMap_cons]

/-- A loader that accords with the lines that `inner` gives. -/
def Loader.Accords (load : Loader) (inner : State → List Char → List Attempt) : Prop :=
  ∀ s number body s', (load s number body).result = .ok s' →
    Script.Accords s s' (load s number body).log (inner s body)

variable {load : Loader} {inner : State → List Char → List Attempt}

/-- **Step**: a statement accords with the lines that it reads as pulses. -/
theorem interpret_accords (hload : load.Accords inner) {statement : Statement}
    (h : (interpret load s statement).result = .ok s') :
    Accords s s' (interpret load s statement).log (statement.attempts inner s) := by
  match statement with
  | .header line body =>
    have hrun := accords_foldlM (g := fun _ _ => []) (fun _ _ _ => State.applyHeader_accords) h
    rwa [along_of_ok h, List.flatMap_eq_nil_iff.mpr fun _ _ => rfl] at hrun
  | .declaration line body => exact State.declare_accords h
  | .preset line body => exact hload s line body s' h
  | .block (.loop iterations body) => exact State.addLoop_accords h
  | .block (.conditional condition whenTrue whenFalse) => exact State.addConditional_accords h
  | .badBlock fault => cases h
  | .pulse line => exact State.addPulses_accords h

theorem readText_accords (hload : load.Accords inner) {text : List Char}
    (h : (readText load s text).result = .ok s') :
    Accords s s' (readText load s text).log (attemptsIn load inner s text) :=
  accords_foldlM (fun _ _ _ => interpret_accords hload) h

/-! ## Presets -/

variable {registry : Registry} {limit number : Nat} {body : List Char}

theorem presetText?_of_unknown (h : registry (presetName body) = none) (declared : List String) :
    presetText? registry declared body = none := by
  simp only [presetText?, h, Option.bind_none]

/-- A line whose preset is unknown is noted. -/
theorem carryOutPreset_of_unknown (hname : presetName body ≠ "")
    (hunknown : registry (presetName body) = none) (innerLoad : Option Loader) :
    carryOutPreset registry limit innerLoad s number body =
      ⟨[.unknownPreset (presetName body) number], .ok s⟩ := by
  have hempty : ¬(presetName body).isEmpty = true := by rwa [String.isEmpty_iff]
  unfold carryOutPreset
  dsimp only
  rw [← presetName, if_neg hempty, hunknown]
  rfl

/-- A preset line that is carried out loads nothing, or carries out the text of its preset. -/
theorem carryOutPreset_ok {innerLoad : Option Loader}
    (h : (carryOutPreset registry limit innerLoad s number body).result = .ok s') :
    (registry (presetName body) = none ∧ carryOutPreset registry limit innerLoad s number body =
      ⟨[.unknownPreset (presetName body) number], .ok s⟩) ∨
    ∃ load text, innerLoad = some load ∧
      presetText? registry s.sequence.declared.keys body = some text ∧
      carryOutPreset registry limit innerLoad s number body =
        (readText load s text).mapError (.inPreset (presetName body) number) := by
  have hvalue := value?_eq_some_iff.mpr h
  rw [value?_carryOutPreset] at hvalue
  have hname : presetName body ≠ "" := by
    intro hname
    rw [if_pos hname] at hvalue
    cases hvalue
  rw [if_neg hname] at hvalue
  cases hknown : registry (presetName body) with
  | none => exact .inl ⟨rfl, carryOutPreset_of_unknown hname hknown innerLoad⟩
  | some preset =>
    rw [if_neg (by simp [hknown])] at hvalue
    obtain ⟨load, rfl, hload⟩ := Option.bind_eq_some_iff.mp hvalue
    obtain ⟨text, htext, _⟩ := Option.bind_eq_some_iff.mp hload
    refine .inr ⟨load, text, rfl, htext, ?_⟩
    -- the overrides and the text are those with which the line is carried out
    simp only [presetText?, hknown, Option.bind_some] at htext
    obtain ⟨overrides, hoverrides, hrender⟩ := Option.bind_eq_some_iff.mp htext
    exact carryOutPreset_of_render hname hknown (toOption_eq_some_iff.mp hoverrides)
      (toOption_eq_some_iff.mp hrender)

/-- **Run**: what is between two states if a statement leads from the one to the other is between
    them if a preset line does, however deep presets nest. -/
theorem loader_along {β : Type} {R : State → State → List Note → List β → Prop}
    {f : (State → List Char → List β) → State → Statement → List β} (hrefl : ∀ s, R s s [] [])
    (htrans : ∀ {s s' s'' log log' as bs}, R s s' log as → R s' s'' log' bs →
      R s s'' (log ++ log') (as ++ bs))
    (hunknown : ∀ s name number, R s s [.unknownPreset name number] [])
    (hstep : ∀ {load : Loader} {inner : State → List Char → List β},
      (∀ s number body s', (load s number body).result = .ok s' →
        R s s' (load s number body).log (inner s body)) →
      ∀ s statement s', (interpret load s statement).result = .ok s' →
        R s s' (interpret load s statement).log (f inner s statement))
    (registry : Registry) (limit depth : Nat) :
    ∀ s number body s', (loader registry limit depth s number body).result = .ok s' →
      R s s' (loader registry limit depth s number body).log
        (presetAlong registry limit f depth s body) := by
  -- by induction on the depth, which goes down by one with every preset that is read
  induction depth with
  | zero =>
    intro s number body s' h
    rcases carryOutPreset_ok h with ⟨_, hnothing⟩ | ⟨load, _, hload, _⟩
    · rw [loader, hnothing] at h ⊢
      cases h
      exact hunknown s _ number
    · cases hload
  | succ depth ih =>
    intro s number body s' h
    rcases carryOutPreset_ok h with ⟨hunknownName, hnothing⟩ | ⟨load, text, hload, htext, hread⟩
    · rw [loader, hnothing] at h ⊢
      cases h
      rw [presetAlong, presetText?_of_unknown hunknownName]
      exact hunknown s _ number
    · cases hload
      rw [loader, hread] at h ⊢
      rw [presetAlong, htext]
      exact along_foldlM hrefl htrans (hstep ih) (mapError_ok.mp h)

/-- **Run**: presets accord with the lines of their texts, however deep they nest. -/
theorem loader_accords (registry : Registry) (limit depth : Nat) :
    Loader.Accords (loader registry limit depth) (presetAttempts registry limit depth) := by
  rw [presetAttempts_eq]
  exact loader_along Accords.refl Accords.trans (fun s _ _ => .of_eq rfl rfl rfl rfl rfl)
    (fun hload _ _ _ => interpret_accords hload) registry limit depth

/-! ## Declarations -/

/-- A step that takes no declaration back, and reads its lines under declarations that hold behind
    it. -/
structure Upholds (s s' : State) (as : List Attempt) : Prop where
  kept : Extends s.sequence.declared s'.sequence.declared
  attempts : ∀ a ∈ as, Extends a.declared s'.sequence.declared

namespace Upholds

variable {as bs : List Attempt}

theorem refl (s : State) : Upholds s s [] :=
  ⟨.refl _, fun _ ha => by cases ha⟩

theorem trans (h : Upholds s s' as) (h' : Upholds s' s'' bs) : Upholds s s'' (as ++ bs) := by
  refine ⟨h.kept.trans h'.kept, ?_⟩
  rw [List.forall_mem_append]
  exact ⟨fun a ha => (h.attempts a ha).trans h'.kept, h'.attempts⟩

/-- Lines that are read under the declarations of a state. -/
theorem of_declared (hkept : Extends s.sequence.declared s'.sequence.declared)
    (has : ∀ a ∈ as, a.declared = s.sequence.declared) : Upholds s s' as :=
  ⟨hkept, fun a ha => has a ha ▸ hkept⟩

end Upholds

theorem declared_of_mem_attemptsAt {declared : Table Variable} {place : Place} {lines : List Line} :
    ∀ a ∈ attemptsAt declared place lines, a.declared = declared := by
  intro a ha
  obtain ⟨line, _, rfl⟩ := List.mem_map.mp ha
  rfl

/-- **Step**: a statement reads its lines under what is declared where it stands, and only a preset
    line goes on to read others. -/
theorem interpret_upholds
    (hload : ∀ s number body s', (load s number body).result = .ok s' →
      Upholds s s' (inner s body))
    {statement : Statement} (h : (interpret load s statement).result = .ok s') :
    Upholds s s' (statement.attempts inner s) := by
  -- a table only grows, whichever statement is carried out
  have hkept : Extends s.sequence.declared s'.sequence.declared :=
    (State.extends_invariant s.sequence.declared).interpret
      (fun s number body s' hs h => hs.trans (hload s number body s' h).kept) (.refl _) h
  match statement with
  | .header line body => exact .of_declared hkept fun _ ha => by cases ha
  | .declaration line body => exact .of_declared hkept fun _ ha => by cases ha
  | .preset line body => exact hload s line body s' h
  | .block (.loop iterations body) => exact .of_declared hkept declared_of_mem_attemptsAt
  | .block (.conditional condition whenTrue whenFalse) =>
    exact .of_declared hkept
      (List.forall_mem_append.mpr ⟨declared_of_mem_attemptsAt, declared_of_mem_attemptsAt⟩)
  | .badBlock fault => cases h
  | .pulse line => exact .of_declared hkept declared_of_mem_attemptsAt

/-! ## Result -/

variable {settings : Settings} {text : String} {d : Sequence}

/-- **Run**: what is declared where a line of a script is read is declared to the end. -/
theorem extends_of_mem_attemptsOf (h : (readWith registry settings text).result = .ok d) :
    ∀ a ∈ attemptsOf registry settings text, Extends a.declared d.declared := by
  obtain ⟨s, hread, hfinish⟩ := result_bind_ok.mp h
  rw [State.finish_eq hfinish]
  -- along the text as along the texts of the presets that it loads
  have hload : ∀ s number body s',
      (loader registry settings.presetDepth settings.presetDepth s number body).result = .ok s' →
      Upholds s s' (presetAttempts registry settings.presetDepth settings.presetDepth s body) := by
    rw [presetAttempts_eq]
    exact loader_along (R := fun s s' _ as => Upholds s s' as) Upholds.refl Upholds.trans
      (fun s _ _ => .refl s) (fun hload _ _ _ => interpret_upholds hload) registry _ _
  have hrun := along_foldlM (R := fun s s' _ as => Upholds s s' as) Upholds.refl Upholds.trans
    (fun _ _ _ => interpret_upholds hload) hread
  exact hrun.attempts

/-- A pulse with its final name is that of a line at some place, numbered among the pulses of its
    stem. -/
theorem exists_of_mem_numbered {as : List Attempt} {p : Pulse}
    (h : p ∈ (numbered (accepted as)).map (·.pulse)) :
    ∃ before a after q, as = before ++ a :: after ∧
      PulseLine.read a.declared a.line.text = .ok q ∧
      p = { q with name := nextName (accepted before) (Pulse.stem q.kind) } := by
  obtain ⟨b, hb, rfl⟩ := List.mem_map.mp h
  obtain ⟨first, c, rest, haccepted, rfl⟩ := exists_of_mem_numberFrom hb
  obtain ⟨before, a, after, rfl, rfl, hread⟩ := exists_of_accepted_eq haccepted
  exact ⟨before, a, after, c.pulse, rfl, hread, rfl⟩

/-- **Result**: the pulses of a script that is read are those of the lines that it accepts, each
    where its line puts it and numbered in the order of reading, and the lines that are no pulses
    are noted in the same order. -/
theorem read_records (h : (readWith registry settings text).result = .ok d) :
    (∀ place, d.pulsesAt place =
        standing place (numbered (accepted (attemptsOf registry settings text)))) ∧
      d.everyPulse.Perm
        ((numbered (accepted (attemptsOf registry settings text))).map (·.pulse)) ∧
      (readWith registry settings text).log.filter Note.isSkipped =
        rejected (attemptsOf registry settings text) := by
  unfold readWith at h ⊢
  obtain ⟨s, hread, hfinish⟩ := result_bind_ok.mp h
  have haccords := readText_accords (loader_accords registry _ _) hread
  have hrecords := haccords.records [] (State.start_records settings)
  have hd := State.finish_eq hfinish
  rw [bind_of_ok hread, List.filter_append, haccords.skipped]
  refine ⟨?_, ?_, ?_⟩
  · intro place
    rw [hd]
    exact hrecords.places place
  · rw [hd]
    exact hrecords.every
  · -- only reading notes pulses that are skipped; finishing may add a note of another kind
    have hnote : s.finish.log.filter Note.isSkipped = [] := by
      unfold State.finish at hfinish ⊢
      split
      · rfl
      · rfl
    rw [hnote, List.append_nil]
    rfl

end Records

end Script

end PulseTrain
