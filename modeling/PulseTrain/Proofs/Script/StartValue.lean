import Mathlib.Data.List.Nodup
import PulseTrain.Proofs.Script.Attempts

/-! # Start values

    A field that names the variable takes its start value for the time being, and the binding
    is noted beside it. A parameter may be written more than once on a line. Then the last item
    says what the parameter holds, but a binding that an earlier item has made stays. So putting
    in the start value gives the pulse back as it was read unless the last item of a bound
    parameter says something else.

    * **Assignments**: `assignments` is a line as a list of fields with the texts written for
      them, `last?` the one that counts in the end;
    * **Step**: `Written.readField`, **Line**: `read_written`;
    * **Script**: `bind_start_iff_keepsStart`, and `start_value_lost` where a script is read in
      which the start value does not last.
-/

namespace PulseTrain.Script

open Success

/-! ## Assignments -/

structure Assignment where
  field : Field
  text : List Char

namespace Assignment

variable (declared : Table Variable) (a : Assignment)

/-- The variable that the text names, if the field is bound to one. -/
def source? : Option Variable :=
  match boundVariable? declared a.field a.text with
  | .ok found => found
  | .error _ => none

/-- The value that the text gives to the field: the start value of a variable, a literal, or in a
    free-form parameter the text itself. -/
def value? : Option FreeValue :=
  match a.source? declared with
  | some v => some (.number v.start)
  | none =>
    match a.field, literal a.field a.text with
    | _, .ok x => some (.number x)
    | .parameter (.extra _), .error _ => some (.text (String.ofList a.text))
    | _, .error _ => none

def binding? : Option Binding :=
  (a.source? declared).map fun v => ⟨v.name, a.field⟩

/-- The parameter that a `key=value` item sets. -/
def ofItem? (item : List Char) : Option Assignment :=
  (Text.splitOnce? '=' item).map fun (key, value) =>
    ⟨.parameter (.ofName (String.ofList (Text.trim key))), Text.trim value⟩

end Assignment

/-- The fields that a pulse line writes, from the left to the right. -/
def assignments (line : List Char) : List Assignment :=
  match (Text.splitOn ',' (removeMarkers line).1).map Text.trim with
  | target :: _shape :: duration :: amplitude :: parameters =>
    (Target.read? target).toList.map (⟨.timing, ·.time⟩)
      ++ [⟨.duration, duration⟩, ⟨.amplitude, amplitude⟩]
      ++ parameters.filterMap Assignment.ofItem?
  | _ => []

/-- The assignments of a line whose fields and target are known. -/
theorem assignments_of_fields {line target shape duration amplitude : List Char}
    {parameters : List (List Char)} {t : Target}
    (hfields : (Text.splitOn ',' (removeMarkers line).1).map Text.trim =
      target :: shape :: duration :: amplitude :: parameters)
    (htarget : Target.read? target = some t) :
    assignments line =
      [⟨.timing, t.time⟩, ⟨.duration, duration⟩, ⟨.amplitude, amplitude⟩]
        ++ parameters.filterMap Assignment.ofItem? := by
  unfold assignments
  rw [hfields]
  simp [htarget]

def last? (as : List Assignment) (field : Field) : Option Assignment :=
  as.reverse.find? (·.field = field)

theorem last?_append_singleton (as : List Assignment) (a : Assignment) (field : Field) :
    last? (as ++ [a]) field = if a.field = field then some a else last? as field := by
  unfold last?
  rw [List.reverse_append, List.reverse_singleton, List.singleton_append, List.find?_cons]
  by_cases h : a.field = field <;> simp [h]

/-- A field that is assigned has a last assignment. -/
theorem exists_last? {as : List Assignment} {a : Assignment} (h : a ∈ as) :
    ∃ b, last? as a.field = some b := by
  have hfound : (last? as a.field).isSome = true := by
    unfold last?
    rw [List.find?_isSome]
    exact ⟨a, List.mem_reverse.mpr h, by simp⟩
  exact Option.isSome_iff_exists.mp hfound

/-- A field that is assigned only once has this assignment as its last. -/
theorem last?_of_nodup {as : List Assignment} {a : Assignment} (h : a ∈ as)
    (hnodup : (as.map (·.field)).Nodup) : last? as a.field = some a := by
  obtain ⟨b, hb⟩ := exists_last? h
  have hfield : b.field = a.field := by simpa using List.find?_some hb
  have hmem : b ∈ as := List.mem_reverse.mp (List.mem_of_find?_eq_some hb)
  rw [hb, List.inj_on_of_nodup_map hnodup hmem h hfield]

/-! ## Lines -/

variable {declared : Table Variable} {p q : Pulse} {as : List Assignment}

/-- The variable to which an assignment binds its field is declared under the text. -/
theorem Assignment.source?_ok {a : Assignment} {v : Variable} (h : a.source? declared = some v) :
    declared.get? (String.ofList a.text) = some v := by
  unfold Assignment.source? at h
  split at h
  · next found hfound =>
    rw [h] at hfound
    exact (boundVariable?_ok hfound).1
  · cases h

/-- A pulse on which some assignments, and no others, have been carried out. -/
structure Written (declared : Table Variable) (as : List Assignment) (p : Pulse) : Prop where
  bindings : p.bindings = as.filterMap (·.binding? declared)
  held : ∀ field a, last? as field = some a → p.held? field = a.value? declared

/-- Of a pulse only its bindings and what its fields hold matters. -/
theorem Written.congr (h : Written declared as p) (hbindings : q.bindings = p.bindings)
    (hheld : ∀ field, q.held? field = p.held? field) : Written declared as q := by
  refine ⟨hbindings.trans h.bindings, ?_⟩
  intro field a ha
  rw [hheld field]
  exact h.held field a ha

/-- Reading a field sets it to the value of its text, and notes the binding if there is one. -/
theorem readField_eq {field : Field} {text : List Char}
    (h : readField declared p field text = .ok q) :
    q.bindings = p.bindings ++ (Assignment.binding? declared ⟨field, text⟩).toList ∧
      ∀ g, q.held? g =
        if g = field then Assignment.value? declared ⟨field, text⟩ else p.held? g := by
  rcases readField_cases h with ⟨v, hfound, rfl⟩ | ⟨x, hfound, hliteral, rfl⟩ |
    ⟨key, e, hfound, hliteral, rfl, rfl⟩
  · simp only [Assignment.binding?, Assignment.value?, Assignment.source?, hfound]
    exact ⟨rfl, fun g => p.held?_write field g v.start⟩
  · simp only [Assignment.binding?, Assignment.value?, Assignment.source?, hfound, hliteral,
      Option.map_none, Option.toList_none, List.append_nil]
    exact ⟨p.bindings_write field x, fun g => p.held?_write field g x⟩
  · simp only [Assignment.binding?, Assignment.value?, Assignment.source?, hfound, hliteral,
      Option.map_none, Option.toList_none, List.append_nil]
    exact ⟨rfl, fun g => p.held?_writeExtra key _ g⟩

/-- **Step**: a field that is read is one more assignment. -/
theorem Written.readField {field : Field} {text : List Char} (hp : Written declared as p)
    (h : readField declared p field text = .ok q) :
    Written declared (as ++ [⟨field, text⟩]) q := by
  obtain ⟨hbindings, hheld⟩ := readField_eq h
  refine ⟨?_, ?_⟩
  · rw [hbindings, hp.bindings, List.filterMap_append]
    cases hb : Assignment.binding? declared ⟨field, text⟩ <;> simp [hb]
  · -- the field that is written has this text as its last, and every other keeps its own
    intro g a ha
    rw [hheld g]
    rw [last?_append_singleton] at ha
    by_cases hg : field = g
    · rw [if_pos hg] at ha
      cases ha
      rw [if_pos hg.symm]
    · rw [if_neg hg] at ha
      rw [if_neg (Ne.symm hg)]
      exact hp.held g a ha

/-- A parameter is read as its assignment says. -/
theorem Assignment.readParameter_ok_iff {item : List Char} :
    readParameter declared p item = .ok q ↔
      ∃ a, Assignment.ofItem? item = some a ∧
        Script.readField declared p a.field a.text = .ok q := by
  rw [Script.readParameter_ok_iff]
  constructor
  · rintro ⟨key, value, hsplit, hfield⟩
    exact ⟨_, by rw [Assignment.ofItem?, hsplit, Option.map_some], hfield⟩
  · rintro ⟨a, ha, hfield⟩
    obtain ⟨⟨key, value⟩, hsplit, rfl⟩ := Option.map_eq_some_iff.mp ha
    exact ⟨key, value, hsplit, hfield⟩

/-- The parameters are one assignment each. -/
theorem Written.readParameters {items : List (List Char)} (hp : Written declared as p)
    (h : items.foldlM (readParameter declared) p = .ok q) :
    Written declared (as ++ items.filterMap Assignment.ofItem?) q := by
  induction items generalizing as p with
  | nil =>
    cases h
    rw [List.filterMap_nil, List.append_nil]
    exact hp
  | cons item rest ih =>
    rw [List.foldlM_cons] at h
    obtain ⟨p₁, hitem, hrest⟩ := bind_ok.mp h
    obtain ⟨a, hassignment, hfield⟩ := Assignment.readParameter_ok_iff.mp hitem
    rw [List.filterMap_cons_some hassignment, ← List.singleton_append, ← List.append_assoc]
    exact ih (hp.readField hfield) hrest

/-- **Line**: a pulse that is read has its assignments carried out, from the left to the right. The
    checks in between change neither bindings nor values. -/
theorem read_written {line : List Char} (h : PulseLine.read declared line = .ok q) :
    Written declared (assignments line) q := by
  obtain ⟨target, shape, duration, amplitude, parameters, hfields, hread⟩ := read_ok h
  obtain ⟨kind, channelText, time, channel, timed, shapeRead, lasting, played, htarget, _,
    htiming, _, _, hduration, _, hamplitude, hparameters⟩ := readFields_ok hread
  have hassignments := assignments_of_fields hfields htarget
  have hnew : Written declared [] (Pulse.new (String.ofList kind) channel) :=
    ⟨rfl, fun field a ha => by cases ha⟩
  have htimed := hnew.readField htiming
  -- shape and marker are no fields that a variable may stand for
  have hmarked : Written declared ([] ++ [⟨.timing, time⟩])
      { timed with shape := shapeRead, isFixed := (removeMarkers line).2 } := by
    refine htimed.congr rfl fun field => ?_
    rcases field with _ | _ | _ | (_ | _ | _ | _) <;> rfl
  have hplayed := (hmarked.readField hduration).readField hamplitude
  rw [hassignments]
  exact hplayed.readParameters hparameters

/-- On a line every field that names a variable is given a certain value in the end. -/
def KeepsStart (declared : Table Variable) (line : List Char) (x : Float) : Prop :=
  ∀ a ∈ assignments line, (a.source? declared).isSome = true →
    (last? (assignments line) a.field).bind (·.value? declared) = some (.number x)

/-- Putting a value into a pulse changes nothing exactly if it is the value that all bound fields of
    its line are given in the end. -/
theorem Written.bind_eq_self_iff {line : List Char} {x : Float}
    (hwritten : Written declared (assignments line) p) :
    p.bind x = p ↔ KeepsStart declared line x := by
  rw [Pulse.bind_eq_self_iff, hwritten.bindings]
  constructor
  · intro hheld a ha hsource
    obtain ⟨v, hv⟩ := Option.isSome_iff_exists.mp hsource
    have hbinding : (⟨v.name, a.field⟩ : Binding) ∈
        (assignments line).filterMap (·.binding? declared) := by
      refine List.mem_filterMap.mpr ⟨a, ha, ?_⟩
      simp [Assignment.binding?, hv]
    -- a field that is given twice holds what the last assignment gives it
    obtain ⟨b, hb⟩ := exists_last? ha
    rw [hb, Option.bind_some, ← hwritten.held a.field b hb]
    exact hheld _ hbinding
  · intro hkeeps b hb
    obtain ⟨a, ha, hbinding⟩ := List.mem_filterMap.mp hb
    obtain ⟨v, hv, rfl⟩ := Option.map_eq_some_iff.mp hbinding
    obtain ⟨c, hc⟩ := exists_last? ha
    have hlast := hkeeps a ha (by rw [hv]; rfl)
    rw [hc, Option.bind_some] at hlast
    rw [hwritten.held a.field c hc]
    exact hlast

/-- Where no field is written twice, every field that names a variable keeps its start value. -/
theorem keepsStart_of_nodup {line : List Char} {x : Float}
    (hstart : ∀ name v, declared.get? name = some v → v.start = x)
    (hnodup : ((assignments line).map (·.field)).Nodup) : KeepsStart declared line x := by
  intro a ha hsource
  obtain ⟨v, hv⟩ := Option.isSome_iff_exists.mp hsource
  rw [last?_of_nodup ha hnodup, Option.bind_some]
  simp only [Assignment.value?, hv, hstart _ v (Assignment.source?_ok hv)]

/-! ## Scripts -/

/-- A script declares one variable at most, and every pulse of it is that of one of the lines that
    it reads as pulses, numbered behind those before it. The assignments of this line have been
    carried out on the pulse. -/
theorem exists_written {registry : Registry} {settings : Settings} {text : String} {d : Sequence}
    (h : (readWith registry settings text).result = .ok d) :
    d.declared.size ≤ 1 ∧ ∀ p ∈ d.everyPulse, ∃ before a after q,
      attemptsOf registry settings text = before ++ a :: after ∧
      Extends a.declared d.declared ∧ PulseLine.read a.declared a.line.text = .ok q ∧
      p = { q with name := nextName (accepted before) (Pulse.stem q.kind) } ∧
      Written a.declared (assignments a.line.text) p := by
  obtain ⟨_, _, hfinish⟩ := result_bind_ok.mp h
  refine ⟨(State.finish_ok hfinish).1, fun p hp => ?_⟩
  obtain ⟨_, hevery, _⟩ := read_records h
  obtain ⟨before, a, after, q, hattempts, hread, rfl⟩ :=
    exists_of_mem_numbered (hevery.mem_iff.mp hp)
  have hextends := extends_of_mem_attemptsOf h a (by simp [hattempts])
  refine ⟨before, a, after, q, hattempts, hextends, hread, rfl, (read_written hread).congr rfl ?_⟩
  -- a pulse holds the same under any name
  intro field
  rcases field with _ | _ | _ | (_ | _ | _ | _) <;> rfl

/-- **Start values**: every pulse of a script is that of one of the lines that the script reads as
    pulses, numbered behind those before it. Putting in the start value of the variable gives the
    pulse back exactly if every field that this line binds is given this value last. That is so on
    every line that writes no field twice. -/
theorem bind_start_iff_keepsStart {registry : Registry} {settings : Settings} {text : String}
    {d : Sequence} {v : Variable} (h : (readWith registry settings text).result = .ok d)
    (hv : v ∈ d.declared.values) :
    ∀ p ∈ d.everyPulse, ∃ before a after q,
      attemptsOf registry settings text = before ++ a :: after ∧
      Extends a.declared d.declared ∧ PulseLine.read a.declared a.line.text = .ok q ∧
      p = { q with name := nextName (accepted before) (Pulse.stem q.kind) } ∧
      (p.bind v.start = p ↔ KeepsStart a.declared a.line.text v.start) ∧
      (((assignments a.line.text).map (·.field)).Nodup → p.bind v.start = p) := by
  obtain ⟨hsize, hlines⟩ := exists_written h
  intro p hp
  obtain ⟨before, a, after, q, hattempts, hextends, hline, hname, hwritten⟩ := hlines p hp
  -- only one variable is declared, so it is the one that a bound field of the line names
  have hstart : ∀ name w, a.declared.get? name = some w → w.start = v.start := by
    intro name w hw
    have hvalues := values_of_get? hsize (hextends name w hw)
    rw [hvalues, List.mem_singleton] at hv
    rw [hv]
  have hiff : p.bind v.start = p ↔ KeepsStart a.declared a.line.text v.start :=
    hwritten.bind_eq_self_iff
  exact ⟨before, a, after, q, hattempts, hextends, hline, hname, hiff,
    fun hnodup => hiff.mpr (keepsStart_of_nodup hstart hnodup)⟩

/-- A script that binds a phase to the variable and then writes it once more. -/
def overwrittenPhase : String :=
  "variable x, start=10, stop=20, steps=2\n"
    ++ "mw pulse on channel 1 at 0s, square, 1s, 1, phase=x, phase=90"

def scannedPhase : Variable := ⟨"x", 10.0, 20.0, 2, .dimensionless⟩

/-- The pulse of this script, which is still bound. -/
def overwrittenPulse : Pulse :=
  { Pulse.new "mw" 1 with
    name := "mw_1", duration := ⟨1.0⟩, parameters := ⟨none, some 90.0, none, .empty⟩
    bindings := [⟨"x", .parameter .phase⟩] }

theorem read_overwrittenPhase : ∃ d,
    (readWith (fun _ => none) {} overwrittenPhase).result = .ok d ∧
      d.declared.values = [scannedPhase] ∧ d.everyPulse = [overwrittenPulse] := by
  have hread : (readWith (fun _ => none) {} overwrittenPhase).result.map
      (fun d => (d.declared.values, d.everyPulse)) =
        .ok ([scannedPhase], [overwrittenPulse]) := by
    decide +kernel
  obtain ⟨d, hd, hparts⟩ := map_ok.mp hread
  obtain ⟨hvalues, hpulses⟩ := Prod.mk.inj hparts
  exact ⟨d, hd, hvalues, hpulses⟩

theorem bind_start_overwritten : ∃ d,
    (readWith (fun _ => none) {} overwrittenPhase).result = .ok d ∧
    scannedPhase ∈ d.declared.values ∧ overwrittenPulse ∈ d.everyPulse ∧
    ∃ before a after q,
      attemptsOf (fun _ => none) {} overwrittenPhase = before ++ a :: after ∧
      Extends a.declared d.declared ∧ PulseLine.read a.declared a.line.text = .ok q ∧
      overwrittenPulse = { q with name := nextName (accepted before) (Pulse.stem q.kind) } ∧
      (overwrittenPulse.bind scannedPhase.start = overwrittenPulse ↔
        KeepsStart a.declared a.line.text scannedPhase.start) ∧
      (((assignments a.line.text).map (·.field)).Nodup →
        overwrittenPulse.bind scannedPhase.start = overwrittenPulse) := by
  obtain ⟨d, hd, hvalues, hpulses⟩ := read_overwrittenPhase
  have hv : scannedPhase ∈ d.declared.values := by simp [hvalues]
  have hp : overwrittenPulse ∈ d.everyPulse := by simp [hpulses]
  exact ⟨d, hd, hv, hp, bind_start_iff_keepsStart hd hv overwrittenPulse hp⟩

/-- A bound phase that is written once more does not hold the start value, which comes back only
    when it is put in. -/
theorem start_value_lost : ∃ d v p,
    (readWith (fun _ => none) {} overwrittenPhase).result = .ok d ∧ v ∈ d.declared.values ∧
      p ∈ d.everyPulse ∧ p.bind v.start ≠ p := by
  obtain ⟨d, hd, hvalues, hpulses⟩ := read_overwrittenPhase
  have hlost : overwrittenPulse.bind scannedPhase.start ≠ overwrittenPulse := by
    decide +kernel
  exact ⟨d, scannedPhase, overwrittenPulse, hd, by simp [hvalues], by simp [hpulses], hlost⟩

end PulseTrain.Script
