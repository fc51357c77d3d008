import PulseTrain.Proofs.Script.Blame
import PulseTrain.Proofs.Script.BlockGrammar
import PulseTrain.Proofs.Script.Inlining

/-! # The place of a header

    A header line sets properties of the whole sequence. No other statement looks at them, in
    the script or in the text of a preset, and a header looks at nothing that other statements
    read. So a header may stand at any place between the other lines and blocks of a script: the
    same sequence is read, and with it the total duration, whether a header gives it or none.

    * **Items**: `State.give` sets what an item of a header gives, `Passes` says of other work
      that it can be done before or after, and `Passes.header` that it can be done before or
      after a whole header line;
    * **Step**: `interpret_passes`, a case for each kind of statement but headers;
    * **Run**: `run_passes` for lines without headers, `loader_passes` by induction on the depth
      to which presets nest;
    * **Places**: `Statement.Closed` says that no block is open, so that a header may follow;
      `run_closed` takes a run apart there and `run_header_moved` puts the header in between;
    * **Result**: `read_header_moved`.
-/

namespace PulseTrain.Script

open Logged

/-! ## Items -/

@[simp] theorem State.give_declared (s : State) (given : HeaderItem) :
    (s.give given).sequence.declared = s.sequence.declared :=
  (HeaderItem.apply_frame s.sequence given).1

/-- Work that neither looks at what headers give nor touches it: an item of a header can be given
    before the work or after it. -/
def Passes (work : State → Option State) : Prop :=
  ∀ s given, work (s.give given) = (work s).map (·.give given)

namespace Passes

variable {work next : State → Option State}

theorem bind (h : Passes work) (hnext : Passes next) : Passes fun s => (work s).bind next := by
  intro s given
  dsimp only
  rw [h]
  cases work s with
  | none => rfl
  | some s' => exact hnext s' given

theorem foldlM {α : Type} {step : State → α → Option State} {l : List α}
    (h : ∀ a ∈ l, Passes (step · a)) : Passes fun s => l.foldlM step s := by
  induction l with
  | nil => exact fun _ _ => rfl
  | cons a l ih =>
    exact (h a List.mem_cons_self).bind (ih fun a' ha' => h a' (List.mem_cons_of_mem a ha'))

/-- A whole header line can be carried out before the work or after it. -/
theorem header (h : Passes work) (load : Loader) (s : State) (number : Nat) (body : List Char) :
    (interpret load s (.header number body)).value?.bind work =
      (work s).bind fun s' => (interpret load s' (.header number body)).value? := by
  simp only [interpret]
  -- item by item: in no state can an item be read that cannot be read in another
  induction headerItems body generalizing s with
  | nil => simp
  | cons item items ih =>
    simp only [List.foldlM_cons, value?_bind, State.value?_applyHeader]
    cases HeaderItem.read item with
    | error e => simp [Except.toOption]
    | ok given =>
      simp only [Except.toOption, Option.map_some, Option.bind_some]
      rw [ih, h, Option.bind_map]
      rfl

end Passes

/-! ## Step -/

theorem State.value?_readPulses_give (s : State) (given : HeaderItem) (lines : List Line) :
    ((s.give given).readPulses lines).value? =
      (s.readPulses lines).value?.map fun (s', ps) => (s'.give given, ps) := by
  induction lines generalizing s with
  | nil => rfl
  | cons line rest ih =>
    have hdeclared : (s.give given).sequence.declared = s.sequence.declared := s.give_declared given
    cases h : PulseLine.read s.sequence.declared line.text with
    | error e =>
      rw [State.value?_readPulses_of_error h, State.value?_readPulses_of_error (hdeclared ▸ h), ih]
    | ok p =>
      rw [State.value?_readPulses_of_ok h, State.value?_readPulses_of_ok (hdeclared ▸ h)]
      -- the name is numbered in the same way
      have hnumber : (s.give given).numberPulse p =
          ((s.numberPulse p).1.give given, (s.numberPulse p).2) := rfl
      rw [hnumber, ih, Option.map_map, Option.map_map]
      rfl

theorem State.addPulses_passes (lines : List Line) :
    Passes fun s => (s.addPulses lines).value? := by
  intro s given
  simp only [State.addPulses, value?_bind, State.value?_readPulses_give]
  cases (s.readPulses lines).value? with
  | none => rfl
  | some result => cases given <;> rfl

theorem State.addBlock_passes (block : Block) : Passes fun s => (s.addBlock block).value? := by
  intro s given
  cases block with
  | loop iterations body =>
    simp only [State.addBlock, value?_bind, State.value?_readPulses_give]
    cases (s.readPulses body).value? with
    | none => rfl
    | some result => cases given <;> rfl
  | conditional condition whenTrue whenFalse =>
    simp only [State.addBlock, value?_bind, State.value?_readPulses_give]
    cases (s.readPulses whenTrue).value? with
    | none => rfl
    | some trueOnes =>
      -- the false branch is read where the true branch has ended
      simp only [Option.map_some, Option.bind_some, State.value?_readPulses_give]
      cases (trueOnes.1.readPulses (whenFalse.getD [])).value? with
      | none => rfl
      | some falseOnes => cases given <;> rfl

theorem State.declare_passes (number : Nat) (body : List Char) :
    Passes fun s => (s.declare number body).value? := by
  intro s given
  simp only [State.value?_declare, State.give_declared]
  cases (readDeclaration body).toOption with
  | none => rfl
  | some v =>
    simp only [Option.bind_some]
    -- a header leaves the table alone, so the check of the name has the same outcome
    by_cases h : s.sequence.declared.contains v.name = true
    · rw [if_pos h, if_pos h]
      rfl
    · rw [if_neg h, if_neg h]
      cases given <;> rfl

/-- Preset lines neither look at what headers give nor touch it. -/
def Loader.Passes (load : Loader) : Prop :=
  ∀ number body, Script.Passes fun s => (load s number body).value?

/-- **Step**: no statement but a header has to do with what headers give. -/
theorem interpret_passes {load : Loader} (hload : load.Passes) {statement : Statement}
    (h : statement.isHeader = false) : Passes fun s => (interpret load s statement).value? := by
  match statement with
  | .header number body => cases h
  | .declaration number body => exact State.declare_passes number body
  | .preset number body => exact hload number body
  | .block block => exact State.addBlock_passes block
  | .badBlock fault => exact fun _ _ => rfl
  | .pulse line => exact State.addPulses_passes [line]

/-! ## Run -/

/-- Statements of which none is a header. A line inside a block is not one, whatever it says. -/
def Headerless (statements : List Statement) : Prop :=
  ∀ statement ∈ statements, statement.isHeader = false

instance (statements : List Statement) : Decidable (Headerless statements) :=
  inferInstanceAs (Decidable (∀ statement ∈ statements, statement.isHeader = false))

/-- Where no line is a header, no statement is. -/
theorem headerless_of_lines {lines : List Line}
    (h : ∀ line ∈ lines, ∀ body, LineRole.of line.text ≠ .header body) :
    Headerless (Statement.ofLines lines) := by
  intro statement hmem
  match statement, hmem with
  | .header number body, hmem =>
    rcases exists_blamed hmem with ⟨_, hblock⟩ | ⟨_, hpulse⟩ | ⟨line, hline, _, hrole⟩
    · cases hblock
    · cases hpulse
    · exact absurd hrole (h line hline body)
  | .declaration _ _, _ => rfl
  | .preset _ _, _ => rfl
  | .block _, _ => rfl
  | .badBlock _, _ => rfl
  | .pulse _, _ => rfl

/-- **Run**: lines without a header have nothing to do with what headers give. -/
theorem run_passes {load : Loader} (hload : load.Passes) {lines : List Line}
    (h : Headerless (Statement.ofLines lines)) : Passes fun s => run load s lines := by
  unfold run
  simp only [value?_foldlM]
  exact Passes.foldlM fun statement hmem => interpret_passes hload (h statement hmem)

/-- A registry that renders no preset to a text with a header. That none of its lines is one is
    enough, see `headerless_of_lines`. -/
def HeaderlessPresets (registry : Registry) : Prop :=
  ∀ name preset overrides declared text, registry name = some preset →
    preset.render overrides declared = .ok text → Headerless (Statement.ofText text)

theorem HeaderlessPresets.presetText? {registry : Registry} (h : HeaderlessPresets registry)
    {declared : List String} {body text : List Char}
    (htext : presetText? registry declared body = some text) :
    Headerless (Statement.ofText text) := by
  obtain ⟨preset, hknown, htext⟩ := Option.bind_eq_some_iff.mp htext
  obtain ⟨overrides, _, hrender⟩ := Option.bind_eq_some_iff.mp htext
  exact h _ preset overrides declared text hknown (toOption_eq_some_iff.mp hrender)

theorem carryOutPreset_passes {registry : Registry} (h : HeaderlessPresets registry) (limit : Nat)
    {inner : Option Loader} (hinner : ∀ load ∈ inner, load.Passes) :
    Loader.Passes (carryOutPreset registry limit inner) := by
  intro number body s given
  simp only [value?_carryOutPreset, State.give_declared]
  by_cases hname : presetName body = ""
  · rw [if_pos hname, if_pos hname]
    rfl
  · rw [if_neg hname, if_neg hname]
    by_cases hknown : registry (presetName body) = none
    · rw [if_pos hknown, if_pos hknown]
      rfl
    · -- the text depends on nothing but what is declared, and a header declares nothing
      rw [if_neg hknown, if_neg hknown]
      cases inner with
      | none => rfl
      | some load =>
        cases htext : presetText? registry s.sequence.declared.keys body with
        | none => rfl
        | some text => exact run_passes (hinner load rfl) (h.presetText? htext) s given

/-- **Run**: presets have nothing to do with what headers give, however deep they nest. -/
theorem loader_passes {registry : Registry} (h : HeaderlessPresets registry) (limit depth : Nat) :
    Loader.Passes (loader registry limit depth) :=
  loader_induction (fun _ hinner => carryOutPreset_passes h limit hinner) depth

/-! ## Places -/

namespace Statement

variable {lines : List Line} {fault : BlockFault}

/-- Whether a statement is a block of which the `end` is missing. -/
def isOpen : Statement → Bool
  | badBlock ⟨_, .unterminated _⟩ => true
  | _ => false

/-- Some lines at whose end no block is open. A block that cannot be read since its count is bad or
    since another one opens in it is not held to be open. -/
def Closed (lines : List Line) : Prop :=
  ∀ statement ∈ Statement.ofLines lines, statement.isOpen = false

instance (lines : List Line) : Decidable (Closed lines) :=
  inferInstanceAs (Decidable (∀ statement ∈ Statement.ofLines lines, statement.isOpen = false))

/-- A block that cannot be read stays bad with further lines behind it, if it is not open. -/
theorem ofLines_badBlock_append (hbad : Statement.ofLines lines = [.badBlock fault])
    (hclosed : (badBlock fault).isOpen = false) (rest : List Line) :
    Statement.ofLines (lines ++ rest) = [.badBlock fault] := by
  cases lines with
  | nil =>
    rw [ofLines_nil] at hbad
    cases hbad
  | cons opening inside =>
    cases hopener : opener? (LineRole.of opening.text) with
    | none =>
      rw [ofLines_of_opener_none hopener, List.cons.injEq] at hbad
      exact absurd hbad.1 ((Makes.line hopener).ne_badBlock fault)
    | some outcome =>
      cases outcome with
      | error e =>
        -- a bad count is at fault before any line behind it is looked at
        have hcount : ∀ inside, Statement.ofLines (opening :: inside) =
            [.badBlock ⟨opening.number, e⟩] := by
          intro inside
          rw [ofLines]
          simp only [hopener]
        rw [List.cons_append, hcount, ← hbad, hcount]
      | ok opener =>
        cases hcollect : Block.collect opening opener inside with
        | ok parts =>
          rw [ofLines_of_collect hopener hcollect] at hbad
          cases hbad
        | error fault' =>
          rw [ofLines_of_collect_error hopener hcollect] at hbad
          cases hbad
          rcases Block.collect_error_iff.mp hcollect with
            ⟨before, nested, later, keyword, rfl, hbefore, hkeyword, hfault⟩ | ⟨_, rfl⟩
          · -- the other block opens in front of all further lines
            have hlines : before ++ nested :: later ++ rest =
                before ++ nested :: (later ++ rest) := by
              rw [List.append_assoc, List.cons_append]
            apply ofLines_of_collect_error hopener
            exact Block.collect_error_iff.mpr
              (.inl ⟨before, nested, later ++ rest, keyword, hlines, hbefore, hkeyword, hfault⟩)
          · cases hclosed

theorem badBlock_append (hclosed : (badBlock fault).isOpen = false)
    (h : .badBlock fault ∈ Statement.ofLines lines) (rest : List Line) :
    .badBlock fault ∈ Statement.ofLines (lines ++ rest) := by
  obtain ⟨before, later, hstatements⟩ := List.append_of_mem h
  obtain ⟨first, bad, rfl, hfirst, hbad⟩ := ofLines_eq_append hstatements (List.cons_ne_nil _ _)
  rcases ofLines_eq_cons hbad with ⟨_, _, rfl⟩ | ⟨_, _, _, hmakes, _⟩
  · rw [List.append_assoc, hfirst.ofLines_append, ofLines_badBlock_append hbad hclosed]
    exact List.mem_append_right _ (List.mem_singleton_self _)
  · exact absurd rfl (hmakes.ne_badBlock fault)

end Statement

variable {load : Loader} {above between below : List (List Char)} {line body : List Char}

/-- Lines at whose end no block is open are carried out before those behind them. -/
theorem run_closed (hload : load.Unnumbered) (h : Statement.Closed (linesFrom 1 above)) (s : State)
    (below : List (List Char)) : run load s (linesFrom 1 (above ++ below)) =
      (run load s (linesFrom 1 above)).bind fun s' => run load s' (linesFrom 1 below) := by
  by_cases hbad : ∃ fault, .badBlock fault ∈ Statement.ofLines (linesFrom 1 above)
  · -- the block is bad with the lines below it and without them
    obtain ⟨fault, hbad⟩ := hbad
    have hbelow := Statement.badBlock_append (h _ hbad) hbad (linesFrom (1 + above.length) below)
    rw [linesFrom_append, run_of_badBlock hbelow, run_of_badBlock hbad]
    rfl
  · exact run_behind hload (Statement.grouped_of_noBadBlock fun fault hmem => hbad ⟨fault, hmem⟩)
      s below

/-- A header line is not silent. -/
theorem isSignificant_of_header (h : LineRole.of line = .header body) :
    isSignificant line = true := by
  cases line with
  | nil => cases h
  | cons c rest =>
    rw [isSignificant, decide_eq_true_eq]
    rintro rfl
    simp [LineRole.of, after?] at h

/-- A header line is carried out before the lines behind it. -/
theorem run_header (hload : load.Unnumbered) (h : LineRole.of (Text.trim line) = .header body)
    (s : State) (below : List (List Char)) :
    run load s (linesFrom 1 (line :: below)) =
      (interpret load s (.header 1 body)).value?.bind fun s' =>
        run load s' (linesFrom 1 below) := by
  have hopener : opener? (LineRole.of (Text.trim line)) = none := by
    rw [h]
    rfl
  have hmakes : Statement.Makes [⟨1, Text.trim line⟩] (.header 1 body) := by
    have hline : Statement.ofLine ⟨1, Text.trim line⟩ = .header 1 body := by
      simp only [Statement.ofLine, h]
    exact hline ▸ .line hopener
  -- a header is a statement of one line, so the lines below it are read on their own
  have hlines : linesFrom 1 (line :: below) = [⟨1, Text.trim line⟩] ++ linesFrom 2 below := by
    rw [← List.singleton_append, linesFrom_append, linesFrom_singleton,
      if_pos (isSignificant_of_header h)]
    rfl
  rw [hlines, run_makes_append hmakes]
  congr 1
  funext s'
  exact run_congr hload s' (text_linesFrom 2 1 below)

/-- **Run**: a header line can be carried out before lines without a header or after them. -/
theorem run_header_moved (hload : load.Unnumbered) (hpasses : load.Passes)
    (hheader : LineRole.of (Text.trim line) = .header body)
    (hclosed : Statement.Closed (linesFrom 1 between))
    (hheaderless : Headerless (Statement.ofLines (linesFrom 1 between))) (s : State) :
    run load s (linesFrom 1 (line :: (between ++ below))) =
      run load s (linesFrom 1 (between ++ line :: below)) := by
  have hbetween : Passes fun s => run load s (linesFrom 1 between) :=
    run_passes hpasses hheaderless
  -- in three steps each: the header, the lines that are crossed and the lines below
  simp only [run_header hload hheader, run_closed hload hclosed]
  rw [← Option.bind_assoc, hbetween.header, Option.bind_assoc]

/-! ## Result -/

/-- Two texts with the same lines but for the place of a header line. It stands outside of the
    blocks in both of them, and no other header stands between its two places. From the first text
    to the second the header is moved down, and from the second to the first it is moved up. -/
inductive HeaderMoved (text moved : String) : Prop where
  | across (above between below : List (List Char)) (line body : List Char) :
    Text.splitOn '\n' text.toList = above ++ line :: (between ++ below) →
    Text.splitOn '\n' moved.toList = above ++ (between ++ line :: below) →
    LineRole.of (Text.trim line) = .header body →
    Statement.Closed (linesFrom 1 above) → Statement.Closed (linesFrom 1 between) →
    Headerless (Statement.ofLines (linesFrom 1 between)) → HeaderMoved text moved

/-- **Place**: where no preset is rendered to a text with a header, a header line may stand above or
    below the lines and blocks next to it, up to the next header. A script is read to the same
    sequence, with the total duration that a header gives or that is derived if none does, and a
    script that cannot be read still cannot. -/
theorem read_header_moved {registry : Registry} {settings : Settings} {text moved : String}
    (hpresets : HeaderlessPresets registry) (h : HeaderMoved text moved) (d : Sequence) :
    (readWith registry settings text).result = .ok d ↔
      (readWith registry settings moved).result = .ok d := by
  obtain ⟨above, between, below, line, body, htext, hmoved, hheader, habove, hbetween,
    hheaderless⟩ := h
  have hload : Loader.Unnumbered (loader registry settings.presetDepth settings.presetDepth) :=
    loader_unnumbered registry _ _
  have hpasses : Loader.Passes (loader registry settings.presetDepth settings.presetDepth) :=
    loader_passes hpresets _ _
  rw [readWith_ok_iff, readWith_ok_iff, contentLines_eq, contentLines_eq, htext, hmoved]
  -- the lines above come first, and in the state that they end in the header can be moved
  simp only [run_closed hload habove,
    run_header_moved hload hpasses hheader hbetween hheaderless]

theorem blinking_headerless : HeaderlessPresets blinking := by
  intro name preset overrides declared text hknown hrender
  by_cases hname : name = "blink"
  · rw [blinking, if_pos hname] at hknown
    cases hknown
    cases overrides with
    | nil =>
      have htext : "loop: 2\nlaser pulse on channel 2 at 0s, square, tau, 1\nend".toList = text :=
        Except.ok.inj hrender
      -- none of the three lines of the text is a header
      have hroles : (contentLines text).map (LineRole.of ·.text) =
          [.loop " 2".toList, .pulse, .ending] := by
        rw [← htext]
        decide +kernel
      apply headerless_of_lines
      intro line hline body hrole
      have hmem : LineRole.of line.text ∈ [.loop " 2".toList, .pulse, .ending] :=
        hroles ▸ List.mem_map_of_mem hline
      simp [hrole] at hmem
    | cons override rest =>
      -- the preset has no parameter that could be overridden
      cases hrender
  · rw [blinking, if_neg hname] at hknown
    cases hknown

/-- A declaration, a preset line and a block. What looks like a header in the block is read as a
    pulse, and is none. -/
def conditionalBlink : String :=
  "variable tau, start=1s, stop=2s, steps=2\nload preset: blink\n"
    ++ "if lit\nsequence: name=lit\nend"

/-- A header may stand above all of them or below. -/
theorem read_header_below_blink : ∃ d,
    (readWith blinking {} ("sequence: name=echo, duration=9s\n" ++ conditionalBlink)).result =
      .ok d ∧
    (readWith blinking {} (conditionalBlink ++ "\nsequence: name=echo, duration=9s")).result =
      .ok d ∧
    d.name = "echo" ∧ d.totalDuration = ⟨9⟩ := by
  have hmoved : HeaderMoved ("sequence: name=echo, duration=9s\n" ++ conditionalBlink)
      (conditionalBlink ++ "\nsequence: name=echo, duration=9s") := by
    refine .across [] (Text.splitOn '\n' conditionalBlink.toList) []
      "sequence: name=echo, duration=9s".toList " name=echo, duration=9s".toList ?_ ?_ ?_ ?_ ?_ ?_
    all_goals decide +kernel
  have hread : (readWith blinking {}
      ("sequence: name=echo, duration=9s\n" ++ conditionalBlink)).result.map
        (fun d => (d.name, d.totalDuration)) = .ok ("echo", ⟨9⟩) := by
    decide +kernel
  obtain ⟨d, hd, hgiven⟩ := Success.map_ok.mp hread
  obtain ⟨hname, hduration⟩ := Prod.mk.inj hgiven
  exact ⟨d, hd, (read_header_moved blinking_headerless hmoved d).mp hd, hname, hduration⟩

end PulseTrain.Script
