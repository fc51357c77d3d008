import PulseTrain.Proofs.Outcome
import PulseTrain.Proofs.Script.Grouping
import PulseTrain.Script.Reader

/-! # Line numbers do not matter

    The number of a line stands in notes and in errors. It reaches no result: two lists of lines
    with the same texts are grouped to the same statements but for the numbers, and statements
    that differ in numbers alone are carried out to the same result.

    * **Grouping**: `Statement.ofLines_congr`;
    * **Step**: `value?_interpret_unnumbered`, a case for each kind of statement;
    * **Run**: `run` is what lines come to, `run_congr` says that only the texts count, and
      `run_append` that what is grouped completely can be carried out first.
-/

namespace PulseTrain.Script

open Logged

/-! ## Grouping -/

/-- A line without its number. -/
def Line.unnumbered (line : Line) : Line := ⟨0, line.text⟩

/-- Lines with the same texts are the same lines but for their numbers. -/
theorem map_unnumbered_congr {xs ys : List Line} (h : xs.map (·.text) = ys.map (·.text)) :
    xs.map Line.unnumbered = ys.map Line.unnumbered := by
  have hmap : ∀ zs : List Line, zs.map Line.unnumbered = (zs.map (·.text)).map (Line.mk 0) := by
    intro zs
    rw [List.map_map]
    rfl
  rw [hmap, hmap, h]

namespace Block

/-- The block with other lines in the place of its lines. -/
def mapLines (f : Line → Line) : Block → Block
  | loop iterations body => loop iterations (body.map f)
  | conditional condition whenTrue whenFalse =>
    conditional condition (whenTrue.map f) (whenFalse.map (·.map f))

/-- The branches of a conditional are parted by the texts of the lines. -/
theorem of_map {f : Line → Line} (hf : ∀ line, (f line).text = line.text) (opener : Opener)
    (body : List Line) : of opener (body.map f) = (of opener body).mapLines f := by
  cases opener with
  | loop iterations => rfl
  | conditional condition =>
    -- whether a line is an else depends on its text only
    have helse : (fun line => !isElse line) ∘ f = fun line => !isElse line := by
      funext line
      simp only [Function.comp_apply, isElse, hf]
    simp only [of, List.dropWhile_map, List.takeWhile_map, helse]
    cases body.dropWhile fun line => !isElse line with
    | nil => rfl
    | cons _ whenFalse => rfl

end Block

namespace Statement

/-- A statement without numbers of lines. What makes a block a bad one is left out too. -/
def unnumbered : Statement → Statement
  | header _ body => header 0 body
  | declaration _ body => declaration 0 body
  | preset _ body => preset 0 body
  | block b => block (b.mapLines Line.unnumbered)
  | badBlock _ => badBlock ⟨0, .unterminated ""⟩
  | pulse line => pulse line.unnumbered

theorem unnumbered_ofLine (line : Line) : (ofLine line).unnumbered = ofLine line.unnumbered := by
  obtain ⟨number, text⟩ := line
  simp only [ofLine, Line.unnumbered]
  cases LineRole.of text with
  | header body => rfl
  | declaration body => rfl
  | loop count => rfl
  | conditional condition => rfl
  | preset body => rfl
  | otherwise => rfl
  | ending => rfl
  | pulse => rfl

/-- Lines with the same texts make the same statement but for the numbers. -/
theorem Makes.congr {xs ys : List Line} {statement : Statement} (h : Makes xs statement)
    (htexts : xs.map (·.text) = ys.map (·.text)) :
    ∃ statement', Makes ys statement' ∧ statement'.unnumbered = statement.unnumbered := by
  cases h with
  | @line line hopener =>
    obtain ⟨line', rfl, hline⟩ := List.map_eq_singleton_iff.mp htexts.symm
    replace hline : line'.text = line.text := hline
    rw [← hline] at hopener
    refine ⟨ofLine line', .line hopener, ?_⟩
    rw [unnumbered_ofLine, unnumbered_ofLine, Line.unnumbered, hline, Line.unnumbered]
  | @block opening last opener body hopener hbody hlast =>
    -- the other lines are an opening line, a body and an `end` of the same texts
    rw [List.map_cons, List.map_append, List.map_singleton] at htexts
    obtain ⟨opening', inside, rfl, hopening', hinside⟩ := List.map_eq_cons_iff.mp htexts.symm
    obtain ⟨body', end', rfl, hbody', hend'⟩ := List.map_eq_append_iff.mp hinside
    obtain ⟨last', rfl, hlast'⟩ := List.map_eq_singleton_iff.mp hend'
    rw [← hopening'] at hopener
    rw [← hlast'] at hlast
    refine ⟨.block (Block.of opener body'), .block hopener ?_ hlast, ?_⟩
    · intro line' hline'
      -- a line of the same text stands in the block that is given
      have hmem : line'.text ∈ body.map (·.text) := hbody' ▸ List.mem_map_of_mem hline'
      obtain ⟨line, hline, htext⟩ := List.mem_map.mp hmem
      unfold Inner
      rw [← htext]
      exact hbody line hline
    · simp only [unnumbered]
      have htext : ∀ line : Line, line.unnumbered.text = line.text := fun _ => rfl
      rw [← Block.of_map htext, ← Block.of_map htext, map_unnumbered_congr hbody']

/-- Lines of which nothing but a bad block is made are bad under any numbers. -/
theorem ofLines_badBlock_congr {xs ys : List Line} {fault : BlockFault}
    (h : xs.map (·.text) = ys.map (·.text)) (hxs : ofLines xs = [.badBlock fault]) :
    ∃ fault', ofLines ys = [.badBlock fault'] := by
  cases hys : ofLines ys with
  | nil =>
    have hnil : ys = [] := eq_nil_of_ofLines hys
    rw [hnil, List.map_nil, List.map_eq_nil_iff] at h
    rw [h, ofLines_nil] at hxs
    cases hxs
  | cons statement later =>
    rcases ofLines_eq_cons hys with ⟨fault', rfl, rfl⟩ | ⟨first, rest, rfl, hfirst, _⟩
    · exact ⟨fault', rfl⟩
    · -- a complete statement at the start would be one under the other numbers too
      rw [List.map_append] at h
      obtain ⟨first', rest', rfl, hfirst', _⟩ := List.map_eq_append_iff.mp h
      obtain ⟨statement', hmakes, _⟩ := hfirst.congr hfirst'.symm
      rw [hmakes.ofLines_append, List.cons.injEq] at hxs
      exact absurd hxs.1 (hmakes.ne_badBlock fault)

/-- Lines with the same texts are grouped in the same way. -/
theorem ofLines_congr {xs ys : List Line} (h : xs.map (·.text) = ys.map (·.text)) :
    (ofLines xs).map unnumbered = (ofLines ys).map unnumbered := by
  -- along the statements of the first lines
  generalize hxs : ofLines xs = statements
  induction statements generalizing xs ys with
  | nil =>
    rw [eq_nil_of_ofLines hxs, List.map_nil] at h
    rw [List.map_eq_nil_iff.mp h.symm, ofLines_nil]
  | cons statement later ih =>
    rcases ofLines_eq_cons hxs with ⟨fault, rfl, rfl⟩ | ⟨first, rest, rfl, hfirst, hrest⟩
    · obtain ⟨fault', hys⟩ := ofLines_badBlock_congr h hxs
      rw [hys]
      rfl
    · rw [List.map_append] at h
      obtain ⟨first', rest', rfl, hfirst', hrest'⟩ := List.map_eq_append_iff.mp h.symm
      obtain ⟨statement', hmakes, hsame⟩ := hfirst.congr hfirst'.symm
      rw [hmakes.ofLines_append, List.map_cons, List.map_cons, hsame, ih hrest'.symm hrest]

end Statement

/-! ## Step -/

namespace State

variable {s : State} {line : Line} {rest : List Line}

/-- A line that is no pulse leaves what has been read as it is. -/
theorem value?_readPulses_of_error {e : PulseError}
    (h : PulseLine.read s.sequence.declared line.text = .error e) :
    (s.readPulses (line :: rest)).value? = (s.readPulses rest).value? := by
  rw [readPulses]
  unfold readPulse
  simp only [h, value?_bind, value?_note, Option.bind_some]

/-- A pulse is given its name before the lines after it are read. -/
theorem value?_readPulses_of_ok {p : Pulse}
    (h : PulseLine.read s.sequence.declared line.text = .ok p) :
    (s.readPulses (line :: rest)).value? =
      ((s.numberPulse p).1.readPulses rest).value?.map
        fun (s', ps) => (s', (s.numberPulse p).2 :: ps) := by
  rw [readPulses]
  unfold readPulse
  simp only [h, value?_bind, value?_pure]
  cases ((s.numberPulse p).1.readPulses rest).value? with
  | none => rfl
  | some result => rfl

theorem value?_readPulses_unnumbered (s : State) (lines : List Line) :
    (s.readPulses (lines.map Line.unnumbered)).value? = (s.readPulses lines).value? := by
  -- by induction on the lines, of which a number is used in notes only
  induction lines generalizing s with
  | nil => rfl
  | cons line rest ih =>
    cases h : PulseLine.read s.sequence.declared line.text with
    | error e =>
      rw [List.map_cons, value?_readPulses_of_error h, ← ih s]
      exact value?_readPulses_of_error h
    | ok p =>
      rw [List.map_cons, value?_readPulses_of_ok h, ← ih]
      exact value?_readPulses_of_ok h

theorem value?_addPulses_unnumbered (s : State) (lines : List Line) :
    (s.addPulses (lines.map Line.unnumbered)).value? = (s.addPulses lines).value? := by
  unfold addPulses
  rw [value?_bind, value?_bind, value?_readPulses_unnumbered]

theorem value?_addBlock_unnumbered (s : State) (block : Block) :
    (s.addBlock (block.mapLines Line.unnumbered)).value? = (s.addBlock block).value? := by
  cases block with
  | loop iterations body =>
    simp only [Block.mapLines, addBlock, value?_bind, value?_readPulses_unnumbered]
  | conditional condition whenTrue whenFalse =>
    have hfalse : (whenFalse.map (·.map Line.unnumbered)).getD [] =
        (whenFalse.getD []).map Line.unnumbered := by
      cases whenFalse with
      | none => rfl
      | some lines => rfl
    simp only [Block.mapLines, addBlock, value?_bind, value?_readPulses_unnumbered, hfalse]

/-- What has been read, with the property that an item of a header gives. -/
def give (s : State) (given : HeaderItem) : State :=
  { s with sequence := given.apply s.sequence,
           durationGiven := s.durationGiven || given.isDuration }

/-- An item of a header comes to what it gives, whatever line it is on. -/
theorem value?_applyHeader (s : State) (line : Nat) (item : List Char) :
    (s.applyHeader line item).value? = (HeaderItem.read item).toOption.map s.give := by
  unfold applyHeader
  cases HeaderItem.read item with
  | error e => rfl
  | ok given =>
    cases given with
    | unknown key =>
      -- an unknown key is noted and gives nothing
      have hsame : s.give (.unknown key) = s := by
        simp [give, HeaderItem.apply, HeaderItem.isDuration]
      show some s = some (s.give (.unknown key))
      rw [hsame]
    | name value => rfl
    | experiment value => rfl
    | duration value => rfl
    | sampleRate value => rfl
    | repeatCount value => rfl

/-- A declaration comes to one more variable, if the name is new. -/
theorem value?_declare (s : State) (line : Nat) (body : List Char) :
    (s.declare line body).value? = (readDeclaration body).toOption.bind fun v =>
      if s.sequence.declared.contains v.name then none
      else some { s with sequence :=
        { s.sequence with declared := s.sequence.declared.insert v.name v } } := by
  unfold declare
  cases readDeclaration body with
  | error e => rfl
  | ok v =>
    simp only [Except.toOption, Option.bind_some]
    split
    · rfl
    · rfl

end State

/-- The number of a preset line does not matter to what it comes to. -/
def Loader.Unnumbered (load : Loader) : Prop :=
  ∀ s number number' body, (load s number body).value? = (load s number' body).value?

/-- **Step**: what a statement comes to does not depend on the numbers of its lines. -/
theorem value?_interpret_unnumbered {load : Loader} (hload : load.Unnumbered) (s : State)
    (statement : Statement) :
    (interpret load s statement.unnumbered).value? = (interpret load s statement).value? := by
  -- the number of a statement goes into its notes and errors, and into nothing else
  match statement with
  | .header number body =>
    simp only [Statement.unnumbered, interpret, value?_foldlM]
    congr 1
    funext s item
    rw [State.value?_applyHeader, State.value?_applyHeader]
  | .declaration number body =>
    simp only [Statement.unnumbered, interpret, State.value?_declare]
  | .preset number body => exact hload s 0 number body
  | .block block => exact State.value?_addBlock_unnumbered s block
  | .badBlock fault => rfl
  | .pulse line => exact State.value?_addPulses_unnumbered s [line]

/-! ## Run -/

/-- What has been read after some lines, if they can be carried out. -/
def run (load : Loader) (s : State) (lines : List Line) : Option State :=
  ((Statement.ofLines lines).foldlM (interpret load) s).value?

theorem value?_readText (load : Loader) (s : State) (text : List Char) :
    (readText load s text).value? = run load s (contentLines text) := rfl

/-- Statements that are the same but for the numbers of their lines come to the same. -/
theorem value?_foldlM_unnumbered {load : Loader} (hload : load.Unnumbered) (s : State)
    (statements : List Statement) :
    ((statements.map Statement.unnumbered).foldlM (interpret load) s).value? =
      (statements.foldlM (interpret load) s).value? := by
  rw [value?_foldlM, value?_foldlM, List.foldlM_map]
  congr 1
  funext s statement
  exact value?_interpret_unnumbered hload s statement

/-- **Run**: lines with the same texts come to the same. -/
theorem run_congr {load : Loader} (hload : load.Unnumbered) (s : State) {xs ys : List Line}
    (h : xs.map (·.text) = ys.map (·.text)) : run load s xs = run load s ys := by
  unfold run
  rw [← value?_foldlM_unnumbered hload, Statement.ofLines_congr h,
    value?_foldlM_unnumbered hload]

/-- The lines of one statement are carried out before those after them. -/
theorem run_makes_append {xs : List Line} {statement : Statement}
    (h : Statement.Makes xs statement) (load : Loader) (s : State) (ys : List Line) :
    run load s (xs ++ ys) = (interpret load s statement).value?.bind fun s' => run load s' ys := by
  unfold run
  rw [h.ofLines_append, List.foldlM_cons, value?_bind]

/-- Lines with a bad block do not come to any result: they fail at the block, if not before. -/
theorem run_of_badBlock {lines : List Line} {fault : BlockFault}
    (h : .badBlock fault ∈ Statement.ofLines lines) (load : Loader) (s : State) :
    run load s lines = none := by
  obtain ⟨before, later, hstatements⟩ := List.append_of_mem h
  rw [run, hstatements, List.foldlM_append, value?_bind]
  apply Option.bind_eq_none_iff.mpr
  intro s' _
  rw [List.foldlM_cons, value?_bind]
  rfl

/-- Lines that are carried out to their end are grouped completely. -/
theorem grouped_of_run {load : Loader} {s s' : State} {lines : List Line}
    (h : run load s lines = some s') : Statement.Grouped lines (Statement.ofLines lines) := by
  apply Statement.grouped_of_noBadBlock
  intro fault hmem
  rw [run_of_badBlock hmem] at h
  cases h

/-- **Run**: lines that are grouped completely are carried out before those after them. -/
theorem run_append {xs : List Line} {statements : List Statement}
    (h : Statement.Grouped xs statements) (load : Loader) (s : State) (ys : List Line) :
    run load s (xs ++ ys) = (run load s xs).bind fun s' => run load s' ys := by
  unfold run
  rw [h.ofLines_append, h.ofLines, List.foldlM_append, value?_bind]

end PulseTrain.Script
