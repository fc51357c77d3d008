import PulseTrain.Proofs.Script.Rejection
import PulseTrain.Script.Reader

/-! # The grammar of blocks

    A line that opens a block is followed by the lines of the block and an `end`. The first `end`
    counts, and no other block may open before it; apart from that every line may stand in a
    block, also an `else` where it parts nothing. A block that does not fit in is an error at the
    line that opens the other block, or at its own opening line if no `end` comes.

    * **Openings**: `Opens` says which lines open a block, `opens_iff` that these are read;
    * **Parts**: `Block.Parts` says which lines a block has, `Block.parts_of` that it has all;
    * **Extent**: `findIdx?_isEnd_iff` finds the `end`, `Block.collect_of_inner` reads up to it;
    * **Errors**: `Block.collect_error_iff`;
    * **Result**: `Block.collect_grammar`.
-/

namespace PulseTrain.Script

open Success

/-! ## Openings -/

/-- A line that opens a block: a loop with the number of its iterations, or a conditional. A line
    without blanks around it has a condition then, see `Line.StandsIn.condition_ne_nil`. -/
inductive Opens : Line → Opener → Prop where
  | loop {line : Line} {count : List Char} {iterations : UInt32} :
    LineRole.of line.text = .loop count →
    Text.natural32? (Text.trim count) = some iterations →
    Opens line (.loop iterations)
  | conditional {line : Line} {condition : List Char} :
    LineRole.of line.text = .conditional condition →
    Opens line (.conditional (String.ofList (Text.trim condition)))

def isEnd (line : Line) : Bool := LineRole.of line.text = .ending

variable {opening : Line} {opener : Opener} {rest before later : List Line}

theorem opens_iff :
    Opens opening opener ↔ opener? (LineRole.of opening.text) = some (.ok opener) := by
  constructor
  · intro h
    cases h with
    | loop hrole hcount =>
      rw [hrole]
      simp only [opener?, hcount]
    | conditional hrole =>
      rw [hrole]
      rfl
  · intro h
    -- only lines of these two roles open a block, and a loop must have its count
    cases hrole : LineRole.of opening.text with
    | loop count =>
      rw [hrole] at h
      cases hcount : Text.natural32? (Text.trim count) with
      | none => simp [opener?, hcount] at h
      | some iterations =>
        simp only [opener?, hcount, Option.some.injEq, Except.ok.injEq] at h
        subst h
        exact .loop hrole hcount
    | conditional condition =>
      rw [hrole] at h
      cases h
      exact .conditional hrole
    | _ =>
      rw [hrole] at h
      cases h

/-- A line that opens a block does not end one. -/
theorem Opens.isEnd_eq_false (h : Opens opening opener) : isEnd opening = false := by
  unfold isEnd
  cases h with
  | loop hrole _ => simp [hrole]
  | conditional hrole => simp [hrole]

theorem isEnd_of_inner {line : Line} (h : Inner line) : isEnd line = false := by
  unfold isEnd
  simp [h.2]

/-! ## Parts -/

namespace Block

/-- The lines inside a block: the body of a loop, or the branches of a conditional with the first
    `else` between them, if there is one. -/
inductive Parts : Opener → List Line → Block → Prop where
  | loop (iterations : UInt32) (body : List Line) :
    Parts (.loop iterations) body (.loop iterations body)
  | whole (condition : String) {body : List Line} :
    (∀ line ∈ body, isElse line = false) →
    Parts (.conditional condition) body (.conditional condition body none)
  | parted (condition : String) {whenTrue : List Line} {middle : Line} (whenFalse : List Line) :
    (∀ line ∈ whenTrue, isElse line = false) → isElse middle = true →
    Parts (.conditional condition) (whenTrue ++ middle :: whenFalse)
      (.conditional condition whenTrue (some whenFalse))

/-- A block has all the lines it is made of. -/
theorem parts_of (opener : Opener) (body : List Line) : Parts opener body (of opener body) := by
  cases opener with
  | loop iterations => exact .loop iterations body
  | conditional condition =>
    -- the branches are parted at the first else, if there is one
    rcases else_cases body with hall | ⟨whenTrue, middle, whenFalse, rfl, htrue, hmiddle⟩
    · rw [of_noElse hall]
      exact .whole condition hall
    · rw [of_else htrue hmiddle]
      exact .parted condition whenFalse htrue hmiddle

end Block

/-! ## Extent -/

/-- The first `end` behind an opening line stands behind lines that are no `end`. -/
theorem findIdx?_isEnd_iff {last : ℕ} (hopening : isEnd opening = false) :
    (opening :: rest).findIdx? isEnd = some last ↔
      ∃ before line later, rest = before ++ line :: later ∧ isEnd line = true ∧
        (∀ x ∈ before, isEnd x = false) ∧ last = before.length + 1 := by
  constructor
  · intro h
    rw [List.findIdx?_cons, hopening] at h
    obtain ⟨index, hindex, hlast⟩ := Option.map_eq_some_iff.mp h
    -- the lines in front of the first end are those of the body
    obtain ⟨hlt, hend, hbefore⟩ := List.findIdx?_eq_some_iff_getElem.mp hindex
    refine ⟨rest.take index, rest[index], rest.drop (index + 1), ?_, hend, ?_, ?_⟩
    · rw [← List.drop_eq_getElem_cons hlt, List.take_append_drop]
    · intro x hx
      obtain ⟨j, hj, hget⟩ := List.mem_take_iff_getElem.mp hx
      have hnot := hbefore j (by omega)
      rw [hget] at hnot
      simpa using hnot
    · rw [List.length_take, ← hlast]
      omega
  · rintro ⟨before, line, later, rfl, hend, hbefore, rfl⟩
    have hnone : before.findIdx? isEnd = none := List.findIdx?_eq_none_iff.mpr hbefore
    rw [List.findIdx?_cons, hopening, List.findIdx?_append, hnone, List.findIdx?_cons, hend]
    simp

namespace Block

/-- A block is read up to the first `end` if its lines may stand in it. -/
theorem collect_of_inner {line : Line} (hbefore : ∀ x ∈ before, Inner x)
    (hline : isEnd line = true) :
    collect opening opener (before ++ line :: later) = .ok (of opener before, later) := by
  have hrole : LineRole.of line.text = .ending := by simpa [isEnd] using hline
  unfold collect
  rw [untilEnd_of_inner hbefore hrole]
  rfl

/-- A block that is read has the lines before the first `end`, and leaves those behind it. -/
theorem collect_ok {block : Block} (h : collect opening opener rest = .ok (block, later)) :
    ∃ before line, rest = before ++ line :: later ∧ isEnd line = true ∧
      (∀ x ∈ before, Inner x) ∧ block = of opener before := by
  obtain ⟨⟨before, later'⟩, hread, hblock⟩ := map_ok.mp h
  obtain ⟨rfl, rfl⟩ := Prod.mk.inj hblock
  obtain ⟨line, hend, hbefore, hrest⟩ := untilEnd_ok hread
  exact ⟨before, line, hrest, by simp [isEnd, hend], hbefore, rfl⟩

/-! ## Errors -/

/-- **Errors**: a block that opens before the `end` is at fault, and where there is neither of the
    two, the block that is to be read. -/
theorem collect_error_iff {fault : BlockFault} :
    collect opening opener rest = .error fault ↔
      (∃ before nested later keyword, rest = before ++ nested :: later ∧
        (∀ line ∈ before, Inner line) ∧
        openingKeyword? (LineRole.of nested.text) = some keyword ∧
        fault = ⟨nested.number, .nested keyword opener.name opening.number⟩) ∨
      ((∀ line ∈ rest, Inner line) ∧ fault = ⟨opening.number, .unterminated opener.name⟩) := by
  unfold collect
  rw [map_error]
  constructor
  · exact untilEnd_error
  · rintro (⟨before, nested, later, keyword, rfl, hbefore, hkeyword, rfl⟩ | ⟨hall, rfl⟩)
    · have hnested : untilEnd opening opener (nested :: later) =
          .error ⟨nested.number, .nested keyword opener.name opening.number⟩ := by
        simp only [untilEnd, hkeyword]
      rw [untilEnd_append hbefore, hnested]
      rfl
    · rw [← List.append_nil rest, untilEnd_append hall]
      rfl

/-! ## Result -/

/-- **Grammar**: behind an opening line a block is read exactly if there is an `end`, and no line
    before the first one opens another block. Then the `end` is the last line that is consumed, and
    the lines between the two are those of the block, each where it stands. Otherwise the reading
    ends in an error, at the line that opens another block if there is one before an `end`, and at
    the opening line if there is none and no `end` either. -/
theorem collect_grammar (h : Opens opening opener) (rest : List Line) :
    opener? (LineRole.of opening.text) = some (.ok opener) ∧
    ((∃ block later, collect opening opener rest = .ok (block, later)) ↔
      ∃ last, (opening :: rest).findIdx? isEnd = some last ∧
        ∀ line ∈ ((opening :: rest).take last).tail,
          openingKeyword? (LineRole.of line.text) = none) ∧
    (∀ block later, collect opening opener rest = .ok (block, later) →
      ∃ last, (opening :: rest).findIdx? isEnd = some last ∧
        later = (opening :: rest).drop (last + 1) ∧
        Parts opener ((opening :: rest).take last).tail block) ∧
    (∀ fault, collect opening opener rest = .error fault ↔
      (∃ before nested later keyword, rest = before ++ nested :: later ∧
        (∀ line ∈ before, Inner line) ∧
        openingKeyword? (LineRole.of nested.text) = some keyword ∧
        fault = ⟨nested.number, .nested keyword opener.name opening.number⟩) ∨
      ((∀ line ∈ rest, Inner line) ∧
        fault = ⟨opening.number, .unterminated opener.name⟩)) ∧
    ∀ fault load s, collect opening opener rest = .error fault →
      ((Statement.ofLines (opening :: rest)).foldlM (interpret load) s).result =
        .error (.parse (some fault.line) (.block fault.error)) := by
  have hopening := h.isEnd_eq_false
  -- the first lines, up to the `end` that is found
  have htake : ∀ (before : List Line) (line : Line) (later : List Line),
      ((opening :: (before ++ line :: later)).take (before.length + 1)).tail = before := by
    intro before line later
    rw [List.take_succ_cons, List.tail_cons, List.take_left]
  refine ⟨opens_iff.mp h, ⟨?_, ?_⟩, ?_, fun fault => collect_error_iff, ?_⟩
  · -- what is read ends in an `end`, which is the first
    rintro ⟨block, later, hread⟩
    obtain ⟨before, line, rfl, hend, hbefore, _⟩ := collect_ok hread
    refine ⟨before.length + 1, ?_, ?_⟩
    · exact (findIdx?_isEnd_iff hopening).mpr
        ⟨before, line, later, rfl, hend, fun x hx => isEnd_of_inner (hbefore x hx), rfl⟩
    · rw [htake]
      exact fun x hx => (hbefore x hx).1
  · -- and before the first `end` nothing stands in the way
    rintro ⟨last, hlast, hkeywords⟩
    obtain ⟨before, line, later, rfl, hend, hbefore, rfl⟩ := (findIdx?_isEnd_iff hopening).mp hlast
    rw [htake] at hkeywords
    have hinner : ∀ x ∈ before, Inner x := by
      intro x hx
      have hnot := hbefore x hx
      exact ⟨hkeywords x hx, by simpa [isEnd] using hnot⟩
    exact ⟨of opener before, later, collect_of_inner hinner hend⟩
  · intro block later hread
    obtain ⟨before, line, rfl, hend, hbefore, rfl⟩ := collect_ok hread
    refine ⟨before.length + 1, ?_, ?_, ?_⟩
    · exact (findIdx?_isEnd_iff hopening).mpr
        ⟨before, line, later, rfl, hend, fun x hx => isEnd_of_inner (hbefore x hx), rfl⟩
    · have hlength : before.length + 1 = (before ++ [line]).length := by simp
      rw [List.drop_succ_cons, ← List.singleton_append (x := line), ← List.append_assoc, hlength,
        List.drop_left]
    · rw [htake]
      exact parts_of opener before
  · -- a block at fault is the last statement, and stops the script
    intro fault load s hfault
    rw [Statement.ofLines_of_collect_error (opens_iff.mp h) hfault]
    rfl

/-- A conditional with lines in it that would mean something outside: a header, a second `else` and
    a preset line. The last line stands behind its `end`. -/
def strayLines : List Line :=
  [⟨3, "sequence: name=y".toList⟩, ⟨4, "else".toList⟩, ⟨6, "B".toList⟩, ⟨7, "else".toList⟩,
    ⟨8, "load preset: rabi".toList⟩, ⟨9, "end".toList⟩, ⟨10, "end".toList⟩]

theorem strayLines_collected :
    Opens ⟨2, "if ready".toList⟩ (.conditional "ready") ∧
    ∃ block, collect ⟨2, "if ready".toList⟩ (.conditional "ready") strayLines =
        .ok (block, [⟨10, "end".toList⟩]) ∧
      Parts (.conditional "ready") (strayLines.take 5) block := by
  have hopens : Opens ⟨2, "if ready".toList⟩ (.conditional "ready") :=
    opens_iff.mpr (by decide +kernel)
  have hend : (⟨2, "if ready".toList⟩ :: strayLines).findIdx? isEnd = some 6 := by
    decide +kernel
  obtain ⟨_, hread, hparts, _⟩ := collect_grammar hopens strayLines
  obtain ⟨block, later, hblock⟩ := hread.mpr ⟨6, hend, by decide +kernel⟩
  obtain ⟨last, hlast, rfl, hinside⟩ := hparts block later hblock
  obtain rfl : 6 = last := Option.some.inj (hend.symm.trans hlast)
  exact ⟨hopens, block, hblock, hinside⟩

end Block

end PulseTrain.Script
