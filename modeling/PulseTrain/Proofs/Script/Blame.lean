import Mathlib.Data.List.TakeWhile
import PulseTrain.Proofs.Failure
import PulseTrain.Proofs.Script.Attempts
import PulseTrain.Proofs.Text.Words

/-! # The line at fault

    An error that ends the reading of a script names the line at fault. A fault in the text of a
    preset is reported at the line that loads the preset, and if that line stands in the text of a
    preset again, at the line that loads this one. So the line that is named always stands in the
    script itself, whatever presets its lines load.

    * **Lines**: `Line.StandsIn` is about a line of a text, `Statement.Blames` says which line is
      at fault if a statement cannot be carried out, and `exists_blamed` finds it;
    * **Preset lines**: `presetKind` says once what a preset line comes to, whatever the loader is;
    * **Step**: `interpret_error`, a case for each kind of statement that may fail;
    * **Path**: `FailsAt` follows a failure from the script into the texts of presets, and
      `readText_error_iff` says that every failure can be followed;
    * **Result**: `read_error_located`.
-/

namespace PulseTrain

/-! ## Lines -/

namespace Text

/-- Nothing is left of a text only if all of it is blank. -/
theorem isBlank_of_trim_eq_nil {s : List Char} (h : trim s = []) : ∀ c ∈ s, isBlank c = true := by
  -- what is left behind the blanks at the start is blank as well
  have hstart : ∀ c ∈ trimStart s, isBlank c = true := by
    unfold trim trimEnd at h
    rw [List.reverse_eq_nil_iff, List.dropWhile_eq_nil_iff] at h
    intro c hc
    exact h c (List.mem_reverse.mpr hc)
  have hnone : trimStart s = [] := by
    cases hs : trimStart s with
    | nil => rfl
    | cons c rest =>
      have hblank := hstart c (by simp [hs])
      have hnot := head?_dropWhile isBlank s c (by rw [← trimStart, hs]; rfl)
      rw [hblank] at hnot
      cases hnot
  exact List.dropWhile_eq_nil_iff.mp hnone

end Text

namespace Script

open Logged Success

/-- A line that stands in a text under its number and says something. -/
structure Line.StandsIn (text : List Char) (line : Line) : Prop where
  counted : 0 < line.number
  found : ((Text.splitOn '\n' text)[line.number - 1]?).map Text.trim = some line.text
  significant : isSignificant line.text = true

theorem mem_contentLines_iff {text : List Char} {line : Line} :
    line ∈ contentLines text ↔ line.StandsIn text := by
  unfold contentLines
  rw [List.mem_filterMap]
  constructor
  · rintro ⟨⟨piece, number⟩, hpiece, hline⟩
    -- the numbers count from one, so the line is found one place before its number
    obtain ⟨hnumber, hget⟩ := List.mem_zipIdx_iff_le_and_getElem?_sub.mp hpiece
    by_cases hsignificant : isSignificant (Text.trim piece) = true
    · simp only [if_pos hsignificant, Option.some.injEq] at hline
      subst hline
      exact ⟨hnumber, by simp only [hget, Option.map_some], hsignificant⟩
    · simp only [if_neg hsignificant, reduceCtorEq] at hline
  · rintro ⟨hcounted, hfound, hsignificant⟩
    obtain ⟨piece, hget, htext⟩ := Option.map_eq_some_iff.mp hfound
    refine ⟨(piece, line.number), ?_, ?_⟩
    · exact List.mem_zipIdx_iff_le_and_getElem?_sub.mpr ⟨hcounted, hget⟩
    · simp only [htext, if_pos hsignificant]

theorem after?_eq_some {word s rest : List Char} (h : after? word s = some rest) :
    s = word ++ rest := by
  -- by induction on the word, one character of the text for each of its own
  induction word generalizing s with
  | nil =>
    cases h
    rfl
  | cons w word ih =>
    cases s with
    | nil => cases h
    | cons c s =>
      unfold after? at h
      by_cases hc : w = c
      · rw [if_pos hc] at h
        rw [ih h, hc, List.cons_append]
      · rw [if_neg hc] at h
        cases h

theorem LineRole.of_conditional {text condition : List Char}
    (h : LineRole.of text = .conditional condition) : text = "if ".toList ++ condition := by
  unfold LineRole.of at h
  -- the keyword is the fourth that is looked for
  split at h
  · cases h
  · split at h
    · cases h
    · split at h
      · cases h
      · split at h
        · next found hfound =>
          cases h
          exact after?_eq_some hfound
        · split at h
          · cases h
          · split at h
            · cases h
            · split at h <;> cases h

/-- A line does not end in a blank, so there is a condition behind the keyword of a conditional. -/
theorem Line.StandsIn.condition_ne_nil {text condition : List Char} {line : Line}
    (h : line.StandsIn text) (hrole : LineRole.of line.text = .conditional condition) :
    Text.trim condition ≠ [] := by
  intro hempty
  obtain ⟨piece, _, htext⟩ := Option.map_eq_some_iff.mp h.found
  have hlast := Text.getLast?_trim piece
  rw [htext, LineRole.of_conditional hrole] at hlast
  have hblank : ∀ c ∈ " ".toList ++ condition, Text.isBlank c = true := by
    intro c hc
    rcases List.mem_append.mp hc with hc | hc
    · rw [List.mem_singleton.mp hc]
      rfl
    · exact Text.isBlank_of_trim_eq_nil hempty c hc
  -- the last character is blank and is not
  cases hc : (" ".toList ++ condition).getLast? with
  | none => simp at hc
  | some c =>
    have hhere : c ∈ ("if ".toList ++ condition).getLast? := by
      show c ∈ ("if".toList ++ (" ".toList ++ condition)).getLast?
      rw [List.getLast?_append_of_ne_nil _ (by simp)]
      exact hc
    have hmem := hblank c (List.mem_of_mem_getLast? hc)
    rw [hlast c hhere] at hmem
    cases hmem

/-- The roles of the lines at which reading may fail. A conditional then has a condition. -/
def LineRole.MayFail : LineRole → Prop
  | .header _ => True
  | .declaration _ => True
  | .loop _ => True
  | .conditional condition => Text.trim condition ≠ []
  | .preset _ => True
  | .otherwise => False
  | .ending => False
  | .pulse => False

/-- The line that is at fault if a statement cannot be carried out. -/
def Statement.Blames : Statement → Line → Prop
  | .header number body, line => line.number = number ∧ LineRole.of line.text = .header body
  | .declaration number body, line =>
    line.number = number ∧ LineRole.of line.text = .declaration body
  | .preset number body, line => line.number = number ∧ LineRole.of line.text = .preset body
  | .badBlock fault, line =>
    line.number = fault.line ∧ (openingKeyword? (LineRole.of line.text)).isSome
  | .block _, _ => False
  | .pulse _, _ => False

theorem Line.StandsIn.mayFail {text : List Char} {statement : Statement} {line : Line}
    (h : line.StandsIn text) (hblames : statement.Blames line) :
    (LineRole.of line.text).MayFail := by
  have hopening : (openingKeyword? (LineRole.of line.text)).isSome →
      (LineRole.of line.text).MayFail := by
    intro hkeyword
    cases hrole : LineRole.of line.text with
    | loop count => trivial
    | conditional condition => exact h.condition_ne_nil hrole
    | _ => simp [hrole, openingKeyword?] at hkeyword
  -- a header, a declaration and a preset line may always fail
  match statement, hblames with
  | .header _ _, hblames => rw [hblames.2]; trivial
  | .declaration _ _, hblames => rw [hblames.2]; trivial
  | .preset _ _, hblames => rw [hblames.2]; trivial
  | .badBlock _, hblames => exact hopening hblames.2

/-! ## Statements and their lines -/

/-- A block that does not end is at fault itself, and otherwise a line that opens another one. -/
theorem Block.collect_error {opening : Line} {opener : Opener} {lines : List Line}
    {fault : BlockFault} (h : Block.collect opening opener lines = .error fault) :
    fault.line = opening.number ∨ ∃ line ∈ lines, line.number = fault.line ∧
      (openingKeyword? (LineRole.of line.text)).isSome := by
  rcases untilEnd_error (map_error.mp h) with
    ⟨before, nested, later, keyword, rfl, _, hkeyword, rfl⟩ | ⟨_, rfl⟩
  · exact .inr ⟨nested, by simp, rfl, by rw [hkeyword]; rfl⟩
  · exact .inl rfl

theorem openingKeyword?_of_opener? {role : LineRole} {outcome : Except BlockError Opener}
    (h : opener? role = some outcome) : (openingKeyword? role).isSome := by
  cases role with
  | loop count => rfl
  | conditional condition => rfl
  | _ => cases h

/-- The statement that lines begin with is a block or a pulse, or one of the lines is at fault if it
    cannot be carried out. -/
theorem exists_blamed_first {line : Line} {rest : List Line} {statement : Statement}
    {later : List Statement} (h : Statement.ofLines (line :: rest) = statement :: later) :
    (∃ block, statement = .block block) ∨ (∃ line', statement = .pulse line') ∨
      ∃ line' ∈ line :: rest, statement.Blames line' := by
  have hmem : line ∈ line :: rest := List.mem_cons_self
  cases hopener : opener? (LineRole.of line.text) with
  | none =>
    rw [Statement.ofLines_of_opener_none hopener, List.cons.injEq] at h
    obtain ⟨rfl, -⟩ := h
    -- a line that opens nothing is its own statement, of one of four kinds
    rcases Statement.ofLine_cases line with ⟨body, hrole, hline⟩ | ⟨body, hrole, hline⟩ |
      ⟨body, hrole, hline⟩ | hline
    · exact .inr (.inr ⟨line, hmem, by rw [hline]; exact ⟨rfl, hrole⟩⟩)
    · exact .inr (.inr ⟨line, hmem, by rw [hline]; exact ⟨rfl, hrole⟩⟩)
    · exact .inr (.inr ⟨line, hmem, by rw [hline]; exact ⟨rfl, hrole⟩⟩)
    · exact .inr (.inl ⟨line, hline⟩)
  | some outcome =>
    have hkeyword := openingKeyword?_of_opener? hopener
    cases outcome with
    | error error =>
      rw [Statement.ofLines] at h
      simp only [hopener, List.cons.injEq] at h
      obtain ⟨rfl, -⟩ := h
      exact .inr (.inr ⟨line, hmem, rfl, hkeyword⟩)
    | ok opener =>
      cases hcollect : Block.collect line opener rest with
      | ok parts =>
        rw [Statement.ofLines_of_collect hopener hcollect, List.cons.injEq] at h
        exact .inl ⟨parts.1, h.1.symm⟩
      | error fault =>
        -- the block is at fault where it is opened, or where another one opens in it
        rw [Statement.ofLines_of_collect_error hopener hcollect, List.cons.injEq] at h
        obtain ⟨rfl, -⟩ := h
        rcases Block.collect_error hcollect with hopening | ⟨line', hline', hblamed⟩
        · exact .inr (.inr ⟨line, hmem, hopening.symm, hkeyword⟩)
        · exact .inr (.inr ⟨line', List.mem_cons_of_mem _ hline', hblamed⟩)

/-- A statement is a block or a pulse, or a line is at fault if it cannot be carried out. -/
theorem exists_blamed {lines : List Line} {statement : Statement}
    (h : statement ∈ Statement.ofLines lines) : (∃ block, statement = .block block) ∨
      (∃ line, statement = .pulse line) ∨ ∃ line ∈ lines, statement.Blames line := by
  -- the lines from the first one of the statement on
  obtain ⟨before, later, hstatements⟩ := List.append_of_mem h
  obtain ⟨earlier, rest, rfl, _, hrest⟩ :=
    Statement.ofLines_eq_append hstatements (List.cons_ne_nil statement later)
  cases rest with
  | nil =>
    rw [Statement.ofLines_nil] at hrest
    cases hrest
  | cons line rest =>
    rcases exists_blamed_first hrest with hblock | hpulse | ⟨line', hline', hblamed⟩
    · exact .inl hblock
    · exact .inr (.inl hpulse)
    · exact .inr (.inr ⟨line', List.mem_append_right _ hline', hblamed⟩)

/-! ## Step -/

variable {registry : Registry} {limit depth number : Nat} {s s' : State} {e : ReadError}

/-- An error at a line, or one about the overrides of a preset, which names the preset instead. -/
def ReadError.IsAt (number : Nat) (e : ReadError) : Prop :=
  (∃ fault, e = .parse (some number) fault) ∨ ∃ preset error, e = .parameter preset error

/-- Seen from the line that loads the preset, an error is at this line. -/
theorem ReadError.IsAt.inPreset {inner : Nat} (h : e.IsAt inner) (name : String) (number : Nat) :
    (e.inPreset name number).IsAt number := by
  rcases h with ⟨fault, rfl⟩ | ⟨preset, error, rfl⟩
  · exact .inl ⟨_, rfl⟩
  · exact .inr ⟨preset, error, rfl⟩

theorem State.applyHeader_error {item : List Char}
    (h : (s.applyHeader number item).result = .error e) : e.IsAt number := by
  unfold State.applyHeader at h
  split at h
  · cases h
    exact .inl ⟨_, rfl⟩
  · cases h
  · cases h

theorem State.declare_error {body : List Char} (h : (s.declare number body).result = .error e) :
    e.IsAt number := by
  unfold State.declare at h
  split at h
  · cases h
    exact .inl ⟨_, rfl⟩
  · split at h
    · cases h
      exact .inl ⟨_, rfl⟩
    · cases h

/-- Pulses are read or passed over, and no line ends the reading. -/
theorem State.readPulses_ne_error (s : State) (lines : List Line) :
    (s.readPulses lines).result ≠ .error e := by
  rw [State.readPulses_eq]
  intro h
  cases h

theorem State.addPulses_ne_error (lines : List Line) : (s.addPulses lines).result ≠ .error e := by
  intro h
  rcases result_bind_error.mp h with hread | ⟨_, _, hdone⟩
  · exact s.readPulses_ne_error lines hread
  · cases hdone

theorem State.addBlock_ne_error (block : Block) : (s.addBlock block).result ≠ .error e := by
  intro h
  -- reading pulses never fails, and neither does putting them away
  cases block with
  | loop iterations body =>
    rcases result_bind_error.mp h with hread | ⟨_, _, hdone⟩
    · exact s.readPulses_ne_error body hread
    · cases hdone
  | conditional condition whenTrue whenFalse =>
    rcases result_bind_error.mp h with htrue | ⟨⟨s₁, _⟩, _, hrest⟩
    · exact s.readPulses_ne_error whenTrue htrue
    · rcases result_bind_error.mp hrest with hfalse | ⟨_, _, hdone⟩
      · exact s₁.readPulses_ne_error _ hfalse
      · cases hdone

/-! ## Preset lines -/

section Preset

variable {inner : Option Loader} {load : Loader} {body : List Char} {preset : Preset}
  {overrides : List (String × String)}

theorem carryOutPreset_of_unnamed (hname : presetName body = "") :
    carryOutPreset registry limit inner s number body =
      .fail (.parse (some number) .missingPresetName) := by
  unfold carryOutPreset
  exact if_pos (String.isEmpty_iff.mpr hname)

theorem carryOutPreset_of_none (hname : presetName body ≠ "")
    (hknown : registry (presetName body) = some preset) :
    carryOutPreset registry limit none s number body =
      .fail (.parse (some number) (.presetTooDeep (presetName body) limit)) := by
  have hempty : ¬(presetName body).isEmpty = true := by rwa [String.isEmpty_iff]
  unfold carryOutPreset
  dsimp only
  rw [← presetName, if_neg hempty, hknown]

theorem carryOutPreset_of_overrides (hname : presetName body ≠ "")
    (hknown : registry (presetName body) = some preset)
    (hoverrides : readOverrides (presetName body) ((Text.splitOn ',' body).map Text.trim).tail =
      .error e) :
    carryOutPreset registry limit (some load) s number body = .fail e := by
  rw [carryOutPreset_of_known hname hknown, hoverrides]
  rfl

theorem carryOutPreset_of_unrendered {error : PresetError} (hname : presetName body ≠ "")
    (hknown : registry (presetName body) = some preset)
    (hoverrides : readOverrides (presetName body) ((Text.splitOn ',' body).map Text.trim).tail =
      .ok overrides)
    (hrender : preset.render overrides s.sequence.declared.keys = .error error) :
    carryOutPreset registry limit (some load) s number body =
      .fail (.parameter preset.name error) := by
  rw [carryOutPreset_of_known hname hknown, hoverrides, Logged.ofExcept_ok, pure_bind, hrender]
  rfl

theorem readOverrides_error {name : String} {items : List (List Char)}
    (h : readOverrides name items = .error e) : ∃ error, e = .parameter name error := by
  have hfails : FailsOnly (fun e => ∃ error, e = ReadError.parameter name error)
      (readOverrides name items) := by
    refine .mapM fun item _ => ?_
    split
    · exact .ok _
    · exact .error ⟨_, rfl⟩
  exact hfails e h

/-- The text that a preset line begins to carry out: that of its preset, unless no preset may be
    loaded any more. -/
def enteredText? (registry : Registry) (declared : List String) (body : List Char) :
    (depth : Nat) → Option (List Char)
  | 0 => none
  | _ + 1 => if presetName body = "" then none else presetText? registry declared body

/-- The kinds of preset lines, seen from the loader that is at hand for the text of the preset. -/
inductive PresetKind (registry : Registry) (s : State) (number : Nat) (body : List Char) :
    Prop where
  /-- There is no name in the line, or no preset of this name. -/
  | settled (outcome : Reading State) (hat : ∀ e, outcome.result = .error e → e.IsAt number)
      (heq : ∀ limit inner, carryOutPreset registry limit inner s number body = outcome)
  /-- The preset has no text for the line. -/
  | refused (name : String) (error : PresetError)
      (hnone : ∀ limit, carryOutPreset registry limit none s number body =
        .fail (.parse (some number) (.presetTooDeep (presetName body) limit)))
      (heq : ∀ limit load, carryOutPreset registry limit (some load) s number body =
        .fail (.parameter name error))
  /-- The preset has a text, and what the line comes to is what the text comes to. -/
  | entered (text : List Char)
      (htext : ∀ depth, enteredText? registry s.sequence.declared.keys body (depth + 1) = some text)
      (hnone : ∀ limit, carryOutPreset registry limit none s number body =
        .fail (.parse (some number) (.presetTooDeep (presetName body) limit)))
      (heq : ∀ limit load, carryOutPreset registry limit (some load) s number body =
        (readText load s text).mapError (.inPreset (presetName body) number))

/-- Every preset line is of one of the kinds. -/
theorem presetKind (registry : Registry) (s : State) (number : Nat) (body : List Char) :
    PresetKind registry s number body := by
  -- the checks of the line in their order; the name and the registry come before the depth
  by_cases hname : presetName body = ""
  · refine .settled _ ?_ fun limit inner => carryOutPreset_of_unnamed hname
    intro e he
    cases he
    exact .inl ⟨_, rfl⟩
  · cases hknown : registry (presetName body) with
    | none =>
      refine .settled _ ?_ fun limit inner => carryOutPreset_of_unknown hname hknown inner
      intro e he
      cases he
    | some preset =>
      have hnone : ∀ limit, carryOutPreset registry limit none s number body =
          .fail (.parse (some number) (.presetTooDeep (presetName body) limit)) :=
        fun limit => carryOutPreset_of_none hname hknown
      cases hoverrides : readOverrides (presetName body)
          ((Text.splitOn ',' body).map Text.trim).tail with
      | error e =>
        obtain ⟨error, rfl⟩ := readOverrides_error hoverrides
        exact .refused _ error hnone fun limit load =>
          carryOutPreset_of_overrides hname hknown hoverrides
      | ok overrides =>
        cases hrender : preset.render overrides s.sequence.declared.keys with
        | error error =>
          exact .refused _ error hnone fun limit load =>
            carryOutPreset_of_unrendered hname hknown hoverrides hrender
        | ok text =>
          refine .entered text ?_ hnone fun limit load =>
            carryOutPreset_of_render hname hknown hoverrides hrender
          -- with the limit not yet reached the text is entered at every depth
          intro depth
          simp only [enteredText?, if_neg hname, presetText?, hknown, Option.bind_some, hoverrides,
            hrender, Except.toOption]

/-- A preset line whose text is begun comes to what the text comes to, errors included. -/
theorem interpret_of_entered {text : List Char}
    (h : enteredText? registry s.sequence.declared.keys body (depth + 1) = some text) :
    interpret (loader registry limit (depth + 1)) s (.preset number body) =
      (readText (loader registry limit depth) s text).mapError
        (.inPreset (presetName body) number) := by
  unfold enteredText? at h
  by_cases hname : presetName body = ""
  · rw [if_pos hname] at h
    cases h
  · rw [if_neg hname] at h
    obtain ⟨preset, hknown, h⟩ := Option.bind_eq_some_iff.mp h
    obtain ⟨overrides, hoverrides, hrender⟩ := Option.bind_eq_some_iff.mp h
    exact carryOutPreset_of_render hname hknown (toOption_eq_some_iff.mp hoverrides)
      (toOption_eq_some_iff.mp hrender)

/-- A preset line that fails before its text is begun is itself at fault. -/
theorem loader_error (h : (loader registry limit depth s number body).result = .error e)
    (hnotext : enteredText? registry s.sequence.declared.keys body depth = none) :
    e.IsAt number := by
  rw [loader_eq] at h
  cases presetKind registry s number body with
  | settled outcome hat heq =>
    rw [heq] at h
    exact hat e h
  | refused name error hnone heq =>
    -- at the greatest depth the line itself is refused; above it, its text has been begun
    cases depth with
    | zero =>
      rw [innerLoader, hnone] at h
      cases h
      exact .inl ⟨_, rfl⟩
    | succ depth =>
      rw [innerLoader, heq] at h
      cases h
      exact .inr ⟨name, error, rfl⟩
  | entered text htext hnone _ =>
    cases depth with
    | zero =>
      rw [innerLoader, hnone] at h
      cases h
      exact .inl ⟨_, rfl⟩
    | succ depth =>
      -- a line whose text is entered is not at fault itself, because the text is
      rw [htext] at hnotext
      cases hnotext

end Preset

/-! ## Statements -/

/-- **Step**: a statement that cannot be carried out is at fault with its line, unless it has begun
    to carry out the text of a preset. -/
theorem interpret_error {statement : Statement} {line : Line} (hblames : statement.Blames line)
    (hnone : ∀ number body, statement = .preset number body →
      enteredText? registry s.sequence.declared.keys body depth = none)
    (h : (interpret (loader registry limit depth) s statement).result = .error e) :
    e.IsAt line.number := by
  match statement, hblames with
  | .header number items, hblames =>
    rw [hblames.1]
    -- the items before the one that fails do not matter
    obtain ⟨item, s₁, _, hitem⟩ := result_foldlM_error.mp h
    exact State.applyHeader_error hitem
  | .declaration number body, hblames =>
    rw [hblames.1]
    exact State.declare_error h
  | .preset number body, hblames =>
    rw [hblames.1]
    exact loader_error h (hnone number body rfl)
  | .badBlock fault, hblames =>
    rw [hblames.1]
    cases h
    exact .inl ⟨_, rfl⟩

/-- The reading of a text comes to a statement, which stands at a line of the text. -/
structure Reaches (load : Loader) (s : State) (text : List Char) (statement : Statement)
    (line : Line) (s' : State) : Prop where
  comes : ComesTo (interpret load) s (Statement.ofText text) statement s'
  mem : line ∈ contentLines text
  blames : statement.Blames line

/-- A statement that cannot be carried out has a line that is at fault. -/
theorem exists_blamed_of_error {load : Loader} {text : List Char} {statement : Statement}
    (hmem : statement ∈ Statement.ofText text)
    (h : (interpret load s statement).result = .error e) :
    ∃ line ∈ contentLines text, statement.Blames line := by
  rcases exists_blamed hmem with ⟨block, rfl⟩ | ⟨line, rfl⟩ | hblamed
  · exact absurd h (State.addBlock_ne_error block)
  · exact absurd h (State.addPulses_ne_error [line])
  · exact hblamed

/-! ## Path -/

/-- The reading of a text fails along a path of lines: the first is a line of the text, and each
    further one is a line in the text of the preset that the line before it loads. The `root` is the
    error at the last line, and `e` is the error as it is seen from the first. -/
inductive FailsAt (registry : Registry) (limit : Nat) :
    (depth : Nat) → State → List Char → (path : List Line) → (root e : ReadError) → Prop where
  | here {depth : Nat} {s s' : State} {text : List Char} {statement : Statement} {line : Line}
      {e : ReadError} (hreached : Reaches (loader registry limit depth) s text statement line s')
      (hnone : ∀ number body, statement = .preset number body →
        enteredText? registry s'.sequence.declared.keys body depth = none)
      (hfails : (interpret (loader registry limit depth) s' statement).result = .error e) :
      FailsAt registry limit depth s text [line] e e
  | inside {depth number : Nat} {s s' : State} {text body inner : List Char} {line : Line}
      {path : List Line} {root e : ReadError}
      (hreached : Reaches (loader registry limit (depth + 1)) s text (.preset number body) line s')
      (hentered : enteredText? registry s'.sequence.declared.keys body (depth + 1) = some inner)
      (hinner : FailsAt registry limit depth s' inner path root e) :
      FailsAt registry limit (depth + 1) s text (line :: path) root
        (e.inPreset (presetName body) number)

/-- A failure that is followed along a path is one. -/
theorem FailsAt.result {text : List Char} {path : List Line} {root : ReadError}
    (h : FailsAt registry limit depth s text path root e) :
    (readText (loader registry limit depth) s text).result = .error e := by
  induction h with
  | here hreached _ hfails => exact result_foldlM_error.mpr ⟨_, _, hreached.comes, hfails⟩
  | inside hreached hentered _ ih =>
    refine result_foldlM_error.mpr ⟨_, _, hreached.comes, ?_⟩
    rw [interpret_of_entered hentered]
    exact result_mapError_error.mpr ⟨_, ih, rfl⟩

/-- **Run**: every failure of a text can be followed, through the texts of presets if need be. -/
theorem readText_error_iff {text : List Char} :
    (readText (loader registry limit depth) s text).result = .error e ↔
      ∃ path root, FailsAt registry limit depth s text path root e := by
  refine ⟨fun h => ?_, fun ⟨path, root, h⟩ => h.result⟩
  -- by induction on the depth, since a preset that is begun has one level less to nest presets in
  induction depth generalizing s text e with
  | zero =>
    obtain ⟨statement, s', hcomes, hfails⟩ := result_foldlM_error.mp h
    obtain ⟨line, hmem, hblames⟩ := exists_blamed_of_error hcomes.mem hfails
    refine ⟨[line], e, .here ⟨hcomes, hmem, hblames⟩ ?_ hfails⟩
    intro number body _
    rfl
  | succ depth ih =>
    obtain ⟨statement, s', hcomes, hfails⟩ := result_foldlM_error.mp h
    obtain ⟨line, hmem, hblames⟩ := exists_blamed_of_error hcomes.mem hfails
    -- the fault lies in the preset or at the line itself, as the path goes on or ends here
    by_cases hentered : ∃ number body inner, statement = .preset number body ∧
      enteredText? registry s'.sequence.declared.keys body (depth + 1) = some inner
    · obtain ⟨number, body, inner, rfl, hinner⟩ := hentered
      rw [interpret_of_entered hinner] at hfails
      obtain ⟨e', hread, rfl⟩ := result_mapError_error.mp hfails
      obtain ⟨path, root, hpath⟩ := ih hread
      exact ⟨line :: path, root, .inside ⟨hcomes, hmem, hblames⟩ hinner hpath⟩
    · refine ⟨[line], e, .here ⟨hcomes, hmem, hblames⟩ ?_ hfails⟩
      intro number body hpreset
      cases hinner : enteredText? registry s'.sequence.declared.keys body (depth + 1) with
      | none => rfl
      | some inner => exact absurd ⟨number, body, inner, hpreset, hinner⟩ hentered

/-- What is said of the first line of a path: the error names it. If there are further lines in the
    path, which stand in the texts of presets, it is a preset line. -/
structure Line.AtFault (text : List Char) (line : Line) (further : List Line) (e : ReadError) :
    Prop where
  standsIn : line.StandsIn text
  mayFail : (LineRole.of line.text).MayFail
  preset : further ≠ [] → ∃ body, LineRole.of line.text = .preset body
  isAt : e.IsAt line.number

/-- **Invariant** of a path: the error names its first line, at whatever depth the root is. -/
theorem FailsAt.atFault {text : List Char} {path : List Line} {root : ReadError}
    (h : FailsAt registry limit depth s text path root e) :
    ∃ line further, path = line :: further ∧ line.AtFault text further e := by
  induction h with
  | @here _ _ _ _ _ line _ hreached hnone hfails =>
    have hstands := mem_contentLines_iff.mp hreached.mem
    refine ⟨line, [], rfl, hstands, hstands.mayFail hreached.blames, ?_, ?_⟩
    · intro hfurther
      exact absurd rfl hfurther
    · exact interpret_error hreached.blames hnone hfails
  | @inside _ _ _ _ _ body _ line path _ _ hreached _ _ ih =>
    have hstands := mem_contentLines_iff.mp hreached.mem
    obtain ⟨hnumber, hrole⟩ := hreached.blames
    refine ⟨line, path, rfl, hstands, hstands.mayFail hreached.blames, fun _ => ⟨body, hrole⟩, ?_⟩
    -- the line in the text of the preset is put out of sight
    obtain ⟨_, _, _, hinner⟩ := ih
    rw [hnumber]
    exact hinner.isAt.inPreset _ _

/-! ## Result -/

/-- **Blame**: a script that cannot be read has been carried out to its end and declares several
    variables, and then the error names no line, or the reading fails along a path of lines. Then
    the error is about the overrides of a preset, or it names the first line of the path. This is a
    line of the script, a header, a declaration, a preset line or a line that opens a block, and it
    is a preset line if the fault is in the text of a preset, however deep it is nested. -/
theorem read_error_located {settings : Settings} {text : String}
    (h : (readWith registry settings text).result = .error e) :
    (∃ s, (readText (loader registry settings.presetDepth settings.presetDepth) (.start settings)
        text.toList).result = .ok s ∧ 1 < s.sequence.declared.size ∧
      e = .parse none (.severalVariables s.sequence.declared.keys)) ∨
    (∃ path root, FailsAt registry settings.presetDepth settings.presetDepth (.start settings)
        text.toList path root e) ∧
      ∀ path root, FailsAt registry settings.presetDepth settings.presetDepth (.start settings)
        text.toList path root e →
        ∃ line further, path = line :: further ∧ line.AtFault text.toList further e := by
  rcases result_bind_error.mp h with hread | ⟨s, hread, hfinish⟩
  · exact .inr ⟨readText_error_iff.mp hread, fun _ _ hpath => hpath.atFault⟩
  · refine .inl ⟨s, hread, ?_⟩
    -- at the end only the number of variables is checked, and no line is blamed for it
    unfold State.finish at hfinish
    split at hfinish
    · next hsize =>
      cases hfinish
      exact ⟨hsize, rfl⟩
    · cases hfinish

/-- Two presets, of which the outer one loads the inner one, whose loop has no end. -/
def unclosed : Registry := fun name =>
  if name = "outer" then some ⟨"outer", [], .template "\nload preset: inner"⟩
  else if name = "inner" then
    some ⟨"inner", [], .template "loop: 2\nlaser pulse on channel 2 at 0s, square, 1s, 1"⟩
  else none

/-- The loop opens in the first line of the inner preset, and what is named is the third line of the
    script. -/
theorem unclosed_error_located : ∃ e,
    (readWith unclosed {} "# wait\n\nload preset: outer").result = .error e ∧
    e = .parse (some 3) (.inPreset "outer" (some 2) (.inPreset "inner" (some 1)
      (.block (.unterminated "loop")))) ∧
    ∃ path root,
      FailsAt unclosed 4 4 (.start {}) "# wait\n\nload preset: outer".toList path root e ∧
      ∃ line further, path = line :: further ∧
        line.AtFault "# wait\n\nload preset: outer".toList further e := by
  have h : (readWith unclosed {} "# wait\n\nload preset: outer").result =
      .error (.parse (some 3) (.inPreset "outer" (some 2) (.inPreset "inner" (some 1)
        (.block (.unterminated "loop"))))) := by
    decide +kernel
  rcases read_error_located h with ⟨_, _, _, hnone⟩ | ⟨⟨path, root, hpath⟩, hfirst⟩
  · cases hnone
  · exact ⟨_, h, rfl, path, root, hpath, hfirst path root hpath⟩

end Script

end PulseTrain
