import PulseTrain.Proofs.Script.Blame

/-! # The limit to the depth of presets

    Presets that load one another, perhaps in a circle, are carried out down to a depth that the
    settings allow. A greater depth only adds scripts that can be read: whatever could be read
    before is read in the same way, and what could not be read and now can had come to a preset line
    in the text of a preset, and so on, as many times as the limit says.

    * **Step**: `loader_ne`, where two loaders with different limits part;
    * **Run**: `exists_limitedAt`, by induction on the smaller depth;
    * **Result**: `read_deeper`.
-/

namespace PulseTrain

namespace Script

open Logged Success

variable {registry : Registry} {limit limit' depth depth' number : Nat} {s : State}
  {e : ReadError}

/-! ## Step -/

/-- What stands behind a fault in a preset is the last thing that is said of it. -/
theorem FailsAt.message {text : List Char} {path : List Line} {root : ReadError}
    (h : FailsAt registry limit depth s text path root e) {line : Option Nat} {fault : Fault}
    (hroot : root = .parse line fault) :
    ∃ line' fault' before, e = .parse line' fault' ∧ fault'.message = before ++ fault.message := by
  induction h with
  | here _ _ _ => exact ⟨line, fault, "", hroot, by simp⟩
  | @inside _ number _ _ _ body _ _ _ _ _ _ _ _ ih =>
    -- each preset on the path puts its own words in front
    obtain ⟨line', fault', before, rfl, hmessage⟩ := ih hroot
    refine ⟨some number, .inPreset (presetName body) line' fault', ?_⟩
    cases line' with
    | none =>
      refine ⟨"in preset '" ++ presetName body ++ "': " ++ before, rfl, ?_⟩
      show "in preset '" ++ presetName body ++ "': " ++ fault'.message = _
      rw [hmessage, ← String.append_assoc]
    | some inner =>
      refine ⟨"in preset '" ++ presetName body ++ "' at line " ++ toString inner ++ ": " ++ before,
        rfl, ?_⟩
      show "in preset '" ++ presetName body ++ "' at line " ++ toString inner ++ ": " ++
        fault'.message = _
      rw [hmessage, ← String.append_assoc]

/-- Where no preset may be loaded any more, a line that comes to something else than with a greater
    depth is one that is said to be too deep. -/
theorem loader_zero_ne {body : List Char}
    (h : loader registry limit 0 s number body ≠ loader registry limit' depth' s number body) :
    loader registry limit 0 s number body =
      .fail (.parse (some number) (.presetTooDeep (presetName body) limit)) := by
  rw [loader_eq, loader_eq] at h
  rw [loader]
  -- what is settled before the depth is asked for is the same at every depth
  cases presetKind registry s number body with
  | settled outcome _ heq =>
    rw [heq, heq] at h
    exact absurd rfl h
  | refused _ _ hnone _ => exact hnone limit
  | entered _ _ hnone _ => exact hnone limit

/-- Where presets may be loaded, it is only in the text of a preset that the depth matters. -/
theorem loader_succ_ne {body : List Char}
    (h : loader registry limit (depth + 1) s number body ≠
      loader registry limit' (depth' + 1) s number body) :
    ∃ text, enteredText? registry s.sequence.declared.keys body (depth + 1) = some text ∧
      readText (loader registry limit depth) s text ≠
        readText (loader registry limit' depth') s text := by
  rw [loader, loader] at h
  -- only a text that is entered can be read differently
  cases presetKind registry s number body with
  | settled outcome _ heq =>
    rw [heq, heq] at h
    exact absurd rfl h
  | refused _ _ _ heq =>
    rw [heq, heq] at h
    exact absurd rfl h
  | entered text htext _ heq =>
    refine ⟨text, htext depth, fun hsame => h ?_⟩
    rw [heq, heq, hsame]

/-! ## Run -/

/-- The reading of a text fails since a preset is nested too deep, along a path of preset lines that
    is as long as the presets may be nested, and the line that is too deep. -/
structure LimitedAt (registry : Registry) (limit depth : Nat) (s : State) (text : List Char)
    (path : List Line) (name : String) (e : ReadError) : Prop where
  fails : ∃ number, FailsAt registry limit depth s text path
    (.parse (some number) (.presetTooDeep name limit)) e
  length : path.length = depth + 1
  presets : ∀ line ∈ path, ∃ body, LineRole.of line.text = .preset body

/-- Two readings come to a preset line if they differ in the depth of presets alone. -/
theorem exists_preset_of_ne {load load' : Loader} {text : List Char}
    (h : readText load s text ≠ readText load' s text) : ∃ number body line s',
      Reaches load s text (.preset number body) line s' ∧
        load s' number body ≠ load' s' number body := by
  obtain ⟨statement, s', hcomes, hne⟩ := exists_comesTo_of_ne h
  -- no other statement has to do with the loader
  match statement, hcomes, hne with
  | .header _ _, _, hne => exact absurd rfl hne
  | .declaration _ _, _, hne => exact absurd rfl hne
  | .block _, _, hne => exact absurd rfl hne
  | .badBlock _, _, hne => exact absurd rfl hne
  | .pulse _, _, hne => exact absurd rfl hne
  | .preset number body, hcomes, hne =>
    rcases exists_blamed hcomes.mem with ⟨_, hblock⟩ | ⟨_, hpulse⟩ | ⟨line, hmem, hblames⟩
    · cases hblock
    · cases hpulse
    · exact ⟨number, body, line, s', ⟨hcomes, hmem, hblames⟩, hne⟩

/-- **Run**: a text that is read in another way with a greater depth is one in which a preset was
    nested too deep. -/
theorem exists_limitedAt {text : List Char} (hle : depth ≤ depth')
    (h : readText (loader registry limit depth) s text ≠
      readText (loader registry limit' depth') s text) :
    ∃ path name e, LimitedAt registry limit depth s text path name e := by
  -- by induction on the smaller depth: each preset line on the path takes one level of it
  induction depth generalizing depth' s text with
  | zero =>
    obtain ⟨number, body, line, s', hreached, hne⟩ := exists_preset_of_ne h
    -- without any depth left the two differ only because the smaller one refuses the preset
    have htoodeep := loader_zero_ne hne
    refine ⟨[line], presetName body, _, ⟨number, .here hreached ?_ ?_⟩, rfl, ?_⟩
    · intro _ _ _
      rfl
    · show (loader registry limit 0 s' number body).result = _
      rw [htoodeep]
      rfl
    · intro line' hline'
      rw [List.mem_singleton.mp hline']
      exact ⟨body, hreached.blames.2⟩
  | succ depth ih =>
    obtain ⟨number, body, line, s', hreached, hne⟩ := exists_preset_of_ne h
    cases depth' with
    | zero => omega
    | succ depth' =>
      obtain ⟨inner, hentered, hne⟩ := loader_succ_ne hne
      obtain ⟨path, name, e, ⟨number', hfails⟩, hlength, hpresets⟩ := ih (by omega) hne
      refine ⟨line :: path, name, _, ⟨number', .inside hreached hentered hfails⟩, ?_, ?_⟩
      · rw [List.length_cons, hlength]
      · intro line' hline'
        rcases List.mem_cons.mp hline' with rfl | hpath
        · exact ⟨body, hreached.blames.2⟩
        · exact hpresets line' hpath

/-! ## Result -/

/-- **Limit**: with a greater depth of presets, what could be read is read in the same way, down to
    the notes that are taken. What could not be read and now can has failed at a preset that was
    nested too deep: there were as many preset lines before it, one in the text of the other, as the
    limit says. The first of them, or the line itself with a limit of zero, is a line of the script,
    and the error names it and ends with what is said of a preset that is nested too deep. -/
theorem read_deeper {settings : Settings} (text : String) (hle : settings.presetDepth ≤ limit) :
    (∀ d, (readWith registry settings text).result = .ok d →
      readWith registry { settings with presetDepth := limit } text =
        readWith registry settings text) ∧
    ∀ e d, (readWith registry settings text).result = .error e →
      (readWith registry { settings with presetDepth := limit } text).result = .ok d →
      ∃ line further name fault before,
        LimitedAt registry settings.presetDepth settings.presetDepth (.start settings) text.toList
          (line :: further) name e ∧
        line.StandsIn text.toList ∧ e = .parse (some line.number) fault ∧
        fault.message =
          before ++ (Fault.presetTooDeep name settings.presetDepth).message := by
  -- nothing but the loader depends on the limit
  by_cases hsame : readText (loader registry settings.presetDepth settings.presetDepth)
      (.start settings) text.toList = readText (loader registry limit limit) (.start settings)
      text.toList
  · have heq : readWith registry { settings with presetDepth := limit } text =
        readWith registry settings text := by
      unfold readWith
      exact congrArg (· >>= State.finish) hsame.symm
    refine ⟨fun _ _ => heq, ?_⟩
    intro e d hfails hread
    rw [heq, hfails] at hread
    cases hread
  · obtain ⟨path, name, e, hlimited⟩ := exists_limitedAt hle hsame
    obtain ⟨number, hfails⟩ := hlimited.fails
    -- where the readings differ, the one with the smaller limit has failed
    have herror : (readWith registry settings text).result = .error e :=
      result_bind_error.mpr (.inl hfails.result)
    refine ⟨?_, ?_⟩
    · intro d hread
      rw [hread] at herror
      cases herror
    · intro e' d hfails' hread
      rw [hfails', Except.error.injEq] at herror
      subst herror
      obtain ⟨line, further, rfl, hstands, _, _, hat⟩ := hfails.atFault
      obtain ⟨line', fault, before, rfl, hmessage⟩ := hfails.message rfl
      refine ⟨line, further, name, fault, before, hlimited, hstands, ?_, hmessage⟩
      rcases hat with ⟨_, hfault⟩ | ⟨_, _, hparameter⟩
      · cases hfault
        rfl
      · cases hparameter

/-- Two presets, of which the outer one loads the inner one. -/
def nested : Registry := fun name =>
  if name = "outer" then some ⟨"outer", [], .template "name: wait
load preset: inner"⟩
  else if name = "inner" then some ⟨"inner", [], .template "description: nothing"⟩
  else none

/-- One level is not enough for these presets, two are, and three change nothing. -/
theorem nested_read_deeper : ∃ e d,
    (readWith nested { presetDepth := 1 } "load preset: outer").result = .error e ∧
    e = .parse (some 1) (.inPreset "outer" (some 2) (.presetTooDeep "inner" 1)) ∧
    (∃ line further name, LimitedAt nested 1 1 (.start { presetDepth := 1 })
      "load preset: outer".toList (line :: further) name e ∧ further.length = 1) ∧
    (readWith nested { presetDepth := 2 } "load preset: outer").result = .ok d ∧
    readWith nested { presetDepth := 3 } "load preset: outer" =
      readWith nested { presetDepth := 2 } "load preset: outer" := by
  have hfails : (readWith nested { presetDepth := 1 } "load preset: outer").result =
      .error (.parse (some 1) (.inPreset "outer" (some 2) (.presetTooDeep "inner" 1))) := by
    decide +kernel
  have hok : (readWith nested { presetDepth := 2 } "load preset: outer").result.isOk = true := by
    decide +kernel
  obtain ⟨d, hread⟩ := isOk_iff.mp hok
  obtain ⟨line, further, name, _, _, hlimited, _⟩ :=
    (read_deeper "load preset: outer" (by decide)).2 _ _ hfails hread
  refine ⟨_, d, hfails, rfl, ⟨line, further, name, hlimited, ?_⟩, hread, ?_⟩
  · exact Nat.succ.inj hlimited.length
  · exact (read_deeper "load preset: outer" (by decide)).1 d hread

end Script

end PulseTrain
