import Mathlib.Data.List.Nodup
import PulseTrain.Proofs.Preset.Arguments
import PulseTrain.Proofs.Script.Blame

/-! # Resolution of arguments

    The arguments of a preset begin as the defaults and are then overridden one after another. What
    an override is worth does not depend on the arguments before it: it is for a parameter that
    there is and is a value of it, or it is refused, and with it all of them. So of the overrides
    of a parameter the last one counts, the order of overrides of different parameters does not
    matter, and a refused override is not saved by one that would replace it.

    * **Values**: `Parameter.Accepts` says which value a text is for a parameter, and `Refuses` why
      an override is refused; `overrideOf_ok` and `overrideOf_error`;
    * **Choice**: `Parameter.Chosen`, and `chosen_resolve` by induction from the last override;
    * **Failure**: `resolve_error_iff` names the override that is at fault;
    * **Order**: `resolve_swap`;
    * **Result**: `resolve_schema`.
-/

namespace PulseTrain.Preset

open Script Success

variable {p : Preset} {declared : List String} {overrides : List (String × String)}
  {a arguments : Arguments} {parameter : Parameter} {item : String × String} {text : String}
  {v : Value} {error : PresetError}

/-! ## Values of overrides -/

/-- The text is the name of a variable that the parameter may follow. -/
def Parameter.Follows (parameter : Parameter) (declared : List String) (text : String) : Prop :=
  (parameter.kind = .time ∨ parameter.kind = .float) ∧ text ∈ declared

/-- The value that a text is for a parameter: the variable that it follows, or what is read. -/
inductive Parameter.Accepts (parameter : Parameter) (declared : List String) (text : String) :
    Value → Prop where
  | variable (h : parameter.Follows declared text) :
      parameter.Accepts declared text (.reference text parameter.kind)
  | literal {v : Value} (h : ¬parameter.Follows declared text)
      (hread : parameter.read text.toList = .ok v) : parameter.Accepts declared text v

/-- Why an override is refused: there is no such parameter, or its value is none of it. -/
inductive Refuses (p : Preset) (declared : List String) : String × String → PresetError → Prop where
  | undeclared {key text : String} (h : key ∉ p.parameters.map (·.name)) :
      p.Refuses declared (key, text) (.unknownParameter key)
  | unread {parameter : Parameter} {text : String} {e : ValueError}
      (hparameter : parameter ∈ p.parameters) (h : ¬parameter.Follows declared text)
      (hread : parameter.read text.toList = .error e) :
      p.Refuses declared (parameter.name, text) (.badValue parameter.name e)

/-- The value that an override writes, which does not depend on the arguments before it. -/
def overrideOf (p : Preset) (declared : List String) (item : String × String) :
    Except PresetError Value :=
  match p.parameters.find? (·.name = item.1) with
  | none => .error (.unknownParameter item.1)
  | some parameter => (overrideValue parameter declared item.2).mapError (.badValue item.1)

theorem override_eq (p : Preset) (declared : List String) (a : Arguments)
    (item : String × String) :
    p.override declared a item = (p.overrideOf declared item).map (a.insert item.1) := by
  unfold Preset.override overrideOf
  cases p.parameters.find? (·.name = item.1) with
  | none => rfl
  | some parameter =>
    dsimp only
    cases overrideValue parameter declared item.2 with
    | ok value => rfl
    | error e => rfl

theorem follows_iff :
    (parameter.kind.admitsVariable && declared.contains text) = true ↔
      parameter.Follows declared text := by
  have hkind : parameter.kind.admitsVariable = true ↔
      parameter.kind = .time ∨ parameter.kind = .float := by
    cases parameter.kind <;> decide
  unfold Parameter.Follows
  rw [Bool.and_eq_true, hkind, List.contains_iff_mem]

theorem overrideValue_of_not_follows (h : ¬parameter.Follows declared text) :
    overrideValue parameter declared text = parameter.read text.toList := by
  unfold overrideValue
  rw [if_neg fun hcondition => h (follows_iff.mp hcondition)]

theorem overrideValue_of_follows (h : parameter.Follows declared text) :
    overrideValue parameter declared text = .ok (.reference text parameter.kind) := by
  unfold overrideValue
  rw [if_pos (follows_iff.mpr h)]

theorem overrideValue_ok_iff :
    overrideValue parameter declared text = .ok v ↔ parameter.Accepts declared text v := by
  -- a declared name is taken before the text is tried as a literal
  by_cases hfollows : parameter.Follows declared text
  · rw [overrideValue_of_follows hfollows]
    constructor
    · rintro ⟨⟩
      exact .variable hfollows
    · intro h
      cases h with
      | «variable» => rfl
      | literal h => exact absurd hfollows h
  · rw [overrideValue_of_not_follows hfollows]
    constructor
    · intro h
      exact .literal hfollows h
    · intro h
      cases h with
      | «variable» h => exact absurd h hfollows
      | literal _ hread => exact hread

/-- A parameter is found under its name. -/
theorem find?_parameter (hnodup : (p.parameters.map (·.name)).Nodup)
    (hparameter : parameter ∈ p.parameters) :
    p.parameters.find? (·.name = parameter.name) = some parameter := by
  cases hfound : p.parameters.find? (·.name = parameter.name) with
  | none =>
    have hnone := List.find?_eq_none.mp hfound parameter hparameter
    simp at hnone
  | some other =>
    have hname : other.name = parameter.name := by simpa using List.find?_some hfound
    rw [List.inj_on_of_nodup_map hnodup (List.mem_of_find?_eq_some hfound) hparameter hname]

theorem overrideOf_parameter (hnodup : (p.parameters.map (·.name)).Nodup)
    (hparameter : parameter ∈ p.parameters) (text : String) :
    p.overrideOf declared (parameter.name, text) =
      (overrideValue parameter declared text).mapError (.badValue parameter.name) := by
  unfold overrideOf
  dsimp only
  rw [find?_parameter hnodup hparameter]

/-- An override that is for no parameter. -/
theorem overrideOf_undeclared (h : item.1 ∉ p.parameters.map (·.name)) :
    p.overrideOf declared item = .error (.unknownParameter item.1) := by
  have hnone : p.parameters.find? (·.name = item.1) = none := by
    rw [List.find?_eq_none]
    intro parameter hparameter
    simp only [decide_eq_true_eq]
    intro hname
    exact h (hname ▸ List.mem_map_of_mem hparameter)
  unfold overrideOf
  rw [hnone]

/-- **Values**: an override writes the value that its text is for its parameter. -/
theorem overrideOf_ok (hnodup : (p.parameters.map (·.name)).Nodup) :
    p.overrideOf declared item = .ok v ↔
      ∃ parameter ∈ p.parameters, parameter.name = item.1 ∧
        parameter.Accepts declared item.2 v := by
  obtain ⟨key, text⟩ := item
  by_cases hkey : key ∈ p.parameters.map (·.name)
  · obtain ⟨parameter, hparameter, rfl⟩ := List.mem_map.mp hkey
    rw [overrideOf_parameter hnodup hparameter, mapError_ok, overrideValue_ok_iff]
    constructor
    · intro h
      exact ⟨parameter, hparameter, rfl, h⟩
    · -- no other parameter has the name
      rintro ⟨other, hother, hname, h⟩
      rwa [← List.inj_on_of_nodup_map hnodup hother hparameter hname]
  · rw [overrideOf_undeclared hkey]
    constructor
    · intro h
      cases h
    · rintro ⟨parameter, hparameter, rfl, _⟩
      exact absurd (List.mem_map_of_mem hparameter) hkey

/-- **Values**: an override is refused for one of the two reasons. -/
theorem overrideOf_error (hnodup : (p.parameters.map (·.name)).Nodup) :
    p.overrideOf declared item = .error error ↔ p.Refuses declared item error := by
  obtain ⟨key, text⟩ := item
  constructor
  · intro h
    by_cases hkey : key ∈ p.parameters.map (·.name)
    · obtain ⟨parameter, hparameter, rfl⟩ := List.mem_map.mp hkey
      rw [overrideOf_parameter hnodup hparameter] at h
      by_cases hfollows : parameter.Follows declared text
      · -- the name of a variable is never refused
        rw [overrideValue_of_follows hfollows] at h
        cases h
      · rw [overrideValue_of_not_follows hfollows] at h
        cases hread : parameter.read text.toList with
        | ok v =>
          rw [hread] at h
          cases h
        | error e =>
          rw [hread] at h
          cases h
          exact .unread hparameter hfollows hread
    · -- a key that no parameter has is refused before its text is looked at
      rw [overrideOf_undeclared hkey] at h
      cases h
      exact .undeclared hkey
  · intro h
    cases h with
    | undeclared hkey => exact overrideOf_undeclared hkey
    | unread hparameter hfollows hread =>
      rw [overrideOf_parameter hnodup hparameter, overrideValue_of_not_follows hfollows, hread]
      rfl

/-! ## Choice -/

/-- The text is the last one that a key is overridden with. -/
def LastOverride (overrides : List (String × String)) (key text : String) : Prop :=
  ∃ earlier later, overrides = earlier ++ (key, text) :: later ∧ key ∉ later.map Prod.fst

/-- The argument for a parameter: the value of its last override, or else its default. -/
inductive Parameter.Chosen (parameter : Parameter) (declared : List String)
    (overrides : List (String × String)) : Value → Prop where
  | default (h : parameter.name ∉ overrides.map Prod.fst) :
      parameter.Chosen declared overrides parameter.default
  | last {text : String} {v : Value} (h : LastOverride overrides parameter.name text)
      (haccepts : parameter.Accepts declared text v) : parameter.Chosen declared overrides v

/-- An override of another parameter does not change the choice. -/
theorem Parameter.Chosen.append (h : parameter.Chosen declared overrides v)
    (hitem : item.1 ≠ parameter.name) : parameter.Chosen declared (overrides ++ [item]) v := by
  cases h with
  | default h =>
    apply Parameter.Chosen.default
    rw [List.map_append, List.mem_append, not_or]
    exact ⟨h, fun hmem => hitem (List.mem_singleton.mp hmem).symm⟩
  | last h haccepts =>
    obtain ⟨earlier, later, rfl, hlater⟩ := h
    refine .last ⟨earlier, later ++ [item], by simp, ?_⟩ haccepts
    rw [List.map_append, List.mem_append, not_or]
    exact ⟨hlater, fun hmem => hitem (List.mem_singleton.mp hmem).symm⟩

/-- **Choice**: of the overrides of a parameter the last one counts. The induction takes off the
    last override of all: it is the last one of its parameter, and the last one of another parameter
    stays the last one. -/
theorem chosen_resolve (hnodup : (p.parameters.map (·.name)).Nodup)
    (hparameter : parameter ∈ p.parameters)
    (h : p.resolve overrides declared = .ok arguments) :
    ∃ v, arguments.get? parameter.name = some v ∧ parameter.Chosen declared overrides v := by
  -- by induction on the overrides from the last one, which is the one that counts
  induction overrides using List.reverseRecOn generalizing arguments with
  | nil =>
    cases h
    exact ⟨_, get?_defaults hnodup hparameter, .default List.not_mem_nil⟩
  | append_singleton overrides item ih =>
    unfold Preset.resolve at h
    rw [List.foldlM_append] at h
    obtain ⟨a, ha, hstep⟩ := bind_ok.mp h
    rw [List.foldlM_cons, override_eq] at hstep
    obtain ⟨b, hb, hlast⟩ := bind_ok.mp hstep
    obtain ⟨w, hw, rfl⟩ := map_ok.mp hb
    cases hlast
    by_cases hitem : item.1 = parameter.name
    · -- the last override of all is for this parameter, and writes its value
      obtain ⟨other, hother, hname, haccepts⟩ := (overrideOf_ok hnodup).mp hw
      have hsame : other = parameter :=
        List.inj_on_of_nodup_map hnodup hother hparameter (hname.trans hitem)
      subst hsame
      refine ⟨w, ?_, .last ⟨overrides, [], ?_, List.not_mem_nil⟩ haccepts⟩
      · rw [hitem]
        exact Table.get?_insert_self _ _ _
      · rw [hname]
    · obtain ⟨v, hget, hchosen⟩ := ih ha
      refine ⟨v, ?_, hchosen.append hitem⟩
      rw [Table.get?_insert_of_ne _ (Ne.symm hitem), hget]

/-! ## Failure -/

theorem override_error_iff (hnodup : (p.parameters.map (·.name)).Nodup) (a : Arguments)
    (item : String × String) (error : PresetError) :
    p.override declared a item = .error error ↔ p.Refuses declared item error := by
  rw [override_eq, map_error, overrideOf_error hnodup]

/-- **Failure**: the first override that is refused is at fault. -/
theorem resolve_error_iff (hnodup : (p.parameters.map (·.name)).Nodup) :
    p.resolve overrides declared = .error error ↔
      ∃ before item after, overrides = before ++ item :: after ∧
        (∀ other ∈ before, ∀ error, ¬p.Refuses declared other error) ∧
        p.Refuses declared item error :=
  foldlM_error_iff (override_error_iff hnodup)

/-! ## Order -/

/-- **Order**: two overrides of different parameters may come in any order. -/
theorem resolve_swap (hnodup : (p.parameters.map (·.name)).Nodup)
    {before after : List (String × String)} {x y : String × String} (hne : x.1 ≠ y.1)
    (h : p.resolve (before ++ x :: y :: after) declared = .ok arguments) :
    p.resolve (before ++ y :: x :: after) declared = .ok arguments := by
  unfold Preset.resolve at h ⊢
  simp only [List.foldlM_append, List.foldlM_cons, bind_ok, override_eq, map_ok] at h ⊢
  obtain ⟨a, ha, b, ⟨v, hv, rfl⟩, c, ⟨w, hw, rfl⟩, hafter⟩ := h
  refine ⟨a, ha, _, ⟨w, hw, rfl⟩, _, ⟨v, hv, rfl⟩, ?_⟩
  -- both parameters have an argument already, so neither override adds one behind the others
  have hkeys : a.keys = p.parameters.map (·.name) := keys_resolve hnodup ha
  have hmem : ∀ {item : String × String} {v : Value}, p.overrideOf declared item = .ok v →
      item.1 ∈ a.keys := by
    intro item v hitem
    obtain ⟨parameter, hparameter, hname, _⟩ := (overrideOf_ok hnodup).mp hitem
    rw [hkeys, ← hname]
    exact List.mem_map_of_mem hparameter
  rw [← Table.insert_comm hne (hmem hv) (hmem hw)]
  exact hafter

/-! ## Result -/

/-- What the arguments are, if there are any. -/
structure Resolved (p : Preset) (declared : List String) (overrides : List (String × String))
    (arguments : Arguments) : Prop where
  /-- There is an argument for each parameter, in the order in which they are declared. -/
  keys : arguments.keys = p.parameters.map (·.name)
  /-- The last override of a parameter counts, and else its default. -/
  chosen : ∀ parameter ∈ p.parameters, ∃ v, arguments.get? parameter.name = some v ∧
    parameter.Chosen declared overrides v
  /-- An argument has the kind of its parameter. -/
  kind : ∀ parameter ∈ p.parameters, ∀ v, arguments.get? parameter.name = some v →
    v.kind = parameter.kind
  /-- Only a time or a number follows a variable, which its last override names. -/
  reference : ∀ parameter ∈ p.parameters, ∀ name k,
    arguments.get? parameter.name = some (.reference name k) →
      k = parameter.kind ∧ parameter.Follows declared name ∧
        LastOverride overrides parameter.name name

theorem Parameter.Accepts.suits (h : parameter.Accepts declared text v) :
    Suits parameter declared v :=
  suits_of_overrideValue (overrideValue_ok_iff.mpr h)

theorem Parameter.Chosen.kind (h : parameter.Chosen declared overrides v) :
    v.kind = parameter.kind := by
  cases h with
  | default _ => rfl
  | last _ haccepts => exact haccepts.suits.kind

/-- What is read for a parameter follows no variable. -/
theorem read_ne_reference {chars : List Char} (h : parameter.read chars = .ok v) (name : String)
    (k : Kind) : v ≠ .reference name k := by
  unfold Parameter.read at h
  obtain ⟨value, hvalue, h⟩ := bind_ok.mp h
  split at h
  · cases h
    exact (readKind_ok hvalue).2 name k
  · cases h

theorem Parameter.Chosen.reference {name : String} {k : Kind}
    (hdefault : ∀ name k, parameter.default ≠ .reference name k)
    (h : parameter.Chosen declared overrides (.reference name k)) :
    k = parameter.kind ∧ parameter.Follows declared name ∧
      LastOverride overrides parameter.name name := by
  generalize hv : Value.reference name k = v at h
  cases h with
  | default _ => exact absurd hv.symm (hdefault name k)
  | last hlast haccepts =>
    cases haccepts with
    | «variable» hfollows =>
      cases hv
      exact ⟨rfl, hfollows, hlast⟩
    | literal _ hread => exact absurd hv.symm (read_ne_reference hread name k)

theorem resolved_of_resolve (hnodup : (p.parameters.map (·.name)).Nodup)
    (hdefaults : ∀ parameter ∈ p.parameters, ∀ name k, parameter.default ≠ .reference name k)
    (h : p.resolve overrides declared = .ok arguments) :
    p.Resolved declared overrides arguments := by
  have hchosen : ∀ parameter ∈ p.parameters, ∀ v, arguments.get? parameter.name = some v →
      parameter.Chosen declared overrides v := by
    intro parameter hparameter v hget
    obtain ⟨w, hw, hchosen⟩ := chosen_resolve hnodup hparameter h
    rw [hget, Option.some.injEq] at hw
    rwa [hw]
  refine ⟨keys_resolve hnodup h, ?_, ?_, ?_⟩
  · intro parameter hparameter
    exact chosen_resolve hnodup hparameter h
  · intro parameter hparameter v hget
    exact (hchosen parameter hparameter v hget).kind
  · intro parameter hparameter name k hget
    exact (hchosen parameter hparameter _ hget).reference (hdefaults parameter hparameter)

/-- **Schema**: the arguments of a preset are those that its parameters declare. There are none
    exactly if an override is refused, also one that would be replaced, and a line that loads the
    preset then fails with the error of the first one under the name of the preset. Overrides of
    different parameters may be exchanged. -/
theorem resolve_schema (p : Preset) (hnodup : (p.parameters.map (·.name)).Nodup)
    (hdefaults : ∀ parameter ∈ p.parameters, ∀ name k, parameter.default ≠ .reference name k)
    (overrides : List (String × String)) (declared : List String) :
    (∀ arguments, p.resolve overrides declared = .ok arguments →
      p.Resolved declared overrides arguments) ∧
    ((∃ error, p.resolve overrides declared = .error error) ↔
      ∃ item ∈ overrides, ∃ error, p.Refuses declared item error) ∧
    (∀ error, p.resolve overrides declared = .error error ↔
      ∃ before item after, overrides = before ++ item :: after ∧
        (∀ other ∈ before, ∀ error, ¬p.Refuses declared other error) ∧
        p.Refuses declared item error) ∧
    (∀ error, p.resolve overrides declared = .error error →
      ∀ registry limit load s number body, presetName body ≠ "" →
        registry (presetName body) = some p →
        readOverrides (presetName body) ((Text.splitOn ',' body).map Text.trim).tail =
          .ok overrides → s.sequence.declared.keys = declared →
        carryOutPreset registry limit (some load) s number body =
          .fail (.parameter p.name error)) ∧
    (∀ before x y after, overrides = before ++ x :: y :: after → x.1 ≠ y.1 → ∀ arguments,
      p.resolve overrides declared = .ok arguments ↔
        p.resolve (before ++ y :: x :: after) declared = .ok arguments) := by
  refine ⟨?_, ?_, ?_, ?_, ?_⟩
  · intro arguments h
    exact resolved_of_resolve hnodup hdefaults h
  · exact exists_foldlM_error_iff (override_error_iff hnodup)
  · intro error
    exact resolve_error_iff hnodup
  · intro error h registry limit load s number body hname hknown hoverrides hdeclared
    apply carryOutPreset_of_unrendered hname hknown hoverrides
    unfold Preset.render
    rw [hdeclared, h]
    rfl
  · rintro before x y after rfl hne arguments
    exact ⟨resolve_swap hnodup hne, resolve_swap hnodup hne.symm⟩

/-- Overrides of which one is replaced by a later one, and one names a variable. -/
def waiting : List (String × String) :=
  [("laser_channel", "3"), ("tau", "wait"), ("laser_channel", "4")]

/-- The arguments are those of the last overrides. If the replaced override were no channel, there
    would be none. -/
theorem waiting_schema :
    (Library.hahnEcho.parameters.map (·.name)).Nodup ∧
    (∀ parameter ∈ Library.hahnEcho.parameters, ∀ name k,
      parameter.default ≠ .reference name k) ∧
    (∃ arguments, Library.hahnEcho.resolve waiting ["wait"] = .ok arguments ∧
      arguments.entries = [("tau", .reference "wait" .time), ("pi", .time ⟨100e-9⟩),
        ("mw_channel", .integer 1), ("laser_channel", .integer 4)] ∧
      Library.hahnEcho.Resolved ["wait"] waiting arguments) ∧
    ∃ error,
      Library.hahnEcho.resolve (("laser_channel", "three") :: waiting) ["wait"] = .error error := by
  have hnodup : (Library.hahnEcho.parameters.map (·.name)).Nodup := by decide
  have hdefaults : ∀ parameter ∈ Library.hahnEcho.parameters, ∀ name k,
      parameter.default ≠ .reference name k := by
    intro parameter hparameter name k hdefault
    fin_cases hparameter <;> cases hdefault
  -- the arguments are computed once, and the theorem says what they have to be
  have hvalues : (Library.hahnEcho.resolve waiting ["wait"]).map (·.entries) =
      .ok [("tau", .reference "wait" .time), ("pi", .time ⟨100e-9⟩), ("mw_channel", .integer 1),
        ("laser_channel", .integer 4)] := by
    decide +kernel
  obtain ⟨arguments, hresolve, hentries⟩ := map_ok.mp hvalues
  obtain ⟨hresolved, _⟩ := resolve_schema Library.hahnEcho hnodup hdefaults waiting ["wait"]
  obtain ⟨_, hfails, _⟩ := resolve_schema Library.hahnEcho hnodup hdefaults
    (("laser_channel", "three") :: waiting) ["wait"]
  -- a channel takes no reference, so the replaced text would have to be an integer
  have hrefused : Library.hahnEcho.Refuses ["wait"] ("laser_channel", "three")
      (.badValue "laser_channel" (.notInteger "three")) := by
    have hchannel : (⟨"laser_channel", .integer 2, []⟩ : Parameter) ∈
        Library.hahnEcho.parameters := by
      decide
    refine .unread hchannel ?_ (by decide +kernel)
    rintro ⟨hkind | hkind, _⟩ <;> cases hkind
  exact ⟨hnodup, hdefaults, ⟨arguments, hresolve, hentries, hresolved arguments hresolve⟩,
    hfails.mpr ⟨_, List.mem_cons_self, _, hrefused⟩⟩

end PulseTrain.Preset
