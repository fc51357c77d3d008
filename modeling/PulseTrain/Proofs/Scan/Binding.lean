import PulseTrain.Proofs.Pulse
import PulseTrain.Proofs.Success
import PulseTrain.Scan.Binding

/-! # Bindings that pass

    A binding that passes names the scanned variable, suits its dimension, and leaves the
    timing of a fixed pulse alone. Binding a value then writes the bound fields and no others.

    * `Binding.Suits` says when a binding passes, `verifyBindings_ok` that the check is this;
    * `timing_bindTo` is the frame of a binding: an unbound timing stays as it is.
-/

namespace PulseTrain.Scan

/-! ## The check -/

structure Binding.Suits (v : Variable) (p : Pulse) (b : Binding) : Prop where
  named : v.name = b.variableName
  accepted : b.field.accepts v.dimension = true
  free : b.field = .timing → p.isFixed = false

/-- Of a pulse only its marker matters. -/
theorem Binding.Suits.congr {v : Variable} {p q : Pulse} {b : Binding} (h : Binding.Suits v p b)
    (hfixed : q.isFixed = p.isFixed) : Binding.Suits v q b := by
  refine ⟨h.named, h.accepted, ?_⟩
  rw [hfixed]
  exact h.free

theorem checkBinding_ok {source : Option Variable} {p : Pulse} {b : Binding} :
    checkBinding source p b = .ok () ↔ ∃ v, source = some v ∧ Binding.Suits v p b := by
  unfold checkBinding
  cases source with
  | none => simp
  | some v =>
    simp only [Option.some.injEq, exists_eq_left']
    -- in the order of the checks: the name, a fixed timing, the dimension
    by_cases hname : v.name = b.variableName
    · simp only [Option.filter_some, hname, decide_true, if_true]
      by_cases hfixed : (decide (b.field = .timing) && p.isFixed) = true
      · rw [if_pos hfixed]
        rw [Bool.and_eq_true, decide_eq_true_eq] at hfixed
        refine ⟨fun h => (by cases h), ?_⟩
        intro hsuits
        rw [hsuits.free hfixed.1] at hfixed
        cases hfixed.2
      · rw [if_neg hfixed]
        have hfree : b.field = .timing → p.isFixed = false := by
          intro htiming
          simpa [htiming] using hfixed
        by_cases haccepts : b.field.accepts v.dimension = true
        · rw [if_pos haccepts]
          exact ⟨fun _ => ⟨hname, haccepts, hfree⟩, fun _ => rfl⟩
        · rw [if_neg haccepts]
          exact ⟨fun h => (by cases h), fun hsuits => absurd hsuits.accepted haccepts⟩
    · simp only [Option.filter_some, hname, decide_false, Bool.false_eq_true, if_false]
      exact ⟨fun h => (by cases h), fun hsuits => absurd hsuits.named hname⟩

/-- **The check**: it passes if and only if every binding of every pulse suits the scanned variable.
    -/
theorem verifyBindings_ok {source : Option Variable} {pulses : List Pulse} :
    verifyBindings source pulses = .ok () ↔
      ∀ p ∈ pulses, ∀ b ∈ p.bindings, ∃ v, source = some v ∧ Binding.Suits v p b := by
  unfold verifyBindings
  rw [Success.forM_ok]
  refine forall₂_congr fun p _ => ?_
  rw [Success.forM_ok]
  exact forall₂_congr fun b _ => checkBinding_ok

/-! ## Binding a value -/

/-- **Frame**: a timing without a binding stays as it is. -/
theorem timing_bindTo {p : Pulse} (h : ∀ b ∈ p.bindings, b.field ≠ .timing)
    (value : Option Float) : (bindTo value p).timing = p.timing := by
  cases value with
  | none => rfl
  | some x => exact p.bind_frame (·.timing) x fun b hb q => q.timing_write (h b hb) x

end PulseTrain.Scan
