import PulseTrain.Proofs.Decimal.Arithmetic
import PulseTrain.Proofs.Scan.TimeOrder
import PulseTrain.Scan.Binding

/-! # Pulses that stay in place

    Where no pulse grows and no bound timing is displaced, the shifts of the walk are zero, and each
    pulse stays where it is described to be. Only the sign of a zero may change.

    * **Invariant**: `Walk.Still`, the shifts of the walk are zero;
    * **Step**: `Walk.Still.step`, **Run**: `moveAlong_of_sameSpan`, and `moveAlong_stays` for a
      point without a value.
-/

namespace PulseTrain

open Decimal

namespace Duration

variable {a b : Duration}

theorem IsZero.add (ha : a.IsZero) (hb : b.IsZero) : (a + b).IsZero := add_eq_zero ha hb

end Duration

namespace Scan

open Duration

/-- A pulse that lasts as long as another and starts at the same time. -/
def SameSpan (p q : Pulse) : Prop :=
  q.timing.sameTime p.timing = true ∧ q.duration.sameTime p.duration = true

/-- The times of a pulse are finite. -/
def FiniteSpan (p : Pulse) : Prop := p.timing.IsFinite ∧ p.duration.IsFinite

instance (p q : Pulse) : Decidable (SameSpan p q) := inferInstanceAs (Decidable (_ ∧ _))
instance (p : Pulse) : Decidable (FiniteSpan p) := inferInstanceAs (Decidable (_ ∧ _))

/-- **Invariant**: a walk that moves no pulse. -/
structure Walk.Still (w : Walk) : Prop where
  shift : w.shift.IsZero
  presentShift : w.presentShift.IsZero

theorem Walk.Still.start : Walk.start.Still := ⟨by decide +kernel, by decide +kernel⟩

variable {w : Walk} {p q : Pulse}

theorem Walk.Still.arrive (h : w.Still) (time : Duration) : (w.arrive time).Still := by
  unfold Walk.arrive
  split
  · exact ⟨h.shift, h.presentShift⟩
  · exact ⟨h.shift, h.shift⟩

/-- **Step**: a visit to a pulse that has not changed moves neither this pulse nor those to come. -/
theorem Walk.Still.step (h : w.Still) (i : ℕ) (hp : FiniteSpan p) (hq : SameSpan p q) :
    (w.step ⟨i, p, q⟩).1.Still ∧ SameSpan p (w.step ⟨i, p, q⟩).2 := by
  have harrive := h.arrive p.timing
  have hgrowth : (q.duration - p.duration).IsZero :=
    sub_eq_zero_of_eq (isFinite_of_beq hq.2 hp.2) hp.2 hq.2
  have hdisplaced : (q.timing - p.timing).IsZero :=
    sub_eq_zero_of_eq (isFinite_of_beq hq.1 hp.1) hp.1 hq.1
  unfold Walk.step
  dsimp only
  split
  · exact ⟨⟨hdisplaced.add hgrowth, harrive.presentShift⟩, hq⟩
  · refine ⟨⟨harrive.shift.add hgrowth, harrive.presentShift⟩, ?_⟩
    split
    · exact hq
    · exact ⟨add_zero_eq hp.1 harrive.presentShift, hq.2⟩

/-- **Run**: pulses that do not change when a value is put in stay where they are. -/
theorem moveAlong_of_sameSpan {l : List Pulse} {f : Pulse → Pulse}
    (h : ∀ p ∈ l, FiniteSpan p ∧ SameSpan p (f p)) :
    List.Forall₂ SameSpan l (moveAlong l (l.map f)) := by
  apply moveAlong_forall₂_of_invariant l f Walk.Still.start
  intro w i p hp hw
  obtain ⟨hfinite, hsame⟩ := h p hp
  exact hw.step i hfinite hsame

/-- A pulse as another is described, but perhaps for the sign of a timing that is zero. -/
structure Stays (p q : Pulse) : Prop where
  timing : q.timing.sameTime p.timing = true
  frame : q = { p with timing := q.timing }

/-- **Run**: without a value every pulse stays where it is. -/
theorem moveAlong_stays {l : List Pulse} (h : ∀ p ∈ l, FiniteSpan p) :
    List.Forall₂ (fun p q => p ∈ l ∧ Stays p q) l (moveAlong l (l.map (bindTo none))) := by
  apply moveAlong_forall₂_of_invariant l (bindTo none) Walk.Still.start
  intro w i p hp hw
  have hself : ∀ {a : Duration}, a.IsFinite → a.sameTime a = true := fun ha =>
    (sameTime_iff_value_eq ha ha).mpr rfl
  have hfinite := h p hp
  obtain ⟨hstill, htiming, _⟩ := hw.step i hfinite (q := p) ⟨hself hfinite.1, hself hfinite.2⟩
  exact ⟨hstill, hp, htiming, w.step_pulse ⟨i, p, p⟩⟩

end Scan

end PulseTrain
