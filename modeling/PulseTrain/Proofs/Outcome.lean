import PulseTrain.Logged

/-! # Results without logs and errors

    Two pieces of work may differ in what they note and in the words of their errors, and still
    come to the same result where they come to any. Only the result is left in `value?`, and all
    ways to put work together can be followed through it.

    * **Parts**: `value?_bind` and `value?_foldlM`;
    * **Comparison**: `value?_foldlM_mono`, for work that comes to a result wherever other work
      does.
-/

namespace PulseTrain.Logged

variable {ν ε ε' α β σ : Type}

def value? (m : Logged ν ε α) : Option α := m.result.toOption

theorem toOption_eq_some_iff {x : Except ε α} {a : α} : x.toOption = some a ↔ x = .ok a := by
  cases x with
  | error e => simp [Except.toOption]
  | ok b => simp [Except.toOption]

theorem value?_eq_some_iff {m : Logged ν ε α} {a : α} : m.value? = some a ↔ m.result = .ok a :=
  toOption_eq_some_iff

@[simp] theorem value?_pure (a : α) : (pure a : Logged ν ε α).value? = some a := rfl

@[simp] theorem value?_fail (e : ε) : (fail e : Logged ν ε α).value? = none := rfl

@[simp] theorem value?_note (n : ν) : (note n : Logged ν ε Unit).value? = some () := rfl

theorem ofExcept_ok (a : α) : (ofExcept (.ok a) : Logged ν ε α) = pure a := rfl

@[simp] theorem value?_ofExcept (x : Except ε α) :
    (ofExcept x : Logged ν ε α).value? = x.toOption := rfl

@[simp] theorem value?_mapError (f : ε → ε') (m : Logged ν ε α) :
    (m.mapError f).value? = m.value? := by
  unfold value? mapError
  cases m.result with
  | error e => rfl
  | ok a => rfl

/-- A chain comes to what its parts come to. -/
@[simp] theorem value?_bind (m : Logged ν ε α) (f : α → Logged ν ε β) :
    (m >>= f).value? = m.value?.bind fun a => (f a).value? := by
  cases h : m.result with
  | error e =>
    rw [bind_of_error h]
    simp [value?, h, Except.toOption]
  | ok a =>
    rw [bind_of_ok h]
    simp [value?, h, Except.toOption]

theorem value?_foldlM (f : σ → α → Logged ν ε σ) (l : List α) (s : σ) :
    (l.foldlM f s).value? = l.foldlM (fun s a => (f s a).value?) s := by
  induction l generalizing s with
  | nil => rfl
  | cons a l ih =>
    rw [List.foldlM_cons, value?_bind, List.foldlM_cons]
    exact congrArg _ (funext ih)

/-- Two runs are compared step by step: where the steps of one come to a result, so do those of the
    other. -/
theorem value?_foldlM_mono {f g : σ → α → Logged ν ε σ}
    (hstep : ∀ s a s', (f s a).value? = some s' → (g s a).value? = some s') {l : List α} {s s' : σ}
    (h : (l.foldlM f s).value? = some s') : (l.foldlM g s).value? = some s' := by
  induction l generalizing s with
  | nil => exact h
  | cons a l ih =>
    rw [List.foldlM_cons, value?_bind] at h ⊢
    obtain ⟨s₁, hs₁, hrest⟩ := Option.bind_eq_some_iff.mp h
    rw [hstep s a s₁ hs₁]
    exact ih hrest

end PulseTrain.Logged
