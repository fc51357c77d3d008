import Mathlib.Data.List.Forall2
import PulseTrain.Logged

/-! # Successful work

    Work that may fail is put together from smaller work with `bind`, `mapM`, `forM` and
    `foldlM`. The lemmas here take a success of the whole apart into the successes of its
    parts, so that no proof about such work unfolds a bind:

    * **Results**: `bind_ok`, `map_ok`, `mapM_ok`, `forM_ok` for `Except`, and `foldlM_ok`, which
      carries an invariant through a run;
    * **Results with a log**: `result_bind_ok`, `result_foldlM_ok`.
-/

namespace PulseTrain.Success

variable {ε ε' ν α β σ : Type}

/-! ## Results -/

/-- A chain succeeds if both its parts do. -/
theorem bind_ok {x : Except ε α} {f : α → Except ε β} {b : β} :
    (x >>= f) = .ok b ↔ ∃ a, x = .ok a ∧ f a = .ok b := by
  cases x with
  | error e => simp [bind, Except.bind]
  | ok a => simp [bind, Except.bind]

/-- Other words for an error do not turn it into a success. -/
theorem mapError_ok {x : Except ε α} {g : ε → ε'} {a : α} :
    x.mapError g = .ok a ↔ x = .ok a := by
  cases x with
  | error e => simp [Except.mapError]
  | ok b => simp [Except.mapError]

/-- Work on the result does not turn an error into a success. -/
theorem map_ok {x : Except ε α} {f : α → β} {b : β} :
    x.map f = .ok b ↔ ∃ a, x = .ok a ∧ f a = b := by
  cases x with
  | error e => simp [Except.map]
  | ok a => simp [Except.map]

theorem isOk_iff {x : Except ε α} : x.isOk = true ↔ ∃ a, x = .ok a := by
  cases x with
  | error e => simp [Except.isOk, Except.toBool]
  | ok a => simp [Except.isOk, Except.toBool]

/-- Work on all items gives a result for each of them, in their order. -/
theorem mapM_ok {f : α → Except ε β} {l : List α} {r : List β} (h : l.mapM f = .ok r) :
    List.Forall₂ (fun a b => f a = .ok b) l r := by
  -- along the items; the results are known only once the rest has succeeded
  induction l generalizing r with
  | nil =>
    rw [List.mapM_nil] at h
    cases h
    exact .nil
  | cons a l ih =>
    rw [List.mapM_cons] at h
    obtain ⟨b, hb, hrest⟩ := bind_ok.mp h
    obtain ⟨bs, hbs, hr⟩ := bind_ok.mp hrest
    cases hr
    exact .cons hb (ih hbs)

/-- Work that succeeds on all items gives results that relate to whatever the items relate to. -/
theorem exists_mapM_ok {R : σ → α → Prop} {S : σ → β → Prop} {f : α → Except ε β} {k : List σ}
    {l : List α} (h : List.Forall₂ R k l) (hstep : ∀ s a, R s a → ∃ b, f a = .ok b ∧ S s b) :
    ∃ r, l.mapM f = .ok r ∧ List.Forall₂ S k r := by
  induction h with
  | nil => exact ⟨[], rfl, .nil⟩
  | cons ha _ ih =>
    obtain ⟨b, hb, hs⟩ := hstep _ _ ha
    obtain ⟨bs, hbs, hrest⟩ := ih
    refine ⟨b :: bs, ?_, .cons hs hrest⟩
    rw [List.mapM_cons, hb]
    exact bind_ok.mpr ⟨b, rfl, bind_ok.mpr ⟨bs, hbs, rfl⟩⟩

/-- A check of all items passes if every item passes. -/
theorem forM_ok {f : α → Except ε Unit} {l : List α} :
    l.forM f = .ok () ↔ ∀ a ∈ l, f a = .ok () := by
  induction l with
  | nil => simp [pure, Except.pure]
  | cons a l ih =>
    show (f a >>= fun _ => l.forM f) = .ok () ↔ _
    rw [bind_ok]
    simp only [List.mem_cons, forall_eq_or_imp, ih]
    constructor
    · rintro ⟨_, ha, hl⟩
      exact ⟨ha, hl⟩
    · rintro ⟨ha, hl⟩
      exact ⟨(), ha, hl⟩

/-- **Run lemma**: what holds at the start and is kept by every step that succeeds holds at the end
    of a run that succeeds. -/
theorem foldlM_ok {f : σ → α → Except ε σ} {P : σ → Prop} {l : List α} {s s' : σ}
    (hstep : ∀ s a s', P s → f s a = .ok s' → P s') (hs : P s) (h : l.foldlM f s = .ok s') :
    P s' := by
  induction l generalizing s with
  | nil =>
    rw [List.foldlM_nil] at h
    cases h
    exact hs
  | cons a l ih =>
    rw [List.foldlM_cons] at h
    obtain ⟨s₁, hs₁, hrest⟩ := bind_ok.mp h
    exact ih (hstep s a s₁ hs hs₁) hrest

/-! ## Results with a log -/

/-- A chain succeeds if both its parts do; the logs do not matter. -/
theorem result_bind_ok {m : Logged ν ε α} {f : α → Logged ν ε β} {b : β} :
    (m >>= f).result = .ok b ↔ ∃ a, m.result = .ok a ∧ (f a).result = .ok b := by
  cases h : m.result with
  | error e => simp [Logged.bind_of_error h]
  | ok a => simp [Logged.bind_of_ok h]

/-- **Run lemma** for work with a log. -/
theorem result_foldlM_ok {f : σ → α → Logged ν ε σ} {P : σ → Prop} {l : List α} {s s' : σ}
    (hstep : ∀ s a s', P s → (f s a).result = .ok s' → P s') (hs : P s)
    (h : (l.foldlM f s).result = .ok s') : P s' := by
  induction l generalizing s with
  | nil =>
    rw [List.foldlM_nil] at h
    cases h
    exact hs
  | cons a l ih =>
    rw [List.foldlM_cons] at h
    obtain ⟨s₁, hs₁, hrest⟩ := result_bind_ok.mp h
    exact ih (hstep s a s₁ hs hs₁) hrest

end PulseTrain.Success
