import Mathlib.Data.List.Forall2
import PulseTrain.Logged

/-! # Failing work

    What all errors of some work have in common is found out part by part: the errors of a chain
    are those of its links, and the errors of work on a list are those of the work on its items.

    * `FailsOnly` is a postcondition for the case of a failure;
    * `FailsOnly.bind`, `.mapM`, `.forM` and `.foldlM` put it together from the parts;
    * `map_error` sees through work on the result, `forM_error` names the item at which a check of
      all items fails, and `foldlM_error_iff` the one at which a run fails that does so in whatever
      state it comes to the item;
    * `SameOutcome` compares two pieces of work that fail alike, and is put together by
      `SameOutcome.bind` and `.mapM`;
    * `Logged.ComesTo` says which item a run comes to. A run that fails does so at an item it comes
      to, `result_foldlM_error`, and two runs that differ do so at an item they come to,
      `exists_comesTo_of_ne`.
-/

namespace PulseTrain

variable {ε ε' α α' β β' σ : Type} {P : ε → Prop}

/-- Whatever error the work ends in has the property. -/
def FailsOnly (P : ε → Prop) (x : Except ε α) : Prop := ∀ e, x = .error e → P e

namespace FailsOnly

theorem ok (a : α) : FailsOnly P (.ok a : Except ε α) := by
  intro e h
  cases h

theorem error {e : ε} (h : P e) : FailsOnly P (.error e : Except ε α) := by
  intro e' he
  cases he
  exact h

theorem mono {Q : ε → Prop} {x : Except ε α} (hx : FailsOnly P x) (h : ∀ e, P e → Q e) :
    FailsOnly Q x := fun e he => h e (hx e he)

/-- A chain fails where one of its links does. -/
theorem bind {x : Except ε α} {f : α → Except ε β} (hx : FailsOnly P x)
    (hf : ∀ a, FailsOnly P (f a)) : FailsOnly P (x >>= f) := by
  intro e h
  cases x with
  | error e' =>
    cases h
    exact hx e rfl
  | ok a => exact hf a e h

/-- Work on the result does not fail. -/
theorem map {x : Except ε α} (f : α → β) (hx : FailsOnly P x) : FailsOnly P (x.map f) := by
  intro e he
  cases x with
  | error e' =>
    cases he
    exact hx e rfl
  | ok a => cases he

/-- Other words for the errors may give them the property. -/
theorem mapError {x : Except ε α} {g : ε → ε'} {P : ε' → Prop} (h : ∀ e, P (g e)) :
    FailsOnly P (x.mapError g) := by
  intro e he
  cases x with
  | error e' =>
    cases he
    exact h e'
  | ok a => cases he

theorem mapM {f : α → Except ε β} {l : List α} (h : ∀ a ∈ l, FailsOnly P (f a)) :
    FailsOnly P (l.mapM f) := by
  induction l with
  | nil => exact ok []
  | cons a l ih =>
    rw [List.mapM_cons]
    refine (h a List.mem_cons_self).bind fun b => ?_
    have hrest := ih fun a' ha' => h a' (List.mem_cons_of_mem a ha')
    exact hrest.bind fun bs => ok (b :: bs)

theorem forM {f : α → Except ε Unit} {l : List α} (h : ∀ a ∈ l, FailsOnly P (f a)) :
    FailsOnly P (l.forM f) := by
  induction l with
  | nil => exact ok ()
  | cons a l ih =>
    have hrest := ih fun a' ha' => h a' (List.mem_cons_of_mem a ha')
    exact (h a List.mem_cons_self).bind fun _ => hrest

theorem foldlM {f : σ → α → Except ε σ} {l : List α} (h : ∀ s, ∀ a ∈ l, FailsOnly P (f s a))
    (s : σ) : FailsOnly P (l.foldlM f s) := by
  induction l generalizing s with
  | nil => exact ok s
  | cons a l ih =>
    rw [List.foldlM_cons]
    have hrest := fun s' => ih (fun s a' ha' => h s a' (List.mem_cons_of_mem a ha')) s'
    exact (h s a List.mem_cons_self).bind hrest

end FailsOnly

/-- Work on the result does not change an error. -/
theorem map_error {x : Except ε α} {f : α → β} {e : ε} : x.map f = .error e ↔ x = .error e := by
  cases x with
  | error e' => simp [Except.map]
  | ok a => simp [Except.map]

/-- The first item at which something happens is the first item of the list, or the list goes on
    behind it. -/
theorem exists_first_cons {Q R : α → Prop} {b : α} {l : List α} :
    (∃ before a after, b :: l = before ++ a :: after ∧ (∀ c ∈ before, Q c) ∧ R a) ↔
      R b ∨ Q b ∧ ∃ before a after, l = before ++ a :: after ∧ (∀ c ∈ before, Q c) ∧ R a := by
  constructor
  · rintro ⟨before, a, after, hl, hbefore, ha⟩
    -- the first is the element in front, or else that element is not one of them
    cases before with
    | nil =>
      cases hl
      exact .inl ha
    | cons b' before =>
      cases hl
      obtain ⟨hb, hbefore⟩ := List.forall_mem_cons.mp hbefore
      exact .inr ⟨hb, before, a, after, rfl, hbefore, ha⟩
  · rintro (hb | ⟨hb, before, a, after, rfl, hbefore, ha⟩)
    · exact ⟨[], b, l, rfl, List.forall_mem_nil _, hb⟩
    · exact ⟨b :: before, a, after, rfl, List.forall_mem_cons.mpr ⟨hb, hbefore⟩, ha⟩

/-- A check of all items fails at the first item that does not pass. -/
theorem forM_error {f : α → Except ε Unit} {l : List α} {e : ε} (h : l.forM f = .error e) :
    ∃ before a after, l = before ++ a :: after ∧ (∀ b ∈ before, f b = .ok ()) ∧ f a = .error e := by
  -- by induction on the list, which stops at the first element that fails
  induction l with
  | nil => cases h
  | cons a l ih =>
    change (f a >>= fun _ => l.forM f) = .error e at h
    apply exists_first_cons.mpr
    cases ha : f a with
    | error e' =>
      rw [ha] at h
      exact .inl h
    | ok u =>
      rw [ha] at h
      exact .inr ⟨rfl, ih h⟩

section foldlM

variable {f : σ → α → Except ε σ} {R : α → ε → Prop} {l : List α} {s : σ} {e : ε}

/-- A run that fails at an item in whatever state it comes to it fails at the first such item. -/
theorem foldlM_error_iff (hf : ∀ s a e, f s a = .error e ↔ R a e) :
    l.foldlM f s = .error e ↔
      ∃ before a after, l = before ++ a :: after ∧ (∀ b ∈ before, ∀ e, ¬R b e) ∧ R a e := by
  -- by induction on the list, where only the first step can fail in the state it starts in
  induction l generalizing s with
  | nil =>
    constructor
    · intro h
      cases h
    · rintro ⟨before, a, after, hl, _, _⟩
      simp at hl
  | cons b l ih =>
    rw [List.foldlM_cons, exists_first_cons]
    have hhere : ∀ e, R b e ↔ f s b = .error e := fun e => (hf s b e).symm
    cases hb : f s b with
    | error e' =>
      have hfails : ¬∀ e, ¬R b e := fun h => h e' ((hhere e').mpr hb)
      constructor
      · intro h
        exact .inl ((hhere e).mpr (hb.trans h))
      · rintro (h | ⟨hnone, _⟩)
        · exact hb.symm.trans ((hhere e).mp h)
        · exact absurd hnone hfails
    | ok s₁ =>
      have hnone : ∀ e, ¬R b e := by
        intro e he
        rw [hhere, hb] at he
        cases he
      constructor
      · intro h
        exact .inr ⟨hnone, ih.mp h⟩
      · rintro (h | ⟨_, hrest⟩)
        · exact absurd h (hnone e)
        · exact ih.mpr hrest

/-- Such a run fails exactly if one of the items does. -/
theorem exists_foldlM_error_iff (hf : ∀ s a e, f s a = .error e ↔ R a e) :
    (∃ e, l.foldlM f s = .error e) ↔ ∃ a ∈ l, ∃ e, R a e := by
  constructor
  · rintro ⟨e, he⟩
    obtain ⟨before, a, after, rfl, _, ha⟩ := (foldlM_error_iff hf).mp he
    exact ⟨a, List.mem_append_right _ List.mem_cons_self, e, ha⟩
  · rintro ⟨a, hmem, e, ha⟩
    -- whatever fails first, the fold fails no later than at this element
    induction l generalizing s with
    | nil => cases hmem
    | cons b l ih =>
      rw [List.foldlM_cons]
      cases hb : f s b with
      | error e' => exact ⟨e', rfl⟩
      | ok s₁ =>
        obtain rfl | hlater := List.mem_cons.mp hmem
        · rw [(hf s a e).mpr ha] at hb
          cases hb
        · exact ih hlater

end foldlM

/-! ## Work that fails alike -/

/-- Two pieces of work that come to related results or fail with the same error. -/
inductive SameOutcome (R : α → β → Prop) : Except ε α → Except ε β → Prop where
  | ok {a : α} {b : β} (h : R a b) : SameOutcome R (.ok a) (.ok b)
  | error (e : ε) : SameOutcome R (.error e) (.error e)

namespace SameOutcome

variable {R : α → β → Prop} {S : α' → β' → Prop}

/-- Chains fail alike if their links do. -/
theorem bind {x : Except ε α} {y : Except ε β} {f : α → Except ε α'} {g : β → Except ε β'}
    (h : SameOutcome R x y) (hnext : ∀ a b, R a b → SameOutcome S (f a) (g b)) :
    SameOutcome S (x >>= f) (y >>= g) := by
  cases h with
  | ok hab => exact hnext _ _ hab
  | error e => exact .error e

/-- Related items give related results, up to the first item for which the work fails. -/
theorem mapM {f : α → Except ε α'} {g : β → Except ε β'} {l : List α} {l' : List β}
    (h : List.Forall₂ R l l') (hitem : ∀ a b, R a b → SameOutcome S (f a) (g b)) :
    SameOutcome (List.Forall₂ S) (l.mapM f) (l'.mapM g) := by
  induction h with
  | nil => exact .ok .nil
  | cons hab _ ih =>
    rw [List.mapM_cons, List.mapM_cons]
    refine (hitem _ _ hab).bind fun c d hcd => ?_
    exact ih.bind fun cs ds hrest => .ok (.cons hcd hrest)

end SameOutcome

/-! ## Results with a log -/

namespace Logged

variable {ν : Type} {f g : σ → α → Logged ν ε σ} {s s' : σ} {l : List α} {a : α} {e : ε}

/-- A chain fails in its first link, or in the second behind a success of the first. -/
theorem result_bind_error {m : Logged ν ε α} {f : α → Logged ν ε β} :
    (m >>= f).result = .error e ↔
      m.result = .error e ∨ ∃ a, m.result = .ok a ∧ (f a).result = .error e := by
  cases h : m.result with
  | error e' => simp [bind_of_error h]
  | ok a => simp [bind_of_ok h]

/-- Work fails in other words exactly if it fails. -/
theorem result_mapError_error {f : ε → ε'} {m : Logged ν ε α} {e : ε'} :
    (m.mapError f).result = .error e ↔ ∃ e', m.result = .error e' ∧ f e' = e := by
  unfold mapError
  cases m.result with
  | error e' => simp [Except.mapError]
  | ok a => simp [Except.mapError]

/-- A run comes to an item if the work on all items before it succeeds. -/
inductive ComesTo (f : σ → α → Logged ν ε σ) : σ → List α → α → σ → Prop where
  | here {s : σ} {a : α} {l : List α} : ComesTo f s (a :: l) a s
  | later {s s₁ s' : σ} {b a : α} {l : List α} (hstep : (f s b).result = .ok s₁)
      (hrest : ComesTo f s₁ l a s') : ComesTo f s (b :: l) a s'

theorem ComesTo.mem (h : ComesTo f s l a s') : a ∈ l := by
  induction h with
  | here => exact List.mem_cons_self
  | later _ _ ih => exact List.mem_cons_of_mem _ ih

/-- A run fails exactly if it comes to an item for which the work fails. -/
theorem result_foldlM_error : (l.foldlM f s).result = .error e ↔
    ∃ a s', ComesTo f s l a s' ∧ (f s' a).result = .error e := by
  -- by induction on the list, in step with the two ways of coming to an element
  induction l generalizing s with
  | nil =>
    constructor
    · intro h
      cases h
    · rintro ⟨_, _, hcomes, _⟩
      cases hcomes
  | cons b l ih =>
    rw [List.foldlM_cons, result_bind_error]
    constructor
    · rintro (hhere | ⟨s₁, hstep, hrest⟩)
      · exact ⟨b, s, .here, hhere⟩
      · obtain ⟨a, s', hcomes, hfails⟩ := ih.mp hrest
        exact ⟨a, s', .later hstep hcomes, hfails⟩
    · rintro ⟨a, s', hcomes, hfails⟩
      cases hcomes with
      | here => exact .inl hfails
      | later hstep hrest => exact .inr ⟨_, hstep, ih.mpr ⟨a, s', hrest, hfails⟩⟩

/-- Two runs are the same unless they come to an item for which the work differs. -/
theorem exists_comesTo_of_ne (h : l.foldlM f s ≠ l.foldlM g s) :
    ∃ a s', ComesTo f s l a s' ∧ f s' a ≠ g s' a := by
  induction l generalizing s with
  | nil => exact absurd rfl h
  | cons b l ih =>
    by_cases hhere : f s b = g s b
    · rw [List.foldlM_cons, List.foldlM_cons, ← hhere] at h
      cases hresult : (f s b).result with
      | error e =>
        -- neither run goes on
        rw [bind_of_error hresult, bind_of_error hresult] at h
        exact absurd rfl h
      | ok s₁ =>
        rw [bind_of_ok hresult, bind_of_ok hresult] at h
        have hrest : l.foldlM f s₁ ≠ l.foldlM g s₁ := by
          intro heq
          rw [heq] at h
          exact h rfl
        obtain ⟨a, s', hcomes, hne⟩ := ih hrest
        exact ⟨a, s', .later hresult hcomes, hne⟩
    · exact ⟨b, s, .here, hhere⟩

end Logged

end PulseTrain
