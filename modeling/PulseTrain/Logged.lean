/-! # Results with a log

    Work that may fail also reports what it noticed on the way. What was noticed before a failure is
    kept, so the log stands beside the result and not inside it.

    * `Logged.bind` runs one piece of work after another: the logs are joined in order, and nothing
      runs after a failure.
    * The laws of a monad hold, so reading the statements of two texts in turn is reading them all.
-/

namespace PulseTrain

/-- How much a note matters to the user. -/
inductive Severity where
  | debug
  | info
  | warning
deriving DecidableEq, Repr

/-- A result, or an error, with the notes taken on the way to it. -/
structure Logged (ν ε α : Type) where
  log : List ν
  result : Except ε α

namespace Logged

variable {ν ε α β : Type}

def ok (a : α) : Logged ν ε α := ⟨[], .ok a⟩

def fail (e : ε) : Logged ν ε α := ⟨[], .error e⟩

def note (n : ν) : Logged ν ε Unit := ⟨[n], .ok ()⟩

/-- A result or failure that was reached without notes. -/
def ofExcept (result : Except ε α) : Logged ν ε α := ⟨[], result⟩

def bind (m : Logged ν ε α) (f : α → Logged ν ε β) : Logged ν ε β :=
  match m.result with
  | .ok a => ⟨m.log ++ (f a).log, (f a).result⟩
  | .error e => ⟨m.log, .error e⟩

instance : Monad (Logged ν ε) where
  pure := ok
  bind := bind

/-- The same work with its error put in other words. -/
def mapError {ε' : Type} (f : ε → ε') (m : Logged ν ε α) : Logged ν ε' α :=
  ⟨m.log, m.result.mapError f⟩

@[simp] theorem log_pure (a : α) : (pure a : Logged ν ε α).log = [] := rfl

@[simp] theorem result_pure (a : α) : (pure a : Logged ν ε α).result = .ok a := rfl

/-- After a success the work goes on with its result. -/
theorem bind_of_ok {m : Logged ν ε α} {a : α} (h : m.result = .ok a) (f : α → Logged ν ε β) :
    (m >>= f) = ⟨m.log ++ (f a).log, (f a).result⟩ := by
  show bind m f = _
  simp only [bind, h]

/-- After a failure nothing runs. -/
theorem bind_of_error {m : Logged ν ε α} {e : ε} (h : m.result = .error e)
    (f : α → Logged ν ε β) : (m >>= f) = ⟨m.log, .error e⟩ := by
  show bind m f = _
  simp only [bind, h]

/-- How work is grouped does not matter, neither for the log nor for the result. -/
instance : LawfulMonad (Logged ν ε) :=
  LawfulMonad.mk' (Logged ν ε)
    (fun m => by
      obtain ⟨log, result⟩ := m
      cases result with
      | error e => rfl
      | ok a => show Logged.mk (log ++ []) _ = _; rw [List.append_nil]; rfl)
    (fun a f => by show Logged.mk ([] ++ (f a).log) (f a).result = f a; rfl)
    (fun m f g => by
      obtain ⟨log, result⟩ := m
      cases result with
      | error e => rfl
      | ok a =>
        show bind (bind ⟨log, .ok a⟩ f) g = bind ⟨log, .ok a⟩ fun a => bind (f a) g
        cases hf : (f a).result with
        | error e => simp only [bind, hf]
        | ok b => simp only [bind, hf, List.append_assoc])

end Logged

end PulseTrain
