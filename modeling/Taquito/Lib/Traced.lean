import Mathlib.Data.List.Basic

/-!
# Computations that ask an oracle

A traced computation is the list of the questions it asks, in order, with its result. Two of them
are equal when they ask the same questions and come to the same result, whatever the oracle is; so
two that begin with different questions differ (`ask_bind_ne`), and two that share their first part
agree just where their continuations do (`bind_eq_bind_iff`).
-/

/-- The questions asked, and the result. -/
@[ext]
structure Traced (κ ε α : Type) where
  asked : List κ
  result : Except ε α

namespace Traced

variable {κ ε α β γ : Type}

/-- A result, without a question. -/
def done (a : α) : Traced κ ε α := ⟨[], .ok a⟩

/-- An error, without a question. -/
def stop (e : ε) : Traced κ ε α := ⟨[], .error e⟩

/-- The question, answered by the oracle. -/
def ask (oracle : κ → β) (question : κ) : Traced κ ε β := ⟨[question], .ok (oracle question)⟩

/-- A computation whose result the next one continues with. -/
def andThen (x : Traced κ ε α) (f : α → Traced κ ε β) : Traced κ ε β :=
  match x.result with
  | .ok a => ⟨x.asked ++ (f a).asked, (f a).result⟩
  | .error e => ⟨x.asked, .error e⟩

instance : Monad (Traced κ ε) where
  pure := done
  bind := andThen

@[simp] theorem pure_eq_done (a : α) : (pure a : Traced κ ε α) = done a := rfl

@[simp] theorem done_bind (a : α) (f : α → Traced κ ε β) : (done a >>= f) = f a := rfl

@[simp] theorem stop_bind (e : ε) (f : α → Traced κ ε β) : (stop e >>= f) = stop e := rfl

theorem bind_of_ok {x : Traced κ ε α} {a : α} (h : x.result = .ok a) (f : α → Traced κ ε β) :
    (x >>= f) = ⟨x.asked ++ (f a).asked, (f a).result⟩ := by
  show andThen x f = _
  rw [andThen, h]

theorem bind_of_error {x : Traced κ ε α} {e : ε} (h : x.result = .error e)
    (f : α → Traced κ ε β) : (x >>= f) = ⟨x.asked, .error e⟩ := by
  show andThen x f = _
  rw [andThen, h]

theorem ask_bind (oracle : κ → β) (question : κ) (f : β → Traced κ ε α) :
    (ask oracle question >>= f)
      = ⟨question :: (f (oracle question)).asked, (f (oracle question)).result⟩ := rfl

theorem bind_assoc (x : Traced κ ε α) (f : α → Traced κ ε β) (g : β → Traced κ ε γ) :
    (x >>= f >>= g) = (x >>= fun a => f a >>= g) := by
  cases hx : x.result with
  | error e =>
    rw [bind_of_error hx, bind_of_error hx, bind_of_error (e := e) rfl]
  | ok a =>
    rw [bind_of_ok hx, bind_of_ok hx]
    cases hf : (f a).result with
    | error e => rw [bind_of_error (e := e) rfl, bind_of_error hf]
    | ok b => rw [bind_of_ok (a := b) rfl, bind_of_ok hf, List.append_assoc]

theorem bind_pure (x : Traced κ ε α) : (x >>= fun a => return a) = x := by
  cases hx : x.result with
  | error e =>
    rw [bind_of_error hx, ← hx]
  | ok a =>
    rw [bind_of_ok hx]
    apply Traced.ext
    · exact List.append_nil x.asked
    · exact hx.symm

/-- A computation that succeeds does so in both parts. -/
theorem bind_result_eq_ok {x : Traced κ ε α} {f : α → Traced κ ε β} {b : β} :
    (x >>= f).result = .ok b ↔ ∃ a, x.result = .ok a ∧ (f a).result = .ok b := by
  cases hx : x.result with
  | error e => simp [bind_of_error hx]
  | ok a => simp [bind_of_ok hx]

/-- Computations that share their first part agree just where their continuations do. -/
theorem bind_eq_bind_iff {x : Traced κ ε α} {f g : α → Traced κ ε β} :
    (x >>= f) = (x >>= g) ↔ ∀ a, x.result = .ok a → f a = g a := by
  cases hx : x.result with
  | error e => simp [bind_of_error hx]
  | ok a =>
    rw [bind_of_ok hx, bind_of_ok hx, Traced.mk.injEq, List.append_cancel_left_eq]
    constructor
    · rintro ⟨hasked, hresult⟩ a' ha
      cases ha
      exact Traced.ext hasked hresult
    · intro h
      rw [h a rfl]
      exact ⟨rfl, rfl⟩

/-- Computations that begin with different questions differ. -/
theorem ask_bind_ne {oracle oracle' : κ → β} {question question' : κ}
    (h : question ≠ question') (f g : β → Traced κ ε α) :
    (ask oracle question >>= f) ≠ (ask oracle' question' >>= g) := by
  intro heq
  exact h (List.cons.inj (congrArg Traced.asked heq)).1

/-- They differ whatever follows them. -/
theorem ask_bind_bind_ne {α' : Type} {oracle oracle' : κ → γ} {question question' : κ}
    (h : question ≠ question') (f : γ → Traced κ ε α) (f' : γ → Traced κ ε α')
    (g : α → Traced κ ε β) (g' : α' → Traced κ ε β) :
    (ask oracle question >>= f >>= g) ≠ (ask oracle' question' >>= f' >>= g') := by
  rw [bind_assoc, bind_assoc]
  exact ask_bind_ne h _ _

end Traced
