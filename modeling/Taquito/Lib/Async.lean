import Mathlib.Logic.Function.Basic

/-!
# Asynchronous tasks on a shared state

A task waits for answers and works on a state that it shares with other tasks. Between two waits it
runs alone, so a step of a pool of tasks is: one of them is given the answer it waits for, and runs
up to its next wait (`Pool.resume`). `Pool.Reachable` is every interleaving of such steps.

A property of what a task returns is proved on the task alone (`Task.Safe`), from a condition `C` on
the states in which the shared operations run. It then holds in every interleaving whose steps meet
the condition, whatever the other tasks are (`Pool.Reachable.safe`).
-/

namespace Async

/-- A task over the requests `Q` with their answers `A`, and the shared operations `O` with their
results `B`. -/
inductive Task (Q : Type) (A : Q → Type) (O : Type) (B : O → Type) (ε α : Type) where
  | ret (a : α)
  | throw (e : ε)
  | await (q : Q) (k : A q → Task Q A O B ε α)
  | access (o : O) (k : B o → Task Q A O B ε α)

namespace Task

variable {Q : Type} {A : Q → Type} {O : Type} {B : O → Type} {ε α β σ : Type}

/-- The task that goes on with what another one returns. -/
def bind : Task Q A O B ε α → (α → Task Q A O B ε β) → Task Q A O B ε β
  | ret a, f => f a
  | throw e, _ => throw e
  | await q k, f => await q fun a => (k a).bind f
  | access o k, f => access o fun b => (k b).bind f

instance : Monad (Task Q A O B ε) where
  pure := ret
  bind := bind

@[simp] theorem ret_bind (a : α) (f : α → Task Q A O B ε β) : (ret a >>= f) = f a := rfl

@[simp] theorem throw_bind (e : ε) (f : α → Task Q A O B ε β) : (throw e >>= f) = throw e := rfl

@[simp] theorem await_bind (q : Q) (k : A q → Task Q A O B ε α) (f : α → Task Q A O B ε β) :
    (await q k >>= f) = await q fun a => k a >>= f := rfl

@[simp] theorem access_bind (o : O) (k : B o → Task Q A O B ε α) (f : α → Task Q A O B ε β) :
    (access o k >>= f) = access o fun b => k b >>= f := rfl

variable (exec : (o : O) → σ → B o × σ)

/-- Run up to the next wait. -/
def advance : Task Q A O B ε α → σ → Task Q A O B ε α × σ
  | ret a, s => (ret a, s)
  | throw e, s => (throw e, s)
  | await q k, s => (await q k, s)
  | access o k, s => (k (exec o s).1).advance (exec o s).2

/-- The task alone, with all its answers. -/
def runAlone (answers : (q : Q) → A q) : Task Q A O B ε α → σ → Except ε α × σ
  | ret a, s => (.ok a, s)
  | throw e, s => (.error e, s)
  | await q k, s => (k (answers q)).runAlone answers s
  | access o k, s => (k (exec o s).1).runAlone answers (exec o s).2

/-- The shared operations up to the next wait run in states that meet the condition. -/
def Meets (C : O → σ → Prop) : Task Q A O B ε α → σ → Prop
  | ret _, _ => True
  | throw _, _ => True
  | await _ _, _ => True
  | access o k, s => C o s ∧ (k (exec o s).1).Meets C (exec o s).2

/-- The answers a task got, in order. -/
abbrev History (A : Q → Type) := List (Σ q, A q)

/-- Whatever the answers, what the task returns after them has the property, if the shared
operations run in states that meet the condition. -/
def Safe (C : O → σ → Prop) (P : History A → α → Prop) :
    History A → Task Q A O B ε α → Prop
  | h, ret a => P h a
  | _, throw _ => True
  | h, await q k => ∀ a, (k a).Safe C P (h ++ [⟨q, a⟩])
  | h, access o k => ∀ s, C o s → (k (exec o s).1).Safe C P h

variable {exec} {C : O → σ → Prop} {P : History A → α → Prop}

/-- Running up to the next wait keeps a task safe. -/
theorem Safe.advance {h : History A} {t : Task Q A O B ε α} {s : σ} (ht : t.Safe exec C P h)
    (hC : t.Meets exec C s) : (t.advance exec s).1.Safe exec C P h := by
  induction t generalizing s with
  | ret a => exact ht
  | throw e => exact ht
  | await q k _ => exact ht
  | access o k ih => exact ih _ (ht s hC.1) hC.2

/-- A task is safe if its first part is, for what the second part makes of it. -/
theorem Safe.bind {h : History A} {t : Task Q A O B ε β} {f : β → Task Q A O B ε α}
    (ht : t.Safe exec C (fun h b => (f b).Safe exec C P h) h) :
    (t >>= f).Safe exec C P h := by
  induction t generalizing h with
  | ret b => exact ht
  | throw e => trivial
  | await q k ih => exact fun a => ih a (ht a)
  | access o k ih => exact fun s hs => ih _ (ht s hs)

theorem Safe.mono {h : History A} {t : Task Q A O B ε α} {P' : History A → α → Prop}
    (ht : t.Safe exec C P h) (hP : ∀ h a, P h a → P' h a) : t.Safe exec C P' h := by
  induction t generalizing h with
  | ret a => exact hP h a ht
  | throw e => trivial
  | await q k ih => exact fun a => ih a (ht a)
  | access o k ih => exact fun s hs => ih _ (ht s hs)

theorem meets_true (t : Task Q A O B ε α) (s : σ) : t.Meets exec (fun _ _ => True) s := by
  induction t generalizing s with
  | ret a => trivial
  | throw e => trivial
  | await q k _ => trivial
  | access o k ih => exact ⟨trivial, ih _ _⟩

/-- A sequence of two tasks returns if the first one does, and the second one after it. -/
theorem runAlone_bind_eq_ok {answers : (q : Q) → A q} {t : Task Q A O B ε β}
    {f : β → Task Q A O B ε α} {s s' : σ} {a : α} :
    (t >>= f).runAlone exec answers s = (.ok a, s') ↔
      ∃ b s₁, t.runAlone exec answers s = (.ok b, s₁) ∧
        (f b).runAlone exec answers s₁ = (.ok a, s') := by
  induction t generalizing s with
  | ret b =>
    rw [ret_bind]
    constructor
    · intro h
      exact ⟨b, s, rfl, h⟩
    · rintro ⟨_, _, ⟨⟩, h⟩
      exact h
  | throw e =>
    rw [throw_bind]
    constructor
    · rintro ⟨⟩
    · rintro ⟨_, _, ⟨⟩, _⟩
  | await q k ih => exact ih (answers q)
  | access o k ih => exact ih (exec o s).1

/-- What the task returned, if it did. -/
def result? : Task Q A O B ε α → Option α
  | ret a => some a
  | _ => none

theorem result?_eq_some {t : Task Q A O B ε α} {a : α} : t.result? = some a ↔ t = ret a := by
  cases t <;> simp [result?]

end Task

/-! ## Pools -/

/-- A task of a pool, with the answers it got. -/
structure Call (Q : Type) (A : Q → Type) (O : Type) (B : O → Type) (ε α : Type) where
  task : Task Q A O B ε α
  history : Task.History A

/-- Any number of tasks, and the state they share. -/
structure Pool (ι Q : Type) (A : Q → Type) (O : Type) (B : O → Type) (ε α σ : Type) where
  calls : ι → Call Q A O B ε α
  state : σ

namespace Pool

variable {ι Q : Type} {A : Q → Type} {O : Type} {B : O → Type} {ε α σ : Type} [DecidableEq ι]
  (exec : (o : O) → σ → B o × σ)

/-- Give the task `i` the answer it waits for, and run it up to its next wait; a task that has
ended is left alone. -/
def resume (i : ι) (answers : (q : Q) → A q) (p : Pool ι Q A O B ε α σ) :
    Pool ι Q A O B ε α σ :=
  match (p.calls i).task with
  | .await q k =>
    let r := (k (answers q)).advance exec p.state
    ⟨Function.update p.calls i ⟨r.1, (p.calls i).history ++ [⟨q, answers q⟩]⟩, r.2⟩
  | _ => p

/-- The step meets the condition. -/
def StepMeets (C : O → σ → Prop) (i : ι) (answers : (q : Q) → A q)
    (p : Pool ι Q A O B ε α σ) : Prop :=
  match (p.calls i).task with
  | .await q k => (k (answers q)).Meets exec C p.state
  | _ => True

/-- The tasks before any of them got an answer. -/
def initial (tasks : ι → Task Q A O B ε α) (s : σ) : Pool ι Q A O B ε α σ :=
  ⟨fun i => ⟨tasks i, []⟩, s⟩

/-- The pools that an interleaving reaches whose steps all meet the condition. -/
inductive Reachable (C : O → σ → Prop) (p₀ : Pool ι Q A O B ε α σ) :
    Pool ι Q A O B ε α σ → Prop
  | start : Reachable C p₀ p₀
  | resume {p : Pool ι Q A O B ε α σ} (hp : Reachable C p₀ p) (i : ι)
      (answers : (q : Q) → A q) (hC : p.StepMeets exec C i answers) :
      Reachable C p₀ (p.resume exec i answers)

/-- Run the pool by a schedule. -/
def run (answers : (q : Q) → A q) : List ι → Pool ι Q A O B ε α σ → Pool ι Q A O B ε α σ
  | [], p => p
  | i :: is, p => run answers is (p.resume exec i answers)

/-- Every step of the schedule meets the condition. -/
def RunMeets (C : O → σ → Prop) (answers : (q : Q) → A q) :
    List ι → Pool ι Q A O B ε α σ → Prop
  | [], _ => True
  | i :: is, p => p.StepMeets exec C i answers ∧ RunMeets C answers is (p.resume exec i answers)

variable {exec} {C : O → σ → Prop} {P : Task.History A → α → Prop}

/-- A schedule whose steps meet the condition reaches the pool it runs to. -/
theorem Reachable.run {p₀ p : Pool ι Q A O B ε α σ} {answers : (q : Q) → A q} {is : List ι}
    (hp : Reachable exec C p₀ p) (hC : p.RunMeets exec C answers is) :
    Reachable exec C p₀ (p.run exec answers is) := by
  induction is generalizing p with
  | nil => exact hp
  | cons i is ih => exact ih (hp.resume i answers hC.1) hC.2

theorem runMeets_true (answers : (q : Q) → A q) (is : List ι) (p : Pool ι Q A O B ε α σ) :
    p.RunMeets exec (fun _ _ => True) answers is := by
  induction is generalizing p with
  | nil => trivial
  | cons i is ih =>
    refine ⟨?_, ih _⟩
    unfold StepMeets
    split
    · exact Task.meets_true _ _
    · trivial

/-- All tasks of the pool are safe after the answers they got. -/
def Safe (exec : (o : O) → σ → B o × σ) (C : O → σ → Prop) (P : Task.History A → α → Prop)
    (p : Pool ι Q A O B ε α σ) : Prop :=
  ∀ i, (p.calls i).task.Safe exec C P (p.calls i).history

/-- One step keeps the pool safe. -/
theorem Safe.resume {p : Pool ι Q A O B ε α σ} (hp : p.Safe exec C P) {i : ι}
    {answers : (q : Q) → A q} (hC : p.StepMeets exec C i answers) :
    (p.resume exec i answers).Safe exec C P := by
  have hi := hp i
  unfold Pool.resume
  unfold StepMeets at hC
  split
  · next q k hk =>
    rw [hk] at hi hC
    intro j
    by_cases hj : j = i
    · subst hj
      simpa using (hi (answers q)).advance hC
    · simpa [hj] using hp j
  · exact hp

/-- Every reachable pool is safe. -/
theorem Reachable.safe_pool {p₀ p : Pool ι Q A O B ε α σ} (hp : Reachable exec C p₀ p)
    (h₀ : p₀.Safe exec C P) : p.Safe exec C P := by
  induction hp with
  | start => exact h₀
  | resume _ i answers hC ih => exact ih.resume hC

/-- **What a task returns in an interleaving has the property that was proved on the task alone.**
-/
theorem Reachable.safe {tasks : ι → Task Q A O B ε α} {s : σ} {p : Pool ι Q A O B ε α σ}
    (hp : Reachable exec C (initial tasks s) p) (ht : ∀ i, (tasks i).Safe exec C P []) {i : ι} {a : α}
    (ha : (p.calls i).task = .ret a) : P (p.calls i).history a := by
  have hi := hp.safe_pool (fun i => ht i) i
  rw [ha] at hi
  exact hi

end Pool

end Async
