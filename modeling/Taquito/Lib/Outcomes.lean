import Taquito.Lib.Reader

/-!
# Outcomes of computations that may fail

Two logics for `Except`. `Ends E P x`: the computation `x` ends with a value that has the property
`P`, or with an error that has the property `E`. `Mirrors R x y`: whenever `x` succeeds, so does `y`,
with a result that `R` relates to that of `x`. Both follow the shape of a program.
-/

universe u v

variable {ε : Type v} {α β γ δ : Type u}

/-! ## One run -/

/-- The outcome of a computation: its values and its errors have given properties. -/
def Ends (E : ε → Prop) (P : α → Prop) : Except ε α → Prop
  | .ok a => P a
  | .error e => E e

namespace Ends

variable {E : ε → Prop} {P Q : α → Prop}

theorem ok {a : α} (h : P a) : Ends E P (.ok a) := h

theorem error {e : ε} (h : E e) : Ends E P (.error e : Except ε α) := h

theorem bind {R : β → Prop} {x : Except ε α} {f : α → Except ε β} (hx : Ends E P x)
    (hf : ∀ a, P a → Ends E R (f a)) : Ends E R (x >>= f) := by
  cases x with
  | ok a => exact hf a hx
  | error e => exact hx

theorem mono {x : Except ε α} (hx : Ends E P x) (h : ∀ a, P a → Q a) : Ends E Q x := by
  cases x with
  | ok a => exact h a hx
  | error e => exact hx

/-- **The rule of a loop**: what every step keeps holds at the end. -/
theorem foldlM {I : β → Prop} {f : β → α → Except ε β} {l : List α}
    (hf : ∀ a ∈ l, ∀ s, I s → Ends E I (f s a)) {s : β} (hs : I s) : Ends E I (l.foldlM f s) := by
  induction l generalizing s with
  | nil => exact hs
  | cons a l ih =>
    rw [List.foldlM_cons]
    refine Ends.bind (hf a List.mem_cons_self s hs) fun s' hs' => ?_
    exact ih (fun b hb => hf b (List.mem_cons_of_mem a hb)) hs'

end Ends

/-! ## Two runs -/

/-- Whenever the first computation succeeds, so does the second, and their results are related. -/
def Mirrors (R : α → β → Prop) (x : Except ε α) (y : Except ε β) : Prop :=
  ∀ a, x = .ok a → ∃ b, y = .ok b ∧ R a b

namespace Mirrors

variable {R : α → β → Prop} {S : γ → δ → Prop}

theorem ok {a : α} {b : β} (h : R a b) : Mirrors R (.ok a : Except ε α) (.ok b) := by
  intro a' ha
  cases ha
  exact ⟨b, rfl, h⟩

theorem error {e : ε} {y : Except ε β} : Mirrors R (.error e : Except ε α) y := by
  intro a ha
  cases ha

theorem bind {x : Except ε γ} {y : Except ε δ} {f : γ → Except ε α} {g : δ → Except ε β}
    (hx : Mirrors S x y) (hf : ∀ c d, S c d → Mirrors R (f c) (g d)) :
    Mirrors R (x >>= f) (y >>= g) := by
  intro a ha
  obtain ⟨c, hc, ha⟩ := Except.bind_eq_ok.mp ha
  obtain ⟨d, hd, hcd⟩ := hx c hc
  obtain ⟨b, hb, hab⟩ := hf c d hcd a ha
  exact ⟨b, Except.bind_eq_ok.mpr ⟨d, hd, hb⟩, hab⟩

/-- Two computations with the same results, followed by two. -/
theorem bind_eq {x y : Except ε γ} {f : γ → Except ε α} {g : γ → Except ε β}
    (hx : Mirrors Eq x y) (hf : ∀ c, Mirrors R (f c) (g c)) : Mirrors R (x >>= f) (y >>= g) := by
  refine bind hx ?_
  rintro c _ rfl
  exact hf c

theorem same (x : Except ε α) : Mirrors Eq x x := fun a ha => ⟨a, ha, rfl⟩

theorem mono {R' : α → β → Prop} {x : Except ε α} {y : Except ε β} (h : Mirrors R x y)
    (hR : ∀ a b, R a b → R' a b) : Mirrors R' x y := by
  intro a ha
  obtain ⟨b, hb, hab⟩ := h a ha
  exact ⟨b, hb, hR a b hab⟩

/-- A branch on the same condition. -/
theorem ite {c : Prop} [Decidable c] {x x' : Except ε α} {y y' : Except ε β} (hx : c → Mirrors R x y)
    (hy : ¬ c → Mirrors R x' y') :
    Mirrors R (if c then x else x') (if c then y else y') := by
  split
  · exact hx ‹_›
  · exact hy ‹_›

end Mirrors
