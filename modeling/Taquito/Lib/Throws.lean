import Taquito.Lib.Reader

/-!
# What a computation may throw

`Throws P x`: an error of `x` has the property `P`. The rules follow the shape of a program: a
sequence throws what its parts throw. `grind` applies them backwards and splits the branches itself,
so that a program made of parts with such rules needs no more than its own case splits.
-/

variable {ε α β : Type} {P : ε → Prop}

/-- An error of `x` has the property. -/
def Throws (P : ε → Prop) (x : Except ε α) : Prop := ∀ e, x = .error e → P e

namespace Throws

@[grind ←] theorem ok (a : α) : Throws P (.ok a : Except ε α) := by
  intro e h
  cases h

@[grind ←] theorem pure (a : α) : Throws P (pure a : Except ε α) := ok a

@[grind =] theorem error_iff {e : ε} : Throws P (.error e : Except ε α) ↔ P e := by
  constructor
  · exact fun h => h e rfl
  · intro he e' h
    cases h
    exact he

@[grind ←] theorem bind {x : Except ε α} {f : α → Except ε β} (hx : Throws P x)
    (hf : ∀ a, Throws P (f a)) : Throws P (x >>= f) := by
  intro e h
  obtain h | ⟨a, -, h⟩ := Except.bind_eq_error.mp h
  · exact hx e h
  · exact hf a e h

/-- A branch throws what its cases throw. -/
theorem ite {c : Prop} [Decidable c] {x y : Except ε α} (hx : Throws P x) (hy : Throws P y) :
    Throws P (if c then x else y) := by
  split
  · exact hx
  · exact hy

/-- The loop over a list throws what its body throws. -/
theorem mapM {f : α → Except ε β} (hf : ∀ a, Throws P (f a)) (l : List α) :
    Throws P (l.mapM f) := by
  induction l with
  | nil => exact ok []
  | cons a l ih =>
    rw [List.mapM_cons]
    exact bind (hf a) fun b => bind ih fun bs => ok (b :: bs)

end Throws
