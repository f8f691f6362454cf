import Mathlib.Data.List.Forall2
import Taquito.Lib.Reader

/-!
# Loops that may fail

`List.mapM` in `Except`: it succeeds if all of its steps do, with their results in order
(`Except.mapM_eq_ok`), and fails with the error of one of them (`Except.mapM_eq_error`).
-/

universe v

variable {ε : Type v} {α β : Type} {f : α → Except ε β}

theorem Except.mapM_eq_ok {xs : List α} {ys : List β} :
    xs.mapM f = .ok ys ↔ List.Forall₂ (fun x y => f x = .ok y) xs ys := by
  induction xs generalizing ys with
  | nil =>
    rw [List.mapM_nil, Except.pure_eq_ok, Except.ok.injEq, List.forall₂_nil_left_iff, eq_comm]
  | cons x xs ih =>
    rw [List.mapM_cons, Except.bind_eq_ok, List.forall₂_cons_left_iff]
    constructor
    · rintro ⟨y, hy, h⟩
      obtain ⟨zs, hzs, h⟩ := Except.bind_eq_ok.mp h
      cases h
      exact ⟨y, zs, hy, ih.mp hzs, rfl⟩
    · rintro ⟨y, zs, hy, hzs, rfl⟩
      exact ⟨y, hy, Except.bind_eq_ok.mpr ⟨zs, ih.mpr hzs, rfl⟩⟩

theorem Except.mapM_ok_of_forall {xs : List α} (h : ∀ x ∈ xs, ∃ y, f x = .ok y) :
    ∃ ys, xs.mapM f = .ok ys := by
  induction xs with
  | nil => exact ⟨[], rfl⟩
  | cons x xs ih =>
    obtain ⟨⟨y, hy⟩, hxs⟩ := List.forall_mem_cons.mp h
    obtain ⟨ys, hys⟩ := ih hxs
    refine ⟨y :: ys, ?_⟩
    rw [List.mapM_cons, hy, hys]
    rfl

theorem Except.mapM_eq_error {xs : List α} {e : ε} (h : xs.mapM f = .error e) :
    ∃ x ∈ xs, f x = .error e := by
  induction xs with
  | nil => cases h
  | cons x xs ih =>
    rw [List.mapM_cons] at h
    obtain h | ⟨y, -, h⟩ := Except.bind_eq_error.mp h
    · exact ⟨x, List.mem_cons_self, h⟩
    · obtain h | ⟨ys, -, h⟩ := Except.bind_eq_error.mp h
      · obtain ⟨x', hx', h⟩ := ih h
        exact ⟨x', List.mem_cons_of_mem _ hx', h⟩
      · cases h

/-- Each step of a loop that succeeds does. -/
theorem Except.ok_of_mapM {xs : List α} {ys : List β} (h : xs.mapM f = .ok ys) {x : α}
    (hx : x ∈ xs) : ∃ y, f x = .ok y := by
  induction Except.mapM_eq_ok.mp h with
  | nil => cases hx
  | cons hy hys ih =>
    obtain rfl | hx := List.mem_cons.mp hx
    · exact ⟨_, hy⟩
    · exact ih (Except.mapM_eq_ok.mpr hys) hx

/-- The places of the results are those of the steps. -/
theorem Except.getElem?_of_mapM {xs : List α} {ys : List β} (h : xs.mapM f = .ok ys) (i : ℕ) :
    (∃ x y, xs[i]? = some x ∧ ys[i]? = some y ∧ f x = .ok y) ∨ xs[i]? = none ∧ ys[i]? = none := by
  induction Except.mapM_eq_ok.mp h generalizing i with
  | nil => exact Or.inr ⟨rfl, rfl⟩
  | @cons x y xs ys hy hys ih =>
    cases i with
    | zero => exact Or.inl ⟨x, y, rfl, rfl, hy⟩
    | succ i => exact ih (Except.mapM_eq_ok.mpr hys) i
