import Taquito.Sapling.State

/-!
# The state tree that is kept

`getStateTree` keeps what it returns, and returns it again when the root of the diff is that of the
kept tree. What is kept was either not constructed or is a valid tree over some commitments
(`Sound`), whatever calls came before; but it may be of a call that asked for no tree, or of a diff
with other commitments under the same root. A call therefore returns the tree of its diff exactly
when what is kept fits it (`getStateTree_meets_iff`).
-/

open Js

namespace Sapling

/-- `SaplingDiffResponse`, with ciphertexts of a type. -/
structure SaplingDiffResponse (C : Type) where
  root : JSString
  commitments_and_ciphertexts : List (JSString × C)

/-- The commitments of a diff. -/
def SaplingDiffResponse.commitments {C : Type} (stateDiff : SaplingDiffResponse C) :
    List JSString :=
  stateDiff.commitments_and_ciphertexts.map Prod.fst

/-- `SaplingStateTree`. -/
structure SaplingStateTree where
  height : ℕ
  size : ℕ
  root : JSString
  tree : MerkleTree

section

variable (merkleHash : ℕ → Bytes → Bytes → Except StateError Bytes) (height : ℕ) {C : Type}

/-- The tree that a call constructs; without `constructTree` it is `undefined`. -/
def constructedTree (stateDiff : SaplingDiffResponse C) (constructTree : Bool) :
    Except StateError MerkleTree :=
  if constructTree then do
    let merkleTree ← stateTree merkleHash height stateDiff.commitments
    validateMerkleTree merkleHash height merkleTree stateDiff.root
    return merkleTree
  else .ok .undefined

/-- What a call keeps of a diff. -/
def keptTree (stateDiff : SaplingDiffResponse C) (merkleTree : MerkleTree) : SaplingStateTree where
  height := height
  size := stateDiff.commitments.length
  root := stateDiff.root
  tree := merkleTree

/-- `getStateTree`: what it returns or throws, and the tree that is kept then. -/
def getStateTree (kept : Option SaplingStateTree) (stateDiff : SaplingDiffResponse C)
    (constructTree : Bool) : Except StateError SaplingStateTree × Option SaplingStateTree :=
  match kept.filter fun tree => tree.root = stateDiff.root with
  | some tree => (.ok tree, kept)
  | none =>
    match constructedTree merkleHash height stateDiff constructTree with
    | .error e => (.error e, kept)
    | .ok merkleTree =>
      (.ok (keptTree height stateDiff merkleTree), some (keptTree height stateDiff merkleTree))

/-- What is kept after calls on a new state. -/
def keptAfter (calls : List (SaplingDiffResponse C × Bool)) : Option SaplingStateTree :=
  calls.foldl (fun kept call => (getStateTree merkleHash height kept call.1 call.2).2) none

/-- The tree is built from the commitments of the diff and has its root. -/
def TreeOf (stateDiff : SaplingDiffResponse C) (tree : MerkleTree) : Prop :=
  stateTree merkleHash height stateDiff.commitments = .ok tree ∧
    validateMerkleTree merkleHash height tree stateDiff.root = .ok ()

/-- A call that asks for a tree returns that of its diff, and one that throws changes nothing. -/
def CallMeets (kept : Option SaplingStateTree) (stateDiff : SaplingDiffResponse C)
    (constructTree : Bool) : Prop :=
  match getStateTree merkleHash height kept stateDiff constructTree with
  | (.ok stateTree, _) => constructTree = true → TreeOf merkleHash height stateDiff stateTree.tree
  | (.error _, kept') => kept' = kept

end

/-- The leaves of a tree. -/
def MerkleTree.leaves : MerkleTree → List JSString
  | .undefined => []
  | .leaf hex => [hex]
  | .node _ left right => left.leaves ++ right.leaves

/-- What is kept under the root of the diff is a tree, and over its commitments. -/
def Fits {C : Type} (kept : Option SaplingStateTree) (stateDiff : SaplingDiffResponse C) : Prop :=
  ∀ tree ∈ kept, tree.root = stateDiff.root →
    tree.tree ≠ .undefined ∧ tree.tree.leaves = stateDiff.commitments

variable {merkleHash : ℕ → Bytes → Bytes → Except StateError Bytes} {height : ℕ} {C : Type}

/-! ## The leaves of a constructed tree -/

theorem leaves_parentNode {level : ℕ} {chunk : MerkleTree × MerkleTree} {tree : MerkleTree}
    (h : parentNode merkleHash height level chunk = .ok tree) :
    tree.leaves = chunk.1.leaves ++ chunk.2.leaves := by
  rw [parentNode] at h
  obtain ⟨left, -, h⟩ := Except.bind_eq_ok.mp h
  obtain ⟨right, -, h⟩ := Except.bind_eq_ok.mp h
  obtain ⟨hash, -, h⟩ := Except.bind_eq_ok.mp h
  rw [Except.pure_eq_ok, Except.ok.injEq] at h
  rw [← h, MerkleTree.leaves]

theorem leaves_updatedLeaves {level : ℕ} {leaves updated : List MerkleTree}
    (h : (pairNodes leaves).mapM (parentNode merkleHash height level) = .ok updated) :
    updated.flatMap MerkleTree.leaves = leaves.flatMap MerkleTree.leaves := by
  induction leaves using pairNodes.induct generalizing updated with
  | case1 =>
    cases h
    rfl
  | case2 a =>
    rw [pairNodes, List.mapM_cons] at h
    obtain ⟨tree, htree, h⟩ := Except.bind_eq_ok.mp h
    cases h
    simp [leaves_parentNode htree, MerkleTree.leaves]
  | case3 a b leaves ih =>
    rw [pairNodes, List.mapM_cons] at h
    obtain ⟨tree, htree, h⟩ := Except.bind_eq_ok.mp h
    obtain ⟨trees, htrees, h⟩ := Except.bind_eq_ok.mp h
    cases h
    simp only [List.flatMap_cons, leaves_parentNode htree, ih htrees, List.append_assoc]

/-- The leaves stand in the tree in their order. -/
theorem leaves_constructMerkleTree {level remaining : ℕ} {leaves : List MerkleTree}
    {tree : MerkleTree}
    (h : constructMerkleTree merkleHash height level remaining leaves = .ok tree) :
    tree.leaves = leaves.flatMap MerkleTree.leaves := by
  induction remaining generalizing level leaves with
  | zero =>
    match leaves, h with
    | [a], h =>
      rw [constructMerkleTree, Except.ok.injEq] at h
      rw [← h, List.flatMap_singleton]
  | succ remaining ih =>
    rw [constructMerkleTree] at h
    by_cases hlen : leaves.length > 2 ^ remaining
    · rw [if_pos hlen] at h
      cases h
    · rw [if_neg hlen] at h
      obtain ⟨updated, hupdated, h⟩ := Except.bind_eq_ok.mp h
      rw [ih h, leaves_updatedLeaves hupdated]

theorem leaves_stateTree {commitments : List JSString} {tree : MerkleTree}
    (h : stateTree merkleHash height commitments = .ok tree) : tree.leaves = commitments := by
  rw [leaves_constructMerkleTree h, List.flatMap_map]
  exact List.flatMap_singleton' commitments

theorem stateTree_ne_undefined {commitments : List JSString} {tree : MerkleTree}
    (h : stateTree merkleHash height commitments = .ok tree) : tree ≠ .undefined := by
  rintro rfl
  obtain ⟨hash, hhash, -⟩ := fullRoot_stateTree merkleHash height commitments _ h
  cases hhash

/-! ## What is kept -/

/-- What is kept holds no tree or a valid one over some commitments. -/
def Sound (merkleHash : ℕ → Bytes → Bytes → Except StateError Bytes) (height : ℕ)
    (kept : Option SaplingStateTree) : Prop :=
  ∀ tree ∈ kept, tree.tree = .undefined ∨ ∃ commitments,
    stateTree merkleHash height commitments = .ok tree.tree ∧
      validateMerkleTree merkleHash height tree.tree tree.root = .ok ()

/-- A tree that is not kept is constructed and checked. -/
theorem constructedTree_ok {stateDiff : SaplingDiffResponse C} {constructTree : Bool}
    {tree : MerkleTree}
    (h : constructedTree merkleHash height stateDiff constructTree = .ok tree) :
    (constructTree = false ∧ tree = .undefined) ∨
      (constructTree = true ∧ TreeOf merkleHash height stateDiff tree) := by
  cases constructTree with
  | false =>
    rw [constructedTree, if_neg Bool.false_ne_true, Except.ok.injEq] at h
    exact .inl ⟨rfl, h.symm⟩
  | true =>
    rw [constructedTree, if_pos rfl] at h
    obtain ⟨merkleTree, htree, h⟩ := Except.bind_eq_ok.mp h
    obtain ⟨_, hvalid, h⟩ := Except.bind_eq_ok.mp h
    rw [Except.pure_eq_ok, Except.ok.injEq] at h
    subst h
    exact .inr ⟨rfl, htree, hvalid⟩

/-- What one call does. -/
theorem getStateTree_cases (kept : Option SaplingStateTree) (stateDiff : SaplingDiffResponse C)
    (constructTree : Bool) :
    (∃ tree, kept = some tree ∧ tree.root = stateDiff.root ∧
        getStateTree merkleHash height kept stateDiff constructTree = (.ok tree, kept)) ∨
    (∀ tree ∈ kept, tree.root ≠ stateDiff.root) ∧
      ((∃ e, getStateTree merkleHash height kept stateDiff constructTree = (.error e, kept)) ∨
      ∃ tree, constructedTree merkleHash height stateDiff constructTree = .ok tree ∧
        getStateTree merkleHash height kept stateDiff constructTree =
          (.ok (keptTree height stateDiff tree), some (keptTree height stateDiff tree))) := by
  rw [getStateTree]
  cases hkept : kept.filter fun tree => tree.root = stateDiff.root with
  | some tree =>
    rw [Option.filter_eq_some_iff, decide_eq_true_iff] at hkept
    exact .inl ⟨tree, hkept.1, hkept.2, rfl⟩
  | none =>
    refine .inr ⟨fun tree htree hroot => ?_, ?_⟩
    · rw [Option.filter_eq_none_iff] at hkept
      exact hkept tree htree (decide_eq_true hroot)
    · cases constructedTree merkleHash height stateDiff constructTree with
      | error e => exact .inl ⟨e, rfl⟩
      | ok tree => exact .inr ⟨tree, rfl, rfl⟩

/-- A call keeps what is sound. -/
theorem Sound.getStateTree {kept : Option SaplingStateTree} (h : Sound merkleHash height kept)
    (stateDiff : SaplingDiffResponse C) (constructTree : Bool) :
    Sound merkleHash height (getStateTree merkleHash height kept stateDiff constructTree).2 := by
  obtain ⟨tree, -, -, hcall⟩ | ⟨-, ⟨e, hcall⟩ | ⟨tree, htree, hcall⟩⟩ :=
    @getStateTree_cases merkleHash height C kept stateDiff constructTree
  · rw [hcall]
    exact h
  · rw [hcall]
    exact h
  · rw [hcall]
    rintro _ ⟨⟩
    obtain ⟨-, hundefined⟩ | ⟨-, hconstructed, hvalid⟩ := constructedTree_ok htree
    · exact .inl hundefined
    · exact .inr ⟨_, hconstructed, hvalid⟩

/-- What any calls keep is sound. -/
theorem sound_keptAfter (calls : List (SaplingDiffResponse C × Bool)) :
    Sound merkleHash height (keptAfter merkleHash height calls) := by
  have hrun (kept : Option SaplingStateTree) (h : Sound merkleHash height kept) :
      Sound merkleHash height (calls.foldl
        (fun kept call => (getStateTree merkleHash height kept call.1 call.2).2) kept) := by
    induction calls generalizing kept with
    | nil => exact h
    | cons call calls ih => exact ih _ (h.getStateTree call.1 call.2)
  apply hrun none
  intro tree htree
  cases htree

/-- A sound tree is that of a diff exactly when it fits. -/
theorem treeOf_iff_fits {kept : Option SaplingStateTree} (h : Sound merkleHash height kept)
    {stateDiff : SaplingDiffResponse C} {tree : SaplingStateTree} (hkept : kept = some tree)
    (hroot : tree.root = stateDiff.root) :
    TreeOf merkleHash height stateDiff tree.tree ↔ Fits kept stateDiff := by
  subst hkept
  constructor
  · rintro ⟨htree, -⟩ _ ⟨⟩ -
    exact ⟨stateTree_ne_undefined htree, leaves_stateTree htree⟩
  · intro hfits
    obtain ⟨hdefined, hleaves⟩ := hfits tree rfl hroot
    obtain hundefined | ⟨commitments, htree, hvalid⟩ := h tree rfl
    · exact absurd hundefined hdefined
    · refine ⟨?_, hroot ▸ hvalid⟩
      rw [← hleaves, leaves_stateTree htree]
      exact htree

/-- **After any calls, a call returns the tree of its diff exactly when what is kept under the root
of the diff is a tree over its commitments**, or it asks for none. -/
theorem getStateTree_meets_iff (merkleHash : ℕ → Bytes → Bytes → Except StateError Bytes)
    (height : ℕ) (calls : List (SaplingDiffResponse C × Bool)) (stateDiff : SaplingDiffResponse C)
    (constructTree : Bool) :
    CallMeets merkleHash height (keptAfter merkleHash height calls) stateDiff constructTree ↔
      (constructTree = true → Fits (keptAfter merkleHash height calls) stateDiff) := by
  have hsound := @sound_keptAfter merkleHash height C calls
  rw [CallMeets]
  obtain ⟨tree, hkept, hroot, hcall⟩ | ⟨hroots, hnew⟩ :=
    @getStateTree_cases merkleHash height C (keptAfter merkleHash height calls) stateDiff
      constructTree
  · rw [hcall]
    exact imp_congr_right fun _ => treeOf_iff_fits hsound hkept hroot
  · have hfits : Fits (keptAfter merkleHash height calls) stateDiff :=
      fun tree htree hroot => absurd hroot (hroots tree htree)
    obtain ⟨e, hcall⟩ | ⟨tree, htree, hcall⟩ := hnew
    · rw [hcall]
      exact iff_of_true rfl fun _ => hfits
    · rw [hcall]
      refine iff_of_true (fun hconstruct => ?_) fun _ => hfits
      obtain ⟨hno, -⟩ | ⟨-, htreeOf⟩ := constructedTree_ok htree
      · rw [hconstruct] at hno
        cases hno
      · exact htreeOf

/-- After a call without a tree, the next under the same root returns `undefined`. -/
theorem getStateTree_undefined :
    ¬ CallMeets (fun _ left _ => .ok left) 1
      (keptAfter (fun _ left _ => .ok left) 1
        [((⟨js "0a", [(js "0a", ())]⟩ : SaplingDiffResponse Unit), false)])
      (⟨js "0a", [(js "0a", ())]⟩ : SaplingDiffResponse Unit) true := by
  intro h
  obtain ⟨htree, -⟩ := h rfl
  cases htree

end Sapling
