import Taquito.Js.Text
import Taquito.Lib.PerfectTree
import Taquito.Lib.Loops
import Taquito.Lib.Reader

/-!
# The commitment tree of a Sapling state

`constructMerkleTree` builds the tree over the commitments level by level and leaves out what stands
over no commitment; where a node has no right child, the hash of an empty subtree of its level is
taken instead. `merkleHash` of the `sapling-wasm` library is a parameter, which may throw.

The result is that the root has the hash of the full tree (`fullRoot`), in which every place
without a commitment holds the uncommitted value.
-/

open Js

namespace Sapling

/-- What the tree throws. -/
inductive StateError where
  | TreeConstructionFailure
  | InvalidMerkleRootError
  /-- `merkleHash` throws. -/
  | HashError
  deriving DecidableEq, Repr

/-- A tree; `undefined` stands for an empty one. -/
inductive MerkleTree where
  | undefined
  | leaf (hex : JSString)
  | node (hash : JSString) (left right : MerkleTree)

/-- `uncommittedMerkleHash`. -/
def uncommittedMerkleHash : JSString :=
  js "0100000000000000000000000000000000000000000000000000000000000000"

/-- The hash that a tree carries. -/
def MerkleTree.hash : MerkleTree → Option JSString
  | .undefined => none
  | .leaf hex => some hex
  | .node hash _ _ => some hash

section tree

variable (merkleHash : ℕ → Bytes → Bytes → Except StateError Bytes) (height : ℕ)

/-- The loop of `createUncommittedMerkleHashes`, with the hash that it has reached. -/
def uncommittedFrom (i : ℕ) (hash : Bytes) : ℕ → Except StateError (List Bytes)
  | 0 => .ok [hash]
  | n + 1 => do
    let next ← merkleHash i hash hash
    return hash :: (← uncommittedFrom (i + 1) next n)

/-- `createUncommittedMerkleHashes`. -/
def createUncommittedMerkleHashes : Except StateError (List Bytes) :=
  uncommittedFrom merkleHash 0 (bufferFromHex uncommittedMerkleHash) height

/-- `getMerkleHash`. Beyond the hashes of empty trees there is `undefined`, which no method asks
for. -/
def getMerkleHash (tree : MerkleTree) (level : ℕ) : Except StateError Bytes :=
  match tree with
  | .undefined => do return (← createUncommittedMerkleHashes merkleHash height)[level]?.getD []
  | .leaf hex => .ok (bufferFromHex hex)
  | .node hash _ _ => .ok (bufferFromHex hash)

/-- `pairNodes`: a last leaf without a partner is paired with `undefined`. -/
def pairNodes : List MerkleTree → List (MerkleTree × MerkleTree)
  | [] => []
  | [a] => [(a, .undefined)]
  | a :: b :: leaves => (a, b) :: pairNodes leaves

/-- The node over a chunk. -/
def parentNode (level : ℕ) (chunk : MerkleTree × MerkleTree) : Except StateError MerkleTree := do
  let left ← getMerkleHash merkleHash height chunk.1 level
  let right ← getMerkleHash merkleHash height chunk.2 level
  let parentHash ← merkleHash level left right
  return .node (toHex parentHash) chunk.1 chunk.2

/-- `constructMerkleTree` at the level that is `remaining` below the height of the state. -/
def constructMerkleTree (level : ℕ) : ℕ → List MerkleTree → Except StateError MerkleTree
  | 0, [tree] => .ok tree
  | 0, _ => .error .TreeConstructionFailure
  | remaining + 1, leaves =>
    if leaves.length > 2 ^ remaining then .error .TreeConstructionFailure
    else do
      let updatedLeaves ← (pairNodes leaves).mapM (parentNode merkleHash height level)
      constructMerkleTree (level + 1) remaining updatedLeaves

/-- The tree of `getStateTree` over the commitments. -/
def stateTree (commitments : List JSString) : Except StateError MerkleTree :=
  constructMerkleTree merkleHash height 0 height (commitments.map .leaf)

/-- `validateMerkleTree`. -/
def validateMerkleTree (tree : MerkleTree) (expectedRoot : JSString) : Except StateError Unit := do
  let root ← getMerkleHash merkleHash height tree (height - 1)
  if toHex root = expectedRoot then return () else .error .InvalidMerkleRootError

/-- The root of the full tree over the commitments: where there is none, the leaf is the uncommitted
value. -/
def fullRoot (commitments : List JSString) : Except StateError Bytes :=
  PerfectTree.root merkleHash 0 height fun i =>
    .ok (bufferFromHex (commitments[i]?.getD uncommittedMerkleHash))

end tree

/-! ## The hashes of empty trees -/

variable {merkleHash : ℕ → Bytes → Bytes → Except StateError Bytes} {height : ℕ}

/-- Each hash is that of two trees one level down. -/
theorem uncommittedFrom_succ {i n k : ℕ} {hash : Bytes} {hashes : List Bytes}
    (h : uncommittedFrom merkleHash i hash n = .ok hashes) (hk : k < n) :
    merkleHash (i + k) (hashes[k]?.getD []) (hashes[k]?.getD []) =
      .ok (hashes[k + 1]?.getD []) := by
  induction n generalizing i hash hashes k with
  | zero => exact absurd hk (Nat.not_lt_zero k)
  | succ n ih =>
    rw [uncommittedFrom] at h
    obtain ⟨next, hnext, h⟩ := Except.bind_eq_ok.mp h
    obtain ⟨rest, hrest, h⟩ := Except.bind_eq_ok.mp h
    rw [Except.pure_eq_ok, Except.ok.injEq] at h
    subst h
    have hhead : rest[0]?.getD [] = next := by
      cases n with
      | zero =>
        rw [uncommittedFrom, Except.ok.injEq] at hrest
        rw [← hrest]
        rfl
      | succ n =>
        rw [uncommittedFrom] at hrest
        obtain ⟨_, -, hrest⟩ := Except.bind_eq_ok.mp hrest
        obtain ⟨_, -, hrest⟩ := Except.bind_eq_ok.mp hrest
        rw [Except.pure_eq_ok, Except.ok.injEq] at hrest
        rw [← hrest]
        rfl
    cases k with
    | zero =>
      rw [List.getElem?_cons_succ, hhead]
      exact hnext
    | succ k =>
      rw [List.getElem?_cons_succ, List.getElem?_cons_succ, Nat.add_succ, ← Nat.succ_add]
      exact ih hrest (Nat.lt_of_succ_lt_succ hk)

/-- An empty tree one level up is the node over two empty trees. -/
theorem getMerkleHash_undefined_succ {hashes : List Bytes}
    (h : createUncommittedMerkleHashes merkleHash height = .ok hashes) {level : ℕ}
    (hlevel : level < height) :
    getMerkleHash merkleHash height .undefined (level + 1) =
      PerfectTree.parent merkleHash level
        (fun _ => getMerkleHash merkleHash height .undefined level) 0 := by
  have hsucc := uncommittedFrom_succ h hlevel
  rw [Nat.zero_add] at hsucc
  simp only [PerfectTree.parent, getMerkleHash, h, Except.ok_bind, Except.pure_eq_ok, hsucc]

/-! ## The levels of the tree -/

/-- The hash at a place of a level. -/
def hashAt (merkleHash : ℕ → Bytes → Bytes → Except StateError Bytes) (height level : ℕ)
    (leaves : List MerkleTree) (i : ℕ) : Except StateError Bytes :=
  getMerkleHash merkleHash height (leaves[i]?.getD .undefined) level

theorem getElem?_pairNodes (leaves : List MerkleTree) (i : ℕ) :
    (pairNodes leaves)[i]? =
      leaves[2 * i]?.map fun left => (left, leaves[2 * i + 1]?.getD .undefined) := by
  induction leaves using pairNodes.induct generalizing i with
  | case1 => rfl
  | case2 a =>
    cases i with
    | zero => rfl
    | succ i => rfl
  | case3 a b leaves ih =>
    cases i with
    | zero => rfl
    | succ i => exact ih i

theorem length_pairNodes (leaves : List MerkleTree) :
    (pairNodes leaves).length = (leaves.length + 1) / 2 := by
  induction leaves using pairNodes.induct with
  | case1 => rfl
  | case2 a => simp [pairNodes]
  | case3 a b leaves ih =>
    rw [pairNodes, List.length_cons, ih, List.length_cons, List.length_cons]
    omega

/-- The hash of a node is the hash of what it stands over. -/
theorem hash_parentNode {level : ℕ} {chunk : MerkleTree × MerkleTree} {tree : MerkleTree}
    (h : parentNode merkleHash height level chunk = .ok tree) (level' : ℕ) :
    getMerkleHash merkleHash height tree level' = (do
      let left ← getMerkleHash merkleHash height chunk.1 level
      let right ← getMerkleHash merkleHash height chunk.2 level
      merkleHash level left right) := by
  rw [parentNode] at h
  obtain ⟨left, hleft, h⟩ := Except.bind_eq_ok.mp h
  obtain ⟨right, hright, h⟩ := Except.bind_eq_ok.mp h
  obtain ⟨hash, hhash, h⟩ := Except.bind_eq_ok.mp h
  rw [Except.pure_eq_ok, Except.ok.injEq] at h
  rw [← h, hleft, hright, Except.ok_bind, Except.ok_bind, hhash, getMerkleHash, bufferFromHex_toHex]

/-- One step of the construction joins the hashes of a level in pairs. -/
theorem hashAt_succ {hashes : List Bytes} {level : ℕ} {leaves updated : List MerkleTree}
    (huncommitted : createUncommittedMerkleHashes merkleHash height = .ok hashes)
    (hlevel : level < height)
    (h : (pairNodes leaves).mapM (parentNode merkleHash height level) = .ok updated) :
    hashAt merkleHash height (level + 1) updated =
      PerfectTree.parent merkleHash level (hashAt merkleHash height level leaves) := by
  funext i
  have hpair := getElem?_pairNodes leaves i
  obtain ⟨chunk, tree, hchunk, htree, hnode⟩ | ⟨hchunk, htree⟩ := Except.getElem?_of_mapM h i
  · rw [hchunk] at hpair
    obtain ⟨left, hleft, rfl⟩ := Option.map_eq_some_iff.mp hpair.symm
    rw [hashAt, htree, Option.getD_some, hash_parentNode hnode, PerfectTree.parent, hashAt, hashAt,
      hleft]
    rfl
  · rw [hchunk, eq_comm, Option.map_eq_none_iff] at hpair
    have hright : leaves[2 * i + 1]? = none := by
      rw [List.getElem?_eq_none_iff] at hpair ⊢
      omega
    have hempty := getMerkleHash_undefined_succ huncommitted hlevel
    rw [PerfectTree.parent] at hempty
    rw [hashAt, htree, Option.getD_none, hempty, PerfectTree.parent, hashAt, hashAt, hpair, hright]
    rfl

/-- The construction asks for the hashes of empty trees: the root itself has no right child. -/
theorem exists_uncommitted {level remaining : ℕ} {leaves : List MerkleTree} {tree : MerkleTree}
    (h : constructMerkleTree merkleHash height level (remaining + 1) leaves = .ok tree) :
    ∃ hashes, createUncommittedMerkleHashes merkleHash height = .ok hashes := by
  induction remaining generalizing level leaves with
  | zero =>
    rw [constructMerkleTree] at h
    by_cases hlen : leaves.length > 2 ^ 0
    · rw [if_pos hlen] at h
      cases h
    · rw [if_neg hlen] at h
      obtain ⟨updated, hupdated, htree⟩ := Except.bind_eq_ok.mp h
      match leaves, hlen, hupdated with
      | [], _, hupdated =>
        rw [pairNodes, List.mapM_nil, Except.pure_eq_ok, Except.ok.injEq] at hupdated
        rw [← hupdated] at htree
        cases htree
      | [a], _, hupdated =>
        rw [pairNodes, List.mapM_cons] at hupdated
        obtain ⟨node, hnode, -⟩ := Except.bind_eq_ok.mp hupdated
        rw [parentNode] at hnode
        obtain ⟨left, -, hnode⟩ := Except.bind_eq_ok.mp hnode
        obtain ⟨right, hright, -⟩ := Except.bind_eq_ok.mp hnode
        rw [getMerkleHash] at hright
        obtain ⟨hashes, hhashes, -⟩ := Except.bind_eq_ok.mp hright
        exact ⟨hashes, hhashes⟩
      | a :: b :: rest, hlen, _ => exact absurd (Nat.succ_lt_succ (Nat.zero_lt_succ _)) hlen
  | succ remaining ih =>
    rw [constructMerkleTree] at h
    by_cases hlen : leaves.length > 2 ^ (remaining + 1)
    · rw [if_pos hlen] at h
      cases h
    · rw [if_neg hlen] at h
      obtain ⟨updated, -, h⟩ := Except.bind_eq_ok.mp h
      exact ih h

/-- The tree over a level has the hash of the full tree over it. -/
theorem root_constructMerkleTree {hashes : List Bytes}
    (huncommitted : createUncommittedMerkleHashes merkleHash height = .ok hashes)
    {level remaining : ℕ} (hheight : level + remaining = height) {leaves : List MerkleTree}
    {tree : MerkleTree}
    (h : constructMerkleTree merkleHash height level remaining leaves = .ok tree) :
    PerfectTree.root merkleHash level remaining (hashAt merkleHash height level leaves) =
      getMerkleHash merkleHash height tree height := by
  induction remaining generalizing level leaves with
  | zero =>
    match leaves, h with
    | [a], h =>
      rw [constructMerkleTree, Except.ok.injEq] at h
      rw [← h, ← hheight]
      rfl
  | succ remaining ih =>
    rw [constructMerkleTree] at h
    by_cases hlen : leaves.length > 2 ^ remaining
    · rw [if_pos hlen] at h
      cases h
    · rw [if_neg hlen] at h
      obtain ⟨updated, hupdated, h⟩ := Except.bind_eq_ok.mp h
      rw [PerfectTree.root_succ_bottom, ← hashAt_succ huncommitted (by omega) hupdated]
      exact ih (by omega) h

/-- The nodes of a tree over committed leaves carry hashes. -/
theorem hash_constructMerkleTree {level remaining : ℕ} {leaves : List MerkleTree} {tree : MerkleTree}
    (hleaves : ∀ leaf ∈ leaves, leaf.hash.isSome)
    (h : constructMerkleTree merkleHash height level remaining leaves = .ok tree) :
    tree.hash.isSome := by
  induction remaining generalizing level leaves with
  | zero =>
    match leaves, h with
    | [a], h =>
      rw [constructMerkleTree, Except.ok.injEq] at h
      rw [← h]
      exact hleaves a List.mem_cons_self
  | succ remaining ih =>
    rw [constructMerkleTree] at h
    by_cases hlen : leaves.length > 2 ^ remaining
    · rw [if_pos hlen] at h
      cases h
    · rw [if_neg hlen] at h
      obtain ⟨updated, hupdated, h⟩ := Except.bind_eq_ok.mp h
      refine ih (fun node hnode => ?_) h
      obtain ⟨i, hi⟩ := List.mem_iff_getElem?.mp hnode
      obtain ⟨chunk, y, -, hy, hf⟩ | ⟨-, hnone⟩ := Except.getElem?_of_mapM hupdated i
      · rw [hi, Option.some.injEq] at hy
        subst hy
        rw [parentNode] at hf
        obtain ⟨_, -, hf⟩ := Except.bind_eq_ok.mp hf
        obtain ⟨_, -, hf⟩ := Except.bind_eq_ok.mp hf
        obtain ⟨_, -, hf⟩ := Except.bind_eq_ok.mp hf
        rw [Except.pure_eq_ok, Except.ok.injEq] at hf
        rw [← hf]
        rfl
      · rw [hi] at hnone
        cases hnone

/-- **The root of the tree over commitments has the hash of the full tree.** -/
theorem fullRoot_stateTree (merkleHash : ℕ → Bytes → Bytes → Except StateError Bytes) (height : ℕ)
    (commitments : List JSString) (tree : MerkleTree)
    (h : stateTree merkleHash height commitments = .ok tree) :
    ∃ hash, tree.hash = some hash ∧
      fullRoot merkleHash height commitments = .ok (bufferFromHex hash) := by
  obtain ⟨hash, hhash⟩ : ∃ hash, tree.hash = some hash := by
    refine Option.isSome_iff_exists.mp (hash_constructMerkleTree (fun leaf hleaf => ?_) h)
    obtain ⟨c, -, rfl⟩ := List.mem_map.mp hleaf
    rfl
  have hroot : getMerkleHash merkleHash height tree height = .ok (bufferFromHex hash) := by
    match tree, hhash with
    | .leaf hex, hhash => rw [← Option.some.inj hhash, getMerkleHash]
    | .node hex _ _, hhash => rw [← Option.some.inj hhash, getMerkleHash]
  refine ⟨hash, hhash, ?_⟩
  rw [← hroot, fullRoot]
  cases height with
  | zero =>
    match commitments, h with
    | [c], h =>
      rw [stateTree, List.map_singleton, constructMerkleTree, Except.ok.injEq] at h
      rw [← h]
      rfl
  | succ height =>
    obtain ⟨hashes, hhashes⟩ := exists_uncommitted h
    rw [← root_constructMerkleTree hhashes (Nat.zero_add _) h]
    refine congrArg (PerfectTree.root merkleHash 0 (height + 1)) ?_
    funext i
    rw [hashAt, List.getElem?_map]
    cases hi : commitments[i]? with
    | some c => rfl
    | none =>
      -- the first of the hashes of empty trees is the uncommitted value
      rw [createUncommittedMerkleHashes, uncommittedFrom] at hhashes
      obtain ⟨next, hnext, hhashes'⟩ := Except.bind_eq_ok.mp hhashes
      obtain ⟨rest, hrest, hhashes'⟩ := Except.bind_eq_ok.mp hhashes'
      rw [Option.map_none, Option.getD_none, Option.getD_none, getMerkleHash,
        createUncommittedMerkleHashes, uncommittedFrom, hnext, Except.ok_bind, hrest]
      rfl

/-- A tree of height one over one commitment. -/
theorem fullRoot_stateTree_one : ∃ hash, some (js "ff00") = some hash ∧
    fullRoot (fun _ _ right => .ok (255 :: right.drop 31)) 1 [js "01"] =
      .ok (bufferFromHex hash) :=
  fullRoot_stateTree (fun _ _ right => .ok (255 :: right.drop 31)) 1 [js "01"]
    (.node (js "ff00") (.leaf (js "01")) .undefined) (by rfl)

end Sapling
