import Taquito.Sapling.State
import Taquito.Utils.Hex

/-!
# Witnesses, and the room in a commitment tree

`getNeighbouringHashes` walks from the root of a tree to a leaf and collects the hashes beside its
way; `getWitness` writes them from the root downwards. A tree over commitments is `Built`: each node
carries the hash of what it stands over, and where it has no right child, of an empty tree.
Folding the hashes of a witness from the leaf upwards (`climb`) therefore gives the hash of the
root (`getWitness_stateTree`).

A tree of height `H` is refused from `2 ^ (H - 1) + 1` leaves on
(`constructMerkleTree_capacity_iff`).
-/

open Js BigEndian Utils

namespace Sapling

/-- What a witness throws. -/
inductive WitnessError where
  /-- `new Error()`. -/
  | Error
  /-- `reduce` of an empty array. -/
  | TypeError
  /-- An error of `getMerkleHash`. -/
  | state (e : StateError)
  /-- An error of `hex2Bytes`. -/
  | utils (e : UtilsError)

section

variable (merkleHash : ℕ → Bytes → Bytes → Except StateError Bytes) (height : ℕ)

/-- `getNeighbouringHashes`, of the tree at a level. A node stands above the lowest level. -/
def getNeighbouringHashes (acc : List Bytes) (level position : ℕ) :
    MerkleTree → Except WitnessError (List Bytes)
  | .undefined => .error .Error
  | .leaf _ => .ok acc
  | .node _ left right =>
    let fullTree := 2 ^ (level - 1)
    if position < fullTree then do
      let hash ← (getMerkleHash merkleHash height right (level - 1)).mapError .state
      getNeighbouringHashes (hash :: acc) (level - 1) position left
    else do
      let hash ← (getMerkleHash merkleHash height left (level - 1)).mapError .state
      getNeighbouringHashes (hash :: acc) (level - 1) (position - fullTree) right

/-- A hash behind its length. -/
def lengthAndHash (hash : Bytes) : Except WitnessError Bytes := do
  let length ← (hex2Bytes (changeEndianness (num2PaddedHex hash.length 8))).mapError .utils
  return length ++ hash

/-- `getWitness`, of the tree of the state. -/
def getWitness (tree : MerkleTree) (position : ℕ) : Except WitnessError JSString := do
  let heightBuffer ← (hex2Bytes (changeEndianness (num2PaddedHex height 8))).mapError .utils
  let posBuffer ← (hex2Bytes (changeEndianness (num2PaddedHex position 64))).mapError .utils
  let neighbouringHashes ← getNeighbouringHashes merkleHash height [] height position tree
  let parts ← neighbouringHashes.mapM lengthAndHash
  match parts.reverse with
  | [] => .error .TypeError
  | part :: parts => return toHex (heightBuffer ++ parts.foldl (· ++ ·) part ++ posBuffer)

end

/-- The hash over a node and its sibling: the node stands on the side that the lowest bit of its
position tells. -/
def joinSides (merkleHash : ℕ → Bytes → Bytes → Except StateError Bytes) (level position : ℕ)
    (node sibling : Bytes) : Except StateError Bytes :=
  if position % 2 = 0 then merkleHash level node sibling else merkleHash level sibling node

/-- The hash that the siblings of a node and of what is above it lead to. -/
def climb (merkleHash : ℕ → Bytes → Bytes → Except StateError Bytes) (level position : ℕ)
    (node : Bytes) : List Bytes → Except StateError Bytes
  | [] => .ok node
  | sibling :: siblings => do
    let parent ← joinSides merkleHash level position node sibling
    climb merkleHash (level + 1) (position / 2) parent siblings

variable {merkleHash : ℕ → Bytes → Bytes → Except StateError Bytes} {height : ℕ}

/-! ## Trees whose nodes carry their hashes -/

/-- A tree of a height whose nodes carry their hashes; it may be empty. -/
inductive Built (merkleHash : ℕ → Bytes → Bytes → Except StateError Bytes) (height : ℕ) :
    ℕ → MerkleTree → Prop where
  | undefined (level : ℕ) : Built merkleHash height level .undefined
  | leaf (hex : JSString) : Built merkleHash height 0 (.leaf hex)
  | node {level : ℕ} {left right : MerkleTree} {l r hash : Bytes}
      (builtLeft : Built merkleHash height level left)
      (builtRight : Built merkleHash height level right)
      (hashLeft : getMerkleHash merkleHash height left level = .ok l)
      (hashRight : getMerkleHash merkleHash height right level = .ok r)
      (hashNode : merkleHash level l r = .ok hash) :
      Built merkleHash height (level + 1) (.node (toHex hash) left right)

/-- The leaf at a position of a tree of a height. -/
def MerkleTree.leafAt : ℕ → ℕ → MerkleTree → Option JSString
  | 0, 0, .leaf hex => some hex
  | level + 1, position, .node _ left right =>
    if position < 2 ^ level then leafAt level position left
    else leafAt level (position - 2 ^ level) right
  | _, _, _ => none

theorem leafAt_undefined (level position : ℕ) :
    MerkleTree.leafAt level position .undefined = none := by
  cases level <;> cases position <;> rfl

theorem leafAt_lt {level position : ℕ} {tree : MerkleTree} {hex : JSString}
    (h : tree.leafAt level position = some hex) : position < 2 ^ level := by
  fun_induction tree.leafAt level position with
  | case1 => exact Nat.one_pos
  | case2 level position hash left right hside ih =>
    have := ih h
    rw [Nat.pow_succ]
    omega
  | case3 level position hash left right hside ih =>
    have := ih h
    rw [Nat.pow_succ]
    omega
  | case4 => cases h

/-- The last sibling stands beside what the others lead to. -/
theorem climb_append {level position : ℕ} {node top : Bytes} {siblings : List Bytes}
    (h : climb merkleHash level position node siblings = .ok top) (sibling : Bytes) :
    climb merkleHash level position node (siblings ++ [sibling]) =
      joinSides merkleHash (level + siblings.length) (position / 2 ^ siblings.length) top
        sibling := by
  induction siblings generalizing level position node with
  | nil =>
    cases h
    rw [List.nil_append, climb, List.length_nil, pow_zero, Nat.div_one, Nat.add_zero]
    exact bind_pure _
  | cons s siblings ih =>
    rw [climb] at h
    obtain ⟨parent, hparent, h⟩ := Except.bind_eq_ok.mp h
    rw [List.cons_append, climb, hparent, Except.ok_bind, ih h, List.length_cons, Nat.pow_succ,
      Nat.mul_comm, ← Nat.div_div_eq_div_mul, Nat.add_assoc, Nat.add_comm 1]

/-- The bits above the siblings do not matter. -/
theorem climb_add {level position k : ℕ} {node : Bytes} {siblings : List Bytes} :
    climb merkleHash level (position + k * 2 ^ siblings.length) node siblings =
      climb merkleHash level position node siblings := by
  induction siblings generalizing level position k node with
  | nil => rfl
  | cons s siblings ih =>
    have hmul : k * 2 ^ (s :: siblings).length = 2 * (k * 2 ^ siblings.length) := by
      rw [List.length_cons, Nat.pow_succ]
      ring
    have hmod : (position + k * 2 ^ (s :: siblings).length) % 2 = position % 2 := by
      omega
    have hdiv : (position + k * 2 ^ (s :: siblings).length) / 2 =
        position / 2 + k * 2 ^ siblings.length := by
      omega
    simp only [climb, joinSides, hmod, hdiv, ih]

/-- **The hashes beside the way to a leaf lead back to the root.** -/
theorem neighbouringHashes_climb {level : ℕ} {tree : MerkleTree}
    (h : Built merkleHash height level tree) {position : ℕ} {hex : JSString}
    (hleaf : tree.leafAt level position = some hex) (acc : List Bytes) :
    ∃ siblings, getNeighbouringHashes merkleHash height acc level position tree =
        .ok (siblings ++ acc) ∧ siblings.length = level ∧
      climb merkleHash 0 position (bufferFromHex hex) siblings =
        getMerkleHash merkleHash height tree level := by
  induction h generalizing position acc with
  | undefined level =>
    rw [leafAt_undefined] at hleaf
    cases hleaf
  | leaf hex' =>
    obtain rfl : position = 0 := Nat.lt_one_iff.mp (leafAt_lt hleaf)
    cases hleaf
    exact ⟨[], rfl, rfl, rfl⟩
  | @node level left right l r hash hbl hbr hl hr hnode ihl ihr =>
    rw [MerkleTree.leafAt] at hleaf
    by_cases hside : position < 2 ^ level
    · rw [if_pos hside] at hleaf
      obtain ⟨siblings, hsiblings, hlen, hclimb⟩ := ihl hleaf (r :: acc)
      refine ⟨siblings ++ [r], ?_, by simp [hlen], ?_⟩
      · rw [getNeighbouringHashes]
        simp only [Nat.add_sub_cancel, if_pos hside, hr]
        simpa [Except.mapError] using hsiblings
      · rw [hl] at hclimb
        rw [climb_append hclimb, hlen, Nat.div_eq_of_lt hside, Nat.zero_add, joinSides, if_pos rfl,
          hnode, getMerkleHash, bufferFromHex_toHex]
    · rw [if_neg hside] at hleaf
      obtain ⟨siblings, hsiblings, hlen, hclimb⟩ := ihr hleaf (l :: acc)
      have hlt := leafAt_lt hleaf
      have hposition : position = position - 2 ^ level + 1 * 2 ^ siblings.length := by
        rw [hlen]
        omega
      refine ⟨siblings ++ [l], ?_, by simp [hlen], ?_⟩
      · rw [getNeighbouringHashes]
        simp only [Nat.add_sub_cancel, if_neg hside, hl]
        simpa [Except.mapError] using hsiblings
      · -- above its own subtree the node stands on the right
        have hbit : position / 2 ^ siblings.length = 1 := by
          rw [hlen, Nat.div_eq_iff (by positivity)]
          omega
        have hclimb : climb merkleHash 0 position (bufferFromHex hex) siblings = .ok r := by
          rw [hposition, climb_add, hclimb, hr]
        rw [climb_append hclimb, hbit, hlen, Nat.zero_add, joinSides, if_neg Nat.one_ne_zero, hnode,
          getMerkleHash, bufferFromHex_toHex]

/-! ## The trees of the construction -/

theorem built_parentNode {level : ℕ} {chunk : MerkleTree × MerkleTree} {tree : MerkleTree}
    (h : parentNode merkleHash height level chunk = .ok tree)
    (hleft : Built merkleHash height level chunk.1)
    (hright : Built merkleHash height level chunk.2) :
    Built merkleHash height (level + 1) tree ∧ ∃ hash, tree = .node hash chunk.1 chunk.2 := by
  rw [parentNode] at h
  obtain ⟨l, hl, h⟩ := Except.bind_eq_ok.mp h
  obtain ⟨r, hr, h⟩ := Except.bind_eq_ok.mp h
  obtain ⟨hash, hhash, h⟩ := Except.bind_eq_ok.mp h
  rw [Except.pure_eq_ok, Except.ok.injEq] at h
  subst h
  exact ⟨.node hleft hright hl hr hhash, _, rfl⟩

/-- The trees of the next level stand over two of this one. -/
theorem getElem?_updatedLeaves {level : ℕ} {leaves updated : List MerkleTree}
    (h : (pairNodes leaves).mapM (parentNode merkleHash height level) = .ok updated)
    (hleaves : ∀ leaf ∈ leaves, Built merkleHash height level leaf) (i : ℕ) :
    (∃ hash, updated[i]? = some (.node hash (leaves[2 * i]?.getD .undefined)
        (leaves[2 * i + 1]?.getD .undefined)) ∧
      Built merkleHash height (level + 1) (updated[i]?.getD .undefined)) ∨
    updated[i]? = none ∧ leaves[2 * i]? = none ∧ leaves[2 * i + 1]? = none := by
  have hbuilt (j : ℕ) : Built merkleHash height level (leaves[j]?.getD .undefined) := by
    cases hj : leaves[j]? with
    | none => exact .undefined level
    | some leaf => exact hleaves leaf (List.mem_of_getElem? hj)
  have hpair := getElem?_pairNodes leaves i
  obtain ⟨chunk, tree, hchunk, htree, hnode⟩ | ⟨hchunk, htree⟩ := Except.getElem?_of_mapM h i
  · rw [hchunk] at hpair
    obtain ⟨left, hleft, rfl⟩ := Option.map_eq_some_iff.mp hpair.symm
    have hbuiltLeft := hbuilt (2 * i)
    rw [hleft] at hbuiltLeft
    obtain ⟨htreeBuilt, hash, rfl⟩ := built_parentNode hnode hbuiltLeft (hbuilt (2 * i + 1))
    refine .inl ⟨hash, ?_, ?_⟩
    · rw [htree, hleft]
      rfl
    · rw [htree]
      exact htreeBuilt
  · rw [hchunk, eq_comm, Option.map_eq_none_iff] at hpair
    refine .inr ⟨htree, hpair, ?_⟩
    rw [List.getElem?_eq_none_iff] at hpair ⊢
    omega

/-- The tree over a level is built, and its leaves are those of the trees of the level in turn. -/
theorem built_constructMerkleTree {level remaining : ℕ} {leaves : List MerkleTree}
    {tree : MerkleTree}
    (h : constructMerkleTree merkleHash height level remaining leaves = .ok tree)
    (hleaves : ∀ leaf ∈ leaves, Built merkleHash height level leaf) :
    Built merkleHash height (level + remaining) tree ∧ ∀ q r, r < 2 ^ level →
      tree.leafAt (level + remaining) (q * 2 ^ level + r) =
        (leaves[q]?.getD .undefined).leafAt level r := by
  induction remaining generalizing level leaves with
  | zero =>
    match leaves, h with
    | [a], h =>
      rw [constructMerkleTree, Except.ok.injEq] at h
      subst h
      refine ⟨hleaves a List.mem_cons_self, fun q r hr => ?_⟩
      cases q with
      | zero =>
        rw [Nat.zero_mul, Nat.zero_add]
        rfl
      | succ q =>
        rw [List.getElem?_cons_succ, List.getElem?_nil, Option.getD_none, leafAt_undefined,
          Option.eq_none_iff_forall_ne_some]
        intro hex hleaf
        have hlt : (q + 1) * 2 ^ level + r < 2 ^ level := leafAt_lt hleaf
        rw [Nat.succ_mul] at hlt
        omega
  | succ remaining ih =>
    rw [constructMerkleTree] at h
    by_cases hlen : leaves.length > 2 ^ remaining
    · rw [if_pos hlen] at h
      cases h
    · rw [if_neg hlen] at h
      obtain ⟨updated, hupdated, h⟩ := Except.bind_eq_ok.mp h
      have hnext := getElem?_updatedLeaves hupdated hleaves
      obtain ⟨hbuilt, hleafAt⟩ := ih h fun node hnode => by
        obtain ⟨i, hi⟩ := List.mem_iff_getElem?.mp hnode
        obtain ⟨hash, -, hbuilt⟩ | ⟨hnone, -⟩ := hnext i
        · rwa [hi] at hbuilt
        · rw [hi] at hnone
          cases hnone
      rw [Nat.add_right_comm] at hbuilt hleafAt
      refine ⟨hbuilt, fun q r hr => ?_⟩
      -- a position of this level is one of the next, with the lowest bit as its side
      have hposition : q * 2 ^ level + r =
          q / 2 * 2 ^ (level + 1) + (q % 2 * 2 ^ level + r) := by
        conv_lhs => rw [← Nat.div_add_mod q 2]
        rw [Nat.pow_succ]
        ring
      have hlt : q % 2 * 2 ^ level + r < 2 ^ (level + 1) := by
        rw [Nat.pow_succ]
        obtain hq | hq := Nat.mod_two_eq_zero_or_one q <;> rw [hq] <;> omega
      rw [hposition]
      show tree.leafAt (level + remaining + 1) _ = _
      rw [hleafAt _ _ hlt]
      obtain ⟨hash, htree, -⟩ | ⟨hnone, hleft, hright⟩ := hnext (q / 2)
      · rw [htree, Option.getD_some, MerkleTree.leafAt]
        obtain hq | hq := Nat.mod_two_eq_zero_or_one q
        · rw [hq, Nat.zero_mul, Nat.zero_add, if_pos hr, show 2 * (q / 2) = q by omega]
        · rw [hq, Nat.one_mul, if_neg (by omega), Nat.add_sub_cancel_left,
            show 2 * (q / 2) + 1 = q by omega]
      · have hq : leaves[q]? = none := by
          rw [List.getElem?_eq_none_iff] at hleft hright ⊢
          omega
        rw [hnone, hq, Option.getD_none, leafAt_undefined, leafAt_undefined]

/-- The hash of the root is read off the tree. -/
theorem getMerkleHash_eq_of_leafAt {level position : ℕ} {tree : MerkleTree} {hex : JSString}
    (h : tree.leafAt level position = some hex) (level' : ℕ) : ∃ root, tree.hash = some root ∧
      getMerkleHash merkleHash height tree level' = .ok (bufferFromHex root) := by
  cases tree with
  | undefined =>
    rw [leafAt_undefined] at h
    cases h
  | leaf hex => exact ⟨hex, rfl, rfl⟩
  | node hash left right => exact ⟨hash, rfl, rfl⟩

/-! ## The text of a witness -/

/-- The octets of a hash behind those of its length, the lowest first. -/
def witnessPart (hash : Bytes) : Bytes := (toHexBuf hash.length 8).reverse ++ hash

theorem lengthAndHash_eq (hash : Bytes) : lengthAndHash hash = .ok (witnessPart hash) := by
  rw [lengthAndHash, hex2Bytes_changeEndianness]
  rfl

theorem mapM_lengthAndHash (hashes : List Bytes) :
    hashes.mapM lengthAndHash = .ok (hashes.map witnessPart) := by
  induction hashes with
  | nil => rfl
  | cons hash hashes ih => rw [List.mapM_cons, lengthAndHash_eq, Except.ok_bind, ih]; rfl

theorem foldl_append_eq_flatten (part : Bytes) (parts : List Bytes) :
    parts.foldl (· ++ ·) part = (part :: parts).flatten := by
  induction parts generalizing part with
  | nil => rw [List.foldl_nil, List.flatten_singleton]
  | cons p parts ih => rw [List.foldl_cons, ih, List.flatten_cons, List.flatten_cons,
      List.flatten_cons, List.append_assoc]

/-- The hashes stand in the witness from the root downwards, between the height and the position. -/
theorem getWitness_eq {tree : MerkleTree} {position : ℕ} {hashes : List Bytes}
    (h : getNeighbouringHashes merkleHash height [] height position tree = .ok hashes)
    (hne : hashes ≠ []) :
    getWitness merkleHash height tree position =
      .ok (toHex ((toHexBuf height 8).reverse ++ hashes.reverse.flatMap witnessPart ++
        (toHexBuf position 64).reverse)) := by
  obtain ⟨hash, rest, hrev⟩ := List.exists_cons_of_ne_nil (mt List.reverse_eq_nil_iff.mp hne)
  rw [getWitness, hex2Bytes_changeEndianness, hex2Bytes_changeEndianness, h]
  simp only [Except.mapError, Except.ok_bind, mapM_lengthAndHash, ← List.map_reverse, hrev,
    List.map_cons]
  rw [foldl_append_eq_flatten, ← List.map_cons, List.flatMap]
  rfl

/-- **The witness of a position leads from its leaf to the root.** There is one sibling for each
level, and `getWitness` writes them between the height and the position. -/
theorem getWitness_stateTree (merkleHash : ℕ → Bytes → Bytes → Except StateError Bytes) (height : ℕ)
    (commitments : List JSString) (tree : MerkleTree)
    (h : stateTree merkleHash height commitments = .ok tree) (position : ℕ) (commitment : JSString)
    (hposition : commitments[position]? = some commitment) : ∃ siblings root,
      getNeighbouringHashes merkleHash height [] height position tree = .ok siblings ∧
      siblings.length = height ∧ tree.hash = some root ∧
      climb merkleHash 0 position (bufferFromHex commitment) siblings = .ok (bufferFromHex root) ∧
      (0 < height → getWitness merkleHash height tree position =
        .ok (toHex ((toHexBuf height 8).reverse ++ siblings.reverse.flatMap witnessPart ++
          (toHexBuf position 64).reverse))) := by
  obtain ⟨hbuilt, hleafAt⟩ := built_constructMerkleTree h fun leaf hleaf => by
    obtain ⟨c, -, rfl⟩ := List.mem_map.mp hleaf
    exact .leaf c
  have hleaf : tree.leafAt height position = some commitment := by
    have hat := hleafAt position 0 Nat.one_pos
    rw [Nat.zero_add, pow_zero, Nat.mul_one, Nat.add_zero, List.getElem?_map, hposition] at hat
    exact hat
  rw [Nat.zero_add] at hbuilt
  obtain ⟨siblings, hsiblings, hlen, hclimb⟩ := neighbouringHashes_climb hbuilt hleaf []
  obtain ⟨root, hroot, hhash⟩ :=
    @getMerkleHash_eq_of_leafAt merkleHash height _ _ _ _ hleaf height
  rw [List.append_nil] at hsiblings
  refine ⟨siblings, root, hsiblings, hlen, hroot, hclimb.trans hhash, fun hpos => ?_⟩
  refine getWitness_eq hsiblings ?_
  rw [← List.length_pos_iff_ne_nil, hlen]
  exact hpos

/-- Two commitments in a tree of height two. -/
theorem getWitness_stateTree_two : ∃ siblings root,
    getNeighbouringHashes (fun _ left right => .ok (left.take 1 ++ right.take 1)) 2 [] 2 1
        (.node (js "0a01") (.node (js "0a0b") (.leaf (js "0a")) (.leaf (js "0b"))) .undefined) =
      .ok siblings ∧
    siblings.length = 2 ∧ some (js "0a01") = some root ∧
    climb (fun _ left right => .ok (left.take 1 ++ right.take 1)) 0 1 (bufferFromHex (js "0b"))
      siblings = .ok (bufferFromHex root) ∧
    (0 < 2 → getWitness (fun _ left right => .ok (left.take 1 ++ right.take 1)) 2
        (.node (js "0a01") (.node (js "0a0b") (.leaf (js "0a")) (.leaf (js "0b"))) .undefined) 1 =
      .ok (toHex ((toHexBuf 2 8).reverse ++ siblings.reverse.flatMap witnessPart ++
        (toHexBuf 1 64).reverse))) :=
  getWitness_stateTree (fun _ left right => .ok (left.take 1 ++ right.take 1)) 2
    [js "0a", js "0b"] _ rfl 1 (js "0b") rfl

/-! ## The room in a tree -/

/-- The octets that the library takes for hashes: it joins any two of them to a third. -/
structure JoinsHashes (merkleHash : ℕ → Bytes → Bytes → Except StateError Bytes)
    (IsHash : Bytes → Prop) : Prop where
  uncommitted : IsHash (bufferFromHex uncommittedMerkleHash)
  join (level : ℕ) {left right : Bytes} : IsHash left → IsHash right →
    ∃ hash, merkleHash level left right = .ok hash ∧ IsHash hash

variable {IsHash : Bytes → Prop}

/-- A tree that is empty or carries a hash. -/
def Hashed (IsHash : Bytes → Prop) (tree : MerkleTree) : Prop :=
  ∀ hex, tree.hash = some hex → IsHash (bufferFromHex hex)

theorem JoinsHashes.uncommittedFrom_ok (hjoins : JoinsHashes merkleHash IsHash) (i n : ℕ)
    {hash : Bytes} (h : IsHash hash) : ∃ hashes, uncommittedFrom merkleHash i hash n = .ok hashes ∧
      hashes.length = n + 1 ∧ ∀ hash ∈ hashes, IsHash hash := by
  induction n generalizing i hash with
  | zero => exact ⟨[hash], rfl, rfl, by simpa using h⟩
  | succ n ih =>
    obtain ⟨next, hnext, hnextHash⟩ := hjoins.join i h h
    obtain ⟨hashes, hhashes, hlen, hall⟩ := ih (i + 1) hnextHash
    refine ⟨hash :: hashes, ?_, by rw [List.length_cons, hlen], ?_⟩
    · rw [uncommittedFrom, hnext, Except.ok_bind, hhashes]
      rfl
    · rintro x (_ | ⟨_, hx⟩)
      · exact h
      · exact hall x hx

theorem JoinsHashes.getMerkleHash_ok (hjoins : JoinsHashes merkleHash IsHash) {tree : MerkleTree}
    (htree : Hashed IsHash tree) {level : ℕ} (hlevel : level ≤ height) :
    ∃ hash, getMerkleHash merkleHash height tree level = .ok hash ∧ IsHash hash := by
  cases tree with
  | undefined =>
    obtain ⟨hashes, hhashes, hlen, hall⟩ := hjoins.uncommittedFrom_ok 0 height hjoins.uncommitted
    have hlt : level < hashes.length := by omega
    have hat : hashes[level]? = some hashes[level] := List.getElem?_eq_getElem hlt
    refine ⟨hashes[level], ?_, hall _ (List.getElem_mem hlt)⟩
    rw [getMerkleHash, createUncommittedMerkleHashes, hhashes, Except.ok_bind, hat]
    rfl
  | leaf hex => exact ⟨_, rfl, htree hex rfl⟩
  | node hash left right => exact ⟨_, rfl, htree hash rfl⟩

theorem JoinsHashes.parentNode_ok (hjoins : JoinsHashes merkleHash IsHash) {level : ℕ}
    (hlevel : level ≤ height) {chunk : MerkleTree × MerkleTree} (hleft : Hashed IsHash chunk.1)
    (hright : Hashed IsHash chunk.2) :
    ∃ tree, parentNode merkleHash height level chunk = .ok tree ∧ Hashed IsHash tree := by
  obtain ⟨left, hl, hlHash⟩ := hjoins.getMerkleHash_ok hleft hlevel
  obtain ⟨right, hr, hrHash⟩ := hjoins.getMerkleHash_ok hright hlevel
  obtain ⟨hash, hhash, hashHash⟩ := hjoins.join level hlHash hrHash
  refine ⟨.node (toHex hash) chunk.1 chunk.2, ?_, fun hex hhex => ?_⟩
  · rw [parentNode, hl, Except.ok_bind, hr, Except.ok_bind, hhash]
    rfl
  · cases hhex
    rw [bufferFromHex_toHex]
    exact hashHash

theorem hashed_of_mem_pairNodes {leaves : List MerkleTree}
    (hleaves : ∀ leaf ∈ leaves, Hashed IsHash leaf) :
    ∀ chunk ∈ pairNodes leaves, Hashed IsHash chunk.1 ∧ Hashed IsHash chunk.2 := by
  induction leaves using pairNodes.induct with
  | case1 =>
    intro chunk hchunk
    cases hchunk
  | case2 a =>
    intro chunk hchunk
    rw [pairNodes, List.mem_singleton] at hchunk
    subst hchunk
    refine ⟨hleaves a List.mem_cons_self, fun hex h => ?_⟩
    cases h
  | case3 a b leaves ih =>
    intro chunk hchunk
    rw [pairNodes, List.mem_cons] at hchunk
    obtain rfl | hchunk := hchunk
    · exact ⟨hleaves a (by simp), hleaves b (by simp)⟩
    · exact ih (fun leaf hleaf => hleaves leaf (by simp [hleaf])) chunk hchunk

theorem JoinsHashes.mapM_parentNode_ok (hjoins : JoinsHashes merkleHash IsHash) {level : ℕ}
    (hlevel : level ≤ height) {chunks : List (MerkleTree × MerkleTree)}
    (hchunks : ∀ chunk ∈ chunks, Hashed IsHash chunk.1 ∧ Hashed IsHash chunk.2) :
    ∃ trees, chunks.mapM (parentNode merkleHash height level) = .ok trees ∧
      trees.length = chunks.length ∧ ∀ tree ∈ trees, Hashed IsHash tree := by
  induction chunks with
  | nil =>
    refine ⟨[], rfl, rfl, fun tree htree => ?_⟩
    cases htree
  | cons chunk chunks ih =>
    obtain ⟨hleft, hright⟩ := hchunks chunk List.mem_cons_self
    obtain ⟨tree, htree, htreeHash⟩ := hjoins.parentNode_ok hlevel hleft hright
    obtain ⟨trees, htrees, hlen, hall⟩ :=
      ih fun chunk hchunk => hchunks chunk (List.mem_cons_of_mem _ hchunk)
    refine ⟨tree :: trees, ?_, by rw [List.length_cons, hlen, List.length_cons], ?_⟩
    · rw [List.mapM_cons, htree, Except.ok_bind, htrees]
      rfl
    · rintro x (_ | ⟨_, hx⟩)
      · exact htreeHash
      · exact hall x hx

/-- Below the root a level has room for half of what would fit. -/
theorem JoinsHashes.constructMerkleTree_ok_iff (hjoins : JoinsHashes merkleHash IsHash)
    {level remaining : ℕ} (hheight : level + (remaining + 1) = height) {leaves : List MerkleTree}
    (hne : leaves ≠ []) (hleaves : ∀ leaf ∈ leaves, Hashed IsHash leaf) :
    (∃ tree, constructMerkleTree merkleHash height level (remaining + 1) leaves = .ok tree) ↔
      leaves.length ≤ 2 ^ remaining := by
  have hpos : 0 < leaves.length := List.length_pos_of_ne_nil hne
  induction remaining generalizing level leaves with
  | zero =>
    rw [constructMerkleTree]
    by_cases hlen : leaves.length > 2 ^ 0
    · rw [if_pos hlen]
      constructor
      · rintro ⟨tree, h⟩
        cases h
      · intro h
        exact absurd h (Nat.not_le_of_lt hlen)
    · obtain ⟨trees, htrees, htreesLen, -⟩ :=
        hjoins.mapM_parentNode_ok (show level ≤ height by omega) (hashed_of_mem_pairNodes hleaves)
      rw [length_pairNodes] at htreesLen
      rw [if_neg hlen, htrees, Except.ok_bind]
      obtain ⟨tree, rfl⟩ : ∃ tree, trees = [tree] := by
        apply List.length_eq_one_iff.mp
        rw [htreesLen]
        omega
      exact iff_of_true ⟨tree, rfl⟩ (Nat.le_of_not_lt hlen)
  | succ remaining ih =>
    rw [constructMerkleTree]
    by_cases hlen : leaves.length > 2 ^ (remaining + 1)
    · rw [if_pos hlen]
      constructor
      · rintro ⟨tree, h⟩
        cases h
      · intro h
        exact absurd h (Nat.not_le_of_lt hlen)
    · obtain ⟨trees, htrees, htreesLen, htreesHash⟩ :=
        hjoins.mapM_parentNode_ok (show level ≤ height by omega) (hashed_of_mem_pairNodes hleaves)
      rw [length_pairNodes] at htreesLen
      have htreesPos : 0 < trees.length := by omega
      have hrest := ih (show level + 1 + (remaining + 1) = height by omega)
        (List.length_pos_iff_ne_nil.mp htreesPos) htreesHash htreesPos
      rw [if_neg hlen, htrees, Except.ok_bind]
      refine hrest.trans ?_
      rw [htreesLen]
      rw [Nat.pow_succ] at hlen ⊢
      omega

/-- **A tree is refused as soon as it is more than half full.** It is built exactly for what fits
a tree of its height if that is at most half of it, or does not fit at all. -/
theorem constructMerkleTree_capacity_iff
    (merkleHash : ℕ → Bytes → Bytes → Except StateError Bytes) (IsHash : Bytes → Prop)
    (hjoins : JoinsHashes merkleHash IsHash) (height : ℕ) (hheight : 1 ≤ height)
    (commitments : List JSString) (hne : 1 ≤ commitments.length)
    (hcommitments : ∀ c ∈ commitments, IsHash (bufferFromHex c)) :
    ((∃ tree, constructMerkleTree merkleHash height 0 height (commitments.map .leaf) = .ok tree) ↔
        commitments.length ≤ 2 ^ height) ↔
      commitments.length ≤ 2 ^ (height - 1) ∨ 2 ^ height < commitments.length := by
  obtain ⟨remaining, rfl⟩ : ∃ remaining, height = remaining + 1 := ⟨height - 1, by omega⟩
  have hleaves : ∀ leaf ∈ commitments.map MerkleTree.leaf, Hashed IsHash leaf := by
    intro leaf hleaf hex hhex
    obtain ⟨c, hc, rfl⟩ := List.mem_map.mp hleaf
    cases hhex
    exact hcommitments hex hc
  have hleavesNe : commitments.map MerkleTree.leaf ≠ [] := by
    rw [← List.length_pos_iff_ne_nil, List.length_map]
    exact hne
  have hok := hjoins.constructMerkleTree_ok_iff (Nat.zero_add (remaining + 1)) hleavesNe hleaves
  rw [List.length_map] at hok
  refine (iff_congr hok Iff.rfl).trans ?_
  rw [Nat.add_sub_cancel, Nat.pow_succ]
  omega

/-- One leaf in a tree of height one. -/
theorem constructMerkleTree_capacity_one :
    ((∃ tree, constructMerkleTree (fun _ left _ => .ok left) 1 0 1 ([js "0a"].map .leaf) =
        .ok tree) ↔ [js "0a"].length ≤ 2 ^ 1) ↔
      [js "0a"].length ≤ 2 ^ (1 - 1) ∨ 2 ^ 1 < [js "0a"].length :=
  constructMerkleTree_capacity_iff (fun _ left _ => .ok left) (fun _ => True)
    ⟨trivial, fun _ {left} {_} _ _ => ⟨left, rfl, trivial⟩⟩ 1 (by decide) [js "0a"] (by decide)
    fun _ _ => trivial

/-- Two leaves fit in a tree of height one and are refused. -/
theorem constructMerkleTree_two_leaves :
    ¬ ((∃ tree, constructMerkleTree (fun _ left _ => .ok left) 1 0 1
        ([js "0a", js "0b"].map .leaf) = .ok tree) ↔ [js "0a", js "0b"].length ≤ 2 ^ 1) := by
  intro h
  obtain ⟨tree, htree⟩ := h.mpr (by decide)
  cases htree

end Sapling
