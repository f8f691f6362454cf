import Mathlib.Algebra.BigOperators.Group.List.Basic
import Mathlib.Data.Rat.Floor
import Taquito.Operations.Types

/-!
# Fees of estimates

An `Estimate` rounds up what an operation needs: its gas with a buffer, and a fee for its gas and
its size. `prepareEstimate` divides the size of a batch among its operations, but for a reveal,
whose size is taken to be 64. Over a batch the fees make up for the base fee, the size and the gas
limits (`coversFees_iff`), unless it is a reveal alone, which is larger.
-/

open Operations (OpKind isOpWithFee)

namespace Estimates

/-! ## Estimates -/

/-- `MINIMAL_FEE_MUTEZ`. -/
def MINIMAL_FEE_MUTEZ : ℚ := 100

/-- `MINIMAL_FEE_PER_BYTE_MUTEZ`. -/
def MINIMAL_FEE_PER_BYTE_MUTEZ : ℚ := 1

/-- `MINIMAL_FEE_PER_GAS_MUTEZ`. -/
def MINIMAL_FEE_PER_GAS_MUTEZ : ℚ := 1 / 10

/-- `GAS_BUFFER`. -/
def GAS_BUFFER : ℚ := 100

/-- `EstimateProperties`. -/
structure EstimateProperties where
  milligasLimit : ℚ
  storageLimit : ℚ
  opSize : ℚ
  minimalFeePerStorageByteMutez : ℚ
  baseFeeMutez : Option ℚ

/-- `Estimate`. -/
structure Estimate where
  _milligasLimit : ℚ
  _storageLimit : ℚ
  opSize : ℚ
  minimalFeePerStorageByteMutez : ℚ
  baseFeeMutez : ℚ

namespace Estimate

/-- The constructor, with its default. -/
def new (p : EstimateProperties) : Estimate where
  _milligasLimit := p.milligasLimit
  _storageLimit := p.storageLimit
  opSize := p.opSize
  minimalFeePerStorageByteMutez := p.minimalFeePerStorageByteMutez
  baseFeeMutez := p.baseFeeMutez.getD MINIMAL_FEE_MUTEZ

/-- `roundUp`. -/
def roundUp (nanotez : ℚ) : ℤ := ⌈nanotez⌉

variable (e : Estimate)

/-- `storageLimit`. -/
def storageLimit : ℚ :=
  let limit := max e._storageLimit 0
  if limit > 0 then limit else 0

/-- `burnFeeMutez`. -/
def burnFeeMutez : ℤ := roundUp (e.storageLimit * e.minimalFeePerStorageByteMutez)

/-- `gasLimit`. -/
def gasLimit : ℤ := roundUp (e._milligasLimit / 1000 + GAS_BUFFER)

/-- `operationFeeMutez`. -/
def operationFeeMutez : ℚ :=
  (e._milligasLimit / 1000 + GAS_BUFFER) * MINIMAL_FEE_PER_GAS_MUTEZ +
    e.opSize * MINIMAL_FEE_PER_BYTE_MUTEZ

/-- `minimalFeeMutez`. -/
def minimalFeeMutez : ℤ := roundUp (MINIMAL_FEE_MUTEZ + e.operationFeeMutez)

/-- `suggestedFeeMutez`. -/
def suggestedFeeMutez : ℤ := roundUp (e.operationFeeMutez + MINIMAL_FEE_MUTEZ * 2)

/-- `usingBaseFeeMutez`. -/
def usingBaseFeeMutez : ℚ := max e.baseFeeMutez MINIMAL_FEE_MUTEZ + roundUp e.operationFeeMutez

/-- `totalCost`. -/
def totalCost : ℤ := e.minimalFeeMutez + e.burnFeeMutez

/-- `consumedMilligas`. -/
def consumedMilligas : ℚ := e._milligasLimit

end Estimate

/-- `createArrayEstimateInstancesFromProperties`. -/
def createArrayEstimateInstancesFromProperties (estimateProperties : List EstimateProperties) :
    List Estimate :=
  estimateProperties.map Estimate.new

/-! ## The estimates of a batch -/

/-- What the node reports of an operation or an internal one, as far as it is counted. The numbers
are `Number(…)` of the texts: `none` is `NaN`. -/
structure OperationResult where
  consumed_milligas : Option ℚ := none
  originated_contracts : Option ℕ := none
  allocated_destination_contract : Bool := false
  paid_storage_size_diff : Option ℚ := none
  global_address : Bool := false
  storage_size : Option ℚ := none
  originated_rollup : Bool := false
  genesis_commitment_hash : Bool := false
  size : Option ℚ := none

/-- One of the contents of the simulated operation, with `flattenOperationResult` of it. -/
structure Content where
  kind : OpKind
  operationResults : List OperationResult

/-- `ORIGINATION_STORAGE` and `ALLOCATION_STORAGE`. -/
def ORIGINATION_STORAGE : ℚ := 257

/-- `OP_SIZE_REVEAL`. -/
def OP_SIZE_REVEAL : ℚ := 128

/-- What one result adds to `totalStorage`. -/
def OperationResult.storage (tx_rollup_origination_size : ℚ) (result : OperationResult) :
    Option ℚ :=
  let known : ℚ :=
    (result.originated_contracts.getD 0 : ℚ) * ORIGINATION_STORAGE +
      (if result.allocated_destination_contract then ORIGINATION_STORAGE else 0) +
      result.paid_storage_size_diff.getD 0 +
      (if result.global_address then result.storage_size.getD 0 else 0) +
      (if result.originated_rollup then tx_rollup_origination_size else 0)
  if result.genesis_commitment_hash then result.size.map (known + ·) else some known

/-- `getEstimationPropertiesFromOperationContent`. -/
def getEstimationPropertiesFromOperationContent (content : Content) (size costPerByte : ℚ)
    (tx_rollup_origination_size : ℚ) : EstimateProperties :=
  let totalMilligas := (content.operationResults.map fun r => r.consumed_milligas.getD 0).sum
  let totalStorage : Option ℚ :=
    (content.operationResults.mapM (OperationResult.storage tx_rollup_origination_size)).map
      List.sum
  if isOpWithFee content.kind then
    { milligasLimit := totalMilligas, storageLimit := totalStorage.getD 0, opSize := size,
      minimalFeePerStorageByteMutez := costPerByte, baseFeeMutez := none }
  else
    { milligasLimit := 0, storageLimit := 0, opSize := size,
      minimalFeePerStorageByteMutez := costPerByte, baseFeeMutez := some 0 }

/-- `params.operation`: one operation, or an array of them, by their kinds. -/
inductive OperationParam where
  | single (kind : OpKind)
  | array (kinds : List OpKind)

/-- The kinds of the operations. -/
def OperationParam.kinds : OperationParam → List OpKind
  | .single kind => [kind]
  | .array kinds => kinds

/-- `numberOfOps`. -/
def numberOfOps (operation : OperationParam) (contents : List Content) : ℕ :=
  match operation with
  | .single _ => 1
  | .array kinds =>
    if 1 < kinds.length then
      if contents.head?.any fun c => c.kind = .REVEAL then kinds.length - 1 else kinds.length
    else 1

/-- `opSize` of one of the contents. -/
def opSize (operation : OperationParam) (opbytes : JSString) (contents : List Content)
    (content : Content) : ℚ :=
  if content.kind = .REVEAL then OP_SIZE_REVEAL / 2
  else (opbytes.length : ℚ) / 2 / numberOfOps operation contents

/-- What `prepareEstimate` makes of the forged operation and the answer of the node. -/
def prepareEstimate (operation : OperationParam) (opbytes : JSString) (contents : List Content)
    (cost_per_byte : ℚ) (tx_rollup_origination_size : Option ℚ) : List EstimateProperties :=
  contents.map fun x =>
    getEstimationPropertiesFromOperationContent x (opSize operation opbytes contents x)
      cost_per_byte (tx_rollup_origination_size.getD 0)

/-! ## What estimates cover -/

/-- The estimates of a batch of size `S` cover the fee that nodes ask for, and what it consumes. -/
structure CoversFees (S : ℕ) (estimates : List Estimate) : Prop where
  minimal : 100 + (S : ℚ) + (((estimates.map Estimate.gasLimit).sum : ℤ) : ℚ) / 10 ≤
    (((estimates.map Estimate.minimalFeeMutez).sum : ℤ) : ℚ)
  suggested : ∀ e ∈ estimates, e.minimalFeeMutez ≤ e.suggestedFeeMutez
  gas : ∀ e ∈ estimates, e.consumedMilligas / 1000 ≤ e.gasLimit

/-- The kinds of a batch: a reveal only stands in front. -/
def Formed (kinds : List OpKind) : Prop := kinds ≠ [] ∧ ∀ kind ∈ kinds.tail, kind ≠ .REVEAL

namespace Estimate

variable (e : Estimate)

theorem minimalFeeMutez_le_suggestedFeeMutez : e.minimalFeeMutez ≤ e.suggestedFeeMutez := by
  apply Int.ceil_le_ceil
  rw [MINIMAL_FEE_MUTEZ]
  linarith

theorem consumedMilligas_le_gasLimit : e.consumedMilligas / 1000 ≤ e.gasLimit := by
  have hceil : e._milligasLimit / 1000 + GAS_BUFFER ≤ e.gasLimit := Int.le_ceil _
  rw [GAS_BUFFER] at hceil
  rw [consumedMilligas]
  linarith

/-- A fee covers one gas unit less than the limit, the size and the base. -/
theorem le_minimalFeeMutez : 100 + e.opSize + ((e.gasLimit : ℚ) - 1) / 10 ≤ e.minimalFeeMutez := by
  have hfee : MINIMAL_FEE_MUTEZ + e.operationFeeMutez ≤ e.minimalFeeMutez := Int.le_ceil _
  have hgas : (e.gasLimit : ℚ) < e._milligasLimit / 1000 + GAS_BUFFER + 1 := Int.ceil_lt_add_one _
  rw [operationFeeMutez, MINIMAL_FEE_PER_BYTE_MUTEZ, MINIMAL_FEE_PER_GAS_MUTEZ, MINIMAL_FEE_MUTEZ]
    at hfee
  linarith

/-- The fee of an operation alone, whose size is a whole number: it is rounded up once. -/
theorem le_minimalFeeMutez_iff {size : ℕ} (hsize : e.opSize = size) (S : ℕ) :
    100 + (S : ℚ) + (e.gasLimit : ℚ) / 10 ≤ e.minimalFeeMutez ↔ S ≤ size := by
  have hfee : MINIMAL_FEE_MUTEZ + e.operationFeeMutez ≤ e.minimalFeeMutez := Int.le_ceil _
  have hlt : (e.minimalFeeMutez : ℚ) < MINIMAL_FEE_MUTEZ + e.operationFeeMutez + 1 :=
    Int.ceil_lt_add_one _
  rw [operationFeeMutez, MINIMAL_FEE_PER_BYTE_MUTEZ, MINIMAL_FEE_PER_GAS_MUTEZ, MINIMAL_FEE_MUTEZ,
    hsize] at hfee hlt
  have hgas : e._milligasLimit / 1000 + GAS_BUFFER ≤ e.gasLimit := Int.le_ceil _
  constructor
  · intro h
    have hS : (S : ℚ) < size + 1 := by linarith
    exact Nat.le_of_lt_succ (by exact_mod_cast hS)
  · intro h
    -- ten times what is left of the fee is a whole number of gas units
    have hlimit : e.gasLimit ≤ 10 * (e.minimalFeeMutez - 100 - size) := by
      apply Int.ceil_le.mpr
      push_cast
      linarith
    have hlimit : (e.gasLimit : ℚ) ≤ 10 * (e.minimalFeeMutez - 100 - size) := by
      exact_mod_cast hlimit
    have hS : (S : ℚ) ≤ size := by exact_mod_cast h
    linarith

end Estimate

/-- The fees of several operations cover each its base, and one gas unit less than its limit. -/
theorem sum_le_minimalFeeMutez (estimates : List Estimate) :
    100 * (estimates.length : ℚ) + (estimates.map Estimate.opSize).sum +
        ((((estimates.map Estimate.gasLimit).sum : ℤ) : ℚ) - estimates.length) / 10 ≤
      (((estimates.map Estimate.minimalFeeMutez).sum : ℤ) : ℚ) := by
  induction estimates with
  | nil => simp
  | cons e estimates ih =>
    have hfirst := e.le_minimalFeeMutez
    simp only [List.length_cons, List.map_cons, List.sum_cons, Nat.cast_add, Nat.cast_one,
      Int.cast_add]
    linarith

/-! ## Shares of the size -/

section shares

variable {operation : OperationParam} {opbytes : JSString} {contents : List Content}

theorem opSize_new (content : Content) (size costPerByte rollup : ℚ) :
    (Estimate.new (getEstimationPropertiesFromOperationContent content size costPerByte
      rollup)).opSize = size := by
  unfold getEstimationPropertiesFromOperationContent
  dsimp only
  split <;> rfl

theorem opSize_of_ne {S : ℕ} (hsize : opbytes.length = 2 * S) {content : Content}
    (h : content.kind ≠ .REVEAL) :
    opSize operation opbytes contents content = (S : ℚ) / numberOfOps operation contents := by
  rw [opSize, if_neg h, hsize]
  push_cast
  rw [mul_div_cancel_left₀ _ (by norm_num)]

/-- The size is divided among the operations but for a reveal in front. -/
theorem numberOfOps_array {first second : OpKind} {rest : List OpKind}
    (hkinds : contents.map Content.kind = first :: second :: rest)
    (hoperation : operation.kinds = first :: second :: rest) :
    numberOfOps operation contents =
      if first = .REVEAL then rest.length + 1 else rest.length + 2 := by
  obtain ⟨c, cs, rfl, rfl, -⟩ := List.map_eq_cons_iff.mp hkinds
  cases operation with
  | single kind => cases hoperation
  | array kinds =>
    obtain rfl : kinds = c.kind :: second :: rest := hoperation
    rw [numberOfOps, if_pos (by simp)]
    simp

/-- The shares of two operations or more make up the size. -/
theorem le_sum_opSize {S : ℕ} (hsize : opbytes.length = 2 * S) {first second : Content}
    {rest : List Content} (hcontents : contents = first :: second :: rest)
    (hkinds : contents.map Content.kind = operation.kinds) (hformed : Formed operation.kinds) :
    (S : ℚ) ≤ (contents.map (opSize operation opbytes contents)).sum := by
  have hlist : contents.map Content.kind =
      first.kind :: second.kind :: rest.map Content.kind := by rw [hcontents]; rfl
  have hN := numberOfOps_array hlist (hkinds ▸ hlist)
  rw [List.length_map] at hN
  -- all operations but the first have the same share
  have hrest : ((second :: rest).map (opSize operation opbytes contents)).sum =
      (rest.length + 1) * ((S : ℚ) / numberOfOps operation contents) := by
    have hshare : ∀ c ∈ second :: rest, opSize operation opbytes contents c =
        (S : ℚ) / numberOfOps operation contents := by
      intro c hc
      refine opSize_of_ne hsize (hformed.2 _ ?_)
      rw [← hkinds, hcontents]
      exact List.mem_map_of_mem hc
    rw [List.map_congr_left hshare, List.map_const', List.sum_replicate, nsmul_eq_mul,
      List.length_cons]
    push_cast
    rfl
  have hsum : (contents.map (opSize operation opbytes contents)).sum =
      opSize operation opbytes contents first +
        (rest.length + 1) * ((S : ℚ) / numberOfOps operation contents) := by
    rw [← hrest]
    conv_lhs => rw [hcontents]
    rw [List.map_cons, List.sum_cons, ← hcontents]
  rw [hsum]
  by_cases hreveal : first.kind = .REVEAL
  · rw [hN, if_pos hreveal, opSize, if_pos hreveal, OP_SIZE_REVEAL]
    push_cast
    rw [mul_div_cancel₀ _ (by positivity)]
    norm_num
  · rw [opSize_of_ne hsize hreveal, hN, if_neg hreveal]
    push_cast
    have hwhole : (S : ℚ) / (rest.length + 2) + (rest.length + 1) * (S / (rest.length + 2)) =
        (rest.length + 2) * (S / (rest.length + 2)) := by ring
    rw [hwhole, mul_div_cancel₀ _ (by positivity)]

end shares

/-- **A batch covers its fees unless it is a reveal alone.** -/
theorem coversFees_iff {operation : OperationParam} {opbytes : JSString} {contents : List Content}
    {S : ℕ} (hsize : opbytes.length = 2 * S)
    (hkinds : contents.map Content.kind = operation.kinds) (hformed : Formed operation.kinds)
    (cost_per_byte : ℚ) (tx_rollup_origination_size : Option ℚ) :
    CoversFees S (createArrayEstimateInstancesFromProperties
        (prepareEstimate operation opbytes contents cost_per_byte tx_rollup_origination_size)) ↔
      ¬ (operation.kinds = [.REVEAL] ∧ 64 < S) := by
  have hsuggested : ∀ e : Estimate, e.minimalFeeMutez ≤ e.suggestedFeeMutez :=
    Estimate.minimalFeeMutez_le_suggestedFeeMutez
  have hgas : ∀ e : Estimate, e.consumedMilligas / 1000 ≤ e.gasLimit :=
    Estimate.consumedMilligas_le_gasLimit
  rw [createArrayEstimateInstancesFromProperties, prepareEstimate, List.map_map]
  have hcovers (estimates : List Estimate) : CoversFees S estimates ↔
      100 + (S : ℚ) + (((estimates.map Estimate.gasLimit).sum : ℤ) : ℚ) / 10 ≤
        (((estimates.map Estimate.minimalFeeMutez).sum : ℤ) : ℚ) :=
    ⟨CoversFees.minimal, fun h => ⟨h, fun e _ => hsuggested e, fun e _ => hgas e⟩⟩
  rw [hcovers]
  rcases contents with _ | ⟨first, _ | ⟨second, rest⟩⟩
  · exact absurd hkinds.symm hformed.1
  · rw [List.map_singleton, List.map_singleton, List.map_singleton, List.sum_singleton,
      List.sum_singleton, Function.comp_apply, ← hkinds, List.map_singleton, List.cons.injEq,
      and_iff_left rfl]
    by_cases hreveal : first.kind = .REVEAL
    · have hshare : opSize operation opbytes [first] first = (64 : ℕ) := by
        rw [opSize, if_pos hreveal, OP_SIZE_REVEAL]
        norm_num
      rw [Estimate.le_minimalFeeMutez_iff _ ((opSize_new _ _ _ _).trans hshare)]
      simp [hreveal]
    · have hone : numberOfOps operation [first] = 1 := by
        cases operation with
        | single kind => rfl
        | array kinds =>
          obtain rfl : kinds = [first.kind] := hkinds.symm
          rfl
      have hshare : opSize operation opbytes [first] first = S := by
        rw [opSize_of_ne hsize hreveal, hone, Nat.cast_one, div_one]
      rw [Estimate.le_minimalFeeMutez_iff _ ((opSize_new _ _ _ _).trans hshare)]
      simp [hreveal]
  · refine iff_of_true ?_ ?_
    · have hsum := sum_le_minimalFeeMutez ((first :: second :: rest).map (Estimate.new ∘ fun x =>
        getEstimationPropertiesFromOperationContent x
          (opSize operation opbytes (first :: second :: rest) x) cost_per_byte
          (tx_rollup_origination_size.getD 0)))
      have hsizes := le_sum_opSize hsize rfl hkinds hformed
      rw [List.map_map (g := Estimate.opSize)] at hsum
      have hshares : (Estimate.opSize ∘ Estimate.new ∘ fun x =>
          getEstimationPropertiesFromOperationContent x
            (opSize operation opbytes (first :: second :: rest) x) cost_per_byte
            (tx_rollup_origination_size.getD 0)) =
          opSize operation opbytes (first :: second :: rest) := by
        funext x
        exact opSize_new x _ _ _
      rw [hshares, List.length_map, List.length_cons, List.length_cons] at hsum
      simp only [Nat.cast_add, Nat.cast_one] at hsum
      have hmany : (0 : ℚ) ≤ rest.length := Nat.cast_nonneg _
      linarith
    · rintro ⟨hkind, -⟩
      rw [← hkinds] at hkind
      exact absurd (List.cons.inj hkind).2 (List.cons_ne_nil _ _)

/-- What the node reports of an operation that consumes a million of milligas. -/
def simulated (kind : OpKind) : Content := ⟨kind, [{ consumed_milligas := some 1000000 }]⟩

/-- The octets of a reveal without a fee, as they are forged for an estimate. -/
def revealBytes : JSString :=
  Js.toHex (List.replicate 32 0 ++ [0x6b] ++ List.replicate 21 0 ++
    [0, 1, 0x80, 0xbd, 0x3f, 0xe0, 0xd4, 0x03] ++ List.replicate 33 0)

theorem coversFees_transactions :
    CoversFees 95 (createArrayEstimateInstancesFromProperties
      (prepareEstimate (.array [.TRANSACTION, .DELEGATION]) revealBytes
        [simulated .TRANSACTION, simulated .DELEGATION] 250 none)) :=
  (@coversFees_iff (.array [.TRANSACTION, .DELEGATION]) revealBytes
    [simulated .TRANSACTION, simulated .DELEGATION] 95 (by rw [revealBytes, Js.toHex_length]; rfl)
    rfl ⟨List.cons_ne_nil _ _, by decide⟩ 250 none).mpr fun h => absurd h.1 (by decide)

/-- A reveal alone is larger than it is taken to be. -/
theorem not_coversFees_reveal :
    ¬ CoversFees 95 (createArrayEstimateInstancesFromProperties
      (prepareEstimate (.single .REVEAL) revealBytes [simulated .REVEAL] 250 none)) := by
  intro h
  have hminimal := h.minimal
  simp [createArrayEstimateInstancesFromProperties, prepareEstimate, simulated, opSize,
    Estimate.new, getEstimationPropertiesFromOperationContent, isOpWithFee, OP_SIZE_REVEAL,
    Estimate.gasLimit, Estimate.minimalFeeMutez, Estimate.operationFeeMutez, Estimate.roundUp, GAS_BUFFER,
    MINIMAL_FEE_MUTEZ, MINIMAL_FEE_PER_BYTE_MUTEZ, MINIMAL_FEE_PER_GAS_MUTEZ] at hminimal
  norm_num at hminimal

end Estimates
