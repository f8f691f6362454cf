import Taquito.Lib.Loops
import Taquito.Lib.Throws
import Taquito.Operations.SendPath

/-!
# Batches

`OperationBatch.send` lets the estimator simulate its operations and then walks along them and the
estimates with one index. The first estimate is that of a reveal if the estimator has read the
account as not revealed, and the index starts behind it if the batch has: the batch gives every
operation its own estimate exactly if the two reads come to the same (`aligned_iff`), estimates
apart that nobody looks at.
-/

open Js

namespace Operations

variable {ρ : Type}

/-! ## Operations of a batch -/

/-- `ParamsWithKind`: the limits, and the parameters of the kind. -/
structure ParamsWithKind (ρ : Type) where
  kind : OpKind
  fee : Option JSNumber
  gasLimit : Option JSNumber
  storageLimit : Option JSNumber
  params : ρ

/-- `{ ...op, ...limits }`. -/
def ParamsWithKind.withLimits (op : ParamsWithKind ρ) (e : Estimate) : ParamsWithKind ρ :=
  { op with fee := some e.suggestedFeeMutez, gasLimit := some e.gasLimit,
            storageLimit := some e.storageLimit }

/-- `{ ...op }`. -/
def ParamsWithKind.copy (op : ParamsWithKind ρ) : RPCOperation ρ :=
  { RPCOperation.ofKind op.kind with
    fee := op.fee.map .number, gas_limit := op.gasLimit.map .number,
    storage_limit := op.storageLimit.map .number, rest := some op.params }

/-- `mergeLimits`. -/
def ParamsWithKind.mergeLimits (op : ParamsWithKind ρ) (defaultLimits : Estimate) :
    ParamsWithKind ρ :=
  op.withLimits
    ⟨op.fee.getD defaultLimits.suggestedFeeMutez, op.gasLimit.getD defaultLimits.gasLimit,
      op.storageLimit.getD defaultLimits.storageLimit⟩

/-- The kinds with limits that a batch has a case for. -/
def batchKinds : List OpKind :=
  [.TRANSACTION, .ORIGINATION, .DELEGATION, .REGISTER_GLOBAL_CONSTANT, .INCREASE_PAID_STORAGE,
    .TX_ROLLUP_ORIGINATION, .TX_ROLLUP_SUBMIT_BATCH, .TRANSFER_TICKET, .SMART_ROLLUP_ADD_MESSAGES,
    .SMART_ROLLUP_ORIGINATE]

section

variable (create : OpKind → ρ → Except JSString (RPCOperation ρ))

/-- `getRPCOp`; `create` builds what does not depend on the limits. -/
def getRPCOp (param : ParamsWithKind ρ) : Except OperationError (RPCOperation ρ) :=
  if param.kind ∈ batchKinds then do
    let op ← (create param.kind param.params).mapError .request
    return { op with
      kind := param.kind, fee := param.fee.map .number, gas_limit := param.gasLimit.map .number,
      storage_limit := param.storageLimit.map .number }
  else if param.kind = .ACTIVATION then .ok param.copy
  else .error (.InvalidOperationKindError param.kind)

/-! ## The estimator -/

/-- `isRevealOpNeeded`, of operations of the kinds, with the answer of `isAccountRevealed`. -/
def isRevealOpNeeded (isAccountRevealed : Bool) (kinds : List OpKind) : Bool :=
  if !(!isAccountRevealed) || !(kinds.any isOpRequireReveal) then false else true

/-- The estimates from the simulated operation: of the reveal, which counts if there is one, and of
each operation. -/
structure Simulated where
  reveal : Estimate
  operations : List Estimate

/-- The operation that is simulated. -/
def RPCEstimateProvider.operation (defaultLimits : Estimate) (param : ParamsWithKind ρ) :
    Except OperationError (RPCOperation ρ) :=
  if param.kind = .ACTIVATION then .ok (param.withLimits defaultLimits).copy
  else getRPCOp create (param.mergeLimits defaultLimits)

/-- `RPCEstimateProvider.batch`. -/
def RPCEstimateProvider.batch (isAccountRevealed : Bool) (defaultLimits : Estimate)
    (simulated : Simulated) (params : List (ParamsWithKind ρ)) :
    Except OperationError (List Estimate) := do
  let operations ← params.mapM (RPCEstimateProvider.operation create defaultLimits)
  if isRevealOpNeeded isAccountRevealed (operations.map (·.kind)) then
    return simulated.reveal :: simulated.operations
  else return simulated.operations

/-! ## The batch -/

/-- `estimates[i]`; the fields of `undefined` cannot be read. -/
def estimateAt (estimates : List Estimate) (i : ℕ) : Except OperationError Estimate :=
  match estimates[i]? with
  | some e => .ok e
  | none => .error .TypeError

/-- One round of the loop. -/
def OperationBatch.give (estimates : List Estimate) (i : ℕ) (op : ParamsWithKind ρ) :
    Except OperationError (RPCOperation ρ) :=
  if isOpWithFee op.kind then do
    let estimated ← estimate op.fee op.gasLimit op.storageLimit (estimateAt estimates i)
    getRPCOp create (op.withLimits estimated)
  else .ok op.copy

/-- The loop over the operations, from the index `i` on. -/
def OperationBatch.giveAll (estimates : List Estimate) :
    ℕ → List (ParamsWithKind ρ) → Except OperationError (List (RPCOperation ρ))
  | _, [] => .ok []
  | i, op :: ops => do
    let rpcOp ← OperationBatch.give create estimates i op
    let rpcOps ← OperationBatch.giveAll estimates (i + 1) ops
    return rpcOp :: rpcOps

/-- `toPrepare`. The two reads of `isAccountRevealed` are the estimator's and the batch's own. -/
def OperationBatch.toPrepare (publicKeyHash publicKey : JSString) (revealedForEstimator : Bool)
    (isAccountRevealed : Bool) (defaultLimits : Estimate) (simulated : Simulated)
    (operations : List (ParamsWithKind ρ)) : Except OperationError (List (RPCOperation ρ)) := do
  let estimates ← RPCEstimateProvider.batch create revealedForEstimator defaultLimits simulated
    operations
  let revealNeeded := isRevealOpNeeded isAccountRevealed (operations.map (·.kind))
  let i := if revealNeeded then 1 else 0
  let ops ← OperationBatch.giveAll create estimates i operations
  if revealNeeded then do
    let e ← estimate none none none (estimateAt estimates 0)
    return createRevealOperation e.suggestedFeeMutez e.gasLimit e.storageLimit publicKeyHash
      publicKey :: ops
  else return ops

/-- `send`, up to the operation that is forged. It builds its operations as `toPrepare` does. -/
def OperationBatch.send (answers : Answers ρ) (source : Option JSString)
    (revealedForEstimator isAccountRevealed : Bool) (defaultLimits : Estimate)
    (simulated : Simulated) (operations : List (ParamsWithKind ρ)) :
    Except OperationError (PreparedOperation ρ) := do
  let publicKeyHash ← await answers .publicKeyHash
  let publicKey ← await answers .publicKey
  let ops ← OperationBatch.toPrepare create publicKeyHash publicKey revealedForEstimator
    isAccountRevealed defaultLimits simulated operations
  prepareOperation answers ops (some (orString source publicKeyHash)) none

end

/-! ## Own estimates -/

/-- The operation has the limits that it was given, and those of the estimate for the others; an
operation without a fee is left as it is. -/
def HasEstimate (op : ParamsWithKind ρ) (e : Estimate) (rpcOp : RPCOperation ρ) : Prop :=
  if isOpWithFee op.kind then
    rpcOp.fee = some (.number (op.fee.getD e.suggestedFeeMutez)) ∧
      rpcOp.gas_limit = some (.number (op.gasLimit.getD e.gasLimit)) ∧
      rpcOp.storage_limit = some (.number (op.storageLimit.getD e.storageLimit))
  else rpcOp = op.copy

/-- The operations have the estimates, one by one. -/
def HaveEstimates (ops : List (ParamsWithKind ρ)) (estimates : List Estimate)
    (rpcOps : List (RPCOperation ρ)) : Prop :=
  List.Forall₂ (fun x rpcOp => HasEstimate x.1 x.2 rpcOp) (ops.zip estimates) rpcOps

/-- What is sent has the estimates that were computed for it: the operations theirs, and the reveal
its own, which is there if the estimator took one into account. -/
def OwnEstimates (publicKeyHash publicKey : JSString) (revealEstimated revealNeeded : Bool)
    (simulated : Simulated) (ops : List (ParamsWithKind ρ)) (sent : List (RPCOperation ρ)) : Prop :=
  ∃ rpcOps, HaveEstimates ops simulated.operations rpcOps ∧
    if revealNeeded then revealEstimated = true ∧
      sent = createRevealOperation simulated.reveal.suggestedFeeMutez simulated.reveal.gasLimit
        simulated.reveal.storageLimit publicKeyHash publicKey :: rpcOps
    else sent = rpcOps

section

variable (create : OpKind → ρ → Except JSString (RPCOperation ρ))
  (publicKeyHash publicKey : JSString) (revealedForEstimator isAccountRevealed : Bool)
  (defaultLimits : Estimate)
  (ops : List (ParamsWithKind ρ))

/-- Whatever the simulation estimates, what is sent has its own estimates, and none is missing. -/
def Aligned : Prop :=
  ∀ simulated : Simulated, simulated.operations.length = ops.length →
    (∀ sent, OperationBatch.toPrepare create publicKeyHash publicKey revealedForEstimator
        isAccountRevealed defaultLimits simulated ops = .ok sent →
      OwnEstimates publicKeyHash publicKey
        (isRevealOpNeeded revealedForEstimator (ops.map (·.kind)))
        (isRevealOpNeeded isAccountRevealed (ops.map (·.kind))) simulated ops sent) ∧
    OperationBatch.toPrepare create publicKeyHash publicKey revealedForEstimator
      isAccountRevealed defaultLimits simulated ops ≠ .error .TypeError

/-- The operation can be built. -/
def Buildable (op : ParamsWithKind ρ) : Prop :=
  op.kind = .ACTIVATION ∨ op.kind ∈ batchKinds ∧ ∃ rpcOp, create op.kind op.params = .ok rpcOp

/-- No limit that is given is a decimal. -/
def WholeLimits (op : ParamsWithKind ρ) : Prop :=
  (∀ n, op.fee = some n → n.isDecimal = false) ∧
    (∀ n, op.gasLimit = some n → n.isDecimal = false) ∧
    ∀ n, op.storageLimit = some n → n.isDecimal = false

/-- The operation can be built, and its limits are no decimals. -/
def Accepted (op : ParamsWithKind ρ) : Prop :=
  Buildable create op ∧ (isOpWithFee op.kind = true → WholeLimits op)

/-- All limits are given. -/
def LimitsGiven (op : ParamsWithKind ρ) : Prop :=
  op.fee.isSome ∧ op.gasLimit.isSome ∧ op.storageLimit.isSome

end

/-! ## One operation -/

section

variable {create : OpKind → ρ → Except JSString (RPCOperation ρ)} {op : ParamsWithKind ρ}

theorem ne_activation_of_batchKinds {kind : OpKind} (h : kind ∈ batchKinds) :
    kind ≠ .ACTIVATION := by
  rintro rfl
  exact absurd h (by decide)

/-- An operation is built from what does not depend on its limits, and gets them. -/
theorem getRPCOp_eq_ok (h : Buildable create op) :
    ∃ rpcOp, getRPCOp create op = .ok rpcOp ∧ rpcOp.fee = op.fee.map .number ∧
      rpcOp.gas_limit = op.gasLimit.map .number ∧
      rpcOp.storage_limit = op.storageLimit.map .number := by
  obtain hkind | ⟨hkind, rpcOp, hcreate⟩ := h
  · refine ⟨op.copy, ?_, rfl, rfl, rfl⟩
    rw [getRPCOp, if_neg (by rw [hkind]; decide), if_pos hkind]
  · refine ⟨{ rpcOp with
      kind := op.kind, fee := op.fee.map .number, gas_limit := op.gasLimit.map .number,
      storage_limit := op.storageLimit.map .number }, ?_, rfl, rfl, rfl⟩
    rw [getRPCOp, if_pos hkind, hcreate]
    rfl

theorem throws_getRPCOp : Throws (· ≠ .TypeError) (getRPCOp create op) := by
  rw [getRPCOp]
  by_cases hkind : op.kind ∈ batchKinds
  · rw [if_pos hkind]
    refine Throws.bind ?_ fun _ => Throws.ok _
    intro e he
    cases hcreate : create op.kind op.params with
    | error m =>
      rw [hcreate] at he
      cases he
      exact OperationError.noConfusion
    | ok rpcOp =>
      rw [hcreate] at he
      cases he
  · rw [if_neg hkind]
    split
    · exact Throws.ok _
    · exact Throws.error_iff.mpr OperationError.noConfusion

theorem getRPCOp_eq_error (h : ¬ Buildable create op) :
    ∃ e, getRPCOp create op = .error e ∧ e ≠ .TypeError := by
  cases hrpc : getRPCOp create op with
  | error e => exact ⟨e, rfl, throws_getRPCOp e hrpc⟩
  | ok rpcOp =>
    refine absurd ?_ h
    rw [getRPCOp] at hrpc
    by_cases hkind : op.kind ∈ batchKinds
    · rw [if_pos hkind] at hrpc
      obtain ⟨built, hbuilt, -⟩ := Except.bind_eq_ok.mp hrpc
      cases hcreate : create op.kind op.params with
      | error m =>
        rw [hcreate] at hbuilt
        cases hbuilt
      | ok built' => exact .inr ⟨hkind, built', hcreate⟩
    · rw [if_neg hkind] at hrpc
      by_cases hactivation : op.kind = .ACTIVATION
      · exact .inl hactivation
      · rw [if_neg hactivation] at hrpc
        cases hrpc

/-- The simulated operation is built if the one that is sent can be. -/
theorem operation_eq_ok (h : Buildable create op) (defaultLimits : Estimate) :
    ∃ rpcOp, RPCEstimateProvider.operation create defaultLimits op = .ok rpcOp := by
  rw [RPCEstimateProvider.operation]
  split
  · exact ⟨_, rfl⟩
  · obtain ⟨rpcOp, hrpc, -⟩ := @getRPCOp_eq_ok _ create (op.mergeLimits defaultLimits) h
    exact ⟨rpcOp, hrpc⟩

theorem operation_kind {defaultLimits : Estimate} {rpcOp : RPCOperation ρ}
    (h : RPCEstimateProvider.operation create defaultLimits op = .ok rpcOp) :
    rpcOp.kind = op.kind := by
  rw [RPCEstimateProvider.operation] at h
  split at h
  · cases h
    rfl
  · rw [getRPCOp] at h
    split at h
    · obtain ⟨built, -, h⟩ := Except.bind_eq_ok.mp h
      cases h
      rfl
    · split at h
      · cases h
        rfl
      · cases h

/-! ## One estimate -/

theorem checkLimit_cases (limit : Option JSNumber) :
    checkLimit limit = .ok () ∨ ∃ n, checkLimit limit = .error (.InvalidEstimateValueError n) := by
  unfold checkLimit
  split
  · split
    · exact .inr ⟨_, rfl⟩
    · exact .inl rfl
  · exact .inl rfl

theorem estimate_of_limitsGiven (hgiven : LimitsGiven op) (x y : Except OperationError Estimate) :
    estimate op.fee op.gasLimit op.storageLimit x =
      estimate op.fee op.gasLimit op.storageLimit y := by
  obtain ⟨hfee, hgas, hstorage⟩ := hgiven
  obtain ⟨fee, hfee⟩ := Option.isSome_iff_exists.mp hfee
  obtain ⟨gas, hgas⟩ := Option.isSome_iff_exists.mp hgas
  obtain ⟨storage, hstorage⟩ := Option.isSome_iff_exists.mp hstorage
  rw [hfee, hgas, hstorage]
  rfl

theorem estimate_eq_error (h : ¬ WholeLimits op) (x : Except OperationError Estimate) :
    ∃ n, estimate op.fee op.gasLimit op.storageLimit x = .error (.InvalidEstimateValueError n) := by
  unfold estimate
  obtain hfee | ⟨n, hfee⟩ := checkLimit_cases op.fee
  · obtain hgas | ⟨n, hgas⟩ := checkLimit_cases op.gasLimit
    · obtain hstorage | ⟨n, hstorage⟩ := checkLimit_cases op.storageLimit
      · exact absurd ⟨checkLimit_eq_ok.mp hfee, checkLimit_eq_ok.mp hgas,
          checkLimit_eq_ok.mp hstorage⟩ h
      · rw [hfee, hgas, hstorage]
        exact ⟨n, rfl⟩
    · rw [hfee, hgas]
      exact ⟨n, rfl⟩
  · rw [hfee]
    exact ⟨n, rfl⟩

theorem throws_estimate_missing (op : ParamsWithKind ρ) (h : WholeLimits op) :
    Throws (· = .TypeError)
      (estimate op.fee op.gasLimit op.storageLimit (.error .TypeError)) := by
  have hfee : checkLimit op.fee = .ok () := checkLimit_eq_ok.mpr h.1
  have hgas : checkLimit op.gasLimit = .ok () := checkLimit_eq_ok.mpr h.2.1
  have hstorage : checkLimit op.storageLimit = .ok () := checkLimit_eq_ok.mpr h.2.2
  unfold estimate
  rw [hfee, hgas, hstorage]
  rcases op.fee with _ | fee <;> rcases op.gasLimit with _ | gas <;>
    rcases op.storageLimit with _ | storage <;>
    first
      | exact Throws.ok _
      | exact Throws.error_iff.mpr rfl

/-! ## The loop -/

variable {estimates own : List Estimate} {ops : List (ParamsWithKind ρ)} {i : ℕ}

theorem batchKinds_of_isOpWithFee (h : Buildable create op) (hfee : isOpWithFee op.kind = true) :
    op.kind ∈ batchKinds := by
  obtain hkind | ⟨hkind, -⟩ := h
  · rw [hkind] at hfee
    cases hfee
  · exact hkind

/-- An operation gets the estimate at the index. -/
theorem give_eq_ok (h : Accepted create op) {e : Estimate} (he : estimates[i]? = some e) :
    ∃ rpcOp, OperationBatch.give create estimates i op = .ok rpcOp ∧ HasEstimate op e rpcOp := by
  rw [OperationBatch.give, estimateAt, he]
  by_cases hfee : isOpWithFee op.kind = true
  · obtain ⟨rpcOp, hrpc, hlimits⟩ := @getRPCOp_eq_ok _ create (op.withLimits
      ⟨op.fee.getD e.suggestedFeeMutez, op.gasLimit.getD e.gasLimit,
        op.storageLimit.getD e.storageLimit⟩) h.1
    refine ⟨rpcOp, ?_, ?_⟩
    · rw [if_pos hfee]
      exact Except.bind_eq_ok.mpr ⟨_, estimate_eq_ok.mpr ⟨h.2 hfee, rfl⟩, hrpc⟩
    · rw [HasEstimate, if_pos hfee]
      exact hlimits
  · refine ⟨op.copy, if_neg hfee, ?_⟩
    rw [HasEstimate, if_neg hfee]

/-- The operations get the estimates from the index on. -/
theorem giveAll_eq_ok (h : ∀ op ∈ ops, Accepted create op) (hlength : own.length = ops.length)
    (hown : ∀ k < ops.length, estimates[i + k]? = own[k]?) :
    ∃ rpcOps, OperationBatch.giveAll create estimates i ops = .ok rpcOps ∧
      HaveEstimates ops own rpcOps := by
  induction ops generalizing i own with
  | nil => exact ⟨[], rfl, .nil⟩
  | cons op ops ih =>
    cases own with
    | nil => cases hlength
    | cons e own =>
      obtain ⟨hop, hops⟩ := List.forall_mem_cons.mp h
      have hfirst : estimates[i]? = some e := hown 0 (Nat.succ_pos _)
      obtain ⟨rpcOp, hgive, hestimate⟩ := give_eq_ok hop hfirst
      obtain ⟨rpcOps, hgives, hestimates⟩ := @ih own (i + 1) hops (Nat.succ.inj hlength)
        fun k hk => by
          have hnext := hown (k + 1) (Nat.succ_lt_succ hk)
          rwa [show i + (k + 1) = i + 1 + k by omega] at hnext
      refine ⟨rpcOp :: rpcOps, ?_, .cons hestimate hestimates⟩
      rw [OperationBatch.giveAll, hgive, Except.ok_bind, hgives]
      rfl

/-- A decimal limit is found, unless an estimate is missing before. -/
theorem giveAll_eq_error (hbuild : ∀ op ∈ ops, Buildable create op)
    (hrefused : ∃ op ∈ ops, ¬ Accepted create op)
    (hlength : i + ops.length ≤ estimates.length + 1) :
    ∃ n, OperationBatch.giveAll create estimates i ops =
      .error (.InvalidEstimateValueError n) := by
  induction ops generalizing i with
  | nil =>
    obtain ⟨op, hop, -⟩ := hrefused
    cases hop
  | cons op ops ih =>
    obtain ⟨hop, hops⟩ := List.forall_mem_cons.mp hbuild
    rw [List.length_cons] at hlength
    by_cases haccepted : Accepted create op
    · obtain ⟨op', hop', hnot⟩ := hrefused
      obtain rfl | hmem := List.mem_cons.mp hop'
      · exact absurd haccepted hnot
      · -- the refused operation stands behind, so there is an estimate for this one
        have hpos := List.length_pos_of_mem hmem
        have hi : i < estimates.length := by omega
        obtain ⟨rpcOp, hgive, -⟩ := give_eq_ok haccepted (List.getElem?_eq_getElem hi)
        obtain ⟨n, hn⟩ := @ih (i + 1) hops ⟨op', hmem, hnot⟩ (by omega)
        refine ⟨n, ?_⟩
        rw [OperationBatch.giveAll, hgive, Except.ok_bind, hn]
        rfl
    · have hlimits : isOpWithFee op.kind = true ∧ ¬ WholeLimits op := by
        rw [Accepted, not_and_or, Classical.not_imp] at haccepted
        exact haccepted.resolve_left (not_not.mpr hop)
      obtain ⟨n, hn⟩ := estimate_eq_error hlimits.2 (estimateAt estimates i)
      refine ⟨n, ?_⟩
      rw [OperationBatch.giveAll, OperationBatch.give, if_pos hlimits.1, hn]
      rfl

/-- All that can go wrong with accepted operations is a missing estimate. -/
theorem throws_giveAll (h : ∀ op ∈ ops, Accepted create op) :
    Throws (· = .TypeError) (OperationBatch.giveAll create estimates i ops) := by
  induction ops generalizing i with
  | nil => exact Throws.ok _
  | cons op ops ih =>
    obtain ⟨hop, hops⟩ := List.forall_mem_cons.mp h
    rw [OperationBatch.giveAll]
    refine Throws.bind ?_ fun _ => Throws.bind (ih hops) fun _ => Throws.ok _
    by_cases hi : ∃ e, estimates[i]? = some e
    · obtain ⟨e, he⟩ := hi
      obtain ⟨rpcOp, hgive, -⟩ := give_eq_ok hop he
      rw [hgive]
      exact Throws.ok _
    · have hnone : estimates[i]? = none := by
        apply Option.eq_none_iff_forall_ne_some.mpr
        intro e he
        exact hi ⟨e, he⟩
      rw [OperationBatch.give, estimateAt, hnone]
      split
      · next hfee =>
        refine Throws.bind (throws_estimate_missing op (hop.2 hfee)) fun e => ?_
        obtain ⟨rpcOp, hrpc, -⟩ := @getRPCOp_eq_ok _ create (op.withLimits e) hop.1
        rw [hrpc]
        exact Throws.ok _
      · exact Throws.ok _

/-! ## The estimator -/

/-- The estimator simulates operations of the kinds of the batch, so it needs a reveal if it reads
the account as not revealed and the batch is of a kind that requires one. -/
theorem batch_eq_ok (h : ∀ op ∈ ops, Buildable create op) (isAccountRevealed : Bool)
    (defaultLimits : Estimate) (simulated : Simulated) :
    RPCEstimateProvider.batch create isAccountRevealed defaultLimits simulated ops =
      .ok (if isRevealOpNeeded isAccountRevealed (ops.map (·.kind)) then
        simulated.reveal :: simulated.operations else simulated.operations) := by
  obtain ⟨operations, hoperations⟩ := Except.mapM_ok_of_forall fun op hop =>
    operation_eq_ok (h op hop) defaultLimits
  have hkinds : operations.map (·.kind) = ops.map (·.kind) := by
    have heach := Except.mapM_eq_ok.mp hoperations
    clear hoperations h
    induction heach with
    | nil => rfl
    | cons hop _ ih => rw [List.map_cons, List.map_cons, operation_kind hop, ih]
  rw [RPCEstimateProvider.batch, hoperations, Except.ok_bind, hkinds]
  split <;> rfl

theorem batch_eq_error (h : ∃ op ∈ ops, ¬ Buildable create op) (isAccountRevealed : Bool)
    (defaultLimits : Estimate) (simulated : Simulated) :
    ∃ e, RPCEstimateProvider.batch create isAccountRevealed defaultLimits simulated ops =
      .error e ∧ e ≠ .TypeError := by
  obtain ⟨op, hop, hnot⟩ := h
  have hop' : ∀ op : ParamsWithKind ρ, Throws (· ≠ .TypeError)
      (RPCEstimateProvider.operation create defaultLimits op) := by
    intro op
    rw [RPCEstimateProvider.operation]
    split
    · exact Throws.ok _
    · exact throws_getRPCOp
  cases hoperations : ops.mapM (RPCEstimateProvider.operation create defaultLimits) with
  | error e =>
    refine ⟨e, ?_, Throws.mapM hop' ops e hoperations⟩
    rw [RPCEstimateProvider.batch, hoperations]
    rfl
  | ok operations =>
    -- every operation of the list was built
    obtain ⟨rpcOp, hrpc⟩ := Except.ok_of_mapM hoperations hop
    rw [RPCEstimateProvider.operation] at hrpc
    split at hrpc
    · next hkind => exact absurd (.inl hkind) hnot
    · obtain ⟨e, he, -⟩ := @getRPCOp_eq_error _ create (op.mergeLimits defaultLimits) hnot
      rw [he] at hrpc
      cases hrpc

/-! ## Alignment -/

/-- An operation whose limits are given has any estimate. -/
theorem hasEstimate_of_limitsGiven (h : isOpWithFee op.kind = true → LimitsGiven op)
    {e e' : Estimate} {rpcOp : RPCOperation ρ} (he : HasEstimate op e rpcOp) :
    HasEstimate op e' rpcOp := by
  unfold HasEstimate at he ⊢
  by_cases hfee : isOpWithFee op.kind = true
  · rw [if_pos hfee] at he ⊢
    obtain ⟨hf, hg, hs⟩ := h hfee
    obtain ⟨fee, hf⟩ := Option.isSome_iff_exists.mp hf
    obtain ⟨gas, hg⟩ := Option.isSome_iff_exists.mp hg
    obtain ⟨storage, hs⟩ := Option.isSome_iff_exists.mp hs
    rw [hf, hg, hs] at he ⊢
    exact he
  · rw [if_neg hfee] at he ⊢
    exact he

theorem haveEstimates_of_limitsGiven {own' : List Estimate} {rpcOps : List (RPCOperation ρ)}
    (h : ∀ op ∈ ops, isOpWithFee op.kind = true → LimitsGiven op)
    (hlength : own.length = ops.length) (hlength' : own'.length = ops.length)
    (hown : HaveEstimates ops own rpcOps) :
    HaveEstimates ops own' rpcOps := by
  induction ops generalizing own own' rpcOps with
  | nil => exact hown
  | cons op ops ih =>
    obtain ⟨e, own, rfl⟩ := List.exists_cons_of_length_eq_add_one hlength
    obtain ⟨e', own', rfl⟩ := List.exists_cons_of_length_eq_add_one hlength'
    obtain ⟨hop, hops⟩ := List.forall_mem_cons.mp h
    obtain ⟨rpcOp, rpcOps, hhas, hhave, rfl⟩ := List.forall₂_cons_left_iff.mp hown
    exact .cons (hasEstimate_of_limitsGiven hop hhas)
      (ih hops (Nat.succ.inj hlength) (Nat.succ.inj hlength') hhave)

theorem exists_hasEstimate {rpcOps : List (RPCOperation ρ)} (hlength : own.length = ops.length)
    (hown : HaveEstimates ops own rpcOps) {k : ℕ} (hk : ops[k]? = some op) :
    ∃ e rpcOp, own[k]? = some e ∧ rpcOps[k]? = some rpcOp ∧ HasEstimate op e rpcOp := by
  induction ops generalizing own rpcOps k with
  | nil => cases hk
  | cons op' ops ih =>
    obtain ⟨e, own, rfl⟩ := List.exists_cons_of_length_eq_add_one hlength
    obtain ⟨rpcOp, rpcOps, hhas, hhave, rfl⟩ := List.forall₂_cons_left_iff.mp hown
    cases k with
    | zero =>
      obtain rfl : op' = op := Option.some.inj hk
      exact ⟨e, rpcOp, rfl, rfl, hhas⟩
    | succ k => exact ih (Nat.succ.inj hlength) hhave hk

/-- Estimates that differ in all limits. -/
def numbered (k : ℕ) : Estimate := ⟨.int k, .int k, .int k⟩

/-- An operation with two different estimates is one whose limits are given. -/
theorem limitsGiven_of_numbered {k : ℕ} {rpcOp : RPCOperation ρ}
    (hfee : isOpWithFee op.kind = true) (h : HasEstimate op (numbered k) rpcOp)
    (h' : HasEstimate op (numbered (k + 1)) rpcOp) : LimitsGiven op := by
  rw [HasEstimate, if_pos hfee] at h h'
  have hnumber {limit : Option JSNumber}
      (heq : limit.getD (.int (k : ℤ)) = limit.getD (.int ((k + 1 : ℕ) : ℤ))) : limit.isSome := by
    cases limit with
    | none =>
      have hk := JSNumber.int.inj heq
      omega
    | some n => rfl
  refine ⟨hnumber ?_, hnumber ?_, hnumber ?_⟩
  · exact JSValue.number.inj (Option.some.inj (h.1.symm.trans h'.1))
  · exact JSValue.number.inj (Option.some.inj (h.2.1.symm.trans h'.2.1))
  · exact JSValue.number.inj (Option.some.inj (h.2.2.symm.trans h'.2.2))

/-! ## The batch -/

variable {publicKeyHash publicKey : JSString} {revealedForEstimator isAccountRevealed : Bool}
  {defaultLimits : Estimate}

/-- What is built once the estimates are there. -/
theorem toPrepare_eq (h : ∀ op ∈ ops, Buildable create op) (simulated : Simulated) :
    OperationBatch.toPrepare create publicKeyHash publicKey revealedForEstimator isAccountRevealed
        defaultLimits simulated ops =
      OperationBatch.giveAll create
        (if isRevealOpNeeded revealedForEstimator (ops.map (·.kind)) then
          simulated.reveal :: simulated.operations else simulated.operations)
        (if isRevealOpNeeded isAccountRevealed (ops.map (·.kind)) then 1 else 0) ops >>=
          fun rpcOps =>
      if isRevealOpNeeded isAccountRevealed (ops.map (·.kind)) then
        estimate none none none (estimateAt
          (if isRevealOpNeeded revealedForEstimator (ops.map (·.kind)) then
            simulated.reveal :: simulated.operations else simulated.operations) 0) >>= fun e =>
        .ok (createRevealOperation e.suggestedFeeMutez e.gasLimit e.storageLimit publicKeyHash
          publicKey :: rpcOps)
      else .ok rpcOps := by
  rw [OperationBatch.toPrepare, batch_eq_ok h, Except.ok_bind]
  rfl

/-- Operations that are refused have no estimate of another one. -/
theorem aligned_of_refused (h : ∃ op ∈ ops, ¬ Accepted create op) :
    Aligned create publicKeyHash publicKey revealedForEstimator isAccountRevealed defaultLimits
      ops := by
  intro simulated hlength
  obtain ⟨e, he, hne⟩ : ∃ e, OperationBatch.toPrepare create publicKeyHash publicKey
      revealedForEstimator isAccountRevealed defaultLimits simulated ops = .error e ∧
      e ≠ .TypeError := by
    by_cases hbuild : ∀ op ∈ ops, Buildable create op
    · rw [toPrepare_eq hbuild]
      have hestimates : ops.length ≤
          (if isRevealOpNeeded revealedForEstimator (ops.map (·.kind)) then
            simulated.reveal :: simulated.operations else simulated.operations).length := by
        split
        · rw [List.length_cons]
          omega
        · exact hlength.ge
      have hindex :
          (if isRevealOpNeeded isAccountRevealed (ops.map (·.kind)) then 1 else 0) ≤ 1 := by
        split <;> omega
      obtain ⟨n, hn⟩ := giveAll_eq_error hbuild h
        ((Nat.add_le_add hindex hestimates).trans_eq (Nat.add_comm _ _))
      exact ⟨_, by rw [hn]; rfl, OperationError.noConfusion⟩
    · have hnot : ∃ op ∈ ops, ¬ Buildable create op := by
        push Not at hbuild
        exact hbuild
      obtain ⟨e, he, hne⟩ := batch_eq_error hnot revealedForEstimator defaultLimits simulated
      exact ⟨e, by rw [OperationBatch.toPrepare, he]; rfl, hne⟩
  rw [he]
  refine ⟨fun sent hsent => ?_, fun heq => hne (Except.error.inj heq)⟩
  cases hsent

/-- With the same reveal for both, the index is that of the operation. -/
theorem aligned_of_eq (h : ∀ op ∈ ops, Accepted create op)
    (heq : isRevealOpNeeded revealedForEstimator (ops.map (·.kind)) =
      isRevealOpNeeded isAccountRevealed (ops.map (·.kind))) :
    Aligned create publicKeyHash publicKey revealedForEstimator isAccountRevealed defaultLimits
      ops := by
  intro simulated hlength
  rw [toPrepare_eq fun op hop => (h op hop).1, heq]
  cases isRevealOpNeeded isAccountRevealed (ops.map (·.kind)) with
  | true =>
    obtain ⟨rpcOps, hgive, hhave⟩ := @giveAll_eq_ok ρ create
      (simulated.reveal :: simulated.operations) simulated.operations ops 1 h hlength fun k _ => by
        rw [Nat.add_comm, List.getElem?_cons_succ]
    rw [if_pos rfl, if_pos rfl, hgive, Except.ok_bind, if_pos rfl]
    refine ⟨fun sent hsent => ?_, fun herror => by cases herror⟩
    cases hsent
    exact ⟨rpcOps, hhave, rfl, rfl⟩
  | false =>
    obtain ⟨rpcOps, hgive, hhave⟩ := @giveAll_eq_ok ρ create simulated.operations
      simulated.operations ops 0 h hlength fun k _ => by rw [Nat.zero_add]
    rw [if_neg Bool.false_ne_true, if_neg Bool.false_ne_true, hgive, Except.ok_bind,
      if_neg Bool.false_ne_true]
    refine ⟨fun sent hsent => ?_, fun herror => by cases herror⟩
    cases hsent
    exact ⟨rpcOps, hhave, rfl⟩

/-- Without a reveal of its own, a batch that the estimator has put one in front of gives every
operation the estimate before its own. -/
theorem giveAll_shifted (h : ∀ op ∈ ops, Accepted create op) {simulated : Simulated}
    (hlength : simulated.operations.length = ops.length) :
    ∃ rpcOps, OperationBatch.giveAll create (simulated.reveal :: simulated.operations) 0 ops =
        .ok rpcOps ∧
      HaveEstimates ops ((simulated.reveal :: simulated.operations).take ops.length) rpcOps := by
  refine giveAll_eq_ok h ?_ fun k hk => ?_
  · rw [List.length_take, List.length_cons]
    omega
  · rw [List.getElem?_take, if_pos hk, Nat.zero_add]

/-- A reveal that the estimator has not put in front has no estimate. -/
theorem not_aligned_of_reveal (h : ∀ op ∈ ops, Accepted create op)
    (hestimated : isRevealOpNeeded revealedForEstimator (ops.map (·.kind)) = false)
    (hneeded : isRevealOpNeeded isAccountRevealed (ops.map (·.kind)) = true) :
    ¬ Aligned create publicKeyHash publicKey revealedForEstimator isAccountRevealed defaultLimits
      ops := by
  intro haligned
  obtain ⟨hsent, hmissing⟩ := haligned ⟨numbered 0, List.replicate ops.length (numbered 0)⟩
    List.length_replicate
  have hthrows : Throws (· = .TypeError) (OperationBatch.toPrepare create publicKeyHash publicKey
      revealedForEstimator isAccountRevealed defaultLimits
      ⟨numbered 0, List.replicate ops.length (numbered 0)⟩ ops) := by
    rw [toPrepare_eq fun op hop => (h op hop).1, hneeded]
    refine Throws.bind (throws_giveAll h) fun rpcOps => ?_
    rw [if_pos rfl, estimateAt]
    refine Throws.bind ?_ fun e => Throws.ok _
    split
    · exact Throws.ok _
    · exact Throws.error_iff.mpr rfl
  cases hresult : OperationBatch.toPrepare create publicKeyHash publicKey revealedForEstimator
      isAccountRevealed defaultLimits ⟨numbered 0, List.replicate ops.length (numbered 0)⟩ ops with
  | error e => exact hmissing (by rw [hresult, hthrows e hresult])
  | ok sent =>
    obtain ⟨rpcOps, -, hreveal⟩ := hsent sent hresult
    rw [if_pos hneeded, hestimated] at hreveal
    exact absurd hreveal.1 Bool.false_ne_true

/-- Where the reveal is there no more, the estimates are shifted by one. -/
theorem limitsGiven_of_aligned (h : ∀ op ∈ ops, Accepted create op)
    (hestimated : isRevealOpNeeded revealedForEstimator (ops.map (·.kind)) = true)
    (hneeded : isRevealOpNeeded isAccountRevealed (ops.map (·.kind)) = false)
    (haligned : Aligned create publicKeyHash publicKey revealedForEstimator isAccountRevealed
      defaultLimits ops) : ∀ op ∈ ops, isOpWithFee op.kind = true → LimitsGiven op := by
  intro op hop hfee
  have hlength : ((List.range ops.length).map fun k => numbered (k + 1)).length = ops.length := by
    rw [List.length_map, List.length_range]
  obtain ⟨hsent, -⟩ := haligned
    ⟨numbered 0, (List.range ops.length).map fun k => numbered (k + 1)⟩ hlength
  have hsimulated : (⟨numbered 0, (List.range ops.length).map fun k => numbered (k + 1)⟩ :
      Simulated).operations.length = ops.length := hlength
  obtain ⟨rpcOps, hgive, hhave⟩ := giveAll_shifted h hsimulated
  rw [toPrepare_eq fun op hop => (h op hop).1, hestimated, hneeded] at hsent
  dsimp only at hsent hgive hhave
  rw [if_pos rfl, if_neg Bool.false_ne_true, hgive, Except.ok_bind, if_neg Bool.false_ne_true]
    at hsent
  obtain ⟨rpcOps', hown, heq⟩ := hsent rpcOps rfl
  obtain rfl : rpcOps = rpcOps' := heq
  obtain ⟨k, hk⟩ := List.getElem?_of_mem hop
  have hlt : k < ops.length := List.getElem?_eq_some_iff.mp hk |>.1
  obtain ⟨e, rpcOp, he, hrpc, hhas⟩ := exists_hasEstimate hlength hown hk
  obtain ⟨e', rpcOp', he', hrpc', hhas'⟩ := exists_hasEstimate (by
    rw [List.length_take, List.length_cons, hlength]
    omega) hhave hk
  obtain rfl : rpcOp = rpcOp' := Option.some.inj (hrpc.symm.trans hrpc')
  -- the estimate of the simulation, and the one that was given
  obtain rfl : numbered (k + 1) = e := by
    rw [List.getElem?_map, List.getElem?_range hlt] at he
    exact Option.some.inj he
  obtain rfl : numbered k = e' := by
    rw [List.getElem?_take, if_pos hlt] at he'
    cases k with
    | zero => exact Option.some.inj he'
    | succ k =>
      rw [List.getElem?_cons_succ, List.getElem?_map, List.getElem?_range (by omega)] at he'
      exact Option.some.inj he'
  exact limitsGiven_of_numbered hfee hhas' hhas

/-- Estimates that nobody looks at may be shifted. -/
theorem aligned_of_limitsGiven (h : ∀ op ∈ ops, Accepted create op)
    (hestimated : isRevealOpNeeded revealedForEstimator (ops.map (·.kind)) = true)
    (hneeded : isRevealOpNeeded isAccountRevealed (ops.map (·.kind)) = false)
    (hgiven : ∀ op ∈ ops, isOpWithFee op.kind = true → LimitsGiven op) :
    Aligned create publicKeyHash publicKey revealedForEstimator isAccountRevealed defaultLimits
      ops := by
  intro simulated hlength
  obtain ⟨rpcOps, hgive, hhave⟩ := giveAll_shifted h hlength
  rw [toPrepare_eq fun op hop => (h op hop).1, hestimated, hneeded, if_pos rfl,
    if_neg Bool.false_ne_true, hgive, Except.ok_bind, if_neg Bool.false_ne_true]
  refine ⟨fun sent hsent => ?_, fun herror => by cases herror⟩
  cases hsent
  refine ⟨rpcOps, haveEstimates_of_limitsGiven hgiven ?_ hlength hhave, rfl⟩
  rw [List.length_take, List.length_cons]
  omega

/-- **Every operation has its own estimate if the two reads come to the same**, or if the
operations are refused, or if no estimate is looked at. -/
theorem aligned_iff (create : OpKind → ρ → Except JSString (RPCOperation ρ))
    (publicKeyHash publicKey : JSString) (revealedForEstimator isAccountRevealed : Bool)
    (defaultLimits : Estimate) (ops : List (ParamsWithKind ρ)) :
    Aligned create publicKeyHash publicKey revealedForEstimator isAccountRevealed defaultLimits
        ops ↔
      (∃ op ∈ ops, ¬ Accepted create op) ∨
      isRevealOpNeeded revealedForEstimator (ops.map (·.kind)) =
        isRevealOpNeeded isAccountRevealed (ops.map (·.kind)) ∨
      isRevealOpNeeded isAccountRevealed (ops.map (·.kind)) = false ∧
        ∀ op ∈ ops, isOpWithFee op.kind = true → LimitsGiven op := by
  by_cases hrefused : ∃ op ∈ ops, ¬ Accepted create op
  · exact iff_of_true (aligned_of_refused hrefused) (.inl hrefused)
  have haccepted : ∀ op ∈ ops, Accepted create op := by
    push Not at hrefused
    exact hrefused
  by_cases heq : isRevealOpNeeded revealedForEstimator (ops.map (·.kind)) =
      isRevealOpNeeded isAccountRevealed (ops.map (·.kind))
  · exact iff_of_true (aligned_of_eq haccepted heq) (.inr (.inl heq))
  rw [or_iff_right hrefused, or_iff_right heq]
  cases hneeded : isRevealOpNeeded isAccountRevealed (ops.map (·.kind)) with
  | true =>
    rw [hneeded] at heq
    refine iff_of_false ?_ fun h => Bool.noConfusion h.1
    exact not_aligned_of_reveal haccepted (Bool.eq_false_of_not_eq_true heq) hneeded
  | false =>
    rw [hneeded] at heq
    have hestimated := Bool.eq_true_of_not_eq_false heq
    exact ⟨fun h => ⟨rfl, limitsGiven_of_aligned haccepted hestimated hneeded h⟩,
      fun h => aligned_of_limitsGiven haccepted hestimated hneeded h.2⟩

/-- A transfer whose limits are left open. -/
def openTransfer : ParamsWithKind Unit := ⟨.TRANSACTION, none, none, none, ()⟩

/-- The reveal is included between the two reads: the first transfer gets its estimate. -/
theorem not_aligned_included :
    ¬ Aligned (fun kind _ => .ok (.ofKind kind)) (js "tz1") (js "edpk") false true
      ⟨.int 0, .int 520000, .int 60000⟩ [openTransfer, openTransfer] := by
  intro h
  obtain ⟨rpcOps, hhave, heq⟩ := (h ⟨⟨.int 374, .int 1100, .int 0⟩,
    [⟨.int 408, .int 1330, .int 73⟩, ⟨.int 385, .int 1100, .int 0⟩]⟩ rfl).1 _ rfl
  obtain rfl := heq
  obtain ⟨hfirst, -⟩ := List.forall₂_cons.mp hhave
  have hfee : some (JSValue.number (.int 374)) = some (JSValue.number (.int 408)) := hfirst.1
  exact absurd hfee (by decide)

end

end Operations
