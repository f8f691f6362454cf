import Taquito.Operations.Concurrent

/-!
# The prepare path and the send path

The contract provider sends a transfer with the estimates that the user left open, and prepares it
with `prepareOperation`. The prepare provider builds the same transfer by a copy of that code. The
two number operations alike, one in a local variable and the other in its field, so they differ
only in the operations that they build (`prepare_eq_send_iff`): the prepare provider takes the
estimates in place of what the user gave, reads the source from its own argument, and
`contractCall` leaves out the parameters.
-/

open Js Async

namespace Operations

variable {ρ : Type}

/-! ## Estimates -/

/-- `n && n % 1 !== 0`; the integers from 10^21 on have a `+` in their text. -/
def JSNumber.isDecimal : JSNumber → Bool
  | .int _ => false
  | .other text => text ≠ js "NaN" ∧ 43 ∉ text

/-- The check of a limit that the user gave. -/
def checkLimit (limit : Option JSNumber) : Except OperationError Unit :=
  match limit with
  | some n => if n.isDecimal then .error (.InvalidEstimateValueError n) else .ok ()
  | none => .ok ()

/-- `OperationEmitter.estimate`. -/
def estimate (fee gasLimit storageLimit : Option JSNumber)
    (estimator : Except OperationError Estimate) : Except OperationError Estimate := do
  checkLimit fee
  checkLimit gasLimit
  checkLimit storageLimit
  match fee, gasLimit, storageLimit with
  | some fee, some gasLimit, some storageLimit => return ⟨fee, gasLimit, storageLimit⟩
  | fee, gasLimit, storageLimit =>
    let estimation ← estimator
    return ⟨fee.getD estimation.suggestedFeeMutez, gasLimit.getD estimation.gasLimit,
      storageLimit.getD estimation.storageLimit⟩

/-! ## The send path -/

namespace RpcContractProvider

variable (answers : Answers ρ)

/-- `addRevealOperationIfNeeded`. -/
def addRevealOperationIfNeeded (operation : RPCOperation ρ) (publicKeyHash : JSString) :
    Except OperationError (List (RPCOperation ρ)) :=
  if isOpRequireReveal operation.kind then do
    let publicKey ← await answers .publicKey
    match ← await answers .estimateReveal with
    | some estimateReveal =>
      let e ← estimate none none none (.ok estimateReveal)
      return [createRevealOperation e.suggestedFeeMutez e.gasLimit e.storageLimit publicKeyHash
        publicKey, operation]
    | none => return [operation]
  else return [operation]

/-- `transfer`, up to the operation that is forged. -/
def transfer (tzToMutez : JSNumber → JSString) (params : TransferParams ρ) :
    Except OperationError (PreparedOperation ρ) := do
  let publicKeyHash ← await answers .publicKeyHash
  let e ← estimate params.fee params.gasLimit params.storageLimit
    (await answers (.estimateTransfer params))
  let operation := createTransferOperation tzToMutez (params.withEstimates e)
  let ops ← addRevealOperationIfNeeded answers operation publicKeyHash
  prepareOperation answers ops params.source none

end RpcContractProvider

/-! ## Contract methods -/

/-- A method of a contract, with its encoded arguments. -/
structure ContractMethod (ρ : Type) where
  address : JSString
  parameter : ρ

/-- `SendParams`, with its defaults. -/
structure SendParams where
  fee : Option JSNumber := none
  gasLimit : Option JSNumber := none
  storageLimit : Option JSNumber := none
  source : Option JSString := none
  amount : JSNumber := .int 0
  mutez : Bool := false

/-- `toTransferParams`. -/
def ContractMethod.toTransferParams (m : ContractMethod ρ) (p : SendParams) : TransferParams ρ :=
  { «to» := m.address, amount := p.amount, fee := p.fee, mutez := p.mutez, source := p.source,
    gasLimit := p.gasLimit, storageLimit := p.storageLimit, parameter := some m.parameter }

/-- What is prepared or sent: a transfer, with the source that `transaction` is given, or a contract
method. -/
inductive TransferRequest (ρ : Type) where
  | transaction (params : TransferParams ρ) (source : Option JSString)
  | contractCall (contractMethod : ContractMethod ρ)

/-- The prepare path. -/
def TransferRequest.prepare (tzToMutez : JSNumber → JSString) :
    TransferRequest ρ → PrepareTask ρ (PreparedOperation ρ)
  | .transaction params source => PrepareProvider.transaction tzToMutez params source
  | .contractCall m => PrepareProvider.contractCall (m.toTransferParams {})

/-- The send path. -/
def TransferRequest.send (answers : Answers ρ) (tzToMutez : JSNumber → JSString) :
    TransferRequest ρ → Except OperationError (PreparedOperation ρ)
  | .transaction params _ => RpcContractProvider.transfer answers tzToMutez params
  | .contractCall m => RpcContractProvider.transfer answers tzToMutez (m.toTransferParams {})

/-! ## Two counters, one numbering -/

section construct

variable {σ τ : Type} {next : σ → JSInt × σ} {next' : τ → JSInt × τ} {R : σ → τ → Prop}

/-- One operation becomes the same wherever the counters are kept. -/
theorem constructOp_simulation
    (hnext : ∀ s t, R s t → (next s).1 = (next' t).1 ∧ R (next s).2 (next' t).2)
    (pkh : JSString) (source : Option JSString) (period : Option ℤ) (op : RPCOperation ρ)
    {s : σ} {t : τ} (h : R s t) :
    (constructOp next pkh source period op s).1 = (constructOp next' pkh source period op t).1 ∧
      R (constructOp next pkh source period op s).2
        (constructOp next' pkh source period op t).2 := by
  obtain ⟨hn, hR⟩ := hnext s t h
  unfold constructOp
  cases op.kind
  case TRANSACTION =>
    dsimp only [getFee]
    split
    · exact ⟨rfl, hR⟩
    · exact ⟨by rw [hn], hR⟩
  case BALLOT | PROPOSALS =>
    cases period with
    | none => exact ⟨rfl, h⟩
    | some index => exact ⟨rfl, h⟩
  case ORIGINATION | REVEAL | DELEGATION | REGISTER_GLOBAL_CONSTANT | TX_ROLLUP_ORIGINATION |
      TX_ROLLUP_SUBMIT_BATCH | UPDATE_CONSENSUS_KEY | SMART_ROLLUP_ADD_MESSAGES |
      SMART_ROLLUP_ORIGINATE | TRANSFER_TICKET | INCREASE_PAID_STORAGE =>
    dsimp only [getFee]
    exact ⟨by rw [hn], hR⟩
  all_goals exact ⟨rfl, h⟩

/-- And so does a list of operations. -/
theorem constructOps_simulation
    (hnext : ∀ s t, R s t → (next s).1 = (next' t).1 ∧ R (next s).2 (next' t).2)
    (pkh : JSString) (source : Option JSString) (period : Option ℤ) (ops : List (RPCOperation ρ))
    {s : σ} {t : τ} (h : R s t) :
    (constructOps next pkh source period ops s).1 =
      (constructOps next' pkh source period ops t).1 := by
  induction ops generalizing s t with
  | nil => rfl
  | cons op ops ih =>
    obtain ⟨hop, hR⟩ := constructOp_simulation hnext pkh source period op h
    rw [constructOps, constructOps]
    rcases hs : constructOp next pkh source period op s with ⟨r, s₁⟩
    rcases ht : constructOp next' pkh source period op t with ⟨r', t₁⟩
    rw [hs, ht] at hop hR
    obtain rfl : r = r' := hop
    cases r with
    | error e => rfl
    | ok c =>
      have hops := ih (s := s₁) (t := t₁) hR
      dsimp only
      rcases hs : constructOps next pkh source period ops s₁ with ⟨r, s₂⟩
      rcases ht : constructOps next' pkh source period ops t₁ with ⟨r', t₂⟩
      rw [hs, ht] at hops
      obtain rfl : r = r' := hops
      cases r with
      | error e => rfl
      | ok cs => rfl

/-- **The two numberings agree**: the provider's field and the emitter's variable. -/
theorem constructOps_providerCounter {pkh : JSString} {n : ℕ} {counters : Counters}
    (hfresh : ∀ z, counters pkh = some (some z) → z ≤ n) (source : Option JSString)
    (period : Option ℤ) (ops : List (RPCOperation ρ)) :
    (constructOps (providerCounter pkh (some (n : ℤ))) pkh source period ops counters).1 =
      (constructOps nextCounter pkh source period ops (some (n : ℤ))).1 := by
  apply constructOps_simulation (R := fun counters m => LastGiven pkh n m counters)
  · intro counters m h
    exact providerCounter_lastGiven h
  · exact .inl ⟨rfl, hfresh⟩

/-- What a transaction becomes. -/
theorem constructOp_transaction {pkh : JSString} {source : Option JSString} {period : Option ℤ}
    {op : RPCOperation ρ} (hk : op.kind = .TRANSACTION) (s : σ) :
    constructOp next pkh source period op s =
      if startsWithKt1 (getSource pkh source op) then (.error .DeprecationError, (next s).2)
      else (.ok { OperationContents.copy op with
        amount := some (.string (fieldTextOr0 op.amount))
        source := some (getSource pkh source op)
        counter := some (next s).1.text
        fee := some (.string (fieldTextOr0 op.fee))
        gas_limit := some (.string (fieldTextOr0 op.gas_limit))
        storage_limit := some (.string (fieldTextOr0 op.storage_limit)) }, (next s).2) := by
  unfold constructOp
  simp only [hk]
  rfl

/-- The source that is given only counts for operations without one. -/
theorem constructOp_congr_source {pkh : JSString} {source source' : Option JSString}
    {period : Option ℤ} {op : RPCOperation ρ}
    (h : getSource pkh source op = getSource pkh source' op) (s : σ) :
    constructOp next pkh source period op s = constructOp next pkh source' period op s := by
  unfold constructOp
  rw [h]

/-- Operations that become the same one by one become the same. -/
theorem constructOps_congr {pkh : JSString} {source source' : Option JSString} {period : Option ℤ}
    {ops ops' : List (RPCOperation ρ)}
    (h : List.Forall₂ (fun op op' => ∀ s, constructOp next pkh source period op s =
      constructOp next pkh source' period op' s) ops ops') (s : σ) :
    constructOps next pkh source period ops s = constructOps next pkh source' period ops' s := by
  induction h generalizing s with
  | nil => rfl
  | cons hop _ ih => simp only [constructOps, hop, ih]

/-- The last of the contents comes from the last operation. -/
theorem constructOps_concat {pkh : JSString} {source : Option JSString} {period : Option ℤ}
    {ops : List (RPCOperation ρ)} {op : RPCOperation ρ} {s : σ} {cs : List (OperationContents ρ)}
    (h : (constructOps next pkh source period (ops ++ [op]) s).1 = .ok cs) :
    ∃ cs' c s₁ s₂, cs = cs' ++ [c] ∧ constructOp next pkh source period op s₁ = (.ok c, s₂) := by
  have heach := List.rel_reverse (constructOps_each (Prod.ext h rfl))
  rw [List.reverse_concat] at heach
  obtain ⟨c, cs', ⟨s₁, s₂, hc⟩, -, hcs⟩ := List.forall₂_cons_left_iff.mp heach
  exact ⟨cs'.reverse, c, s₁, s₂, by simpa using congrArg List.reverse hcs, hc⟩

/-- The fields that the contents of a transaction take from it. -/
theorem constructOp_transaction_eq_ok {pkh : JSString} {source : Option JSString}
    {period : Option ℤ} {op : RPCOperation ρ} {c : OperationContents ρ} {s s' : σ}
    (hk : op.kind = .TRANSACTION)
    (h : constructOp next pkh source period op s = (.ok c, s')) :
    startsWithKt1 (getSource pkh source op) = false ∧ c.source = some (getSource pkh source op) ∧
      c.fee = some (.string (fieldTextOr0 op.fee)) ∧
      c.gas_limit = some (.string (fieldTextOr0 op.gas_limit)) ∧
      c.storage_limit = some (.string (fieldTextOr0 op.storage_limit)) := by
  rw [constructOp_transaction hk] at h
  by_cases hkt : startsWithKt1 (getSource pkh source op) = true
  · rw [if_pos hkt] at h
    cases h
  · rw [if_neg hkt] at h
    cases h
    exact ⟨by simpa using hkt, rfl, rfl, rfl, rfl⟩

end construct

/-! ## Evaluating the two paths -/

section eval

variable {answers : Answers ρ} {counters counters' : Counters}

theorem request_runAlone {α : Type} {q : Request ρ} {f : Response q → PrepareTask ρ α} {a : α} :
    (PrepareProvider.request q >>= f).runAlone execCounterOp answers counters =
        (.ok a, counters') ↔
      ∃ r, answers q = .ok r ∧
        (f r).runAlone execCounterOp answers counters = (.ok a, counters') := by
  rw [PrepareProvider.request, Task.await_bind, Task.runAlone]
  cases answers q with
  | error e => simp [Task.runAlone]
  | ok r => simp

theorem await_of_ok {q : Request ρ} {a : Response q} (h : answers q = .ok a) :
    await answers q = .ok a := by
  rw [await, h]
  rfl

/-- Both paths put the same reveal in front of a transaction. -/
theorem addRevealOperationIfNeeded_eq_ok {op : RPCOperation ρ} {pkh : JSString}
    {ops : List (RPCOperation ρ)} (hk : isOpRequireReveal op.kind = true)
    (h : (PrepareProvider.addRevealOperationIfNeeded op pkh).runAlone execCounterOp answers
      counters = (.ok ops, counters')) :
    counters' = counters ∧ ∃ reveals, ops = reveals ++ [op] ∧
      (∀ r ∈ reveals, r.kind = .REVEAL ∧ r.source = some pkh) ∧
      ∀ op', isOpRequireReveal op'.kind = true →
        RpcContractProvider.addRevealOperationIfNeeded answers op' pkh =
          .ok (reveals ++ [op']) := by
  unfold PrepareProvider.addRevealOperationIfNeeded at h
  rw [if_pos hk] at h
  obtain ⟨publicKey, hkey, h⟩ := request_runAlone.mp h
  obtain ⟨e, he, h⟩ := request_runAlone.mp h
  cases e with
  | none =>
    cases h
    refine ⟨rfl, [], rfl, by simp, fun op' hk' => ?_⟩
    rw [RpcContractProvider.addRevealOperationIfNeeded, if_pos hk', await_of_ok hkey,
      await_of_ok he]
    rfl
  | some e =>
    cases h
    refine ⟨rfl, [_], rfl, by simp [createRevealOperation, RPCOperation.ofKind], fun op' hk' => ?_⟩
    rw [RpcContractProvider.addRevealOperationIfNeeded, if_pos hk', await_of_ok hkey,
      await_of_ok he]
    rfl

theorem constructOpContents_runAlone {α : Type} {ops : List (RPCOperation ρ)} {n : JSInt}
    {pkh : JSString} {source : Option JSString} {period : Option ℤ}
    {f : List (OperationContents ρ) → PrepareTask ρ α} {a : α} :
    (PrepareProvider.constructOpContents ops n pkh source period >>= f).runAlone execCounterOp
        answers counters = (.ok a, counters') ↔
      ∃ cs c, constructOps (providerCounter pkh n) pkh source period ops counters = (.ok cs, c) ∧
        (f cs).runAlone execCounterOp answers c = (.ok a, counters') := by
  rw [PrepareProvider.constructOpContents, Task.access_bind, Task.runAlone, execCounterOp]
  rcases constructOps (providerCounter pkh n) pkh source period ops counters with ⟨r, c⟩
  cases r with
  | error e => simp [Task.runAlone]
  | ok cs => simp

/-- The end of a method that numbers from fresh counters, as the emitter numbers. -/
theorem prepareContents_eq_ok {ops : List (RPCOperation ρ)} {pkh : JSString}
    {source : Option JSString} {p : PreparedOperation ρ}
    (h : (PrepareProvider.prepareContents pkh ops source false).runAlone execCounterOp answers
      counters = (.ok p, counters')) :
    ∃ hash protocol text, answers .getBlockHash = .ok hash ∧
      answers .getNextProtocol = .ok protocol ∧ answers (.getCounter pkh) = .ok text ∧
      ∀ n : ℕ, parseInt 10 text = some (n : ℤ) →
        (constructOps nextCounter pkh source none ops (some (n : ℤ))).1 = .ok p.contents := by
  unfold PrepareProvider.prepareContents at h
  obtain ⟨hash, hhash, h⟩ := request_runAlone.mp h
  obtain ⟨protocol, hprotocol, h⟩ := request_runAlone.mp h
  rw [PrepareProvider.reset, Task.access_bind, Task.runAlone, Task.ret_bind] at h
  obtain ⟨text, htext, h⟩ := request_runAlone.mp h
  rw [PrepareProvider.currentVotingPeriod, if_neg (by simp)] at h
  obtain ⟨cs, c, hcs, h⟩ := constructOpContents_runAlone.mp h
  cases h
  refine ⟨hash, protocol, text, hhash, hprotocol, htext, fun n hn => ?_⟩
  have hfresh : ∀ z, (@execCounterOp ρ .reset counters).2 pkh = some (some z) → z ≤ n := by
    rintro z ⟨⟩
  rw [← constructOps_providerCounter hfresh, ← hn, hcs]

/-- What the emitter prepares for a reveal and a transaction. -/
theorem prepareOperation_of_ok {ops : List (RPCOperation ρ)} {pkh hash protocol text : JSString}
    {source : Option JSString} {n : ℕ} (hpkh : answers .publicKeyHash = .ok pkh)
    (hhash : answers .getBlockHash = .ok hash) (hprotocol : answers .getNextProtocol = .ok protocol)
    (hcounter : answers (.getCounter pkh) = .ok text) (htext : text = natText n)
    (hops : ops ≠ []) (hkind : ∀ op ∈ ops, isManager op.kind = true) :
    prepareOperation answers ops source none =
      (constructOps nextCounter pkh source none ops (some (n : ℤ))).1.map fun cs =>
        ⟨hash, cs, protocol, some (n : ℤ)⟩ := by
  obtain ⟨op, ops, rfl⟩ := List.exists_cons_of_ne_nil hops
  have hhead : getHeadCounter answers pkh (op :: ops) = .ok (some text) := by
    rw [getHeadCounter, if_pos, await_of_ok hcounter]
    · rfl
    · exact List.any_eq_true.mpr ⟨op, by simp, hkind op (by simp)⟩
  have hperiod : getCurrentVotingPeriod answers (op :: ops) = .ok none := by
    have hvote := isVote_of_isManager (hkind op (by simp))
    rw [getCurrentVotingPeriod, if_neg]
    · rfl
    · simpa [isVote] using hvote
  have hn : parseInt 10 (orString (some text) (js "0")) = some (n : ℤ) := by
    have hdecimal := decimalValue_natText n
    have hne : (natText n).isEmpty = false := by
      by_contra hempty
      have hnil : natText n = [] := by simpa using hempty
      rw [hnil] at hdecimal
      cases hdecimal
    rw [orString, htext, if_neg (by simp [hne])]
    exact parseInt_of_decimal hdecimal
  unfold prepareOperation
  rw [getPublicKeyHash, await_of_ok hpkh, await_of_ok hhash, await_of_ok hprotocol]
  simp only [bind, Except.bind, hhead, hperiod, hn]
  cases (constructOps nextCounter pkh source none (op :: ops) (some (n : ℤ))).1 with
  | error e => rfl
  | ok cs => rfl

theorem checkLimit_eq_ok {limit : Option JSNumber} {u : Unit} :
    checkLimit limit = .ok u ↔ ∀ n, limit = some n → n.isDecimal = false := by
  rcases limit with _ | n
  · simp [checkLimit]
  · cases hn : n.isDecimal with
    | false => simp [checkLimit, hn]
    | true => simp [checkLimit, hn]

/-- The limits of the send path: what the user gave, and the estimates for the rest. -/
theorem estimate_eq_ok {fee gasLimit storageLimit : Option JSNumber} {e e' : Estimate} :
    estimate fee gasLimit storageLimit (.ok e) = .ok e' ↔
      ((∀ n, fee = some n → n.isDecimal = false) ∧ (∀ n, gasLimit = some n → n.isDecimal = false) ∧
        ∀ n, storageLimit = some n → n.isDecimal = false) ∧
      e' = ⟨fee.getD e.suggestedFeeMutez, gasLimit.getD e.gasLimit,
        storageLimit.getD e.storageLimit⟩ := by
  unfold estimate
  simp only [Except.bind_eq_ok, checkLimit_eq_ok, exists_const, and_assoc]
  apply and_congr_right'
  apply and_congr_right'
  apply and_congr_right'
  rcases fee with _ | fee <;> rcases gasLimit with _ | gasLimit <;>
    rcases storageLimit with _ | storageLimit <;>
    simp [pure, Except.pure, eq_comm]

/-- The transfer of the prepare path, with the reveals in front of it. -/
theorem transaction_eq_ok {tzToMutez : JSNumber → JSString} {params : TransferParams ρ}
    {source : Option JSString} {p : PreparedOperation ρ}
    (h : (PrepareProvider.transaction tzToMutez params source).runAlone execCounterOp answers
      counters = (.ok p, counters')) :
    ∃ pkh e reveals, answers .publicKeyHash = .ok pkh ∧ answers (.estimateTransfer params) = .ok e ∧
      (∀ r ∈ reveals, r.kind = .REVEAL ∧ r.source = some pkh) ∧
      (∀ op', isOpRequireReveal op'.kind = true →
        RpcContractProvider.addRevealOperationIfNeeded answers op' pkh =
          .ok (reveals ++ [op'])) ∧
      ∃ hash protocol text, answers .getBlockHash = .ok hash ∧
        answers .getNextProtocol = .ok protocol ∧ answers (.getCounter pkh) = .ok text ∧
        ∀ n : ℕ, parseInt 10 text = some (n : ℤ) →
          (constructOps nextCounter pkh source none
            (reveals ++ [createTransferOperation tzToMutez (params.withEstimates e)])
            (some (n : ℤ))).1 = .ok p.contents := by
  unfold PrepareProvider.transaction at h
  obtain ⟨pkh, hpkh, h⟩ := request_runAlone.mp h
  obtain ⟨e, he, h⟩ := request_runAlone.mp h
  obtain ⟨ops, c, hops, h⟩ := Task.runAlone_bind_eq_ok.mp h
  obtain ⟨-, reveals, rfl, hreveals, hadd⟩ := addRevealOperationIfNeeded_eq_ok rfl hops
  exact ⟨pkh, e, reveals, hpkh, he, hreveals, hadd, prepareContents_eq_ok h⟩

/-- The transfer of the send path, once the limits are known. -/
theorem transfer_of_ok {tzToMutez : JSNumber → JSString} {params : TransferParams ρ}
    {pkh hash protocol text : JSString} {e e' : Estimate} {reveals : List (RPCOperation ρ)} {n : ℕ}
    (hpkh : answers .publicKeyHash = .ok pkh) (he : answers (.estimateTransfer params) = .ok e)
    (he' : estimate params.fee params.gasLimit params.storageLimit (.ok e) = .ok e')
    (hreveals : ∀ r ∈ reveals, r.kind = .REVEAL ∧ r.source = some pkh)
    (hadd : ∀ op', isOpRequireReveal op'.kind = true →
      RpcContractProvider.addRevealOperationIfNeeded answers op' pkh = .ok (reveals ++ [op']))
    (hhash : answers .getBlockHash = .ok hash) (hprotocol : answers .getNextProtocol = .ok protocol)
    (hcounter : answers (.getCounter pkh) = .ok text) (htext : text = natText n) :
    RpcContractProvider.transfer answers tzToMutez params =
      (constructOps nextCounter pkh params.source none
        (reveals ++ [createTransferOperation tzToMutez (params.withEstimates e')])
        (some (n : ℤ))).1.map fun cs => ⟨hash, cs, protocol, some (n : ℤ)⟩ := by
  unfold RpcContractProvider.transfer
  rw [await_of_ok hpkh, await_of_ok he]
  simp only [bind, Except.bind, he']
  rw [hadd _ rfl]
  refine prepareOperation_of_ok hpkh hhash hprotocol hcounter htext (by simp) ?_
  intro op hop
  rcases List.mem_append.mp hop with hr | ht
  · rw [(hreveals op hr).1]
    rfl
  · rw [List.mem_singleton.mp ht]
    rfl

end eval

/-! ## Where the paths agree -/

/-- A limit that the user gave is integral and as estimated. -/
def GivenAs (limit : Option JSNumber) (estimated : JSNumber) : Prop :=
  ∀ n, limit = some n → n.isDecimal = false ∧ n.text = estimated.text

/-- The prepare path alters nothing: the limits that the user gave are the estimated ones, and the
source that `transaction` is given is the one in the parameters. A contract method always loses its
parameters. -/
def TransferRequest.Unaltered (answers : Answers ρ) : TransferRequest ρ → Prop
  | .transaction params source => ∃ pkh e, answers .publicKeyHash = .ok pkh ∧
      answers (.estimateTransfer params) = .ok e ∧
      GivenAs params.fee e.suggestedFeeMutez ∧ GivenAs params.gasLimit e.gasLimit ∧
      GivenAs params.storageLimit e.storageLimit ∧ orString source pkh = orString params.source pkh
  | .contractCall _ => False

section agree

variable {tzToMutez : JSNumber → JSString} {params : TransferParams ρ} {e e' : Estimate}
  {pkh : JSString} {source source' : Option JSString} {reveals : List (RPCOperation ρ)} {n : JSInt}

/-- The reveals and the transfer become the same for limits and sources that read the same. -/
theorem constructOps_transfer
    (hreveals : ∀ r ∈ reveals, r.kind = .REVEAL ∧ r.source = some pkh)
    (hfee : e'.suggestedFeeMutez.text = e.suggestedFeeMutez.text)
    (hgas : e'.gasLimit.text = e.gasLimit.text)
    (hstorage : e'.storageLimit.text = e.storageLimit.text)
    (hsource : orString source pkh = orString source' pkh) :
    constructOps nextCounter pkh source none
        (reveals ++ [createTransferOperation tzToMutez (params.withEstimates e)]) n =
      constructOps nextCounter pkh source' none
        (reveals ++ [createTransferOperation tzToMutez (params.withEstimates e')]) n := by
  apply constructOps_congr
  apply List.rel_append
  · apply List.forall₂_same.mpr
    intro r hr
    exact constructOp_congr_source (by rw [getSource, getSource, (hreveals r hr).2]; rfl)
  · refine .cons (fun s => ?_) .nil
    rw [constructOp_transaction rfl, constructOp_transaction rfl]
    set t := createTransferOperation tzToMutez (params.withEstimates e) with ht
    set t' := createTransferOperation tzToMutez (params.withEstimates e') with ht'
    have hsrc : getSource pkh source t = getSource pkh source' t' := hsource
    have h₁ : fieldTextOr0 t.fee = fieldTextOr0 t'.fee := hfee.symm
    have h₂ : fieldTextOr0 t.gas_limit = fieldTextOr0 t'.gas_limit := hgas.symm
    have h₃ : fieldTextOr0 t.storage_limit = fieldTextOr0 t'.storage_limit := hstorage.symm
    rw [hsrc, h₁, h₂, h₃]
    rfl

theorem getD_text_iff {limit : Option JSNumber} {estimated : JSNumber}
    (hlimit : ∀ n, limit = some n → n.isDecimal = false) :
    GivenAs limit estimated ↔ (limit.getD estimated).text = estimated.text := by
  cases limit with
  | none => simp [GivenAs]
  | some n => simp [GivenAs, hlimit n rfl]

/-- Contents that the two paths have in common give the limits and the source the same text. -/
theorem eq_of_constructOps_transfer {cs : List (OperationContents ρ)}
    (h : (constructOps nextCounter pkh source none
      (reveals ++ [createTransferOperation tzToMutez (params.withEstimates e)]) n).1 = .ok cs)
    (h' : (constructOps nextCounter pkh source' none
      (reveals ++ [createTransferOperation tzToMutez (params.withEstimates e')]) n).1 = .ok cs) :
    e'.suggestedFeeMutez.text = e.suggestedFeeMutez.text ∧ e'.gasLimit.text = e.gasLimit.text ∧
      e'.storageLimit.text = e.storageLimit.text ∧ orString source pkh = orString source' pkh := by
  obtain ⟨cs₁, c, s₁, s₂, rfl, hc⟩ := constructOps_concat h
  obtain ⟨cs₂, c', s₃, s₄, hcs, hc'⟩ := constructOps_concat h'
  obtain ⟨-, rfl⟩ : cs₁ = cs₂ ∧ c = c' := by simpa using List.append_inj' hcs rfl
  obtain ⟨-, hsource, hfee, hgas, hstorage⟩ := constructOp_transaction_eq_ok rfl hc
  obtain ⟨-, hsource', hfee', hgas', hstorage'⟩ := constructOp_transaction_eq_ok rfl hc'
  refine ⟨?_, ?_, ?_, ?_⟩
  · exact JSValue.string.inj (Option.some.inj (hfee'.symm.trans hfee))
  · exact JSValue.string.inj (Option.some.inj (hgas'.symm.trans hgas))
  · exact JSValue.string.inj (Option.some.inj (hstorage'.symm.trans hstorage))
  · exact Option.some.inj (hsource.symm.trans hsource')

end agree

/-- What the prepare path makes of a contract method: one transaction without parameters. -/
theorem contractCall_eq_ok {answers : Answers ρ} {counters counters' : Counters}
    {params : TransferParams ρ} {p : PreparedOperation ρ}
    (h : (PrepareProvider.contractCall params).runAlone execCounterOp answers counters =
      (.ok p, counters')) : ∃ c, p.contents = [c] ∧ c.parameters = none := by
  unfold PrepareProvider.contractCall at h
  obtain ⟨hash, -, h⟩ := request_runAlone.mp h
  obtain ⟨protocol, -, h⟩ := request_runAlone.mp h
  obtain ⟨pkh, -, h⟩ := request_runAlone.mp h
  rw [PrepareProvider.reset, Task.access_bind, Task.runAlone, Task.ret_bind] at h
  obtain ⟨text, -, h⟩ := request_runAlone.mp h
  obtain ⟨e, -, h⟩ := request_runAlone.mp h
  obtain ⟨cs, c, hcs, h⟩ := constructOpContents_runAlone.mp h
  cases h
  obtain ⟨c, cs', hdesc, hnil, rfl⟩ := List.forall₂_cons_left_iff.mp (constructOps_describes hcs)
  obtain rfl := List.forall₂_nil_left_iff.mp hnil
  exact ⟨c, rfl, hdesc.parameters⟩

theorem addReveal_concat {answers : Answers ρ} {op : RPCOperation ρ} {pkh : JSString}
    {ops : List (RPCOperation ρ)}
    (h : RpcContractProvider.addRevealOperationIfNeeded answers op pkh = .ok ops) :
    ∃ rs, ops = rs ++ [op] := by
  unfold RpcContractProvider.addRevealOperationIfNeeded at h
  by_cases hk : isOpRequireReveal op.kind = true
  · rw [if_pos hk] at h
    obtain ⟨publicKey, -, h⟩ := Except.bind_eq_ok.mp h
    obtain ⟨e, -, h⟩ := Except.bind_eq_ok.mp h
    cases e with
    | none =>
      cases h
      exact ⟨[], rfl⟩
    | some e =>
      cases h
      exact ⟨[_], rfl⟩
  · rw [if_neg hk] at h
    cases h
    exact ⟨[], rfl⟩

/-- What the send path makes of a transfer ends with its parameters. -/
theorem transfer_parameters {answers : Answers ρ} {tzToMutez : JSNumber → JSString}
    {params : TransferParams ρ} {q : PreparedOperation ρ}
    (h : RpcContractProvider.transfer answers tzToMutez params = .ok q) :
    ∃ cs c, q.contents = cs ++ [c] ∧ c.parameters = params.parameter := by
  obtain ⟨pkh, -, h⟩ := Except.bind_eq_ok.mp h
  obtain ⟨e, -, h⟩ := Except.bind_eq_ok.mp h
  obtain ⟨ops, hops, h⟩ := Except.bind_eq_ok.mp h
  obtain ⟨rs, rfl⟩ := addReveal_concat hops
  obtain ⟨account, headCounter, period, s, -, -, -, -, hcontents⟩ := prepareOperation_eq_ok h
  obtain ⟨cs, c, s₁, s₂, hcs, hc⟩ := constructOps_concat (congrArg Prod.fst hcontents)
  exact ⟨cs, c, hcs, (constructOp_eq_ok hc).1.parameters⟩

/-- **Prepare path and send path.** Where the prepare path returns, the send path returns the same
contents for the same request exactly if nothing that the user gave is altered. -/
theorem prepare_eq_send_iff (tzToMutez : JSNumber → JSString) (answers : Answers ρ)
    (counters : Counters)
    (hcounter : ∀ account text, answers (.getCounter account) = .ok text →
      ∃ n : ℕ, text = natText n)
    (r : TransferRequest ρ) {p : PreparedOperation ρ} {counters' : Counters}
    (hp : (r.prepare tzToMutez).runAlone execCounterOp answers counters = (.ok p, counters')) :
    (∃ q, r.send answers tzToMutez = .ok q ∧ q.contents = p.contents) ↔ r.Unaltered answers := by
  cases r with
  | contractCall m =>
    refine iff_of_false ?_ id
    rintro ⟨q, hq, hqp⟩
    obtain ⟨c, hc, hnone⟩ := contractCall_eq_ok hp
    obtain ⟨cs, c', hc', hsome⟩ := transfer_parameters hq
    rw [hqp, hc] at hc'
    obtain ⟨-, rfl⟩ : [] = cs ∧ c = c' := by
      simpa using @List.append_inj' _ [] _ _ _ hc' rfl
    rw [hnone] at hsome
    cases hsome
  | transaction params source =>
    obtain ⟨pkh, e, reveals, hpkh, he, hreveals, hadd, hash, protocol, text, hhash, hprotocol, htext,
      hcontents⟩ := transaction_eq_ok hp
    obtain ⟨n, hn⟩ := hcounter pkh text htext
    have hp' := hcontents n (by rw [hn]; exact parseInt_of_decimal (decimalValue_natText n))
    constructor
    · rintro ⟨q, hq, hqp⟩
      -- the limits passed the check, so the send path builds its transfer from them
      obtain ⟨e', he'⟩ : ∃ e', estimate params.fee params.gasLimit params.storageLimit (.ok e) =
          .ok e' := by
        obtain ⟨_, -, hq⟩ := Except.bind_eq_ok.mp hq
        obtain ⟨e', he', -⟩ := Except.bind_eq_ok.mp hq
        rw [await_of_ok he] at he'
        exact ⟨e', he'⟩
      have hq := (transfer_of_ok hpkh he he' hreveals hadd hhash hprotocol htext hn).symm.trans hq
      obtain ⟨cs, hcs, rfl⟩ := Except.map_eq_ok.mp hq
      obtain rfl : cs = p.contents := hqp
      obtain ⟨hfee, hgas, hstorage, hsource⟩ := eq_of_constructOps_transfer hp' hcs
      obtain ⟨⟨hf, hg, hs⟩, rfl⟩ := estimate_eq_ok.mp he'
      exact ⟨pkh, e, hpkh, he, (getD_text_iff hf).mpr hfee, (getD_text_iff hg).mpr hgas,
        (getD_text_iff hs).mpr hstorage, hsource⟩
    · rintro ⟨pkh', e₁, hpkh', he₁, hfee, hgas, hstorage, hsource⟩
      obtain rfl : pkh = pkh' := Except.ok.inj (hpkh.symm.trans hpkh')
      obtain rfl : e = e₁ := Except.ok.inj (he.symm.trans he₁)
      have hf : ∀ n, params.fee = some n → n.isDecimal = false := fun n h => (hfee n h).1
      have hg : ∀ n, params.gasLimit = some n → n.isDecimal = false := fun n h => (hgas n h).1
      have hs : ∀ n, params.storageLimit = some n → n.isDecimal = false :=
        fun n h => (hstorage n h).1
      have he' : estimate params.fee params.gasLimit params.storageLimit (.ok e) = .ok _ :=
        estimate_eq_ok.mpr ⟨⟨hf, hg, hs⟩, rfl⟩
      have hq : RpcContractProvider.transfer answers tzToMutez params = _ :=
        transfer_of_ok hpkh he he' hreveals hadd hhash hprotocol htext hn
      rw [← constructOps_transfer hreveals ((getD_text_iff hf).mp hfee) ((getD_text_iff hg).mp hgas)
        ((getD_text_iff hs).mp hstorage) hsource, hp'] at hq
      exact ⟨_, hq, rfl⟩

/-- A node at counter 7, for an account that is revealed. -/
def transferAnswers : Answers Unit :=
  answersAt (js "tz1") (natText 7) 3 ⟨.int 1, .int 2, .int 3⟩ none []

/-- A transfer of 5 mutez. -/
def fiveMutez (fee : Option JSNumber) : TransferRequest Unit :=
  .transaction
    { «to» := js "tz2", amount := .int 5, source := none, fee, gasLimit := none,
      storageLimit := none, mutez := true, parameter := none } none

/-- With no limits given the paths agree. -/
theorem prepare_eq_send_fiveMutez :
    ∃ p counters, ((fiveMutez none).prepare JSNumber.text).runAlone execCounterOp transferAnswers
        (fun _ => none) = (.ok p, counters) ∧
      ∃ q, (fiveMutez none).send transferAnswers JSNumber.text = .ok q ∧
        q.contents = p.contents := by
  refine ⟨_, _, rfl, ?_⟩
  refine (prepare_eq_send_iff JSNumber.text transferAnswers (fun _ => none) ?_ (fiveMutez none)
    rfl).mpr ?_
  · rintro account text ⟨⟩
    exact ⟨7, rfl⟩
  · exact ⟨_, _, rfl, rfl, by rintro n ⟨⟩, by rintro n ⟨⟩, by rintro n ⟨⟩, rfl⟩

/-- What is prepared for a request has other contents than what is sent for it. -/
def Altered (r : TransferRequest ρ) (answers : Answers ρ) : Prop :=
  ∃ p counters, (r.prepare JSNumber.text).runAlone execCounterOp answers (fun _ => none) =
      (.ok p, counters) ∧
    ∃ q, r.send answers JSNumber.text = .ok q ∧ q.contents ≠ p.contents

/-- A fee of 5 mutez is replaced by the estimate, and a contract method loses its parameters. -/
theorem prepare_alters : Altered (fiveMutez (some (.int 5))) transferAnswers ∧
    Altered (.contractCall ⟨js "KT1", ()⟩) transferAnswers := by
  refine ⟨⟨_, _, rfl, _, rfl, ?_⟩, ⟨_, _, rfl, _, rfl, ?_⟩⟩
  · intro h
    have hfee := congrArg (List.map (·.fee)) h
    exact absurd hfee (by decide)
  · intro h
    have hparameters := congrArg (List.map (·.parameters)) h
    exact absurd hparameters (by decide)

end Operations
