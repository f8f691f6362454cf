import Taquito.Lib.Async
import Taquito.Operations.Emitter

/-!
# The prepare provider

`PrepareProvider`: each method awaits its data, resets the field `#counters`, awaits the head
counter of the account and then numbers the operations in `#counters`. The methods are tasks over
that field (`PrepareTask`), so any number of calls on one provider is a pool of tasks.

Most methods differ only in how they build their operations, which is before the field is touched:
there the operations are an answer like any other (`prepareWith`).
-/

open Js

namespace Operations

variable {ρ : Type}

/-! ## The counters -/

/-- `#counters`, an object without a prototype. -/
abbrev Counters := JSString → Option JSInt

/-- `!x || x < n`, of an entry of `#counters`. -/
def isBehind (x : Option JSInt) (n : JSInt) : Bool :=
  match x, n with
  | none, _ => true
  | some none, _ => true
  | some (some z), some n => z = 0 || z < n
  | some (some z), none => z = 0

/-- The counter in `getFee`. -/
def providerCounter (pkh : JSString) (headCounter : JSInt) (counters : Counters) :
    JSInt × Counters :=
  let opCounter :=
    if isBehind (counters pkh) headCounter then headCounter.succ
    else ((counters pkh).getD none).succ
  (opCounter, Function.update counters pkh (some opCounter))

/-- What the methods do with `#counters`. -/
inductive CounterOp (ρ : Type) where
  /-- `this.#counters = Object.create(null)`. -/
  | reset
  /-- `constructOpContents`. -/
  | constructOpContents (ops : List (RPCOperation ρ)) (headCounter : JSInt) (pkh : JSString)
      (source : Option JSString) (currentVotingPeriod : Option ℤ)

/-- What comes of it. -/
abbrev CounterResult : CounterOp ρ → Type
  | .reset => Unit
  | .constructOpContents .. => Except OperationError (List (OperationContents ρ))

/-- The effect on `#counters`. -/
def execCounterOp : (o : CounterOp ρ) → Counters → CounterResult o × Counters
  | .reset, _ => ((), fun _ => none)
  | .constructOpContents ops headCounter pkh source currentVotingPeriod, counters =>
    constructOps (providerCounter pkh headCounter) pkh source currentVotingPeriod ops counters

/-! ## Tasks -/

/-- What an awaited call comes to. -/
abbrev Answer (q : Request ρ) : Type := Except JSString (Response q)

/-- A call of a method of the provider. -/
abbrev PrepareTask (ρ α : Type) : Type :=
  Async.Task (Request ρ) Answer (CounterOp ρ) CounterResult OperationError α

namespace PrepareProvider

/-- An awaited call. -/
def request (q : Request ρ) : PrepareTask ρ (Response q) :=
  .await q fun
    | .ok a => .ret a
    | .error e => .throw (.request e)

/-- `this.#counters = Object.create(null)`. -/
def reset : PrepareTask ρ Unit := .access .reset fun _ => .ret ()

/-- `constructOpContents`. -/
def constructOpContents (ops : List (RPCOperation ρ)) (headCounter : JSInt) (pkh : JSString)
    (source : Option JSString) (currentVotingPeriod : Option ℤ) :
    PrepareTask ρ (List (OperationContents ρ)) :=
  .access (.constructOpContents ops headCounter pkh source currentVotingPeriod) fun
    | .ok contents => .ret contents
    | .error e => .throw e

/-- The current voting period; an error of the call is replaced. -/
def votingPeriod : PrepareTask ρ ℤ :=
  .await .getCurrentPeriod fun
    | .ok index => .ret index
    | .error _ => .throw .RPCResponseError

/-- The voting period, for the methods that vote. -/
def currentVotingPeriod (votes : Bool) : PrepareTask ρ (Option ℤ) :=
  if votes then some <$> votingPeriod else pure none

/-- The end of a method, once its operations are built. -/
def prepareContents (pkh : JSString) (ops : List (RPCOperation ρ)) (source : Option JSString)
    (votes : Bool) : PrepareTask ρ (PreparedOperation ρ) := do
  let hash ← request .getBlockHash
  let protocol ← request .getNextProtocol
  reset
  let headCounter := parseInt 10 (← request (.getCounter pkh))
  let period ← currentVotingPeriod votes
  let contents ← constructOpContents ops headCounter pkh source period
  return ⟨hash, contents, protocol, headCounter⟩

/-- A method that builds its operations in a way of its own. -/
def prepareWith (method : String) (source : Option JSString) (votes : Bool) :
    PrepareTask ρ (PreparedOperation ρ) := do
  let pkh ← request .publicKeyHash
  let ops ← request (.operations method)
  prepareContents pkh ops source votes

end PrepareProvider

/-! ## Operations -/

/-- `createTransferOperation`; `tzToMutez` is `format('tz', 'mutez', amount).toString()`. -/
def createTransferOperation (tzToMutez : JSNumber → JSString) (p : TransferParams ρ) :
    RPCOperation ρ :=
  { RPCOperation.ofKind .TRANSACTION with
    fee := some (.number (p.fee.getD (.int 10000)))
    gas_limit := some (.number (p.gasLimit.getD (.int 10600)))
    storage_limit := some (.number (p.storageLimit.getD (.int 257)))
    amount := some (.string (if p.mutez then p.amount.text else tzToMutez p.amount))
    destination := some p.«to»
    parameters := p.parameter }

/-- `createRevealOperation`, with all limits. -/
def createRevealOperation (fee gasLimit storageLimit : JSNumber) (source publicKey : JSString) :
    RPCOperation ρ :=
  { RPCOperation.ofKind .REVEAL with
    fee := some (.number fee)
    public_key := some publicKey
    source := some source
    gas_limit := some (.number gasLimit)
    storage_limit := some (.number storageLimit) }

/-- `{ ...params, ...this.buildEstimates(estimate) }`. -/
def TransferParams.withEstimates (p : TransferParams ρ) (estimate : Estimate) :
    TransferParams ρ :=
  { p with
    fee := some estimate.suggestedFeeMutez
    gasLimit := some estimate.gasLimit
    storageLimit := some estimate.storageLimit }

namespace PrepareProvider

/-- `addRevealOperationIfNeeded`. -/
def addRevealOperationIfNeeded (operation : RPCOperation ρ) (publicKeyHash : JSString) :
    PrepareTask ρ (List (RPCOperation ρ)) :=
  if isOpRequireReveal operation.kind then do
    let publicKey ← request .publicKey
    match ← request .estimateReveal with
    | some e =>
      return [createRevealOperation e.suggestedFeeMutez e.gasLimit e.storageLimit publicKeyHash
        publicKey, operation]
    | none => return [operation]
  else return [operation]

/-! ## Methods -/

/-- `reveal`. -/
def reveal : PrepareTask ρ (PreparedOperation ρ) := do
  let pkh ← request .publicKeyHash
  match ← request .estimateReveal with
  | some e =>
    let publicKey ← request .publicKey
    prepareContents pkh
      [createRevealOperation e.suggestedFeeMutez e.gasLimit e.storageLimit pkh publicKey] none false
  | none => .throw (.RevealOperationError pkh)

/-- `transaction`. -/
def transaction (tzToMutez : JSNumber → JSString) (params : TransferParams ρ)
    (source : Option JSString) : PrepareTask ρ (PreparedOperation ρ) := do
  let pkh ← request .publicKeyHash
  let estimate ← request (.estimateTransfer params)
  let op := createTransferOperation tzToMutez (params.withEstimates estimate)
  let ops ← addRevealOperationIfNeeded op pkh
  prepareContents pkh ops source false

/-- The operation that `contractCall` builds. -/
def callOperation (params : TransferParams ρ) (estimate : Estimate) : RPCOperation ρ :=
  { RPCOperation.ofKind .TRANSACTION with
    fee := some (.number (params.fee.getD estimate.suggestedFeeMutez))
    gas_limit := some (.number (params.gasLimit.getD estimate.gasLimit))
    storage_limit := some (.number (params.storageLimit.getD estimate.storageLimit))
    amount := some (.string params.amount.text)
    destination := some params.«to» }

/-- `contractCall`, for a method with the parameters of its transfer. -/
def contractCall (params : TransferParams ρ) : PrepareTask ρ (PreparedOperation ρ) := do
  let hash ← request .getBlockHash
  let protocol ← request .getNextProtocol
  let pkh ← request .publicKeyHash
  reset
  let headCounter := parseInt 10 (← request (.getCounter pkh))
  let estimate ← request (.estimateTransfer params)
  let contents ← constructOpContents [callOperation params estimate] headCounter pkh none none
  return ⟨hash, contents, protocol, headCounter⟩

/-- `originate`. -/
def originate (source : Option JSString) : PrepareTask ρ (PreparedOperation ρ) :=
  prepareWith "originate" source false

/-- `delegation`. -/
def delegation (source : Option JSString) : PrepareTask ρ (PreparedOperation ρ) :=
  prepareWith "delegation" source false

/-- `registerGlobalConstant`. -/
def registerGlobalConstant (source : Option JSString) : PrepareTask ρ (PreparedOperation ρ) :=
  prepareWith "registerGlobalConstant" source false

/-- `txRollupOrigination`. -/
def txRollupOrigination (source : Option JSString) : PrepareTask ρ (PreparedOperation ρ) :=
  prepareWith "txRollupOrigination" source false

/-- `txRollupSubmitBatch`. -/
def txRollupSubmitBatch (source : Option JSString) : PrepareTask ρ (PreparedOperation ρ) :=
  prepareWith "txRollupSubmitBatch" source false

/-- `updateConsensusKey`. -/
def updateConsensusKey (source : Option JSString) : PrepareTask ρ (PreparedOperation ρ) :=
  prepareWith "updateConsensusKey" source false

/-- `increasePaidStorage`. -/
def increasePaidStorage (source : Option JSString) : PrepareTask ρ (PreparedOperation ρ) :=
  prepareWith "increasePaidStorage" source false

/-- `ballot`. -/
def ballot : PrepareTask ρ (PreparedOperation ρ) := prepareWith "ballot" none true

/-- `proposals`. -/
def proposals : PrepareTask ρ (PreparedOperation ρ) := prepareWith "proposals" none true

/-- `drainDelegate`. -/
def drainDelegate (source : Option JSString) : PrepareTask ρ (PreparedOperation ρ) :=
  prepareWith "drainDelegate" source false

/-- `transferTicket`. -/
def transferTicket (source : Option JSString) : PrepareTask ρ (PreparedOperation ρ) :=
  prepareWith "transferTicket" source false

/-- `smartRollupAddMessages`. -/
def smartRollupAddMessages (source : Option JSString) : PrepareTask ρ (PreparedOperation ρ) :=
  prepareWith "smartRollupAddMessages" source false

/-- `smartRollupOriginate`. -/
def smartRollupOriginate : PrepareTask ρ (PreparedOperation ρ) :=
  prepareWith "smartRollupOriginate" none false

/-- `batch`. -/
def batch : PrepareTask ρ (PreparedOperation ρ) := prepareWith "batch" none false

end PrepareProvider

/-- A call of a prepare method. -/
inductive PrepareCall (ρ : Type) where
  | reveal
  | transaction (params : TransferParams ρ) (source : Option JSString)
  | contractCall (params : TransferParams ρ)
  | originate (source : Option JSString)
  | delegation (source : Option JSString)
  | registerGlobalConstant (source : Option JSString)
  | txRollupOrigination (source : Option JSString)
  | txRollupSubmitBatch (source : Option JSString)
  | updateConsensusKey (source : Option JSString)
  | increasePaidStorage (source : Option JSString)
  | ballot
  | proposals
  | drainDelegate (source : Option JSString)
  | transferTicket (source : Option JSString)
  | smartRollupAddMessages (source : Option JSString)
  | smartRollupOriginate
  | batch

/-- The task of a call. -/
def PrepareCall.task (tzToMutez : JSNumber → JSString) :
    PrepareCall ρ → PrepareTask ρ (PreparedOperation ρ)
  | .reveal => PrepareProvider.reveal
  | .transaction params source => PrepareProvider.transaction tzToMutez params source
  | .contractCall params => PrepareProvider.contractCall params
  | .originate source => PrepareProvider.originate source
  | .delegation source => PrepareProvider.delegation source
  | .registerGlobalConstant source => PrepareProvider.registerGlobalConstant source
  | .txRollupOrigination source => PrepareProvider.txRollupOrigination source
  | .txRollupSubmitBatch source => PrepareProvider.txRollupSubmitBatch source
  | .updateConsensusKey source => PrepareProvider.updateConsensusKey source
  | .increasePaidStorage source => PrepareProvider.increasePaidStorage source
  | .ballot => PrepareProvider.ballot
  | .proposals => PrepareProvider.proposals
  | .drainDelegate source => PrepareProvider.drainDelegate source
  | .transferTicket source => PrepareProvider.transferTicket source
  | .smartRollupAddMessages source => PrepareProvider.smartRollupAddMessages source
  | .smartRollupOriginate => PrepareProvider.smartRollupOriginate
  | .batch => PrepareProvider.batch

end Operations
