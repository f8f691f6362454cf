import Taquito.Js.Numbers

/-!
# Operations

The operations that the providers build (`RPCOperation`) and their contents as they are forged
(`OperationContents`), with the fields that the code reads or writes. The other fields of a kind are
copied as they are; `ρ` is what they hold.
-/

open Js

namespace Operations

/-! ## Values -/

/-- A number, as far as it is looked at: integers, and the others by their text. -/
inductive JSNumber where
  | int (z : ℤ)
  | other (text : JSString)
  deriving DecidableEq, Repr

/-- `String(x)`, of a number. -/
def JSNumber.text : JSNumber → JSString
  | .int z => intText z
  | .other text => text

/-- A field that is a number or a string. -/
inductive JSValue where
  | number (n : JSNumber)
  | string (s : JSString)
  deriving DecidableEq, Repr

/-- `${x}`. -/
def JSValue.text : JSValue → JSString
  | .number n => n.text
  | .string s => s

/-- `${x}`, of a field that may be `undefined`. -/
def fieldText (x : Option JSValue) : JSString := (x.map JSValue.text).getD (js "undefined")

/-- `typeof x !== 'undefined' ? ${x} : '0'`. -/
def fieldTextOr0 (x : Option JSValue) : JSString := (x.map JSValue.text).getD (js "0")

/-- An integral number or `NaN`, as `parseInt` gives it. -/
abbrev JSInt := Option ℤ

/-- `${n}`. -/
def JSInt.text : JSInt → JSString
  | some z => intText z
  | none => js "NaN"

/-- `n + 1`. -/
def JSInt.succ (n : JSInt) : JSInt := n.map (· + 1)

/-- `s || t`, of strings. -/
def orString (s : Option JSString) (t : JSString) : JSString :=
  match s with
  | none => t
  | some s => if s.isEmpty then t else s

/-! ## Kinds -/

/-- `OpKind`. -/
inductive OpKind where
  | ORIGINATION | DELEGATION | REVEAL | TRANSACTION | ACTIVATION | ENDORSEMENT | PREENDORSEMENT
  | SET_DEPOSITS_LIMIT | DOUBLE_PREENDORSEMENT_EVIDENCE | ENDORSEMENT_WITH_SLOT
  | SEED_NONCE_REVELATION | DOUBLE_ENDORSEMENT_EVIDENCE | DOUBLE_BAKING_EVIDENCE | PROPOSALS
  | BALLOT | FAILING_NOOP | REGISTER_GLOBAL_CONSTANT | TX_ROLLUP_ORIGINATION
  | TX_ROLLUP_SUBMIT_BATCH | TX_ROLLUP_COMMIT | TX_ROLLUP_RETURN_BOND
  | TX_ROLLUP_FINALIZE_COMMITMENT | TX_ROLLUP_REMOVE_COMMITMENT | TX_ROLLUP_REJECTION
  | TX_ROLLUP_DISPATCH_TICKETS | TRANSFER_TICKET | INCREASE_PAID_STORAGE | UPDATE_CONSENSUS_KEY
  | DRAIN_DELEGATE | VDF_REVELATION | EVENT | TICKET_UPDATES | SMART_ROLLUP_ORIGINATE
  | SMART_ROLLUP_ADD_MESSAGES | SMART_ROLLUP_EXECUTE_OUTBOX_MESSAGE | SMART_ROLLUP_PUBLISH
  | SMART_ROLLUP_CEMENT | SMART_ROLLUP_RECOVER_BOND | SMART_ROLLUP_REFUTE | SMART_ROLLUP_TIMEOUT
  deriving DecidableEq, Repr

/-- `isOpRequireReveal`. -/
def isOpRequireReveal (kind : OpKind) : Bool :=
  kind ∈ [.TRANSACTION, .DELEGATION, .ORIGINATION, .REGISTER_GLOBAL_CONSTANT,
    .INCREASE_PAID_STORAGE, .TX_ROLLUP_ORIGINATION, .TX_ROLLUP_SUBMIT_BATCH, .TRANSFER_TICKET,
    .UPDATE_CONSENSUS_KEY, .SMART_ROLLUP_ADD_MESSAGES, .SMART_ROLLUP_ORIGINATE]

/-- `isOpWithFee`. -/
def isOpWithFee (kind : OpKind) : Bool := isOpRequireReveal kind || kind = .REVEAL

/-! ## Operations -/

/-- `RPCOperation`, of any kind: a field that a kind does not have is absent. -/
structure RPCOperation (ρ : Type) where
  kind : OpKind
  source : Option JSString
  fee : Option JSValue
  gas_limit : Option JSValue
  storage_limit : Option JSValue
  amount : Option JSValue
  balance : Option JSValue
  ticket_amount : Option JSValue
  destination : Option JSString
  parameters : Option ρ
  public_key : Option JSString
  rest : Option ρ

/-- An operation without any field but its kind. -/
def RPCOperation.ofKind {ρ : Type} (kind : OpKind) : RPCOperation ρ :=
  { kind, source := none, fee := none, gas_limit := none, storage_limit := none, amount := none,
    balance := none, ticket_amount := none, destination := none, parameters := none,
    public_key := none, rest := none }

/-- `OperationContents`. -/
structure OperationContents (ρ : Type) extends RPCOperation ρ where
  counter : Option JSString
  period : Option ℤ

variable {ρ : Type}

/-- `{ ...op }`. -/
def OperationContents.copy (op : RPCOperation ρ) : OperationContents ρ :=
  { op with counter := none, period := none }

/-- `PreparedOperation`. -/
structure PreparedOperation (ρ : Type) where
  branch : JSString
  contents : List (OperationContents ρ)
  protocol : JSString
  counter : JSInt

/-! ## Parameters and requests -/

/-- `Estimate`, as far as it is used. -/
structure Estimate where
  suggestedFeeMutez : JSNumber
  gasLimit : JSNumber
  storageLimit : JSNumber

/-- `TransferParams`; `parameter` is kept as it is. -/
structure TransferParams (ρ : Type) where
  «to» : JSString
  amount : JSNumber
  source : Option JSString
  fee : Option JSNumber
  gasLimit : Option JSNumber
  storageLimit : Option JSNumber
  mutez : Bool
  parameter : Option ρ

/-- What the providers await: the signer, the estimator and the node. The operations that a prepare
method builds in a way of its own are asked for as a whole. -/
inductive Request (ρ : Type) where
  | publicKeyHash
  | publicKey
  | estimateTransfer (params : TransferParams ρ)
  | estimateReveal
  | getBlockHash
  | getNextProtocol
  | getCounter (publicKeyHash : JSString)
  | getCurrentPeriod
  | operations (method : String)

/-- What a request is answered with. -/
abbrev Response : Request ρ → Type
  | .publicKeyHash => JSString
  | .publicKey => JSString
  | .estimateTransfer _ => Estimate
  | .estimateReveal => Option Estimate
  | .getBlockHash => JSString
  | .getNextProtocol => JSString
  | .getCounter _ => JSString
  | .getCurrentPeriod => ℤ
  | .operations _ => List (RPCOperation ρ)

/-- Answers to all requests; an error is what the awaited call throws. -/
abbrev Answers (ρ : Type) := (q : Request ρ) → Except JSString (Response q)

/-- A node and a signer that answer every request. -/
def answersAt (publicKeyHash head : JSString) (period : ℤ) (estimate : Estimate)
    (reveal : Option Estimate) (ops : List (RPCOperation ρ)) : Answers ρ
  | .publicKeyHash => .ok publicKeyHash
  | .publicKey => .ok (js "edpk")
  | .estimateTransfer _ => .ok estimate
  | .estimateReveal => .ok reveal
  | .getBlockHash => .ok (js "BL")
  | .getNextProtocol => .ok (js "Pt")
  | .getCounter _ => .ok head
  | .getCurrentPeriod => .ok period
  | .operations _ => .ok ops

/-- What is thrown. -/
inductive OperationError where
  /-- An awaited call threw. -/
  | request (e : JSString)
  /-- `Failed to get the current voting period index`. -/
  | RPCResponseError
  /-- `InvalidOperationKindError`. -/
  | InvalidOperationKindError (kind : OpKind)
  /-- `KT1 addresses are not supported as source`. -/
  | DeprecationError
  /-- `InvalidEstimateValueError`. -/
  | InvalidEstimateValueError (value : JSNumber)
  /-- `RevealOperationError`. -/
  | RevealOperationError (publicKeyHash : JSString)
  /-- A property of `undefined` is read. -/
  | TypeError
  deriving DecidableEq, Repr

end Operations
