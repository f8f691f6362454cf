import Mathlib.Algebra.BigOperators.Group.List.Basic
import Mathlib.Algebra.Order.Field.Rat
import Mathlib.Tactic.Linarith
import Taquito.Lib.BigEndian
import Taquito.Lib.Reader
import Taquito.Utils.Validators

/-!
# Sapling transactions

What the toolkit prepares: the viewer decrypts the notes of a state and tells which are spent, the
toolkit chooses notes until they cover the amount, and the builder adds an output that pays the rest
back and computes the balance. Amounts pass between the parts as decimal texts, which denote the
same number; the cryptography is left to parameters, each of which may throw.

An output is what its ciphertext holds and an input is the note that it spends.
-/

open Js Utils BigEndian

namespace Sapling

/-- What the toolkit throws. -/
inductive SaplingError where
  | InsufficientBalance (realBalance amountToSpend : ℚ)
  | InvalidMemo
  | InvalidAddressError
  | InvalidKeyError
  /-- An error of the cryptography. -/
  | LibraryError
  deriving DecidableEq, Repr

/-! ## The viewer -/

/-- A decrypted note. -/
structure Note where
  value : Bytes
  memo : Bytes
  paymentAddress : Bytes
  randomCommitmentTrapdoor : Bytes

/-- A note at a position of the state. -/
structure Input extends Note where
  position : ℕ

/-- An incoming transaction. -/
structure Incoming extends Input where
  isSpent : Bool

/-- `convertValueToBigNumber`. -/
def convertValueToBigNumber (value : Bytes) : ℚ := (beValue value : ℕ)

/-- The value of a note. -/
def Note.amount (note : Note) : ℚ := convertValueToBigNumber note.value

/-- The cryptography of the viewer, for ciphertexts of a type; `none` where it throws. -/
structure Viewer (C : Type) where
  decryptCiphertextAsReceiver : C → Option (Option Note)
  decryptCiphertextAsSender : C → Option (Option Note)
  computeNullifier : Note → ℕ → Option JSString

/-- `SaplingDiffResponse`. -/
structure SaplingDiff (C : Type) where
  commitments_and_ciphertexts : List C
  nullifiers : List JSString

/-- What may throw. -/
def orThrow {α : Type} (x : Option α) : Except SaplingError α := x.elim (.error .LibraryError) .ok

section viewer

variable {C : Type} (viewer : Viewer C) (nullifiers : List JSString)

/-- `isSpent`. -/
def isSpent (note : Note) (position : ℕ) : Except SaplingError Bool := do
  let computedNullifier ← orThrow (viewer.computeNullifier note position)
  return nullifiers.contains computedNullifier

/-- The balance with a decrypted note. -/
def noteBalance (i : ℕ) (balance : ℚ) : Option Note → Except SaplingError ℚ
  | none => .ok balance
  | some decrypted => do
    let isSpent ← isSpent viewer nullifiers decrypted i
    return if isSpent then balance else balance + decrypted.amount

/-- The loop of `getBalance`. -/
def balanceFrom (i : ℕ) (ciphertexts : List C) (balance : ℚ) : Except SaplingError ℚ :=
  match ciphertexts with
  | [] => .ok balance
  | c :: ciphertexts => do
    let decrypted ← orThrow (viewer.decryptCiphertextAsReceiver c)
    let balance ← noteBalance viewer nullifiers i balance decrypted
    balanceFrom (i + 1) ciphertexts balance

/-- What is pushed for a decrypted note. -/
def noteIncoming (i : ℕ) : Option Note → Except SaplingError (List Incoming)
  | none => .ok []
  | some note => do
    let isSpent ← isSpent viewer nullifiers note i
    return [{ note with position := i, isSpent }]

/-- The loop of `getIncomingAndOutgoingTransactionsRaw`, of which the toolkit reads `incoming`. -/
def incomingFrom (i : ℕ) (ciphertexts : List C) : Except SaplingError (List Incoming) :=
  match ciphertexts with
  | [] => .ok []
  | c :: ciphertexts => do
    let decryptedAsReceiver ← orThrow (viewer.decryptCiphertextAsReceiver c)
    let _ ← orThrow (viewer.decryptCiphertextAsSender c)
    let pushed ← noteIncoming viewer nullifiers i decryptedAsReceiver
    let incoming ← incomingFrom (i + 1) ciphertexts
    return pushed ++ incoming

end viewer

/-! ## The builder -/

/-- What is paid to an address. -/
structure Output where
  «to» : JSString
  amount : ℚ
  memo : JSString

/-- The proofs and signatures, and whether they succeed. -/
structure Prover where
  /-- The address of the spending key. -/
  address : JSString
  spend : Input → Bool
  output : Output → Bool
  sign : List Input → List Output → ℚ → Bool

/-- A transaction without its proofs. -/
structure SaplingTransaction where
  inputs : List Input
  outputs : List Output
  balance : ℚ

/-- What `selectInputsToSpend` chooses. -/
structure ChosenSpendableInputs where
  inputsToSpend : List Input
  sumSelectedInputs : ℚ

section builder

variable (prover : Prover)

/-- `prepareSaplingSpendDescription`. -/
def prepareSaplingSpendDescription (inputsToSpend : List Input) : Except SaplingError (List Input) :=
  inputsToSpend.mapM fun input => if prover.spend input then .ok input else .error .LibraryError

/-- `prepareSaplingOutputDescription`. -/
def prepareSaplingOutputDescription (output : Output) : Except SaplingError Output :=
  if prover.output output then .ok output else .error .LibraryError

/-- `createBindingSignature`. -/
def createBindingSignature (tx : SaplingTransaction) : Except SaplingError SaplingTransaction :=
  if prover.sign tx.inputs tx.outputs tx.balance then .ok tx else .error .LibraryError

/-- `calculateTransactionBalance`. -/
def calculateTransactionBalance (inputTotal outputTotal : ℚ) : ℚ := inputTotal - outputTotal

/-- `createShieldedTx`. -/
def createShieldedTx (params : List Output) (txTotalAmount : ℚ) :
    Except SaplingError SaplingTransaction := do
  let balance := calculateTransactionBalance 0 txTotalAmount
  let outputs ← params.mapM (prepareSaplingOutputDescription prover)
  createBindingSignature prover { inputs := [], outputs, balance }

/-- The outputs of the parameters and their sum. -/
def prepareOutputs (params outputs : List Output) (sumAmountOutput : ℚ) :
    Except SaplingError (List Output × ℚ) :=
  match params with
  | [] => .ok (outputs, sumAmountOutput)
  | param :: params => do
    let output ← prepareSaplingOutputDescription prover param
    prepareOutputs params (outputs ++ [output]) (sumAmountOutput + param.amount)

/-- `createPaybackOutput`. -/
def createPaybackOutput (amount sumSelectedInputs : ℚ) : Except SaplingError (Output × ℚ) := do
  let payBackAmount := sumSelectedInputs - amount
  let payBackOutput ← prepareSaplingOutputDescription prover
    { «to» := prover.address, amount := payBackAmount, memo := [] }
  return (payBackOutput, payBackAmount)

/-- The outputs with the one that pays back, where the inputs are worth more. -/
def withPayback (txTotalAmount : ℚ) (chosen : ChosenSpendableInputs) (outputs : List Output)
    (sumAmountOutput : ℚ) : Except SaplingError (List Output × ℚ) :=
  if chosen.sumSelectedInputs > sumAmountOutput then do
    let (payBackOutput, payBackAmount) ←
      createPaybackOutput prover txTotalAmount chosen.sumSelectedInputs
    return (outputs ++ [payBackOutput], sumAmountOutput + payBackAmount)
  else .ok (outputs, sumAmountOutput)

/-- `createSaplingTx`. -/
def createSaplingTx (params : List Output) (txTotalAmount : ℚ) (chosen : ChosenSpendableInputs) :
    Except SaplingError SaplingTransaction := do
  let inputs ← prepareSaplingSpendDescription prover chosen.inputsToSpend
  let (outputs, sumAmountOutput) ← prepareOutputs prover params [] 0
  let (outputs, sumAmountOutput) ← withPayback prover txTotalAmount chosen outputs sumAmountOutput
  let balance := calculateTransactionBalance chosen.sumSelectedInputs sumAmountOutput
  createBindingSignature prover { inputs, outputs, balance }

end builder

/-! ## The toolkit -/

/-- `ParametersSaplingTransaction`. -/
structure Params where
  «to» : JSString
  amount : ℚ
  memo : Option JSString
  mutez : Bool

/-- The amount in mutez: `format('tz', 'mutez', amount)`, unless it is in mutez. -/
def Params.amountMutez (param : Params) : ℚ :=
  if param.mutez then param.amount else param.amount * 10 ^ 6

/-- The toolkit of a contract whose state has ciphertexts of a type. -/
structure SaplingToolkit (C : Type) where
  b58 : Base58Check
  viewer : Viewer C
  prover : Prover
  memoSize : ℕ

/-- What is prepared. -/
inductive Request where
  | shielded (params : List Params)
  | unshielded (param : Params)
  | sapling (params : List Params)

section toolkit

variable {C : Type} (toolkit : SaplingToolkit C) (diff : SaplingDiff C)

/-- `getBalance` of the viewer. -/
def SaplingToolkit.getBalance : Except SaplingError ℚ :=
  balanceFrom toolkit.viewer diff.nullifiers 0 diff.commitments_and_ciphertexts 0

/-- `incoming` of `getIncomingAndOutgoingTransactionsRaw` of the viewer. -/
def SaplingToolkit.getIncoming : Except SaplingError (List Incoming) :=
  incomingFrom toolkit.viewer diff.nullifiers 0 diff.commitments_and_ciphertexts

/-- `formatTransactionParams`. -/
def formatTransactionParams (validateDestination : JSString → Except SaplingError Unit)
    (txParams : List Params) (formatedParams : List Output) (totalAmount : ℚ) :
    Except SaplingError (List Output × ℚ) :=
  match txParams with
  | [] => .ok (formatedParams, totalAmount)
  | param :: txParams => do
    validateDestination param.«to»
    let memo := param.memo.getD []
    if memo.length > toolkit.memoSize then .error .InvalidMemo
    else
      formatTransactionParams validateDestination txParams
        (formatedParams ++ [{ «to» := param.«to», amount := param.amountMutez, memo }])
        (totalAmount + param.amountMutez)

/-- `validateDestinationSaplingAddress`. -/
def validateDestinationSaplingAddress (destination : JSString) : Except SaplingError Unit :=
  if (js "zet1").isPrefixOf destination then .ok () else .error .InvalidAddressError

/-- `validateDestinationImplicitAddress`. -/
def validateDestinationImplicitAddress (b58 : Base58Check) (destination : JSString) :
    Except SaplingError Unit :=
  if validateKeyHash b58 destination = .VALID then .ok () else .error .InvalidAddressError

/-- `createBoundData`, as far as it throws. -/
def createBoundData (destination : JSString) : Except SaplingError Unit :=
  if destination.take 3 ∈ [js "tz1", js "tz2", js "tz3"] then .ok () else .error .InvalidKeyError

/-- The parameters of a request, formatted and checked. -/
def SaplingToolkit.format : Request → Except SaplingError (List Output × ℚ)
  | .shielded params | .sapling params =>
    formatTransactionParams toolkit validateDestinationSaplingAddress params [] 0
  | .unshielded param => do
    let formated ← formatTransactionParams toolkit (validateDestinationImplicitAddress toolkit.b58)
      [param] [] 0
    createBoundData param.«to»
    return formated

/-- The loop of `selectInputsToSpend`. -/
def selectFrom (amountMutez : ℚ) (incoming : List Incoming) (chosen : ChosenSpendableInputs) :
    ChosenSpendableInputs :=
  match incoming with
  | [] => chosen
  | input :: incoming =>
    selectFrom amountMutez incoming
      (if !input.isSpent && chosen.sumSelectedInputs < amountMutez then
        { inputsToSpend := chosen.inputsToSpend ++ [input.toInput]
          sumSelectedInputs := chosen.sumSelectedInputs + input.amount }
      else chosen)

/-- `selectInputsToSpend`. -/
def SaplingToolkit.selectInputsToSpend (amountMutez : ℚ) :
    Except SaplingError ChosenSpendableInputs := do
  let incoming ← toolkit.getIncoming diff
  let chosen := selectFrom amountMutez incoming ⟨[], 0⟩
  if chosen.sumSelectedInputs < amountMutez then
    .error (.InsufficientBalance chosen.sumSelectedInputs amountMutez)
  else return chosen

/-- `prepareShieldedTransaction`, `prepareUnshieldedTransaction` and `prepareSaplingTransaction`, up
to the forging of the transaction. -/
def SaplingToolkit.prepare (request : Request) : Except SaplingError SaplingTransaction := do
  let (formatedParams, totalAmount) ← toolkit.format request
  match request with
  | .shielded _ => createShieldedTx toolkit.prover formatedParams totalAmount
  | .unshielded _ => do
    let chosenInputs ← toolkit.selectInputsToSpend diff totalAmount
    createSaplingTx toolkit.prover [] totalAmount chosenInputs
  | .sapling _ => do
    let chosenInputs ← toolkit.selectInputsToSpend diff totalAmount
    createSaplingTx toolkit.prover formatedParams totalAmount chosenInputs

end toolkit

end Sapling
