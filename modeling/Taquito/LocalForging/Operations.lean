import Taquito.LocalForging.Codecs

/-!
# Forging operations

`schema/operation.ts` and `LocalForger`: an operation is an object with the fields of the schema of
its kind, and is written as the tag of the kind and its fields one after the other, without
separators. `forge` checks that no field is missing, but for one that may be, and `parse` reads the
branch and then operations until nothing is left.
-/

open Js BigEndian

namespace LocalForging

open Utils (Prefix validateBlock)

/-! ## Schemas -/

/-- The fields of an object in order, with their codecs. -/
abbrev Schema := List (String × CODEC)

/-- An object with the fields of a schema; `none` where one is missing. -/
def Fields : Schema → Type
  | [] => Unit
  | field :: schema => Option field.2.Value × Fields schema

variable (lib : Libraries)

/-- `schemaEncoder`. -/
def schemaEncoder : (schema : Schema) → Fields schema → Except ForgeError JSString
  | [], _ => .ok []
  | field :: schema, (value, values) => do
    let encoded ← field.2.encoder lib value
    return encoded ++ (← schemaEncoder schema values)

/-- `schemaDecoder`. -/
def schemaDecoder : (schema : Schema) → Decoder (Fields schema)
  | [] => pure ()
  | field :: schema => do
    let value ← field.2.decoder lib
    let values ← schemaDecoder schema
    return (value, values)

/-- `validateMissingProperty`: the fields that an object does not have. -/
def validateMissingProperty : (schema : Schema) → Fields schema → List String
  | [], _ => []
  | field :: schema, (value, values) =>
    if value.isNone then field.1 :: validateMissingProperty schema values
    else validateMissingProperty schema values

/-- The fields that the operations of a manager begin with. -/
def managerSchema (schema : Schema) : Schema :=
  [("source", .identifier .PKH), ("fee", .ZARITH), ("counter", .ZARITH), ("gas_limit", .ZARITH),
    ("storage_limit", .ZARITH)] ++ schema

/-- `ActivationSchema`. -/
def ActivationSchema : Schema := [("pkh", .identifier .TZ1), ("secret", .SECRET)]

/-- `RevealSchema`. -/
def RevealSchema : Schema := managerSchema [("public_key", .identifier .PUBLIC_KEY)]

/-- `DelegationSchema`. -/
def DelegationSchema : Schema := managerSchema [("delegate", .DELEGATE)]

/-- `TransactionSchema`. -/
def TransactionSchema : Schema := managerSchema
  [("amount", .ZARITH), ("destination", .identifier .ADDRESS), ("parameters", .PARAMETERS)]

/-- `OriginationSchema`. -/
def OriginationSchema : Schema := managerSchema
  [("balance", .ZARITH), ("delegate", .DELEGATE), ("script", .SCRIPT)]

/-- `BallotSchema`. -/
def BallotSchema : Schema :=
  [("source", .identifier .PKH), ("period", .INT32), ("proposal", .identifier .PROPOSAL),
    ("ballot", .BALLOT_STATEMENT)]

/-- `EndorsementSchema`. -/
def EndorsementSchema : Schema :=
  [("slot", .INT16), ("level", .INT32), ("round", .INT32),
    ("block_payload_hash", .identifier .BLOCK_PAYLOAD_HASH)]

/-- `SeedNonceRevelationSchema`. -/
def SeedNonceRevelationSchema : Schema := [("level", .INT32), ("nonce", .RAW)]

/-- `ProposalsSchema`. -/
def ProposalsSchema : Schema :=
  [("source", .identifier .PKH), ("period", .INT32), ("proposals", .PROPOSAL_ARR)]

/-- `RegisterGlobalConstantSchema`. -/
def RegisterGlobalConstantSchema : Schema := managerSchema [("value", .VALUE)]

/-- `TransferTicketSchema`. -/
def TransferTicketSchema : Schema := managerSchema
  [("ticket_contents", .VALUE), ("ticket_ty", .VALUE), ("ticket_ticketer", .identifier .ADDRESS),
    ("ticket_amount", .ZARITH), ("destination", .identifier .ADDRESS), ("entrypoint", .ENTRYPOINT)]

/-- `TxRollupOriginationSchema`. -/
def TxRollupOriginationSchema : Schema := managerSchema
  [("tx_rollup_origination", .TX_ROLLUP_ORIGINATION_PARAM)]

/-- `TxRollupSubmitBatchSchema`. -/
def TxRollupSubmitBatchSchema : Schema := managerSchema
  [("rollup", .identifier .TX_ROLLUP_ID), ("content", .TX_ROLLUP_BATCH_CONTENT),
    ("burn_limit", .BURN_LIMIT)]

/-- `IncreasePaidStorageSchema`. -/
def IncreasePaidStorageSchema : Schema := managerSchema
  [("amount", .ZARITH), ("destination", .identifier .SMART_CONTRACT_ADDRESS)]

/-- `UpdateConsensusKeySchema`. -/
def UpdateConsensusKeySchema : Schema := managerSchema [("pk", .identifier .PUBLIC_KEY)]

/-- `DrainDelegateSchema`. -/
def DrainDelegateSchema : Schema :=
  [("consensus_key", .identifier .PKH), ("delegate", .identifier .PKH),
    ("destination", .identifier .PKH)]

/-- `SetDepositsLimitSchema`. -/
def SetDepositsLimitSchema : Schema := managerSchema [("limit", .DEPOSITS_LIMIT)]

/-- `SmartRollupOriginateSchema`. -/
def SmartRollupOriginateSchema : Schema := managerSchema
  [("pvm_kind", .PVM_KIND), ("kernel", .PADDED_BYTES), ("origination_proof", .PADDED_BYTES),
    ("parameters_ty", .VALUE)]

/-- `SmartRollupAddMessagesSchema`. -/
def SmartRollupAddMessagesSchema : Schema := managerSchema [("message", .SMART_ROLLUP_MESSAGE)]

/-- `SmartRollupExecuteOutboxMessageSchema`. -/
def SmartRollupExecuteOutboxMessageSchema : Schema := managerSchema
  [("rollup", .identifier .SMART_ROLLUP_ADDRESS),
    ("cemented_commitment", .identifier .SMART_ROLLUP_COMMITMENT_HASH),
    ("output_proof", .PADDED_BYTES)]

/-! ## Kinds of operations -/

/-- The kinds that the forger knows. -/
inductive OperationKind where
  | activate_account
  | reveal
  | delegation
  | transaction
  | origination
  | ballot
  | endorsement
  | seed_nonce_revelation
  | proposals
  | register_global_constant
  | tx_rollup_origination
  | tx_rollup_submit_batch
  | transfer_ticket
  | set_deposits_limit
  | increase_paid_storage
  | update_consensus_key
  | drain_delegate
  | smart_rollup_originate
  | smart_rollup_add_messages
  | smart_rollup_execute_outbox_message
  deriving DecidableEq, Repr

namespace OperationKind

/-- `kindMapping`. -/
def kindMapping : List (UInt8 × OperationKind) :=
  [(0x04, activate_account), (0x6b, reveal), (0x6e, delegation), (0x6c, transaction),
    (0x6d, origination), (0x06, ballot), (0x15, endorsement), (0x01, seed_nonce_revelation),
    (0x05, proposals), (0x6f, register_global_constant), (0x96, tx_rollup_origination),
    (0x97, tx_rollup_submit_batch), (0x9e, transfer_ticket), (0x70, set_deposits_limit),
    (0x71, increase_paid_storage), (0x72, update_consensus_key), (0x09, drain_delegate),
    (0xc8, smart_rollup_originate), (0xc9, smart_rollup_add_messages),
    (0xce, smart_rollup_execute_outbox_message)]

/-- The tag of a kind. -/
def tag (kind : OperationKind) : UInt8 :=
  ((kindMapping.find? fun entry => entry.2 = kind).map Prod.fst).getD 0

/-- `kindMappingReverse[kind]`. -/
def kindMappingReverse (kind : OperationKind) : Except ForgeError JSString :=
  pad (2 * kind.tag.toNat) 2

/-- `OperationKindMapping`. -/
def schema : OperationKind → Schema
  | activate_account => ActivationSchema
  | reveal => RevealSchema
  | delegation => DelegationSchema
  | transaction => TransactionSchema
  | origination => OriginationSchema
  | ballot => BallotSchema
  | endorsement => EndorsementSchema
  | seed_nonce_revelation => SeedNonceRevelationSchema
  | proposals => ProposalsSchema
  | register_global_constant => RegisterGlobalConstantSchema
  | tx_rollup_origination => TxRollupOriginationSchema
  | tx_rollup_submit_batch => TxRollupSubmitBatchSchema
  | transfer_ticket => TransferTicketSchema
  | set_deposits_limit => SetDepositsLimitSchema
  | increase_paid_storage => IncreasePaidStorageSchema
  | update_consensus_key => UpdateConsensusKeySchema
  | drain_delegate => DrainDelegateSchema
  | smart_rollup_originate => SmartRollupOriginateSchema
  | smart_rollup_add_messages => SmartRollupAddMessagesSchema
  | smart_rollup_execute_outbox_message => SmartRollupExecuteOutboxMessageSchema

/-- The field that `forge` lets be missing. -/
def optional : OperationKind → Option String
  | delegation | origination => some "delegate"
  | transaction => some "parameters"
  | set_deposits_limit => some "limit"
  | tx_rollup_submit_batch => some "burn_limit"
  | _ => none

theorem kindMapping_lookup (kind : OperationKind) : kindMapping.lookup kind.tag = some kind := by
  cases kind <;> decide

theorem eq_tag_of_lookup {op : UInt8} {kind : OperationKind} (h : kindMapping.lookup op = some kind) :
    op = kind.tag := by
  have hall : ∀ entry ∈ kindMapping, entry.1 = entry.2.tag := by decide
  obtain ⟨l₁, l₂, hentries, -⟩ := List.lookup_eq_some_iff.mp h
  exact hall (op, kind) (by rw [hentries]; simp)

theorem kindMappingReverse_eq (kind : OperationKind) :
    kind.kindMappingReverse = .ok (toHex [kind.tag]) := by
  have hbyte := @pad_two_mul 1 kind.tag.toNat (by omega) kind.tag.toNat_lt
  rw [kindMappingReverse, hbyte]
  simp [beBytes, fixedDigits]

end OperationKind

/-- An element of the contents of an operation: an object of a kind that the forger knows, or one of
another kind. -/
inductive OperationContents where
  | known (kind : OperationKind) (fields : Fields kind.schema)
  | other (kind : String)

/-- `ForgeParams`. -/
structure ForgeParams where
  branch : JSString
  contents : List OperationContents

/-- `operationEncoder`. -/
def operationEncoder : OperationContents → Except ForgeError JSString
  | .known kind fields => do
    let tag ← kind.kindMappingReverse
    return tag ++ (← schemaEncoder lib kind.schema fields)
  | .other kind => .error (.invalidOperationKind kind)

/-- `operationDecoder`. -/
def operationDecoder : Decoder OperationContents := do
  let op ← consumeByte
  match OperationKind.kindMapping.lookup op with
  | none => Reader.fail (.unsupportedOperation (natText op.toNat))
  | some operationName =>
    let decodedObj ← schemaDecoder lib operationName.schema
    return .known operationName decodedObj

/-- `values.reduce((prevBytes, current) => prevBytes + encoder(current), '')`. -/
def contentsEncoder (contents : List OperationContents) : Except ForgeError JSString := do
  let encoded ← contents.mapM (operationEncoder lib)
  return encoded.flatten

/-- `encoders[CODEC.MANAGER]`. -/
def managerEncoder (params : ForgeParams) : Except ForgeError JSString := do
  let branch ← prefixEncoder lib.b58 .B params.branch
  return branch ++ (← contentsEncoder lib params.contents)

/-- `decoders[CODEC.MANAGER]`: operations until nothing is left. An operation is at least a tag, so
the check that something was read never fails. -/
def managerDecoder (value : Bytes) : Except ForgeError ForgeParams := do
  let p ← prefixDecoder lib.b58 .B value
  let contents ← Reader.readAll (operationDecoder lib) .outOfFuel p.2.length p.2
  return { branch := p.1, contents := contents }

/-! ## The forger -/

/-- The checks of `forge` on an element of the contents. -/
def checkContents : OperationContents → Except ForgeError Unit
  | .other kind => .error (.invalidOperationKind kind)
  | .known kind fields =>
    match validateMissingProperty kind.schema fields with
    | [] => .ok ()
    | [field] =>
      if kind.optional = some field then .ok () else .error (.invalidOperationSchema [field])
    | diff => .error (.invalidOperationSchema diff)

/-- `LocalForger.forge`. -/
def forge (params : ForgeParams) : Except ForgeError JSString :=
  if validateBlock lib.b58 params.branch ≠ .VALID then
    .error (.invalidBlockHash (js "The block hash " ++ params.branch ++ js " is invalid"))
  else do
    let _ ← params.contents.mapM checkContents
    let forged ← managerEncoder lib params
    return lib.toLowerCase forged

/-- `LocalForger.parse`. -/
def parse (hex : JSString) : Except ForgeError ForgeParams :=
  let lowHex := lib.toLowerCase hex
  if lowHex.length % 2 == 0 && lowHex.all isLowerHexDigit then
    managerDecoder lib (bufferFromHex lowHex)
  else .error (.invalidHexString lowHex)

end LocalForging
