import Taquito.Signer.Derivation

/-!
# Messages to and from a Ledger

`utils.ts` of the package for the Ledger: the path and the operation as the data of messages to the
device, and the parts of its response. A buffer is the list of its bytes; a byte that a buffer does
not have is `undefined`, which differs from every byte.
-/

open Js BigEndian

namespace Ledger

/-- What the signer throws. -/
inductive LedgerError where
  /-- Of `writeUInt32BE`. -/
  | RangeError
  | InvalidLedgerResponseError
  /-- The transport rejects a message. -/
  | TransportError
  deriving DecidableEq, Repr

/-- `MAX_CHUNK_SIZE`. -/
def MAX_CHUNK_SIZE : ℕ := 230

/-! ## Paths -/

/-- The number that an element of the path is pushed as; `NaN` is not. -/
def elementIndex (element : JSString) : Option ℤ :=
  (Signer.parseIndex element).map fun toNumber =>
    if element.length > 1 ∧ element.getLast? = some 39 then toNumber + 2 ^ 31 else toNumber

/-- The bytes that `writeUInt32BE` writes. -/
def writeUInt32BE (value : ℤ) : Except LedgerError Bytes :=
  if 0 ≤ value ∧ value < 2 ^ 32 then .ok (beBytes 4 value.toNat) else .error .RangeError

/-- `transformPathToBuffer`. -/
def transformPathToBuffer (path : JSString) : Except LedgerError Bytes := do
  let result := (Signer.splitSlash path).filterMap elementIndex
  let elements ← result.mapM writeUInt32BE
  return UInt8.ofNat result.length :: elements.flatten

/-! ## Operations -/

/-- `appendWatermark`. -/
def appendWatermark (bytes : JSString) (watermark : Option Bytes) : JSString :=
  match watermark with
  | some watermark => toHex watermark ++ bytes
  | none => bytes

/-- `chunkSize`. -/
def chunkSize (operation : Bytes) (offset : ℕ) : ℕ :=
  if offset + MAX_CHUNK_SIZE ≥ operation.length then operation.length - offset else MAX_CHUNK_SIZE

theorem chunkSize_spec {operation : Bytes} {offset : ℕ} (h : offset < operation.length) :
    0 < chunkSize operation offset ∧ chunkSize operation offset ≤ 230 ∧
      chunkSize operation offset ≤ operation.length - offset := by
  have hmax : MAX_CHUNK_SIZE = 230 := rfl
  rw [chunkSize]
  by_cases hlast : offset + MAX_CHUNK_SIZE ≥ operation.length
  · rw [if_pos hlast]
    omega
  · rw [if_neg hlast]
    omega

/-- The buffers that `chunkOperation` pushes from an offset on, which never gets past the end. -/
def chunksFrom (operation : Bytes) (offset : ℕ) : List Bytes :=
  if offset < operation.length then
    (operation.drop offset).take (chunkSize operation offset) ::
      chunksFrom operation (offset + chunkSize operation offset)
  else []
termination_by operation.length - offset
decreasing_by
  have hsize := chunkSize_spec ‹_›
  omega

/-- `chunkOperation`. -/
def chunkOperation (messageToSend : List Bytes) (operation : Bytes) : List Bytes :=
  messageToSend ++ chunksFrom operation 0

/-! ## Responses -/

/-- `validateResponse`. -/
def validateResponse (response : Bytes) : Bool :=
  (response[0]? = some 0x31 ∨ response[0]? = some 0x30) &&
  response[1]?.map (fun n => n.toNat + 4) = some response.length &&
  response[2]? = some 0x02 &&
  match response[3]? with
  | none => false
  | some rLength =>
    response[4 + rLength.toNat]? = some 0x02 &&
    match response[5 + rLength.toNat]? with
    | none => false
    | some sLength => 5 + rLength.toNat + 1 + sLength.toNat + 2 = response.length

/-- What `extractValue` returns. -/
structure ExtractedValue where
  buffer : Bytes
  idxValueStart : ℕ
  length : ℕ
  deriving DecidableEq, Repr

/-- `extractValue`, at an index of the response. -/
def extractValue (idxLength : ℕ) (response : Bytes) : Option ExtractedValue :=
  response[idxLength]?.map fun n =>
    let length := min n.toNat 32
    let idxValueStart := idxLength + 1 + (n.toNat - 32)
    let value := (response.drop idxValueStart).take length
    ⟨Signer.set (List.replicate 32 0) value (32 - length), idxValueStart, length⟩

end Ledger
