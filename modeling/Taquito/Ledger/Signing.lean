import Taquito.Host.Bs58check
import Taquito.Ledger.Utils
import Taquito.LocalForging.Utils
import Taquito.Signer.KeyDerivation
import Taquito.Signer.Signing

/-!
# Signing with a Ledger

`LedgerSigner.sign` sends the path and then the operation, in chunks, and takes the signature out of
the last response. For the elliptic curves this is a DER sequence of two integers, which have up to
33 octets; `extractValue` right-aligns each in 32 octets, and the length of the second stands
behind the end of the first. `signs` says that the chunks are the operation and that the signature
is that of the sequence.
-/

open Js BigEndian LocalForging Signer

namespace Ledger

/-! ## Messages -/

/-- A message to the device. -/
structure Apdu where
  cla : UInt8
  ins : UInt8
  p1 : UInt8
  p2 : UInt8
  data : Bytes
  deriving DecidableEq, Repr

/-- `DerivationType`. -/
inductive DerivationType where
  | ED25519 | SECP256K1 | P256 | BIP32_ED25519
  deriving DecidableEq, Repr

/-- Its value. -/
def DerivationType.value : DerivationType → UInt8
  | .ED25519 => 0x00
  | .SECP256K1 => 0x01
  | .P256 => 0x02
  | .BIP32_ED25519 => 0x03

/-- The prefix of its signatures, of `getPrefixes`. -/
def DerivationType.prefSig : DerivationType → Utils.Prefix
  | .ED25519 => .EDSIG
  | .BIP32_ED25519 => .EDSIG
  | .SECP256K1 => .SPSIG
  | .P256 => .P2SIG

/-- `LedgerSigner`. -/
structure LedgerSigner where
  path : JSString
  derivationType : DerivationType
  deriving DecidableEq, Repr

/-- The transport, with a device behind it: the answer to a message after others, or none where
`send` is rejected. -/
abbrev Transport := List Apdu → Apdu → Option Bytes

namespace LedgerSigner

/-- `CLA`. -/
def CLA : UInt8 := 0x80

/-- `INS_SIGN`. -/
def INS_SIGN : UInt8 := 0x04

/-- `FIRST_MESSAGE_SEQUENCE`. -/
def FIRST_MESSAGE_SEQUENCE : UInt8 := 0x00

/-- `LAST_MESSAGE_SEQUENCE`. -/
def LAST_MESSAGE_SEQUENCE : UInt8 := 0x81

/-- `OTHER_MESSAGE_SEQUENCE`. -/
def OTHER_MESSAGE_SEQUENCE : UInt8 := 0x01

section send

variable (self : LedgerSigner) (transport : Transport)

/-- The message that `signWithLedger` sends. -/
def message (p1 : UInt8) (data : Bytes) : Apdu :=
  ⟨CLA, INS_SIGN, p1, self.derivationType.value, data⟩

/-- The loop of `signWithLedger` from a message on: what has been sent, and the last response. -/
def sendFrom (count : ℕ) : ℕ → List Bytes → List Apdu → Bytes → List Apdu × Except LedgerError Bytes
  | _, [], sent, ledgerResponse => (sent, .ok ledgerResponse)
  | i, data :: rest, sent, _ =>
    let p1 := if i = count - 1 then LAST_MESSAGE_SEQUENCE else OTHER_MESSAGE_SEQUENCE
    match transport sent (self.message p1 data) with
    | none => (sent ++ [self.message p1 data], .error .TransportError)
    | some ledgerResponse =>
      sendFrom count (i + 1) rest (sent ++ [self.message p1 data]) ledgerResponse

/-- `signWithLedger`, of a message that begins with the path. -/
def signWithLedger (path : Bytes) (rest : List Bytes) : List Apdu × Except LedgerError Bytes :=
  match transport [] (self.message FIRST_MESSAGE_SEQUENCE path) with
  | none => ([self.message FIRST_MESSAGE_SEQUENCE path], .error .TransportError)
  | some ledgerResponse =>
    self.sendFrom transport (rest.length + 1) 1 rest
      [self.message FIRST_MESSAGE_SEQUENCE path] ledgerResponse

end send

/-- The signature in a response. -/
def signature (self : LedgerSigner) (ledgerResponse : Bytes) : Except LedgerError Bytes :=
  if self.derivationType = .ED25519 ∨ self.derivationType = .BIP32_ED25519 then
    .ok (ledgerResponse.take (ledgerResponse.length - 2))
  else if !validateResponse ledgerResponse then .error .InvalidLedgerResponseError
  else
    match extractValue 3 ledgerResponse with
    | none => .error .InvalidLedgerResponseError
    | some rValue =>
      match extractValue (rValue.idxValueStart + rValue.length + 1) ledgerResponse with
      | none => .error .InvalidLedgerResponseError
      | some sValue => .ok (rValue.buffer ++ sValue.buffer)

/-- `sign`: what is sent to the device, and what is returned. -/
def sign (b58 : Base58Check) (self : LedgerSigner) (transport : Transport) (bytes : JSString)
    (watermark : Option Bytes) : List Apdu × Except LedgerError Signed :=
  match transformPathToBuffer self.path with
  | .error err => ([], .error err)
  | .ok path =>
    let watermarkedBytes2buff := bufferFromHex (appendWatermark bytes watermark)
    let messageToSend := chunkOperation [path] watermarkedBytes2buff
    let exchange := self.signWithLedger transport path (messageToSend.drop 1)
    (exchange.1, do
      let ledgerResponse ← exchange.2
      let signature ← self.signature ledgerResponse
      return {
        bytes := bytes
        sig := Utils.b58cencode b58 signature Utils.Prefix.SIG.bytes
        prefixSig := Utils.b58cencode b58 signature self.derivationType.prefSig.bytes
        sbytes := bytes ++ toHex signature })

end LedgerSigner

/-! ## What a signature must be -/

/-- The messages of chunks: the last one has another `P1`. -/
def chunkMessages (self : LedgerSigner) : List Bytes → List Apdu
  | [] => []
  | [chunk] => [self.message 0x81 chunk]
  | chunk :: chunks => self.message 0x01 chunk :: chunkMessages self chunks

/-- **An operation is sent in chunks**, after the path, until the transport rejects one. -/
def SendsInChunks (b58 : Base58Check) (self : LedgerSigner) (transport : Transport)
    (bytes : JSString) (watermark : Option Bytes) (operation : Bytes) : Prop :=
  match transformPathToBuffer self.path with
  | .error err => self.sign b58 transport bytes watermark = ([], .error err)
  | .ok path => ∃ chunks : List Bytes,
    (∀ chunk ∈ chunks, chunk ≠ [] ∧ chunk.length ≤ 230) ∧
    chunks.flatten = watermark.getD [] ++ operation ∧
    (self.sign b58 transport bytes watermark).1 <+:
      self.message 0x00 path :: chunkMessages self chunks ∧
    ((self.sign b58 transport bytes watermark).2 ≠ .error .TransportError →
      (self.sign b58 transport bytes watermark).1 =
        self.message 0x00 path :: chunkMessages self chunks)

/-- The content of a DER integer: its octets, after a zero if the first would be a sign. -/
def derContent (n : ℕ) : Bytes :=
  if (minimalBytes n).head?.any (128 ≤ ·) then 0 :: minimalBytes n else minimalBytes n

/-- A DER integer. -/
def derInteger (n : ℕ) : Bytes := 0x02 :: UInt8.ofNat (derContent n).length :: derContent n

/-- A DER sequence of two integers, under a tag. -/
def derSignature (tag : UInt8) (r s : ℕ) : Bytes :=
  tag :: UInt8.ofNat (derInteger r ++ derInteger s).length :: (derInteger r ++ derInteger s)

/-! ## Chunks -/

theorem chunksFrom_spec (operation : Bytes) (offset : ℕ) :
    (∀ chunk ∈ chunksFrom operation offset, chunk ≠ [] ∧ chunk.length ≤ 230) ∧
      (chunksFrom operation offset).flatten = operation.drop offset := by
  induction offset using chunksFrom.induct operation with
  | case1 offset h ih =>
    obtain ⟨hpos, hmax, hfits⟩ := chunkSize_spec h
    have hlength : ((operation.drop offset).take (chunkSize operation offset)).length =
        chunkSize operation offset := by
      rw [List.length_take, List.length_drop]
      omega
    rw [chunksFrom, if_pos h]
    constructor
    · rw [List.forall_mem_cons]
      refine ⟨⟨fun hnil => ?_, hlength.trans_le hmax⟩, ih.1⟩
      rw [hnil, List.length_nil] at hlength
      omega
    · rw [List.flatten_cons, ih.2, ← List.drop_drop]
      exact List.take_append_drop (chunkSize operation offset) (operation.drop offset)
  | case2 offset h =>
    rw [chunksFrom, if_neg h, List.drop_eq_nil_of_le (by omega)]
    exact ⟨fun chunk hc => absurd hc List.not_mem_nil, rfl⟩

/-- The watermark is put before the operation. -/
theorem bufferFromHex_appendWatermark {bytes : JSString} {operation : Bytes}
    (watermark : Option Bytes) (h : HexOf bytes operation) :
    bufferFromHex (appendWatermark bytes watermark) = watermark.getD [] ++ operation := by
  cases watermark with
  | none => exact h.2
  | some watermark => exact ((hexOf_toHex watermark).append h).2

/-- What the loop sends. -/
theorem sendFrom_spec (self : LedgerSigner) (transport : Transport) {count : ℕ}
    (rest : List Bytes) (i : ℕ) (sent : List Apdu) (ledgerResponse : Bytes)
    (hcount : i + rest.length = count) :
    (self.sendFrom transport count i rest sent ledgerResponse).1 <+:
        sent ++ chunkMessages self rest ∧
      ((self.sendFrom transport count i rest sent ledgerResponse).2 ≠ .error .TransportError →
        (self.sendFrom transport count i rest sent ledgerResponse).1 =
          sent ++ chunkMessages self rest) := by
  induction rest generalizing i sent ledgerResponse with
  | nil =>
    rw [chunkMessages, List.append_nil]
    exact ⟨List.prefix_refl sent, fun _ => rfl⟩
  | cons data rest ih =>
    rw [List.length_cons] at hcount
    -- The last message is the one after which nothing is left.
    obtain ⟨p1, hp1, hmessages⟩ : ∃ p1,
        (if i = count - 1 then LedgerSigner.LAST_MESSAGE_SEQUENCE
          else LedgerSigner.OTHER_MESSAGE_SEQUENCE) = p1 ∧
        chunkMessages self (data :: rest) = self.message p1 data :: chunkMessages self rest := by
      cases rest with
      | nil =>
        rw [List.length_nil] at hcount
        exact ⟨0x81, if_pos (by omega), rfl⟩
      | cons data' rest =>
        rw [List.length_cons] at hcount
        exact ⟨0x01, if_neg (by omega), rfl⟩
    rw [LedgerSigner.sendFrom, hmessages]
    simp only [hp1]
    cases transport sent (self.message p1 data) with
    | none =>
      refine ⟨?_, fun h => absurd rfl h⟩
      exact (List.prefix_append_right_inj sent).mpr (List.prefix_append [_] _)
    | some response =>
      have hnext := ih (i + 1) (sent ++ [self.message p1 data]) response (by omega)
      rwa [List.append_assoc, List.singleton_append] at hnext

/-- What `signWithLedger` sends. -/
theorem signWithLedger_spec (self : LedgerSigner) (transport : Transport) (path : Bytes)
    (rest : List Bytes) :
    (self.signWithLedger transport path rest).1 <+:
        self.message 0x00 path :: chunkMessages self rest ∧
      ((self.signWithLedger transport path rest).2 ≠ .error .TransportError →
        (self.signWithLedger transport path rest).1 =
          self.message 0x00 path :: chunkMessages self rest) := by
  have hfirst : LedgerSigner.FIRST_MESSAGE_SEQUENCE = 0x00 := rfl
  rw [LedgerSigner.signWithLedger, hfirst]
  cases transport [] (self.message 0x00 path) with
  | none => exact ⟨List.prefix_append [_] _, fun h => absurd rfl h⟩
  | some response =>
    exact sendFrom_spec self transport rest 1 [self.message 0x00 path] response (Nat.add_comm 1 _)

/-- **The operation is sent in chunks.** -/
theorem sendsInChunks (b58 : Base58Check) (self : LedgerSigner) (transport : Transport)
    {bytes : JSString} {operation : Bytes} (watermark : Option Bytes)
    (h : HexOf bytes operation) :
    SendsInChunks b58 self transport bytes watermark operation := by
  rw [SendsInChunks, LedgerSigner.sign, bufferFromHex_appendWatermark watermark h]
  cases transformPathToBuffer self.path with
  | error err => rfl
  | ok path =>
    obtain ⟨hchunks, hflatten⟩ := chunksFrom_spec (watermark.getD [] ++ operation) 0
    obtain ⟨hsent, hall⟩ := signWithLedger_spec self transport path
      (chunksFrom (watermark.getD [] ++ operation) 0)
    refine ⟨_, hchunks, hflatten, hsent, fun hne => hall fun herr => hne ?_⟩
    show (self.signWithLedger transport path
      (chunksFrom (watermark.getD [] ++ operation) 0)).2 >>= _ = _
    rw [herr]
    rfl

/-! ## Responses -/

theorem length_derContent_le {n : ℕ} (h : n < 2 ^ 256) : (derContent n).length ≤ 33 := by
  have hlength : (minimalBytes n).length ≤ 32 := by
    have hlog : n.log2 < 256 := by
      by_cases hn : n = 0
      · rw [hn]
        decide
      · exact (Nat.log2_lt hn).mpr h
    rw [minimalBytes, beBytes_length]
    omega
  rw [derContent]
  split
  · rw [List.length_cons]
    omega
  · omega

theorem beValue_zero_cons (bs : Bytes) : beValue (0 :: bs) = beValue bs := by
  have hzero : beValue [0] = 0 := rfl
  calc beValue (0 :: bs) = beValue [0] * 256 ^ bs.length + beValue bs :=
        Bs58check.beValue_append [0] bs
    _ = beValue bs := by rw [hzero, Nat.zero_mul, Nat.zero_add]

theorem beValue_replicate_append (k : ℕ) (bs : Bytes) :
    beValue (List.replicate k 0 ++ bs) = beValue bs := by
  induction k with
  | zero => rfl
  | succ k ih => rw [List.replicate_succ, List.cons_append, beValue_zero_cons, ih]

theorem beValue_derContent (n : ℕ) : beValue (derContent n) = n := by
  rw [derContent]
  split
  · rw [beValue_zero_cons, beValue_minimalBytes]
  · exact beValue_minimalBytes n

/-- What stands before the last 32 octets of a number is zero. -/
theorem beValue_drop {content : Bytes} (h : beValue content < 2 ^ 256) :
    beValue (content.drop (content.length - 32)) = beValue content := by
  by_cases hle : content.length ≤ 32
  · rw [Nat.sub_eq_zero_of_le hle, List.drop_zero]
  · have happend := Bs58check.beValue_append (content.take (content.length - 32))
      (content.drop (content.length - 32))
    have hlength : (content.drop (content.length - 32)).length = 32 := by
      rw [List.length_drop]
      omega
    rw [List.take_append_drop, hlength] at happend
    have hzero : beValue (content.take (content.length - 32)) = 0 := by
      by_contra hne
      have hle := Nat.mul_le_mul_right (256 ^ 32) (Nat.one_le_iff_ne_zero.mpr hne)
      omega
    rw [happend, hzero, Nat.zero_mul, Nat.zero_add]

/-- The number in a response is extracted with 32 octets. -/
theorem extractValue_eq {response content rest : Bytes} {idxLength : ℕ}
    (hlength : response[idxLength]? = some (UInt8.ofNat content.length))
    (hcontent : response.drop (idxLength + 1) = content ++ rest) (hle : content.length ≤ 33)
    (hvalue : beValue content < 2 ^ 256) :
    extractValue idxLength response = some
      ⟨beBytes 32 (beValue content), idxLength + 1 + (content.length - 32),
        min content.length 32⟩ := by
  have hnat : (UInt8.ofNat content.length).toNat = content.length := by
    rw [UInt8.toNat_ofNat']
    exact Nat.mod_eq_of_lt (by omega)
  have hdrop : (content.drop (content.length - 32)).length = min content.length 32 := by
    rw [List.length_drop]
    omega
  have hread : (response.drop (idxLength + 1 + (content.length - 32))).take
      (min content.length 32) = content.drop (content.length - 32) := by
    rw [← List.drop_drop, hcontent, List.drop_append_of_le_length (by omega)]
    exact List.take_left' hdrop
  have hbuffer : Signer.set (List.replicate 32 0) (content.drop (content.length - 32))
      (32 - min content.length 32) = beBytes 32 (beValue content) := by
    have hset : Signer.set (List.replicate 32 0) (content.drop (content.length - 32))
        (32 - min content.length 32) =
        List.replicate (32 - min content.length 32) 0 ++
          content.drop (content.length - 32) := by
      rw [Signer.set, hdrop, List.take_replicate, List.drop_replicate]
      have htake : min (32 - min content.length 32) 32 = 32 - min content.length 32 := by omega
      have hrest : 32 - (32 - min content.length 32 + min content.length 32) = 0 := by omega
      rw [htake, hrest, List.replicate_zero, List.append_nil]
    rw [hset]
    apply beValue_injective
    · rw [List.length_append, List.length_replicate, hdrop, beBytes_length]
      omega
    · rw [beValue_replicate_append, beValue_drop hvalue, beValue_beBytes]
      exact hvalue
  rw [extractValue, hlength, Option.map_some]
  simp only [hnat, hread, hbuffer]

section response

variable (tag : UInt8) (r s : ℕ) (status : Bytes)

/-- The response, laid out. -/
theorem derSignature_append :
    derSignature tag r s ++ status = tag :: UInt8.ofNat (derInteger r ++ derInteger s).length ::
      0x02 :: UInt8.ofNat (derContent r).length :: (derContent r ++
        0x02 :: UInt8.ofNat (derContent s).length :: (derContent s ++ status)) := by
  simp [derSignature, derInteger]

theorem getElem?_after (content rest : Bytes) (a b c d : UInt8) (k : ℕ) :
    (a :: b :: c :: d :: (content ++ rest))[4 + k + content.length]? = rest[k]? := by
  have hindex : 4 + k + content.length = content.length + k + 1 + 1 + 1 + 1 := by omega
  rw [hindex, List.getElem?_cons_succ, List.getElem?_cons_succ, List.getElem?_cons_succ,
    List.getElem?_cons_succ, List.getElem?_append_right (Nat.le_add_right _ k),
    Nat.add_sub_cancel_left]

theorem toNat_ofNat_length {bs : Bytes} (h : bs.length < 256) :
    (UInt8.ofNat bs.length).toNat = bs.length := by
  rw [UInt8.toNat_ofNat']
  exact Nat.mod_eq_of_lt h

variable {r s} (hr : r < 2 ^ 256) (hs : s < 2 ^ 256)

include hr hs

theorem validateResponse_derSignature (htag : tag = 0x30 ∨ tag = 0x31)
    (hstatus : status.length = 2) :
    validateResponse (derSignature tag r s ++ status) = true := by
  have hlr := length_derContent_le hr
  have hls := length_derContent_le hs
  have hintegers : (derInteger r ++ derInteger s).length =
      (derContent r).length + (derContent s).length + 4 := by
    simp only [derInteger, List.length_append, List.length_cons]
    omega
  have hlength : (derSignature tag r s ++ status).length =
      (derInteger r ++ derInteger s).length + 4 := by
    rw [derSignature, List.length_append, List.length_cons, List.length_cons, hstatus]
  have hlayout := derSignature_append tag r s status
  generalize derSignature tag r s ++ status = response at hlength hlayout
  have h0 : response[0]? = some tag := by rw [hlayout]; rfl
  have h1 : response[1]? = some (UInt8.ofNat (derInteger r ++ derInteger s).length) := by
    rw [hlayout]
    rfl
  have h2 : response[2]? = some 0x02 := by rw [hlayout]; rfl
  have h3 : response[3]? = some (UInt8.ofNat (derContent r).length) := by rw [hlayout]; rfl
  have h4 : response[4 + (derContent r).length]? = some 0x02 := by
    rw [hlayout]
    exact getElem?_after (derContent r) _ _ _ _ _ 0
  have h5 : response[5 + (derContent r).length]? = some (UInt8.ofNat (derContent s).length) := by
    rw [hlayout]
    exact getElem?_after (derContent r) _ _ _ _ _ 1
  rw [validateResponse, h3]
  simp only [h0, h1, h2, toNat_ofNat_length (show (derContent r).length < 256 by omega), h4, h5,
    toNat_ofNat_length (show (derContent s).length < 256 by omega), Option.map_some,
    toNat_ofNat_length (show (derInteger r ++ derInteger s).length < 256 by omega), hlength,
    Bool.and_eq_true, decide_eq_true_eq, Option.some.injEq, and_true, true_and]
  exact ⟨htag.symm, by omega⟩

/-- **The signature is that of the sequence.** -/
theorem signature_derSignature (self : LedgerSigner)
    (hcurve : self.derivationType = .SECP256K1 ∨ self.derivationType = .P256)
    (htag : tag = 0x30 ∨ tag = 0x31) (hstatus : status.length = 2) :
    self.signature (derSignature tag r s ++ status) = .ok (beBytes 32 r ++ beBytes 32 s) := by
  have hlr := length_derContent_le hr
  have hfirst := @extractValue_eq (derSignature tag r s ++ status) (derContent r)
    (0x02 :: UInt8.ofNat (derContent s).length :: (derContent s ++ status)) 3
    (by rw [derSignature_append]; rfl) (by rw [derSignature_append]; rfl) hlr
    (by rwa [beValue_derContent])
  -- The end of the first integer does not depend on how much of it was cut off.
  have hindex : 4 + ((derContent r).length - 32) + min (derContent r).length 32 + 1 =
      5 + (derContent r).length := by omega
  have hsecond := @extractValue_eq (derSignature tag r s ++ status) (derContent s) status
    (5 + (derContent r).length)
    (by rw [derSignature_append]; exact getElem?_after (derContent r) _ _ _ _ _ 1)
    (by
      rw [derSignature_append]
      have hdrop : 5 + (derContent r).length + 1 = (derContent r).length + 2 + 1 + 1 + 1 + 1 := by
        omega
      rw [hdrop, List.drop_succ_cons, List.drop_succ_cons, List.drop_succ_cons,
        List.drop_succ_cons, ← List.drop_drop, List.drop_left]
      rfl)
    (length_derContent_le hs) (by rwa [beValue_derContent])
  have hnot : ¬(self.derivationType = .ED25519 ∨ self.derivationType = .BIP32_ED25519) := by
    obtain h | h := hcurve <;> rw [h] <;> decide
  rw [LedgerSigner.signature, if_neg hnot,
    validateResponse_derSignature tag status hr hs htag hstatus, hfirst]
  simp only [hindex, hsecond, beValue_derContent]
  rfl

end response

end Ledger
