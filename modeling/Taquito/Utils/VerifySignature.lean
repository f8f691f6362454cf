import Taquito.Host.Crypto
import Taquito.Utils.Validators

/-!
# Verification of signatures

`verifySignature` and `getPkhfromPk`: the prefix of a public key and of a signature is found by the
validators, cut off by its length, and the curve of the key decides how the signature is read. A
signature of an elliptic curve is written in hexadecimal and split by a regular expression.
-/

open Js BigEndian

namespace Utils

/-- What the functions below throw. -/
inductive UtilsError where
  | InvalidHexStringError (hex : JSString)
  | InvalidMessageError (message errorDetail : JSString)
  | InvalidPublicKeyError (publicKey errorDetail : JSString)
  | InvalidSignatureError (signature errorDetail : JSString)
  | invalidBase58 (text : JSString)
  | unknownPoint
  deriving DecidableEq, Repr

variable (b58 : Base58Check) (crypto : CryptoLibraries)

/-- `hex2buf`. -/
def hex2buf (hex : JSString) : Except UtilsError Bytes :=
  let hex := if (js "0x").isPrefixOf hex then hex.drop 2 else hex
  if hex ≠ [] ∧ isHexPairs hex = true then .ok (bufferFromHex hex)
  else .error (.InvalidHexStringError hex)

theorem hex2buf_eq_ok {hex : JSString} (hne : hex ≠ []) (hpairs : isHexPairs hex = true) :
    hex2buf hex = .ok (bufferFromHex hex) := by
  have hx : ¬ (js "0x").isPrefixOf hex = true := by
    intro h
    obtain ⟨rest, rfl⟩ := List.isPrefixOf_iff_prefix.mp h
    rw [isHexPairs, Bool.and_eq_true, List.all_eq_true] at hpairs
    exact absurd (hpairs.2 120 (by simp [js])) (by decide)
  unfold hex2buf
  simp only [if_neg hx]
  rw [if_pos ⟨hne, hpairs⟩]

/-- `b58cencode`. -/
def b58cencode (value pre : Bytes) : JSString := b58.encode (pre ++ value)

/-- `b58cdecode`. -/
def b58cdecode (enc : JSString) (prefixArg : Bytes) : Except UtilsError Bytes :=
  match b58.decode enc with
  | none => .error (.invalidBase58 enc)
  | some bs => .ok (bs.drop prefixArg.length)

/-- `validateMessageNotEmpty`. -/
def validateMessageNotEmpty (message : JSString) : Except UtilsError JSString :=
  if message = [] then .error (.InvalidMessageError message
    (js "The message provided for verifying signature cannot be empty."))
  else .ok message

/-- The kinds of a public key. -/
def pkPrefixes : List Prefix := [.EDPK, .SPPK, .P2PK, .BLPK]

/-- The kinds of a signature. -/
def sigPrefixes : List Prefix := [.EDSIG, .P2SIG, .SPSIG, .SIG]

/-- The kind that a text names, of those given. -/
def prefixOfText (prefixes : List Prefix) (text : JSString) : Option Prefix :=
  prefixes.find? fun p => p.text = text

/-- `validatePkAndExtractPrefix`. -/
def validatePkAndExtractPrefix (publicKey : JSString) : Except UtilsError Prefix :=
  if publicKey = [] then
    .error (.InvalidPublicKeyError publicKey (js "Public key cannot be empty"))
  else
    let pkPrefix := publicKey.take 4
    match validatePublicKey b58 publicKey with
    | .INVALID_CHECKSUM => .error (.InvalidPublicKeyError publicKey
        (js "The public key provided has an invalid checksum"))
    | .INVALID_LENGTH => .error (.InvalidPublicKeyError publicKey
        (js "The public key provided has an invalid length"))
    | .NO_PREFIX_MATCHED => .error (.InvalidPublicKeyError publicKey
        (js "The public key provided has an unsupported prefix: " ++ pkPrefix))
    | .VALID =>
      match prefixOfText pkPrefixes pkPrefix with
      | some p => .ok p
      | none => .error (.InvalidPublicKeyError publicKey
          (js "unknown public key validation error"))

/-- `validateSigAndExtractPrefix`. -/
def validateSigAndExtractPrefix (signature : JSString) : Except UtilsError Prefix :=
  let signaturePrefix :=
    if (js "sig").isPrefixOf signature then signature.take 3 else signature.take 5
  match validateSignature b58 signature with
  | .INVALID_CHECKSUM => .error (.InvalidSignatureError signature (js "invalid checksum"))
  | .INVALID_LENGTH => .error (.InvalidSignatureError signature (js "invalid length"))
  | .NO_PREFIX_MATCHED =>
    .error (.InvalidSignatureError signaturePrefix (js "unsupported prefix"))
  | .VALID =>
    match prefixOfText sigPrefixes signaturePrefix with
    | some p => .ok p
    | none => .error (.InvalidSignatureError signature
        (js "unknown signature validation error"))

/-- The matches of `/([a-f\d]{64})/gi`, of the first `n` places. -/
def hexMatches : ℕ → JSString → List JSString
  | 0, _ => []
  | n + 1, s =>
    if s.length < 64 then []
    else if (s.take 64).all isHexDigit then s.take 64 :: hexMatches n (s.drop 64)
    else hexMatches n (s.drop 1)

/-- `verifySpOrP2Sig`. -/
def verifySpOrP2Sig (curve : EllipticCurve) (decodedSig bytesHash : Bytes) (key : CurvePoint) :
    Bool :=
  let hexSig := toHex decodedSig
  match hexMatches hexSig.length hexSig with
  | r :: s :: _ =>
    (curve.verify key bytesHash (beValue (bufferFromHex r)) (beValue (bufferFromHex s))).getD false
  | _ => false

/-- `verifySpSignature` and `verifyP2Signature`. -/
def verifyCurveSignature (curve : EllipticCurve) (decodedSig bytesHash decodedPublicKey : Bytes) :
    Except UtilsError Bool :=
  match curve.keyFromPublic decodedPublicKey with
  | none => .error .unknownPoint
  | some key => .ok (verifySpOrP2Sig curve decodedSig bytesHash key)

/-- `verifyEdSignature`. -/
def verifyEdSignature (decodedSig bytesHash decodedPublicKey : Bytes) : Bool :=
  (crypto.nacl.verify bytesHash decodedSig decodedPublicKey).getD false

/-- `verifySignature`. -/
def verifySignature (messageBytes publicKey signature : JSString) : Except UtilsError Bool := do
  let pkPrefix ← validatePkAndExtractPrefix b58 publicKey
  let sigPrefix ← validateSigAndExtractPrefix b58 signature
  let decodedPublicKey ← b58cdecode b58 publicKey pkPrefix.bytes
  let decodedSig ← b58cdecode b58 signature sigPrefix.bytes
  let message ← hex2buf (← validateMessageNotEmpty messageBytes)
  let bytesHash := crypto.blake2b message 32
  if pkPrefix = .EDPK then return verifyEdSignature crypto decodedSig bytesHash decodedPublicKey
  else if pkPrefix = .SPPK then
    verifyCurveSignature crypto.secp256k1 decodedSig bytesHash decodedPublicKey
  else if pkPrefix = .P2PK then
    verifyCurveSignature crypto.p256 decodedSig bytesHash decodedPublicKey
  else return false

/-- The kind of the hash of a public key. -/
def pkhPrefix : Prefix → Prefix
  | .EDPK => .TZ1
  | .SPPK => .TZ2
  | .P2PK => .TZ3
  | _ => .TZ4

/-- `getPkhfromPk`. -/
def getPkhfromPk (publicKey : JSString) : Except UtilsError JSString := do
  let keyPrefix ← validatePkAndExtractPrefix b58 publicKey
  let decoded ← b58cdecode b58 publicKey keyPrefix.bytes
  let encodingPrefix := pkhPrefix keyPrefix
  return b58cencode b58 (crypto.blake2b decoded encodingPrefix.payload) encodingPrefix.bytes

end Utils
