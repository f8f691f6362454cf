import Taquito.Signer.Derivation
import Taquito.Utils.VerifySignature

/-!
# The in-memory signer

`InMemorySigner` with its keys: `Tz1` of Ed25519, `ECKey` of the two elliptic curves. A constructor
cuts the prefix off the secret key, decrypts it if the third letter says so, and keeps the public
key beside it: for an elliptic curve the parity of `y` and the octets of `x`, padded to 32.
-/

open Js BigEndian Utils

namespace Signer

/-- What the signer throws. -/
inductive SignerError where
  | InvalidKeyError (key errorDetail : JSString)
  | InvalidPassphraseError (message : JSString)
  | utils (e : UtilsError)
  | typeError
  | badSize
  | noPoint
  deriving DecidableEq, Repr

/-- The entries of `prefix` that a secret key can name. -/
def secretPrefixes : List (JSString × Bytes) :=
  [(js "edsk", [43, 246, 78, 7]), (js "spsk", [17, 162, 224, 201]),
    (js "p2sk", [16, 81, 238, 189]), (js "edesk", [7, 90, 60, 179, 41]),
    (js "spesk", [0x09, 0xed, 0xf1, 0xae, 0x96]), (js "p2esk", [0x09, 0x30, 0x39, 0x73, 0xab])]

/-- `decrypt`. -/
abbrev Decrypt := Bytes → Option Bytes

/-- What `sign` returns. -/
structure Signed where
  bytes : JSString
  sig : JSString
  prefixSig : JSString
  sbytes : JSString
  deriving DecidableEq, Repr

/-- A key of a signer: the two private fields. -/
structure SecretKey where
  key : Bytes
  publicKey : Bytes
  deriving DecidableEq, Repr

variable (b58 : Base58Check) (crypto : CryptoLibraries)

/-- `decrypt(b58cdecode(key, prefix[keyPrefix]))`, as both constructors compute it. -/
def secretOctets (key : JSString) (encrypted : Bool) (decrypt : Decrypt) :
    Except SignerError Bytes := do
  let keyPrefix := key.take (if encrypted then 5 else 4)
  match secretPrefixes.lookup keyPrefix with
  | none => .error (.InvalidKeyError key (js "Key contains invalid prefix"))
  | some pre =>
    let octets ← (b58cdecode b58 key pre).mapError .utils
    match decrypt octets with
    | none => .error .typeError
    | some octets => .ok octets

/-! ## Ed25519 -/

/-- The constructor of `Tz1`. -/
def Tz1.new (key : JSString) (encrypted : Bool) (decrypt : Decrypt) :
    Except SignerError SecretKey := do
  let octets ← secretOctets b58 key encrypted decrypt
  if octets.length ≠ 64 then
    match crypto.nacl.fromSeed octets with
    | none => .error .badSize
    | some (secretKey, publicKey) => .ok { key := secretKey, publicKey := publicKey }
  else .ok { key := octets, publicKey := octets.drop 32 }

/-- `Tz1.sign`. -/
def Tz1.sign (self : SecretKey) (bytes : JSString) (bytesHash : Bytes) :
    Except SignerError Signed :=
  match crypto.nacl.detached bytesHash self.key with
  | none => .error .badSize
  | some signature => .ok
    { bytes := bytes
      sig := Utils.b58cencode b58 signature Prefix.SIG.bytes
      prefixSig := Utils.b58cencode b58 signature Prefix.EDSIG.bytes
      sbytes := bytes ++ toHex signature }

/-- `Tz1.secretKey`. -/
def Tz1.secretKey (self : SecretKey) : Except SignerError JSString :=
  match crypto.nacl.fromSeed (self.key.take 32) with
  | none => .error .badSize
  -- `prefix['edsk']`
  | some (secretKey, _) => .ok (Utils.b58cencode b58 secretKey [43, 246, 78, 7])

/-! ## Elliptic curves -/

/-- A curve of the libraries. -/
def CurveName.curve : CurveName → EllipticCurve
  | .secp256k1 => crypto.secp256k1
  | .p256 => crypto.p256

/-- `pref[curve].pk`. -/
def CurveName.pk : CurveName → Prefix
  | .secp256k1 => .SPPK
  | .p256 => .P2PK

/-- `pref[curve].sk`. -/
def CurveName.sk : CurveName → Bytes
  | .secp256k1 => [17, 162, 224, 201]
  | .p256 => [16, 81, 238, 189]

/-- `pref[curve].pkh`. -/
def CurveName.pkh : CurveName → Prefix
  | .secp256k1 => .TZ2
  | .p256 => .TZ3

/-- `pref[curve].sig`. -/
def CurveName.sig : CurveName → Prefix
  | .secp256k1 => .SPSIG
  | .p256 => .P2SIG

/-- `toArray()` of a `BN`: its octets, without leading zeros. -/
def toArray (n : ℕ) : List ℕ := leadingDigits 256 n

/-- The public key of a point. -/
def compressedKey (point : CurvePoint) : Bytes :=
  let keyPairY := toArray point.y
  let parityByte := if keyPairY.length < 32 then keyPairY.getLast! else keyPairY[31]!
  let pref := if parityByte % 2 ≠ 0 then 3 else 2
  let padded := List.replicate 32 0 ++ toArray point.x
  (pref :: padded.drop (padded.length - 32)).map UInt8.ofNat

/-- The constructor of `ECKey`. -/
def ECKey.new (curve : CurveName) (key : JSString) (encrypted : Bool) (decrypt : Decrypt) :
    Except SignerError SecretKey := do
  let octets ← secretOctets b58 key encrypted decrypt
  match (curve.curve crypto).getPublic octets with
  | none => .error .noPoint
  | some point => .ok { key := octets, publicKey := compressedKey point }

/-- `toString('hex', 64)` of a `BN`. -/
def toHexString64 (n : ℕ) : JSString :=
  let digits := numberText 16 n
  padStart (64 * ((digits.length + 63) / 64)) (digitChar 0) digits

/-- `ECKey.sign`. -/
def ECKey.sign (curve : CurveName) (self : SecretKey) (bytes : JSString) (bytesHash : Bytes) :
    Except SignerError Signed :=
  match (curve.curve crypto).sign self.key bytesHash with
  | none => .error .noPoint
  | some (r, s) =>
    let signature := toHexString64 r ++ toHexString64 s
    .ok
      { bytes := bytes
        sig := Utils.b58cencode b58 (bufferFromHex signature) Prefix.SIG.bytes
        prefixSig := Utils.b58cencode b58 (bufferFromHex signature) curve.sig.bytes
        sbytes := bytes ++ signature }

/-- `ECKey.secretKey`. -/
def ECKey.secretKey (curve : CurveName) (self : SecretKey) : JSString :=
  Utils.b58cencode b58 self.key curve.sk

/-! ## The signer -/

/-- `InMemorySigner`, by its key. -/
inductive InMemorySigner where
  | tz1 (key : SecretKey)
  | ec (curve : CurveName) (key : SecretKey)
  deriving DecidableEq, Repr

namespace InMemorySigner

/-- `decrypt` of an encrypted key. -/
def decryptWith (passphrase : JSString) : Decrypt := fun constructedKey =>
  let salt := constructedKey.take 8
  let encryptedSk := constructedKey.drop 8
  let encryptionKey := crypto.pbkdf2Sync passphrase salt
  crypto.secretboxOpen encryptedSk (List.replicate 24 0) encryptionKey

/-- `key.substring(2, 3) === 'e'`. -/
def isEncrypted (key : JSString) : Bool := (key.drop 2).take 1 = js "e"

/-- The constructor. An absent and an empty passphrase are the same to it. -/
def new (key passphrase : JSString) : Except SignerError InMemorySigner := do
  let encrypted := isEncrypted key
  if encrypted && passphrase.isEmpty then
    .error (.InvalidPassphraseError (js "Encrypted key provided without a passphrase."))
  else
    let decrypt : Decrypt := if encrypted then decryptWith crypto passphrase else some
    let name := key.take 4
    if name = js "edes" ∨ name = js "edsk" then
      return tz1 (← Tz1.new b58 crypto key encrypted decrypt)
    else if name = js "spsk" ∨ name = js "spes" then
      return ec .secp256k1 (← ECKey.new b58 crypto .secp256k1 key encrypted decrypt)
    else if name = js "p2sk" ∨ name = js "p2es" then
      return ec .p256 (← ECKey.new b58 crypto .p256 key encrypted decrypt)
    else .error (.InvalidKeyError key (js "Unsupported key type"))

/-- The octets that are hashed: `mergebuf(watermark, bb)`, or `bb` without a watermark. -/
def watermarked (watermark : Option Bytes) (bb : Bytes) : Bytes :=
  match watermark with
  | some watermark => watermark ++ bb
  | none => bb

/-- `sign`. -/
def sign (self : InMemorySigner) (bytes : JSString) (watermark : Option Bytes) :
    Except SignerError Signed := do
  let bb ← (hex2buf bytes).mapError .utils
  let bytesHash := crypto.blake2b (watermarked watermark bb) 32
  match self with
  | tz1 key => Tz1.sign b58 crypto key bytes bytesHash
  | ec curve key => ECKey.sign b58 crypto curve key bytes bytesHash

/-- `publicKey`. -/
def publicKey : InMemorySigner → JSString
  | tz1 key => Utils.b58cencode b58 key.publicKey Prefix.EDPK.bytes
  | ec curve key => Utils.b58cencode b58 key.publicKey curve.pk.bytes

/-- `publicKeyHash`. -/
def publicKeyHash : InMemorySigner → JSString
  | tz1 key => Utils.b58cencode b58 (crypto.blake2b key.publicKey 20) Prefix.TZ1.bytes
  | ec curve key => Utils.b58cencode b58 (crypto.blake2b key.publicKey 20) curve.pkh.bytes

/-- `secretKey`. -/
def secretKey : InMemorySigner → Except SignerError JSString
  | tz1 key => Tz1.secretKey b58 crypto key
  | ec curve key => .ok (ECKey.secretKey b58 curve key)

end InMemorySigner

end Signer
