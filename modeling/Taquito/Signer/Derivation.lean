import Mathlib.Data.Int.Bitwise
import Taquito.Host.Base58
import Taquito.Js.Numbers
import Taquito.Js.Utf8
import Taquito.Lib.Traced

/-!
# Hierarchical derivation of keys

The derivation of `fromSeed` and `derivePath` for the two ECDSA curves and for Ed25519, and
`generateSecretKey`, which encodes the derived key. HMAC-SHA512, the curves, the library of big
numbers and the one of Ed25519 are parameters; what the code asks HMAC is recorded.

A retry loop ends where HMAC answers well, so each takes a bound on its retries.
-/

open Js BigEndian

namespace Signer

/-- A call of HMAC-SHA512. -/
structure HmacCall where
  key : Bytes
  data : Bytes
  deriving DecidableEq, Repr

/-- What the derivation throws, and the end of the retries of the model. -/
inductive DerivationError where
  | InvalidSeedLengthError (seedLength : ℕ)
  | InvalidBitSize
  | InvalidDerivationPathError
  | ToBeImplemented
  | outOfRetries
  deriving DecidableEq, Repr

/-- What asks HMAC. -/
abbrev Hmac (α : Type) := Traced HmacCall DerivationError α

/-- `CurveName`. -/
inductive CurveName where
  | p256 | secp256k1
  deriving DecidableEq, Repr

/-- The libraries under the derivation. -/
structure Libraries where
  hmacSha512 : HmacCall → Bytes
  /-- `toArray()` of a `BN`. -/
  toArray : ℕ → Bytes
  /-- `n` of a curve. -/
  order : CurveName → ℕ
  /-- `getPublic().encodeCompressed()` of the pair with a private key. -/
  encodeCompressed : CurveName → ℕ → Bytes
  /-- `secretKey` of `nacl.sign.keyPair.fromSeed`. -/
  secretKeyFromSeed : Bytes → Bytes
  b58 : Base58Check

/-- How the libraries behave. -/
structure Libraries.Lawful (libs : Libraries) : Prop where
  length_hmacSha512 : ∀ call, (libs.hmacSha512 call).length = 64
  /-- The big-endian bytes of a number, without leading zeros. -/
  beValue_toArray : ∀ n, beValue (libs.toArray n) = n
  head_toArray : ∀ n, n ≠ 0 → (libs.toArray n).head? ≠ some 0
  /-- The order of a curve has 256 bits. -/
  order_bits : ∀ curve, 2 ^ 255 ≤ libs.order curve ∧ libs.order curve < 2 ^ 256
  length_encodeCompressed : ∀ curve priv, (libs.encodeCompressed curve priv).length = 33
  /-- A secret key is its seed and the public key. -/
  take_secretKeyFromSeed : ∀ seed, seed.length = 32 → (libs.secretKeyFromSeed seed).take 32 = seed
  b58 : libs.b58.Lawful

/-- `Hard`. -/
def Hard : UInt32 := 0x80000000

/-- `index & Hard` is not zero. -/
def isHard (index : UInt32) : Bool := index &&& Hard != 0

/-- `set` of a typed array, of a source that fits. -/
def set (data src : Bytes) (offset : ℕ) : Bytes :=
  data.take offset ++ src ++ data.drop (offset + src.length)

/-- The bytes that `setUint32` writes. -/
def uint32Bytes (index : UInt32) : Bytes := beBytes 4 index.toNat

/-- `minSeedSize`. -/
def minSeedSize : ℕ := 16

/-- `maxSeedSize`. -/
def maxSeedSize : ℕ := 64

variable (libs : Libraries)

/-- `createHmac('sha512', key).update(data).digest()`. -/
def hmac (key data : Bytes) : Hmac Bytes := Traced.ask libs.hmacSha512 ⟨key, data⟩

/-! ## Paths -/

/-- `ToInt32` or `ToUint32` of an integer, as its bits. -/
def toUint32 (z : ℤ) : UInt32 := UInt32.ofNat (z % 2 ^ 32).toNat

/-- The double nearest to a natural number, ties to the even one. -/
def nearestDouble (n : ℕ) : ℕ :=
  let unit := 2 ^ (n.log2 - 52)
  let q := n / unit
  let r := n % unit
  unit * (if 2 * r > unit ∨ (2 * r = unit ∧ q % 2 = 1) then q + 1 else q)

theorem nearestDouble_of_lt {n : ℕ} (h : n < 2 ^ 53) : nearestDouble n = n := by
  have hlog : n.log2 - 52 = 0 := by
    have hlt : n.log2 < 53 := by
      by_cases hn : n = 0
      · rw [hn]
        decide
      · exact (Nat.log2_lt hn).mpr h
    omega
  rw [nearestDouble, hlog]
  simp [Nat.mod_one]

/-- `parseInt(p, 10)`, as a number. -/
def parseIndex (p : JSString) : Option ℤ :=
  (parseInt 10 p).map fun z => z.sign * (nearestDouble z.natAbs : ℤ)

/-- The part of a path: `(parseInt(p, 10) | h) >>> 0`, where `NaN` counts as zero. -/
def pathIndex (p : JSString) : UInt32 :=
  let hardened := p.getLast? ∈ [some 39, some 104, some 72]
  let p := if hardened then p.dropLast else p
  toUint32 ((parseIndex p).getD 0) ||| (if hardened then Hard else 0)

/-- `s.split('/')`. -/
def splitSlash (s : JSString) : List JSString := s.splitOn 47

/-- `Path.fromString`. -/
def Path.fromString (s : JSString) : Except DerivationError (List UInt32) :=
  if s.length = 0 then .ok []
  else
    let parts := splitSlash s
    let parts := if parts.head? = some (js "m") then parts.drop 1 else parts
    parts.mapM fun p =>
      if p.length = 0 then .error .InvalidDerivationPathError else .ok (pathIndex p)

/-! ## ECDSA -/

namespace ECDSA

/-- `seedKey`. -/
def seedKey : CurveName → JSString
  | .p256 => js "Nist256p1 seed"
  | .secp256k1 => js "Bitcoin seed"

/-- `PrivateKey`, of a curve. -/
structure PrivateKey where
  priv : ℕ
  chainCode : Bytes
  deriving DecidableEq, Repr

/-- The loop of `fromSeed`. -/
def fromSeedLoop (curve : CurveName) (seed : Bytes) (retries : ℕ) : Hmac PrivateKey := do
  let sum ← hmac libs (utf8Encode (seedKey curve)) seed
  let d := beValue (sum.take 32)
  let chain := sum.drop 32
  if d = 0 ∨ d ≥ libs.order curve then
    match retries with
    | 0 => Traced.stop .outOfRetries
    | retries + 1 => fromSeedLoop curve sum retries
  else return ⟨d, chain⟩

/-- `PrivateKey.fromSeed`. -/
def PrivateKey.fromSeed (retries : ℕ) (seed : Bytes) (curve : CurveName) : Hmac PrivateKey :=
  if seed.length < minSeedSize ∨ seed.length > maxSeedSize then
    Traced.stop (.InvalidSeedLengthError seed.length)
  else if (libs.order curve).size ≠ 256 then Traced.stop .InvalidBitSize
  else fromSeedLoop libs curve seed retries

/-- The loop of `derive`. -/
def deriveLoop (curve : CurveName) (key : PrivateKey) (data : Bytes) (retries : ℕ) :
    Hmac PrivateKey := do
  let sum ← hmac libs key.chainCode data
  let d := beValue (sum.take 32)
  let chain := sum.drop 32
  if d < libs.order curve ∧ (d + key.priv) % libs.order curve ≠ 0 then
    return ⟨(d + key.priv) % libs.order curve, chain⟩
  else
    match retries with
    | 0 => Traced.stop .outOfRetries
    | retries + 1 => deriveLoop curve key (set (set data chain 1) [1] 0) retries

/-- The data of the first round of `derive`. -/
def deriveData (curve : CurveName) (key : PrivateKey) (index : UInt32) : Bytes :=
  let data := List.replicate 37 0
  let data :=
    if isHard index then set data (libs.toArray key.priv) 1
    else set data (libs.encodeCompressed curve key.priv) 0
  set data (uint32Bytes index) 33

/-- `derive`. -/
def PrivateKey.derive (retries : ℕ) (curve : CurveName) (key : PrivateKey) (index : UInt32) :
    Hmac PrivateKey :=
  deriveLoop libs curve key (deriveData libs curve key index) retries

/-- `derivePath`. -/
def PrivateKey.derivePath (retries : ℕ) (curve : CurveName) (key : PrivateKey) :
    List UInt32 → Hmac PrivateKey
  | [] => return key
  | x :: path => do
    let key ← key.derive libs retries curve x
    derivePath retries curve key path

end ECDSA

/-! ## Ed25519 -/

namespace Ed25519

/-- `PrivateKey`. -/
structure PrivateKey where
  priv : Bytes
  chainCode : Bytes
  deriving DecidableEq, Repr

/-- `ed25519Key`. -/
def ed25519Key : JSString := js "ed25519 seed"

/-- The key of the two halves of a sum. -/
def PrivateKey.ofSum (sum : Bytes) : PrivateKey :=
  ⟨libs.secretKeyFromSeed (sum.take 32), sum.drop 32⟩

/-- `PrivateKey.fromSeed`. -/
def PrivateKey.fromSeed (seed : Bytes) : Hmac PrivateKey :=
  if seed.length < minSeedSize ∨ seed.length > maxSeedSize then
    Traced.stop (.InvalidSeedLengthError seed.length)
  else do
    let sum ← hmac libs (utf8Encode ed25519Key) seed
    return PrivateKey.ofSum libs sum

/-- `seed`. -/
def PrivateKey.seed (key : PrivateKey) : Bytes := key.priv.take 32

/-- `derive`. -/
def PrivateKey.derive (key : PrivateKey) (index : UInt32) : Hmac PrivateKey :=
  if !isHard index then Traced.stop .InvalidDerivationPathError
  else do
    let data := set (set (List.replicate 37 0) key.seed 1) (uint32Bytes index) 33
    let sum ← hmac libs key.chainCode data
    return PrivateKey.ofSum libs sum

/-- `derivePath`. -/
def PrivateKey.derivePath (key : PrivateKey) : List UInt32 → Hmac PrivateKey
  | [] => return key
  | index :: path => do
    let key ← key.derive libs index
    derivePath key path

end Ed25519

/-! ## Secret keys -/

/-- `Curves`. -/
inductive Curves where
  | ed25519 | secp256k1 | p256 | bip25519
  deriving DecidableEq, Repr

/-- `prefix.edsk2`. -/
def edsk2 : Bytes := [13, 15, 58, 7]

/-- `prefix.spsk`. -/
def spsk : Bytes := [17, 162, 224, 201]

/-- `prefix.p2sk`. -/
def p2sk : Bytes := [16, 81, 238, 189]

/-- `b58cencode` of bytes. -/
def b58cencode (value pref : Bytes) : JSString := libs.b58.encode (pref ++ value)

/-- The secret key of an ECDSA curve. -/
def ecdsaSecretKey (retries : ℕ) (seed : Bytes) (path : List UInt32) (curve : CurveName)
    (prefixType : Bytes) : Hmac JSString := do
  let privKey ← ECDSA.PrivateKey.fromSeed libs retries seed curve
  let privKey ← privKey.derivePath libs retries curve path
  return b58cencode libs (libs.toArray privKey.priv) prefixType

/-- `generateSecretKey`. -/
def generateSecretKey (retries : ℕ) (seed : Bytes) (derivationPath : JSString) (curve : Curves) :
    Hmac JSString :=
  match Path.fromString derivationPath with
  | .error e => Traced.stop e
  | .ok path =>
    match curve with
    | .ed25519 => do
      let node ← Ed25519.PrivateKey.fromSeed libs seed
      let node ← node.derivePath libs path
      return b58cencode libs (node.seed.take 32) edsk2
    | .secp256k1 => ecdsaSecretKey libs retries seed path .secp256k1 spsk
    | .p256 => ecdsaSecretKey libs retries seed path .p256 p2sk
    | .bip25519 => Traced.stop .ToBeImplemented

end Signer
