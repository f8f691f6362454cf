import Taquito.Js.Text

/-!
# Libraries of signatures

`tweetnacl`, `elliptic`, `blakejs` and `pbkdf2` are not part of the repository. What is called of
them is a parameter; `none` where a call throws. `Lawful` says how keys, signatures and their check
belong together.
-/

open Js BigEndian

/-- A point of a curve, by its coordinates. -/
structure CurvePoint where
  x : ℕ
  y : ℕ
  deriving DecidableEq, Repr

/-- `new elliptic.ec(curve)`. -/
structure EllipticCurve where
  /-- `n`. -/
  order : ℕ
  /-- `keyFromPrivate(key).getPublic()`. -/
  getPublic : Bytes → Option CurvePoint
  /-- `r` and `s` of `keyFromPrivate(key).sign(hash, { canonical: true })`. -/
  sign : (key hash : Bytes) → Option (ℕ × ℕ)
  /-- `keyFromPublic(bytes)`. -/
  keyFromPublic : Bytes → Option CurvePoint
  /-- `verify(hash, { r, s })` of a public key. -/
  verify : CurvePoint → Bytes → (r s : ℕ) → Option Bool

/-- A private key of the curve. -/
structure EllipticCurve.IsPrivate (curve : EllipticCurve) (key : Bytes) : Prop where
  length : key.length = 32
  pos : 0 < beValue key
  lt_order : beValue key < curve.order

/-- A curve of numbers of 256 bits: the compressed form of a public key is read back as the point,
and what a private key signs is accepted for its public key. -/
structure EllipticCurve.Lawful (curve : EllipticCurve) : Prop where
  exists_public : ∀ {key}, curve.IsPrivate key → ∃ point, curve.getPublic key = some point ∧
    point.x < 2 ^ 256 ∧ point.y < 2 ^ 256 ∧
    curve.keyFromPublic (UInt8.ofNat (2 + point.y % 2) :: beBytes 32 point.x) = some point
  exists_signature : ∀ {key} (hash : Bytes), curve.IsPrivate key →
    ∃ r s, curve.sign key hash = some (r, s) ∧ r < 2 ^ 256 ∧ s < 2 ^ 256 ∧
      ∀ {point}, curve.getPublic key = some point → curve.verify point hash r s = some true

/-- `nacl.sign`. -/
structure NaclSign where
  /-- `secretKey` and `publicKey` of `keyPair.fromSeed(seed)`. -/
  fromSeed : Bytes → Option (Bytes × Bytes)
  /-- `detached(message, secretKey)`. -/
  detached : (message secretKey : Bytes) → Option Bytes
  /-- `detached.verify(message, signature, publicKey)`. -/
  verify : (message signature publicKey : Bytes) → Option Bool

/-- A secret key is the seed and the public key, and what it signs is accepted for the public key.
-/
structure NaclSign.Lawful (nacl : NaclSign) : Prop where
  exists_pair : ∀ {seed : Bytes}, seed.length = 32 → ∃ publicKey : Bytes,
    publicKey.length = 32 ∧ nacl.fromSeed seed = some (seed ++ publicKey, publicKey)
  exists_signature : ∀ {seed secretKey publicKey : Bytes} (message : Bytes),
    nacl.fromSeed seed = some (secretKey, publicKey) → ∃ signature : Bytes,
      signature.length = 64 ∧ nacl.detached message secretKey = some signature ∧
      nacl.verify message signature publicKey = some true

/-- The libraries of signatures. -/
structure CryptoLibraries where
  /-- `blake2b(input, undefined, outlen)`. -/
  blake2b : Bytes → ℕ → Bytes
  nacl : NaclSign
  secp256k1 : EllipticCurve
  p256 : EllipticCurve
  /-- `pbkdf2Sync(passphrase, salt, 32768, 32, 'sha512')`. -/
  pbkdf2Sync : JSString → Bytes → Bytes
  /-- `nacl.secretbox.open(box, nonce, key)`; `none` for `null`. -/
  secretboxOpen : (box nonce key : Bytes) → Option Bytes

/-- How the libraries behave. -/
structure CryptoLibraries.Lawful (crypto : CryptoLibraries) : Prop where
  nacl : crypto.nacl.Lawful
  secp256k1 : crypto.secp256k1.Lawful
  p256 : crypto.p256.Lawful
