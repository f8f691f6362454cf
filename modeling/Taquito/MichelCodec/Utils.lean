import Taquito.Host.Base58
import Taquito.Js.Date
import Taquito.Micheline.Expr

/-!
# Utilities of `michel-codec`

Errors, the arbitrary-length integers behind the checks of numerals, hexadecimal octets, the
base58check identifiers with their prefixes, combs, and dates. What lies outside the repository is
the `Host`: base58check, and how the engine reads a date it need not understand.
-/

open Js

namespace MichelCodec

/-- The libraries and the engine. -/
structure Host where
  b58 : Base58Check
  dateFallback : JSString → Option ℤ

/-- A host that reads no other dates than it has to. -/
def Host.plain : Host := ⟨.hex, fun _ => none⟩

/-- The kinds of base58check identifiers. -/
inductive TezosIDType where
  | BlockHash | OperationHash | OperationListHash | OperationListListHash | ProtocolHash
  | ContextHash | ED25519PublicKeyHash | SECP256K1PublicKeyHash | P256PublicKeyHash | ContractHash
  | CryptoboxPublicKeyHash | ED25519Seed | ED25519PublicKey | SECP256K1SecretKey | P256SecretKey
  | ED25519EncryptedSeed | SECP256K1EncryptedSecretKey | P256EncryptedSecretKey
  | SECP256K1PublicKey | P256PublicKey | SECP256K1Scalar | SECP256K1Element | ED25519SecretKey
  | ED25519Signature | SECP256K1Signature | P256Signature | GenericSignature | ChainID
  | RollupAddress | TxRollupL2Address
  deriving DecidableEq, Repr

/-- What the package throws. Where a message ends with the JSON of an expression, the error carries
the expression. -/
inductive MichelError where
  | error (message : JSString)
  | typeError (message : JSString)
  /-- `BigInt` of a text that is not a numeral. -/
  | syntaxError (text : JSString)
  /-- `toISOString` of an invalid date. -/
  | rangeError
  | michelsonError (val : Expr) (message : JSString)
  | michelsonValidationError (val : Expr) (message : JSString)
  /-- `${expected}: ${JSON.stringify(data)}`. -/
  | michelsonTypeError (val data : Expr) (expected : JSString)
  | longIntegerError (message : JSString)
  | hexParseError (hexString : JSString)
  /-- `Incorrect data length for ${id}: ${length}`. -/
  | tezosIdEncodeError (id : TezosIDType) (length : ℕ)
  | base58DecodingError
  /-- The bound of a recursion of the model, never reached. -/
  | outOfFuel
  deriving Repr

/-! ## Integers -/

/-- `LongInteger`: a sign, and the octets of the magnitude, least significant first. -/
structure LongInteger where
  neg : Bool
  buf : List ℕ
  deriving DecidableEq, Repr

namespace LongInteger

/-- The rest of `append`, past the end of the buffer. -/
def carry : ℕ → ℕ → List ℕ
  | 0, _ => []
  | fuel + 1, c => if c = 0 then [] else c % 256 :: carry fuel (c / 256)

/-- `append`: the magnitude times ten, plus a digit. -/
def append : List ℕ → ℕ → List ℕ
  | [], c => carry c c
  | b :: buf, c => (b * 10 + c) % 256 :: append buf ((b * 10 + c) / 256)

/-- The digits of a numeral, from a buffer on. -/
def digits (buf : List ℕ) : JSString → Except MichelError (List ℕ)
  | [] => .ok buf
  | c :: s =>
    if c.toNat < 0x30 ∨ 0x39 < c.toNat then
      .error (.longIntegerError (js "unexpected character in integer constant: " ++ [c]))
    else digits (append buf (c.toNat - 0x30)) s

/-- The constructor, of a text. -/
def parse : JSString → Except MichelError LongInteger
  | 0x2d :: s => (digits [] s).map fun buf => ⟨true, buf⟩
  | s => (digits [] s).map fun buf => ⟨false, buf⟩

/-- `sign`. -/
def sign (n : LongInteger) : ℤ := if n.buf.isEmpty then 0 else if n.neg then -1 else 1

end LongInteger

/-- `isDecimal`. -/
def isDecimal (x : JSString) : Bool := (LongInteger.parse x).toBool

/-- `isNatural`. -/
def isNatural (x : JSString) : Bool :=
  match LongInteger.parse x with
  | .ok n => 0 ≤ n.sign
  | .error _ => false

/-! ## Octets -/

/-- `parseHex`: pairs of characters, the last one possibly alone. -/
def parseHex : JSString → Except MichelError (List ℤ)
  | [] => .ok []
  | c :: d :: s =>
    match parseInt 16 [c, d] with
    | some x => do
      let res ← parseHex s
      return x :: res
    | none => .error (.hexParseError [c, d])
  | [c] =>
    match parseInt 16 [c] with
    | some x => .ok [x]
    | none => .error (.hexParseError [c])

/-- The pairs of `parseBytes`; `none` is `null`. -/
def parsePairs : JSString → Option (List ℤ)
  | c :: d :: s =>
    match parseInt 16 [c, d] with
    | some x => (parsePairs s).map (x :: ·)
    | none => none
  | _ => some []

/-- `parseBytes`. -/
def parseBytes (s : JSString) : Except MichelError (Option (List ℤ)) :=
  if s.length % 2 ≠ 0 then .error (.error (js "expected " ++ s ++ js " to have even length"))
  else .ok (parsePairs s)

/-- An octet as a typed array or a mask `& 0xff` keeps it. -/
def octet (x : ℤ) : UInt8 := UInt8.ofNat (x % 256).toNat

/-- `hexBytes`: `hexByte` of every octet. -/
def hexBytes (bytes : Bytes) : JSString := toHex bytes

/-! ## Identifiers -/

/-- `tezosPrefix`: the length of the payload, and the prefix. -/
def tezosPrefix : TezosIDType → ℕ × Bytes
  | .BlockHash => (32, [1, 52])
  | .OperationHash => (32, [5, 116])
  | .OperationListHash => (32, [133, 233])
  | .OperationListListHash => (32, [29, 159, 109])
  | .ProtocolHash => (32, [2, 170])
  | .ContextHash => (32, [79, 199])
  | .ED25519PublicKeyHash => (20, [6, 161, 159])
  | .SECP256K1PublicKeyHash => (20, [6, 161, 161])
  | .P256PublicKeyHash => (20, [6, 161, 164])
  | .ContractHash => (20, [2, 90, 121])
  | .CryptoboxPublicKeyHash => (16, [153, 103])
  | .ED25519Seed => (32, [13, 15, 58, 7])
  | .ED25519PublicKey => (32, [13, 15, 37, 217])
  | .SECP256K1SecretKey => (32, [17, 162, 224, 201])
  | .P256SecretKey => (32, [16, 81, 238, 189])
  | .ED25519EncryptedSeed => (56, [7, 90, 60, 179, 41])
  | .SECP256K1EncryptedSecretKey => (56, [9, 237, 241, 174, 150])
  | .P256EncryptedSecretKey => (56, [9, 48, 57, 115, 171])
  | .SECP256K1PublicKey => (33, [3, 254, 226, 86])
  | .P256PublicKey => (33, [3, 178, 139, 127])
  | .SECP256K1Scalar => (33, [38, 248, 136])
  | .SECP256K1Element => (33, [5, 92, 0])
  | .ED25519SecretKey => (64, [43, 246, 78, 7])
  | .ED25519Signature => (64, [9, 245, 205, 134, 18])
  | .SECP256K1Signature => (64, [13, 115, 101, 19, 63])
  | .P256Signature => (64, [54, 240, 44, 52])
  | .GenericSignature => (64, [4, 130, 43])
  | .ChainID => (4, [87, 82, 0])
  | .RollupAddress => (20, [1, 128, 120, 31])
  | .TxRollupL2Address => (20, [6, 161, 166])

/-- `decodeBase58Check`: `new Array(...decoded)` of a single octet is that many holes (`none`). -/
def decodeBase58Check (b58 : Base58Check) (src : JSString) :
    Except MichelError (List (Option UInt8)) :=
  match b58.decode src with
  | none => .error .base58DecodingError
  | some [b] => .ok (List.replicate b.toNat none)
  | some bs => .ok (bs.map some)

/-- `checkDecodeTezosID`, after decoding: the first kind with this length and prefix. -/
def matchTezosID (buf : List (Option UInt8)) : List TezosIDType → Option (TezosIDType × Bytes)
  | [] => none
  | t :: types =>
    let (plen, p) := tezosPrefix t
    if buf.length = plen + p.length ∧ buf.take p.length = p.map some then
      some (t, (buf.drop p.length).filterMap id)
    else matchTezosID buf types

/-- `checkDecodeTezosID`. -/
def checkDecodeTezosID (b58 : Base58Check) (id : JSString) (types : List TezosIDType) :
    Except MichelError (Option (TezosIDType × Bytes)) := do
  let buf ← decodeBase58Check b58 id
  return matchTezosID buf types

/-- `encodeTezosID`. -/
def encodeTezosID (b58 : Base58Check) (id : TezosIDType) (data : Bytes) :
    Except MichelError JSString :=
  let (plen, p) := tezosPrefix id
  if data.length ≠ plen then .error (.tezosIdEncodeError id data.length)
  else .ok (b58.encode (p ++ data))

/-! ## Combs -/

/-- `isPairType`. -/
def isPairType : Expr → Bool
  | .seq _ => true
  | .prim p _ _ => p == "pair"
  | _ => false

/-- `isPairData`. -/
def isPairData : Expr → Bool
  | .seq _ => true
  | .prim p _ _ => p == "Pair"
  | _ => false

/-- The arguments of `unpackComb`; reading the length of an absent list throws. -/
def combArgs : Expr → Except MichelError (List Expr)
  | .seq items => .ok items
  | .prim _ (some args) _ => .ok args
  | _ => .error (.typeError (js "Cannot read properties of undefined (reading 'length')"))

/-- `unpackComb`: a comb of other than two members is split after the first, which may be missing
(`none`, an `undefined` argument); only the primitive form keeps its annotations. -/
def unpackComb (id : String) (v : Expr) :
    Except MichelError (List (Option Expr) × Option (List JSString)) := do
  let args ← combArgs v
  match args, v with
  | [a, b], _ => return ([some a, some b], none)
  | args, .prim _ _ annots => return ([args.head?, some (.prim id (some args.tail) none)], annots)
  | args, _ => return ([args.head?, some (.prim id (some args.tail) none)], none)

/-! ## Dates -/

/-- The month, the day and the clock of `rfc3339Re`, up to the seconds. -/
def rfc3339Prefix (s : JSString) : Option JSString := do
  let (_, s) ← readDigits 4 s
  let s ← readChar 45 s
  let (m, s) ← readDigits 2 s
  let s ← readChar 45 s
  let (d, s) ← readDigits 2 s
  let s ← (readChar 84 s).or (readChar 32 s)
  let (hh, s) ← readDigits 2 s
  let s ← readChar 58 s
  let (mm, s) ← readDigits 2 s
  let s ← readChar 58 s
  let (ss, s) ← readDigits 2 s
  if 1 ≤ m ∧ m ≤ 12 ∧ 1 ≤ d ∧ d ≤ 31 ∧ hh ≤ 23 ∧ mm ≤ 59 ∧ ss ≤ 60 then some s else none

/-- `(\.[0-9]+)?` -/
def rfc3339Fraction : JSString → JSString
  | 46 :: s => if (s.head?.any isDecimalDigit) then s.dropWhile isDecimalDigit else 46 :: s
  | s => s

/-- `rfc3339Re.test`. -/
def rfc3339Re (s : JSString) : Bool :=
  match rfc3339Prefix s with
  | some s => readOffset (rfc3339Fraction s) |>.any fun p => p.2.isEmpty
  | none => false

/-- `parseDate`, of a string: `none` is `null`, and a date is its time value. The test of the result
for `NaN` looks at a function and always passes. -/
def parseDate (host : Host) (string : JSString) : Option (Option ℤ) :=
  if isNatural string then some ((parseInt 10 string).bind timeClip)
  else if rfc3339Re string then some (dateParse host.dateFallback string)
  else none

end MichelCodec
