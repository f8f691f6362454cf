import Taquito.Js.Date
import Taquito.MichelsonEncoder.Values
import Taquito.Utils.Addresses

/-!
# Tokens without components

The classes of the types that have no other type inside: what a literal is decoded into (`Execute`,
and `ToKey` where it is the key of a map), what a value is encoded into (`EncodeObject`, `Encode`)
and how two values are ordered (`compare`). The classes differ in little, so each method is one
function with a case for every class.
-/

open Js Utils

namespace MichelsonEncoder

/-- The types without components. -/
inductive BaseType where
  | nat | string | address | tx_rollup_l2_address | bool | mutez | bytes | timestamp | int | unit
  | key | key_hash | signature | operation | chain_id | never
  | bls12_381_fr | bls12_381_g1 | bls12_381_g2 | chest | chest_key
  deriving DecidableEq, Repr

namespace BaseType

/-- `prim`. -/
def prim : BaseType → String
  | .nat => "nat"
  | .string => "string"
  | .address => "address"
  | .tx_rollup_l2_address => "tx_rollup_l2_address"
  | .bool => "bool"
  | .mutez => "mutez"
  | .bytes => "bytes"
  | .timestamp => "timestamp"
  | .int => "int"
  | .unit => "unit"
  | .key => "key"
  | .key_hash => "key_hash"
  | .signature => "signature"
  | .operation => "operation"
  | .chain_id => "chain_id"
  | .never => "never"
  | .bls12_381_fr => "bls12_381_fr"
  | .bls12_381_g1 => "bls12_381_g1"
  | .bls12_381_g2 => "bls12_381_g2"
  | .chest => "chest"
  | .chest_key => "chest_key"

/-- The classes that extend `ComparableToken`. -/
def comparable : BaseType → Bool
  | .operation | .never | .bls12_381_fr | .bls12_381_g1 | .bls12_381_g2 | .chest | .chest_key => false
  | _ => true

/-! ## Fields of a literal -/

/-- `val.string`. -/
def stringField : Expr → Option JSString
  | .string text => some text
  | _ => none

/-- `val.bytes`. -/
def bytesField : Expr → Option JSString
  | .bytes hex => some hex
  | _ => none

/-- `val.int`. -/
def intField : Expr → Option JSString
  | .int text => some text
  | _ => none

/-- `val[Object.keys(val)[0]]`; the members of an array are no texts. -/
def firstField : Expr → Val
  | .int text | .string text | .bytes text => .string text
  | .prim p _ _ => .string (js p)
  | .seq [] => .undefined
  | .seq _ => .object []

/-- A text that is not empty. -/
def nonempty (s : Option JSString) : Option JSString := s.filter fun s => !s.isEmpty

/-- A text or `undefined`. -/
def textOr (s : Option JSString) : Val := (s.map Val.string).getD .undefined

/-- `new BigNumber(x)`. -/
def toBigNumber (host : Host) : Val → BigNumber
  | .string s => host.number s
  | .number z => .finite z
  | .double n | .bigNumber n => n
  | .array items => host.number ((Val.array items).text host)
  | .uint8Array octets => host.number ((Val.uint8Array octets).text host)
  | _ => .nan

/-! ## Decoding -/

/-- `toISOString` of a date. -/
def isoDate (ms : Option ℤ) : Except EncoderError Val :=
  match ms with
  | some ms => .ok (.string (toISOString ms))
  | none => .error .RangeError

/-- `TimestampToken.Execute`. -/
def executeTimestamp (host : Host) (val : Expr) : Except EncoderError Val :=
  match nonempty (stringField val) with
  | some s =>
    if s.all isDecimalDigit then isoDate ((decimalValue s).bind fun z => timeClip (z * 1000))
    else isoDate (dateParse host.date s)
  | none =>
    match nonempty (intField val) with
    | some s => isoDate ((decimalValue s).bind fun z => timeClip (z * 1000))
    | none => .ok .undefined

/-- The text of a literal, or what `encode` makes of its bytes. -/
def textOrEncoded (error : EncoderError) (encode : JSString → Option JSString) (val : Expr) :
    Except EncoderError Val :=
  match nonempty (stringField val) with
  | some s => .ok (.string s)
  | none =>
    match nonempty (bytesField val) with
    | some hex => (encode hex).elim (.error .TypeError) fun s => .ok (.string s)
    | none => .error error

/-- The text of a literal, or what `encode` makes of its bytes, which may be `undefined`. -/
def textOrTagged (encode : JSString → Option (Option JSString)) (val : Expr) :
    Except EncoderError Val :=
  match nonempty (stringField val) with
  | some s => .ok (.string s)
  | none =>
    match bytesField val with
    | some hex => (encode hex).elim (.error .TypeError) fun s => .ok (textOr s)
    | none => .error .TypeError

/-- `Execute`. -/
def execute (host : Host) (t : BaseType) (val : Option Expr) : Except EncoderError Val :=
  match t, val with
  | .unit, _ => .ok .unit
  | .never, _ => .error (.TokenValidationError "NeverTokenError")
  | _, none => .error .TypeError
  | .nat, some val | .int, some val | .mutez, some val =>
    .ok (.bigNumber (toBigNumber host (firstField val)))
  | .string, some val | .chain_id, some val => .ok (firstField val)
  | .address, some val =>
    textOrEncoded (.TokenValidationError "AddressValidationError") (encodePubKey host.b58) val
  | .tx_rollup_l2_address, some val =>
    textOrEncoded (.TokenValidationError "TxRollupL2AddressValidationError")
      (encodeL2Address host.b58) val
  | .bool, some (.prim p _ _) =>
    .ok (.bool ((js p).map (fun c => if 65 ≤ c ∧ c ≤ 90 then c + 32 else c) = js "true"))
  | .bool, some _ => .ok (.bool false)
  | .bytes, some val | .bls12_381_fr, some val | .bls12_381_g1, some val | .bls12_381_g2, some val
  | .chest, some val | .chest_key, some val => .ok (textOr (bytesField val))
  | .timestamp, some val => executeTimestamp host val
  | .key, some val => textOrTagged (encodeKey host.b58) val
  | .key_hash, some val => textOrTagged (encodeKeyHash host.b58) val
  | .signature, some val =>
    .ok (textOr ((nonempty (stringField val)).or (bytesField val)))
  | .operation, some val => .ok (textOr (stringField val))

/-- `EncodeObject` of `BoolToken`. -/
def encodeBool (truthy : Bool) : Encoded := .prim (if truthy then "True" else "False") none

/-- `ToKey`. -/
def toKey (host : Host) (t : BaseType) (val : Option Expr) : Except EncoderError Val :=
  match t, val with
  | .bool, val => .ok (.object [(js "prim", .string (js (if val.isSome then "True" else "False")))])
  | .unit, _ => .ok .unit
  | .operation, _ | .never, _ | .bls12_381_fr, _ | .bls12_381_g1, _ | .bls12_381_g2, _
  | .chest, _ | .chest_key, _ => .error .TypeError
  | _, none => .error .TypeError
  | .int, some val | .mutez, some val => .ok (textOr (intField val))
  | .nat, some val => .ok (.bigNumber (toBigNumber host (textOr (intField val))))
  | .string, some val | .timestamp, some val | .chain_id, some val => .ok (textOr (stringField val))
  | .bytes, some val => .ok (textOr ((nonempty (stringField val)).or (bytesField val)))
  | .address, some val | .tx_rollup_l2_address, some val | .key, some val | .key_hash, some val
  | .signature, some val => execute host t (some val)

/-! ## Encoding -/

/-- A text that the validator finds valid. -/
def validText (name : String) (validate : JSString → ValidationResult) (val : Val) :
    Except EncoderError Encoded :=
  match val with
  | .string s =>
    if validate s = .VALID then .ok (.string val) else .error (.TokenValidationError name)
  | _ => .error (.TokenValidationError name)

/-- Hexadecimal digits in pairs, or octets. -/
def validHex (name : String) (val : Val) : Except EncoderError Encoded :=
  match val with
  | .undefined | .null => .error .TypeError
  | .uint8Array octets => .ok (.bytes (.string (toHex octets)))
  | .string s =>
    if isHexPairs s then .ok (.bytes val) else .error (.TokenValidationError name)
  | _ => .error (.TokenValidationError name)

/-- `validHex`, where a value that is no text is tested as one: the empty array passes. -/
def validHexText (name : String) (val : Val) : Except EncoderError Encoded :=
  match val with
  | .array [] => .ok (.bytes val)
  | val => validHex name val

/-- `EncodeObject`. -/
def encodeObject (host : Host) (t : BaseType) (val : Val) : Except EncoderError Encoded :=
  match t with
  | .int =>
    match toBigNumber host val with
    | .nan => .error (.TokenValidationError "IntValidationError")
    | n => .ok (.int (n.toText host.lib 10))
  | .nat =>
    match toBigNumber host val with
    | .nan => .error (.TokenValidationError "NatValidationError")
    | .infinity true => .error (.TokenValidationError "NatValidationError")
    | .infinity false => .ok (.int (js "Infinity"))
    | .finite q =>
      if q < 0 then .error (.TokenValidationError "NatValidationError")
      else .ok (.int ((BigNumber.finite q).toText host.lib 10))
  | .mutez =>
    match toBigNumber host val with
    | .nan => .error (.TokenValidationError "MutezValidationError")
    | _ => .ok (.int (val.text host))
  | .string | .operation => .ok (.string val)
  | .address => validText "AddressValidationError" (validateAddress host.b58) val
  | .tx_rollup_l2_address =>
    validText "TxRollupL2AddressValidationError" (validateAddress host.b58) val
  | .bool => .ok (encodeBool val.truthy)
  | .bytes =>
    match val with
    | .string s => validHex "BytesValidationError" (.string (Utils.stripHexPrefix s))
    | val => validHex "BytesValidationError" val
  | .timestamp =>
    match val with
    | .number _ | .double _ => .ok (.int (val.text host))
    | val => .ok (.string val)
  | .unit => .ok (.prim "Unit" none)
  | .key => validText "KeyValidationError" (validatePublicKey host.b58) val
  | .key_hash => validText "KeyHashValidationError" (validateKeyHash host.b58) val
  | .signature => validText "SignatureValidationError" (validateSignature host.b58) val
  | .chain_id => validText "ChainIDValidationError" (validateChain host.b58) val
  | .never => .error (.TokenValidationError "NeverTokenError")
  | .bls12_381_fr =>
    match val with
    | .number _ | .double _ => .ok (.int (val.text host))
    | val => validHexText "Bls12381frValidationError" val
  | .bls12_381_g1 => validHexText "Bls12381g1ValidationError" val
  | .bls12_381_g2 => validHexText "Bls12381g2ValidationError" val
  | .chest => validHexText "ChestValidationError" val
  | .chest_key => validHexText "ChestKeyValidationError" val

/-- `args.pop()`. -/
def pop (args : List Val) : Val × List Val := (args.getLast?.getD .undefined, args.dropLast)

/-- `Encode`: like `EncodeObject`, of the last argument; that of operations takes the arguments for
one. -/
def encode (host : Host) (t : BaseType) (args : List Val) :
    Except EncoderError (Encoded × List Val) := do
  let (val, rest) := pop args
  match t, val with
  | .operation, _ => return (.string (.array args), args)
  | .bytes, .string _ | .bytes, .uint8Array _ => return (← encodeObject host t val, rest)
  | .bytes, _ => .error .TypeError
  | _, _ => return (← encodeObject host t val, rest)

/-! ## Ordering -/

/-- An integer with 53 binary digits next to an integer, halves to even. -/
def roundDouble (z : ℤ) : ℤ :=
  let n := z.natAbs
  if n < 2 ^ 53 then z
  else
    let unit := 2 ^ (n.log2 - 52)
    let low := n / unit
    let double := n % unit * 2
    let m := if unit < double ∨ (unit = double ∧ low % 2 = 1) then low + 1 else low
    (if z < 0 then -1 else 1) * (m * unit : ℕ)

/-- The double next to an integer. -/
def doubleOf (z : ℤ) : BigNumber :=
  if (roundDouble z).natAbs < 2 ^ 1024 then .finite (roundDouble z) else .infinity (z < 0)

/-- `Number(text)`. -/
def textToNumber (host : Host) (s : JSString) : BigNumber :=
  if s.isEmpty then .finite 0
  else
    match decimalValue s with
    | some z => doubleOf z
    | none => host.double s

/-- `Number(x)`. -/
def toNumber (host : Host) : Val → BigNumber
  | .null => .finite 0
  | .bool b => .finite b.toNat
  | .number z => doubleOf z
  | .double n => n
  | .string s => textToNumber host s
  | .bigNumber (.finite q) =>
    if q.den = 1 then doubleOf q.num else host.double (host.lib.fractionText 10 q)
  | .bigNumber n => n
  | .array items => textToNumber host ((Val.array items).text host)
  | .uint8Array octets => textToNumber host ((Val.uint8Array octets).text host)
  | _ => .nan

/-- `Number.isInteger(x)`. -/
def isInteger : BigNumber → Bool
  | .finite q => q.den = 1
  | _ => false

/-- `a < b`, of numbers. -/
def lessNumber : BigNumber → BigNumber → Bool
  | .finite a, .finite b => a < b
  | .finite _, .infinity neg => !neg
  | .infinity neg, .finite _ => neg
  | .infinity neg, .infinity neg' => neg && !neg'
  | _, _ => false

/-- `a === b`, of numbers. -/
def sameNumber : BigNumber → BigNumber → Bool
  | .finite a, .finite b => a = b
  | .infinity neg, .infinity neg' => neg = neg'
  | _, _ => false

/-- Which of two comes first by `===` and `<`; what is not ordered counts as behind. -/
def orderBy (same less : Bool) : Ordering := if same then .eq else if less then .lt else .gt

/-- `compare` of numbers. -/
def compareNumbers (host : Host) (x y : Val) : Ordering :=
  orderBy (sameNumber (toNumber host x) (toNumber host y))
    (lessNumber (toNumber host x) (toNumber host y))

/-- The text that `<` takes an operand for, if it is one; a big number counts as its text. -/
def comparedText (host : Host) : Val → Option JSString
  | .undefined | .null | .bool _ | .number _ | .double _ | .unit => none
  | v => some (v.text host)

/-- `x === y`, of values that are not one object. -/
def sameValue : Val → Val → Bool
  | .undefined, .undefined | .null, .null | .unit, .unit => true
  | .bool a, .bool b => a = b
  | .number a, .number b => a = b
  | .double a, .double b => sameNumber a b
  | .string a, .string b => a = b
  | _, _ => false

/-- `x < y`. -/
def lessValue (host : Host) (x y : Val) : Bool :=
  match comparedText host x, comparedText host y with
  | some a, some b => a < b
  | _, _ => lessNumber (toNumber host x) (toNumber host y)

/-- A symbol, which cannot be compared. -/
def isSymbol : Val → Bool
  | .unit => true
  | _ => false

/-- `compare` of a `ComparableToken`. -/
def compareDefault (host : Host) (x y : Val) : Except EncoderError Ordering :=
  if !sameValue x y && (isSymbol x || isSymbol y) then .error .TypeError
  else .ok (orderBy (sameValue x y) (lessValue host x y))

/-- `compare` of texts by their code units. -/
def compareTexts (a b : JSString) : Ordering := orderBy (a = b) (a < b)

/-- `compare` of addresses: implicit accounts come first. -/
def compareAddresses (x y : Val) : Except EncoderError Ordering :=
  match x, y with
  | .string a, .string b =>
    let implicit1 := (js "tz").isPrefixOf a
    let implicit2 := (js "tz").isPrefixOf b
    if implicit1 && !implicit2 then .ok .lt
    else if implicit2 && !implicit1 then .ok .gt
    else .ok (compareTexts a b)
  | _, _ => .error .TypeError

/-- `compare` of keys: by their curves, and keys of P256 by their bytes behind the first. -/
def compareKeys (host : Host) (x y : Val) : Except EncoderError Ordering :=
  match x, y with
  | .string a, .string b =>
    let keyPrefix1 := a.take 4
    let keyPrefix2 := b.take 4
    if keyPrefix1 = js "edpk" ∧ keyPrefix2 ≠ js "edpk" then .ok .lt
    else if keyPrefix1 = js "sppk" ∧ keyPrefix2 ≠ js "sppk" then
      .ok (if keyPrefix2 = js "edpk" then .gt else .lt)
    else if keyPrefix1 = js "p2pk" then
      if keyPrefix2 ≠ js "p2pk" then .ok .gt
      else
        match host.b58.decode a, host.b58.decode b with
        | some a, some b =>
          let a := a.drop (Prefix.P2PK.bytes.length + 1)
          let b := b.drop (Prefix.P2PK.bytes.length + 1)
          .ok (orderBy (a = b) (a < b))
        | _, _ => .error .TypeError
    else .ok (compareTexts a b)
  | _, _ => .error .TypeError

/-- `compare`. -/
def compare (host : Host) (t : BaseType) (x y : Val) : Except EncoderError Ordering :=
  match t with
  | .nat | .int | .mutez => .ok (compareNumbers host x y)
  | .bool => .ok (orderBy (x.truthy = y.truthy) (!x.truthy))
  | .unit => .ok .eq
  | .address => compareAddresses x y
  | .key => compareKeys host x y
  | .operation | .never | .bls12_381_fr | .bls12_381_g1 | .bls12_381_g2 | .chest | .chest_key =>
    .error .TypeError
  | _ => compareDefault host x y

end BaseType

/-- What a validator accepts is a valid text, and stays as it is. -/
theorem validText_ok {name : String} {validate : JSString → Utils.ValidationResult} {k : Val}
    {e : Encoded} (he : BaseType.validText name validate k = .ok e) :
    ∃ s, k = .string s ∧ validate s = .VALID ∧ e = .string (.string s) := by
  match k with
  | .string s =>
    rw [BaseType.validText] at he
    split at he
    · next hvalid =>
      cases he
      exact ⟨s, rfl, hvalid, rfl⟩
    · cases he
  | .undefined | .null | .number _ | .double _ | .bool _ | .bigNumber _ | .uint8Array _ | .unit
  | .array _ | .object _ | .map _ => cases he

end MichelsonEncoder
