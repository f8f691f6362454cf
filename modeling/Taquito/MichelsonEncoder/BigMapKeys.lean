import Taquito.MichelCodec.Annotations
import Taquito.MichelCodec.Writing
import Taquito.MichelsonEncoder.Schema

/-!
# Keys of big maps

To look a key up in a big map, the token of the key type makes a literal of it (`ToBigMapKey`),
beside the one that `EncodeObject` makes, and a type for this literal; the packed literal is
hashed. The node has stored the entry under the hash of the packed key of the declared type.
-/

open Js MichelCodec

namespace MichelsonEncoder

/-! ## `ToBigMapKey` -/

/-- A type without components. -/
def plainType (p : String) : Expr := .prim p none none

/-- The octets of a text that is decoded, as a literal. -/
def decodedBytes (decode : JSString → Option JSString) : Val → Except EncoderError (Encoded × Expr)
  | .string s =>
    match decode s with
    | some hex => .ok (.bytes (.string hex), plainType "bytes")
    | none => .error .TypeError
  | _ => .error .TypeError

/-- `ToBigMapKey` of a type without components. -/
def BaseType.toBigMapKey (host : Host) (t : BaseType) (val : Val) :
    Except EncoderError (Encoded × Expr) :=
  match t with
  | .int | .nat | .mutez => .ok (.int (val.text host), plainType t.prim)
  | .string | .timestamp | .key | .key_hash | .signature | .chain_id =>
    .ok (.string val, plainType t.prim)
  | .bytes => .ok (.bytes val, plainType t.prim)
  | .bool => .ok (encodeBool val.truthy, plainType t.prim)
  | .unit => .ok (.prim "Unit" none, plainType t.prim)
  | .address => decodedBytes (Utils.b58decode host.b58) val
  | .tx_rollup_l2_address => decodedBytes (Utils.b58decodeL2Address host.b58) val
  | .operation | .never | .bls12_381_fr | .bls12_381_g1 | .bls12_381_g2 | .chest | .chest_key =>
    .error .TypeError

/-- `typeWithoutAnnotations`, of a type with components, where an array is a pair. -/
def typeWithoutAnnotations : Expr → Expr
  | .seq items => (Expr.prim "pair" (some items) none).plain
  | t => t.plain

section toBigMapKey

variable (others : String → Option (List Expr) → Option (ℕ → Token)) (host : Host)

/-- `ToBigMapKey` of the token of a type. -/
def toBigMapKey (type : Expr) (val : Val) : Except EncoderError (Encoded × Expr) :=
  match createToken others type with
  | none => .error .InvalidTokenError
  | some (.base _ t) => t.toBigMapKey host val
  | some t@(.pair _ _ _) | some t@(.or _ _ _) | some t@(.option _ _) =>
    (t.token host 0).EncodeObject val |>.map (·, typeWithoutAnnotations type)
  | some _ => .error .TypeError

end toBigMapKey

/-! ## Literals as the codec reads them -/

/-- The part of the world that `michel-codec` uses. -/
def Host.codec (host : Host) : MichelCodec.Host := ⟨host.b58, host.date⟩

/-- Octets where the codec expects hexadecimal digits: of every two it reads the decimal text of the
first as hexadecimal digits. -/
def misreadOctets : Bytes → Bytes
  | a :: _ :: octets => octet ((parseInt 16 (natText a.toNat)).getD 0) :: misreadOctets octets
  | [a] => [octet ((parseInt 16 (natText a.toNat)).getD 0)]
  | [] => []

mutual

/-- The literal that the codec reads: a value where a text is expected counts as its text. -/
def Encoded.literal (host : Host) : Encoded → Option Expr
  | .null => none
  | .int text => some (.int text)
  | .string v => some (.string (v.text host))
  | .bytes (.uint8Array octets) => some (.bytes (toHex (misreadOctets octets)))
  | .bytes v => some (.bytes (v.text host))
  | .seq items => (literals host items).map .seq
  | .prim p none => some (.prim p none none)
  | .prim p (some args) => (literals host args).map fun args => .prim p (some args) none

/-- `literal` of every member. -/
def literals (host : Host) : List Encoded → Option (List Expr)
  | [] => some []
  | e :: es => do return (← e.literal host) :: (← literals host es)

end

/-- The text of a date. Of a number that is not negative the codec reads the digits in front. -/
def dateText (host : Host) (v : Val) : JSString :=
  let leading := ((parseInt 10 (v.text host)).map intText).getD (js "NaN")
  match v with
  | .number z => if 0 ≤ z then leading else v.text host
  | .double (.finite q) => if 0 ≤ q then leading else v.text host
  | v => v.text host

/-- The literal of a type. -/
def Encoded.literalOf (host : Host) (e : Encoded) (type : Expr) : Option Expr :=
  match e, type with
  | .string v, .prim "timestamp" _ _ => some (.string (dateText host v))
  | e, _ => e.literal host

/-- `packData` of what a token makes of a key; `none` where it throws. -/
def packEncoded (host : Host) (e : Encoded) (type : Expr) : Option Bytes :=
  (e.literalOf host type).bind fun d => (packData host.codec d (some type)).toOption

/-- The packed literal of `ToBigMapKey`, of which the hash is looked up. -/
def packedBigMapKey (others : String → Option (List Expr) → Option (ℕ → Token)) (host : Host)
    (type : Expr) (val : Val) : Option Bytes :=
  (toBigMapKey others host type val).toOption.bind fun r => packEncoded host r.1 r.2

end MichelsonEncoder
