import Mathlib.Data.Prod.Lex
import Mathlib.Data.Sum.Order
import Mathlib.Order.WithBot
import Taquito.Lib.Sorting
import Taquito.MichelsonEncoder.Schema

/-!
# Keys of comparable types

What a literal of a comparable type stands for, and the order of the protocol on it: integers by
value, texts and octets from their first difference on, `None` before `Some`, `Left` before `Right`,
pairs by their left components first. The keys of a type are a type with a linear order
(`MType.Key`), so that nothing has to be said about ill-typed keys.
-/

open Js

namespace MichelsonEncoder

/-! ## Keys and their order -/

/-- The keys of a type without components. -/
def BaseType.Key : BaseType → Type
  | .nat | .int | .mutez | .timestamp => ℤ
  | .bool => Bool
  | .unit => Unit
  | .string | .bytes | .address | .tx_rollup_l2_address | .key | .key_hash | .signature | .chain_id =>
    List ℕ
  | .operation | .never | .bls12_381_fr | .bls12_381_g1 | .bls12_381_g2 | .chest | .chest_key => Empty

/-- The order of the keys of a type without components. -/
instance BaseType.linearOrder : (t : BaseType) → LinearOrder t.Key
  | .nat | .int | .mutez | .timestamp => inferInstanceAs (LinearOrder ℤ)
  | .bool => inferInstanceAs (LinearOrder Bool)
  | .unit => inferInstanceAs (LinearOrder Unit)
  | .string | .bytes | .address | .tx_rollup_l2_address | .key | .key_hash | .signature | .chain_id =>
    inferInstanceAs (LinearOrder (List ℕ))
  | .operation | .never | .bls12_381_fr | .bls12_381_g1 | .bls12_381_g2 | .chest | .chest_key =>
    inferInstanceAs (LinearOrder Empty)

/-- The keys of a type. -/
def MType.Key : MType → Type
  | .pair _ left right => left.Key ×ₗ right.Key
  | .or _ left right => left.Key ⊕ₗ right.Key
  | .option _ component => WithBot component.Key
  | .base _ t => t.Key
  | _ => Empty

/-- The order of the keys of a type. -/
instance MType.linearOrder : (t : MType) → LinearOrder t.Key
  | .pair _ left right => @Prod.Lex.instLinearOrder _ _ left.linearOrder right.linearOrder
  | .or _ left right => @Sum.Lex.linearOrder _ _ left.linearOrder right.linearOrder
  | .option _ component => @WithBot.linearOrder _ component.linearOrder
  | .base _ t => t.linearOrder
  | .list _ _ | .set _ _ | .map _ _ _ | .bigMap _ _ _ | .contract _ _ | .other _ _ =>
    inferInstanceAs (LinearOrder Empty)

/-- A comparable type. -/
def MType.isComparable : MType → Bool
  | .pair _ left right | .or _ left right => left.isComparable && right.isComparable
  | .option _ component => component.isComparable
  | .base _ t => t.comparable
  | _ => false

/-! ## The key of a literal -/

/-- A text where one is expected: `JSON.stringify` writes a big number as its text. -/
def Val.jsonText (host : Host) : Val → Option JSString
  | .string s => some s
  | .bigNumber n => some (n.text host.lib)
  | _ => none

/-- A text, by its units. -/
def textKey (s : JSString) : List ℕ := s.map UInt16.toNat

/-- Octets. -/
def octetsKey (octets : Bytes) : List ℕ := octets.map UInt8.toNat

section base58

variable (b58 : Base58Check)

/-- The tag of the first kind that a text is of, and its payload. -/
def taggedPayload (kinds : List (Utils.Prefix × Bytes)) (s : JSString) : Option (Bytes × Bytes) :=
  (b58.decode s).bind fun bs =>
    (kinds.find? fun kind => kind.1.bytes.isPrefixOf bs ∧
        bs.length = kind.1.bytes.length + kind.1.payload).map fun kind =>
      (kind.2, bs.drop kind.1.bytes.length)

/-- The kinds of public key hashes. -/
def keyHashKinds : List (Utils.Prefix × Bytes) := [(.TZ1, [0]), (.TZ2, [1]), (.TZ3, [2]), (.TZ4, [3])]

/-- The kinds of addresses. -/
def addressKinds : List (Utils.Prefix × Bytes) :=
  keyHashKinds.map (fun kind => (kind.1, 0 :: kind.2)) ++ [(.KT1, [1]), (.TXR1, [2])]

/-- The kinds of public keys. -/
def keyKinds : List (Utils.Prefix × Bytes) := [(.EDPK, [0]), (.SPPK, [1]), (.P2PK, [2]), (.BLPK, [3])]

/-- The entrypoint behind an address; that of the default one is empty. -/
def entrypointOf (s : JSString) : JSString :=
  let entrypoint := (s.dropWhile (· ≠ 37)).drop 1
  if entrypoint = js "default" then [] else entrypoint

/-- An address: its octets, and then its entrypoint. -/
def addressKey (s : JSString) : Option (List ℕ) :=
  (taggedPayload b58 addressKinds (Utils.withoutEntrypoint s)).map fun address =>
    octetsKey (address.1 ++ address.2) ++ textKey (entrypointOf s)

/-- A public key: its curve and its octets. Of P256 the first octet, which only tells two points
with one abscissa apart, counts last. -/
def publicKeyKey (s : JSString) : Option (List ℕ) :=
  (taggedPayload b58 keyKinds s).map fun key =>
    if key.1 = [2] then octetsKey (key.1 ++ key.2.drop 1 ++ key.2.take 1) else octetsKey (key.1 ++ key.2)

end base58

section keyOf

variable (host : Host)

/-- The seconds of a text at a timestamp: a number of seconds, or a date. -/
def secondsOf (s : JSString) : Option ℤ :=
  (decimalValue s).or ((dateParse host.date s).map (· / 1000))

/-- A natural number in decimal. -/
def naturalValue (text : JSString) : Option ℤ := (decimalValue text).filter (0 ≤ ·)

/-- An amount in decimal. -/
def mutezValue (text : JSString) : Option ℤ :=
  (decimalValue text).filter fun z => 0 ≤ z ∧ z < 2 ^ 63

/-- The key of a literal of a type without components. -/
def BaseType.keyOf : (t : BaseType) → Encoded → Option t.Key
  | .int, .int text | .timestamp, .int text => decimalValue text
  | .nat, .int text => naturalValue text
  | .mutez, .int text => mutezValue text
  | .timestamp, .string v => (v.jsonText host).bind (secondsOf host)
  | .bool, .prim p none => if p = "True" then some true else if p = "False" then some false else none
  | .unit, .prim p none => if p = "Unit" then some () else none
  | .string, .string v => (v.jsonText host).map textKey
  | .bytes, .bytes v =>
    ((v.jsonText host).filter fun s => isHexPairs s).map fun s => octetsKey (bufferFromHex s)
  | .address, .string v => (v.jsonText host).bind (addressKey host.b58)
  | .tx_rollup_l2_address, .string v =>
    (v.jsonText host).bind fun s =>
      (taggedPayload host.b58 [(.TZ4, [])] s).map fun address => octetsKey address.2
  | .key, .string v => (v.jsonText host).bind (publicKeyKey host.b58)
  | .key_hash, .string v =>
    (v.jsonText host).bind fun s =>
      (taggedPayload host.b58 keyHashKinds s).map fun hash => octetsKey (hash.1 ++ hash.2)
  | .signature, .string v =>
    (v.jsonText host).bind fun s =>
      (taggedPayload host.b58 [(.EDSIG, []), (.P2SIG, []), (.SPSIG, []), (.SIG, [])] s).map fun sig =>
        octetsKey sig.2
  | .chain_id, .string v =>
    (v.jsonText host).bind fun s =>
      (taggedPayload host.b58 [(.NET, [])] s).map fun id => octetsKey id.2
  | _, _ => none

/-- The key of a literal. -/
def MType.keyOf : (t : MType) → Encoded → Option t.Key
  | .pair _ left right, .prim p (some [l, r]) =>
    if p = "Pair" then do return toLex (← left.keyOf l, ← right.keyOf r) else none
  | .or _ left right, .prim p (some [e]) =>
    if p = "Left" then (left.keyOf e).map fun k => toLex (.inl k)
    else if p = "Right" then (right.keyOf e).map fun k => toLex (.inr k)
    else none
  | .option _ component, .prim p none =>
    if p = "None" then some (⊥ : WithBot component.Key) else none
  | .option _ component, .prim p (some [e]) =>
    if p = "Some" then (component.keyOf e).map WithBot.some else none
  | .base _ t, e => t.keyOf host e
  | _, _ => none

theorem keyOf_pair (annots : Annots) (left right : MType) (l r : Encoded) :
    (MType.pair annots left right).keyOf host (.prim "Pair" (some [l, r]))
      = (left.keyOf host l).bind fun k => (right.keyOf host r).map fun k' => toLex (k, k') := by
  show ((left.keyOf host l).bind fun k => (right.keyOf host r).bind fun k' => some (toLex (k, k'))) = _
  cases left.keyOf host l <;> cases right.keyOf host r <;> rfl

theorem keyOf_left (annots : Annots) (left right : MType) (e : Encoded) :
    (MType.or annots left right).keyOf host (.prim "Left" (some [e]))
      = (left.keyOf host e).map fun k => toLex (.inl k) := rfl

theorem keyOf_right (annots : Annots) (left right : MType) (e : Encoded) :
    (MType.or annots left right).keyOf host (.prim "Right" (some [e]))
      = (right.keyOf host e).map fun k => toLex (.inr k) := rfl

theorem keyOf_none (annots : Annots) (component : MType) :
    (MType.option annots component).keyOf host (.prim "None" none)
      = some (⊥ : WithBot component.Key) := rfl

theorem keyOf_some (annots : Annots) (component : MType) (e : Encoded) :
    (MType.option annots component).keyOf host (.prim "Some" (some [e]))
      = (component.keyOf host e).map WithBot.some := rfl

/-- A value that the token of a type encodes as a key. -/
def Denotes (t : MType) (idx : ℕ) (x : Val) (k : t.Key) : Prop :=
  ∃ e, (t.token host idx).EncodeObject x = .ok e ∧ t.keyOf host e = some k

end keyOf

end MichelsonEncoder
