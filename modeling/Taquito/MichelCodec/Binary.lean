import Taquito.MichelCodec.Validator
import Taquito.Micheline.Wire

/-!
# The binary codec of `michel-codec`

`writeExpr` and `readExpr` walk an expression and, beside it, a transform of the node they are at,
which gives the transforms of its children. The sources make transforms out of closures and
generators; here a `Transform` is one of the three kinds of closures they build, and a `Supply` is
what a generator yields. The writer transforms a node before it writes it. The reader reads the
children of a node twice, first untransformed, to find the transforms for the second time.
-/

open Js Micheline Reader

namespace MichelCodec

/-! ## Transforms -/

/-- A transform of a node: none, that of a type, or that of an element of a map type. -/
inductive Transform where
  | passThrough
  | typed (t : Expr)
  | elt (t : Expr)
  deriving Repr

/-- What a generator of transforms yields; evaluating an item may throw. -/
inductive Supply where
  | list (items : List (Except MichelError Transform))
  | forever (item : Except MichelError Transform)

/-- `next()`, of an iterator that must not be done. -/
def Supply.next : Supply → Except MichelError (Transform × Supply)
  | .list [] => .error (.error (js "REPORT ME: iterator is done"))
  | .list (x :: xs) => x.map (·, .list xs)
  | .forever x => x.map (·, .forever x)

/-- Reading a property of `undefined`. -/
def undefinedProperty (name : String) : MichelError :=
  .typeError (js "Cannot read properties of undefined (reading '" ++ js name ++ js "')")

/-- The transform of a type that may be `undefined`. -/
def typedTransform : Option Expr → Except MichelError Transform
  | some t => .ok (.typed t)
  | none => .error (undefinedProperty "prim")

/-- The transform of `t.args[i]`. -/
def typedArg (args : Option (List Expr)) (i : ℕ) : Except MichelError Transform :=
  match args with
  | some args => typedTransform args[i]?
  | none => .error (undefinedProperty "0")

/-- The transforms of `t.args`, one after the other. -/
def typedArgs (args : Option (List Expr)) : Supply :=
  match args with
  | some args => .list (args.map fun t => .ok (.typed t))
  | none => .list [.error (.typeError (js "t.args is not iterable"))]

/-- `throw new MichelsonTypeError(t, d, ...)`. -/
def mismatch {α : Type} (t d : Expr) (expected : String) : Except MichelError α :=
  .error (.michelsonTypeError t d (js expected))

/-- `isOrData`. -/
def isOrData : Expr → Bool
  | .prim p _ _ => p == "Left" || p == "Right"
  | _ => false

/-- `isOptionData`. -/
def isOptionData : Expr → Bool
  | .prim p _ _ => p == "Some" || p == "None"
  | _ => false

/-- The transforms below a `PUSH`: none for the type, that type for the data. -/
def pushSupply (args : Option (List Expr)) : Supply := .list [.ok .passThrough, typedArg args 0]

/-- `writePassThrough` and the first half of `readPassThrough`. -/
def passThroughSupply (e : Expr) : Except MichelError Supply :=
  match e with
  | .prim p args _ =>
    if p = "PUSH" then do
      assertMichelsonInstruction e
      return pushSupply args
    else return .forever (.ok .passThrough)
  | _ => return .forever (.ok .passThrough)

/-! ## Addresses and keys -/

/-- The kinds of public key hashes, by tag. -/
def publicKeyHashTypes : List TezosIDType :=
  [.ED25519PublicKeyHash, .SECP256K1PublicKeyHash, .P256PublicKeyHash]

/-- The kinds of public keys, by tag. -/
def publicKeyTypes : List TezosIDType := [.ED25519PublicKey, .SECP256K1PublicKey, .P256PublicKey]

/-- The kinds of signatures. -/
def signatureTypes : List TezosIDType :=
  [.ED25519Signature, .SECP256K1Signature, .P256Signature, .GenericSignature]

/-- `writePublicKeyHash`. -/
def writePublicKeyHash (type : TezosIDType) (hash : Bytes) : Except MichelError Bytes :=
  match publicKeyHashTypes.idxOf? type with
  | some tag => .ok (UInt8.ofNat tag :: hash)
  | none => .error (.error (js "unexpected address type"))

/-- `writePublicKey`. -/
def writePublicKey (type : TezosIDType) (publicKey : Bytes) : Except MichelError Bytes :=
  match publicKeyTypes.idxOf? type with
  | some tag => .ok (UInt8.ofNat tag :: publicKey)
  | none => .error (.error (js "unexpected public key type"))

/-- The part of `writeAddress` after the address: the entrypoint, unless it is the default one. -/
def writeEntryPoint : Option JSString → Bytes
  | some entryPoint =>
    if entryPoint = [] ∨ entryPoint = js "default" then [] else utf8Encode entryPoint
  | none => []

/-- `writeAddress`. -/
def writeAddress (type : TezosIDType) (hash : Bytes) (entryPoint : Option JSString) :
    Except MichelError Bytes :=
  if type = .ContractHash then .ok (1 :: hash ++ [0] ++ writeEntryPoint entryPoint)
  else do
    let pkh ← writePublicKeyHash type hash
    return 0 :: pkh ++ writeEntryPoint entryPoint

/-- `boundsErr`. -/
def boundsErr : MichelError := .error (js "bounds out of range")

/-- `readUint8`. -/
def readUint8 : Reader UInt8 MichelError UInt8
  | [] => .error boundsErr
  | b :: bs => .ok (b, bs)

/-- `readBytes`. -/
def readBytes (len : ℕ) : Reader UInt8 MichelError Bytes := take len fun _ => boundsErr

/-- `readUint32`. -/
def readUint32 : Reader UInt8 MichelError ℕ := do
  let bytes ← readBytes 4
  return BigEndian.beValue bytes

/-- `readPublicKeyHash`. -/
def readPublicKeyHash : Reader UInt8 MichelError (TezosIDType × Bytes) := do
  let tag ← readUint8
  match publicKeyHashTypes[tag.toNat]? with
  | some type => do
    let hash ← readBytes 20
    return (type, hash)
  | none => fail (.error (js "unknown public key hash tag: " ++ natText tag.toNat))

/-- `readPublicKey`. -/
def readPublicKey : Reader UInt8 MichelError (TezosIDType × Bytes) := do
  let tag ← readUint8
  match publicKeyTypes[tag.toNat]? with
  | some type => do
    let publicKey ← readBytes (if type = .ED25519PublicKey then 32 else 33)
    return (type, publicKey)
  | none => fail (.error (js "unknown public key tag: " ++ natText tag.toNat))

/-- `readAddress`, up to the entrypoint. -/
def readAddressBase : Reader UInt8 MichelError (TezosIDType × Bytes) := do
  let tag ← readUint8
  if tag = 0 then readPublicKeyHash
  else if tag = 1 then do
    let hash ← readBytes 20
    let _ ← readBytes 1
    return (.ContractHash, hash)
  else fail (.error (js "unknown address tag: " ++ natText tag.toNat))

/-- The entrypoint of an address, as its text shows it. -/
def entryPointText (rest : Bytes) : JSString :=
  if textDecode rest = [] then [] else js "%" ++ textDecode rest

section

variable (host : Host)

/-- The octets of a `chain_id`. -/
def chainIdBytes (s : JSString) : Except MichelError (Option Bytes) := do
  let id ← checkDecodeTezosID host.b58 s [.ChainID]
  return id.map Prod.snd

/-- The octets of a `signature`. -/
def signatureBytes (s : JSString) : Except MichelError (Option Bytes) := do
  let sig ← checkDecodeTezosID host.b58 s signatureTypes
  return sig.map Prod.snd

/-- The octets of a `key_hash`. -/
def keyHashBytes (s : JSString) : Except MichelError (Option Bytes) := do
  match ← checkDecodeTezosID host.b58 s publicKeyHashTypes with
  | none => return none
  | some (type, hash) => do
    let w ← writePublicKeyHash type hash
    return some w

/-- The octets of a `key`. -/
def keyBytes (s : JSString) : Except MichelError (Option Bytes) := do
  match ← checkDecodeTezosID host.b58 s publicKeyTypes with
  | none => return none
  | some (type, publicKey) => do
    let w ← writePublicKey type publicKey
    return some w

/-- The octets of an `address`: what stands before the first `%`, and between it and the second. -/
def addressBytes (s : JSString) : Except MichelError (Option Bytes) := do
  let parts := s.splitOn 37
  match ← checkDecodeTezosID host.b58 (parts.headD []) (publicKeyHashTypes ++ [.ContractHash]) with
  | none => return none
  | some (type, hash) => do
    let w ← writeAddress type hash parts[1]?
    return some w

/-- The text of a `chain_id`. -/
def chainIdText (bytes : Bytes) : Except MichelError JSString := encodeTezosID host.b58 .ChainID bytes

/-- The text of a `signature`. -/
def signatureText (bytes : Bytes) : Except MichelError JSString :=
  encodeTezosID host.b58 .GenericSignature bytes

/-- The text of a `key_hash`; octets after it are not looked at. -/
def keyHashText (bytes : Bytes) : Except MichelError JSString := do
  let ((type, hash), _) ← readPublicKeyHash bytes
  encodeTezosID host.b58 type hash

/-- The text of a `key`; octets after it are not looked at. -/
def keyText (bytes : Bytes) : Except MichelError JSString := do
  let ((type, publicKey), _) ← readPublicKey bytes
  encodeTezosID host.b58 type publicKey

/-- The text of an `address`. -/
def addressText (bytes : Bytes) : Except MichelError JSString := do
  let ((type, hash), rest) ← readAddressBase bytes
  let s ← encodeTezosID host.b58 type hash
  return s ++ entryPointText rest

end

/-! ## Writing -/

/-- The transform of a type whose texts are written as octets: octets stay as they are. -/
def writeLeaf (t d : Expr) (expected base58 : String)
    (encode : JSString → Except MichelError (Option Bytes)) : Except MichelError Expr :=
  match d with
  | .string s => do
    match ← encode s with
    | some bytes => return .bytes (hexBytes bytes)
    | none => mismatch t d base58
  | .bytes _ => return d
  | _ => mismatch t d expected

/-- The transform of a `timestamp`. -/
def writeTimestamp (host : Host) (t d : Expr) : Except MichelError Expr :=
  match d with
  | .string s =>
    match parseDate host s with
    | some (some ms) => return .int (intText (ms / 1000))
    | some none => return .int (js "NaN")
    | none => mismatch t d "can't parse date"
  | .int _ => return d
  | _ => mismatch t d "timestamp expected"

/-- The members of a comb, none of them `undefined`. -/
def combMembers : List (Option Expr) → Except MichelError (List Expr)
  | [] => .ok []
  | some e :: es => do
    let es ← combMembers es
    return e :: es
  | none :: _ => .error (.typeError (js "Cannot use 'in' operator to search for 'prim' in undefined"))

/-- `getWriteTransformFunc`, of a pair type. -/
def writePair (t d : Expr) : Except MichelError (Expr × Supply) := do
  if !isPairData d then mismatch t d "pair expected"
  assertDataListIfAny d
  let (tc, _) ← unpackComb "pair" t
  let (dc, annots) ← unpackComb "Pair" d
  let members ← combMembers dc
  return (.prim "Pair" (some members) annots, .list (tc.map typedTransform))

/-- `getWriteTransformFunc(t)`, applied to `d`. -/
def writeTyped (host : Host) (t d : Expr) : Except MichelError (Expr × Supply) :=
  match t with
  | .seq _ => writePair t d
  | .prim p args _ =>
    let leaf (x : Except MichelError Expr) : Except MichelError (Expr × Supply) :=
      x.map (·, .list [])
    if p = "pair" then writePair t d
    else if p = "or" then
      match d with
      | .prim q _ _ =>
        if isOrData d then return (d, .list [typedArg args (if q = "Left" then 0 else 1)])
        else mismatch t d "or expected"
      | _ => mismatch t d "or expected"
    else if p = "option" then
      match d with
      | .prim q _ _ =>
        if isOptionData d then return (d, .list (if q = "Some" then [typedArg args 0] else []))
        else mismatch t d "option expected"
      | _ => mismatch t d "option expected"
    else if p = "list" ∨ p = "set" then
      match d with
      | .seq items => return (d, .list (items.map fun _ => typedArg args 0))
      | _ => mismatch t d (p ++ " expected")
    else if p = "map" then
      match d with
      | .seq items => return (d, .list (items.map fun _ => .ok (.elt t)))
      | _ => mismatch t d "map expected"
    else if p = "chain_id" then
      leaf (writeLeaf t d "chain id expected" "chain id base58 expected" (chainIdBytes host))
    else if p = "signature" then
      leaf (writeLeaf t d "signature expected" "signature base58 expected" (signatureBytes host))
    else if p = "key_hash" then
      leaf (writeLeaf t d "key hash expected" "key hash base58 expected" (keyHashBytes host))
    else if p = "key" then
      leaf (writeLeaf t d "public key expected" "public key base58 expected" (keyBytes host))
    else if p = "address" then
      leaf (writeLeaf t d "address expected" "address base58 expected" (addressBytes host))
    else if p = "timestamp" then leaf (writeTimestamp host t d)
    else (passThroughSupply d).map (d, ·)
  | _ => (passThroughSupply d).map (d, ·)

/-- The transform of a map element. -/
def eltSupply (t d : Expr) : Except MichelError Supply :=
  match d, t with
  | .prim q _ _, .prim _ args _ =>
    if q = "Elt" then return typedArgs args else mismatch t d "map element expected"
  | _, _ => mismatch t d "map element expected"

/-- A `WriteTransformFunc`: the node to write, and the transforms of its children. -/
def writeTransform (host : Host) : Transform → Expr → Except MichelError (Expr × Supply)
  | .passThrough, e => (passThroughSupply e).map (e, ·)
  | .typed t, d => writeTyped host t d
  | .elt t, d => (eltSupply t d).map (d, ·)

/-- `writeUint32`. -/
def writeUint32 (val : ℕ) : Bytes := BigEndian.beBytes 4 val

/-- The loop that writes an integer, from its round `i` on. -/
def intOctets (sign : Bool) : ℕ → ℕ → ℕ → Bytes
  | 0, _, _ => []
  | fuel + 1, i, val =>
    let bits := if i = 0 then 6 else 7
    let byte := val % 2 ^ bits + (if val / 2 ^ bits ≠ 0 then 0x80 else 0) +
      (if i = 0 ∧ sign then 0x40 else 0)
    UInt8.ofNat byte ::
      if val / 2 ^ bits ≠ 0 then intOctets sign fuel (i + 1) (val / 2 ^ bits) else []

/-- The octets of an integer. -/
def writeInt (z : ℤ) : Bytes := intOctets (z < 0) (z.natAbs + 1) 0 z.natAbs

/-- The children of a node, each with the next transform. -/
def writeChildren (write : Transform → Expr → Except MichelError Bytes) :
    Supply → List Expr → Except MichelError Bytes
  | _, [] => .ok []
  | args, v :: vs => do
    let (tf, args) ← args.next
    let bytes ← write tf v
    let rest ← writeChildren write args vs
    return bytes ++ rest

/-- The tag of a primitive. -/
def tagOf (args : ℕ) (annots : Option (List JSString)) : UInt8 :=
  if args < 3 then UInt8.ofNat (3 + args * 2 + if (annots.getD []).isEmpty then 0 else 1) else 9

/-- The annotations of a primitive. -/
def writeAnnots (args : Option (List Expr)) (annots : Option (List JSString)) : Bytes :=
  if !(annots.getD []).isEmpty then
    let bytes := utf8Encode (joinWords (annots.getD []))
    writeUint32 bytes.length ++ bytes
  else if 3 ≤ (args.getD []).length then writeUint32 0
  else []

/-- `writeExpr`, of a transformed node. -/
def writeNode (write : Transform → Expr → Except MichelError Bytes) (e : Expr) (supply : Supply) :
    Except MichelError Bytes :=
  match e with
  | .seq items => do
    let w ← writeChildren write supply items
    return 2 :: (writeUint32 w.length ++ w)
  | .string s =>
    let bytes := utf8Encode s
    .ok (1 :: (writeUint32 bytes.length ++ bytes))
  | .int text =>
    match bigInt text with
    | some val => .ok (0 :: writeInt val)
    | none => .error (.syntaxError text)
  | .bytes hex => do
    let bytes ← parseHex hex
    return 10 :: (writeUint32 bytes.length ++ bytes.map octet)
  | .prim p args annots =>
    match primTags p with
    | none => .error (.typeError (js "Can't encode primary: " ++ js p))
    | some prim => do
      let w ← writeChildren write supply (args.getD [])
      let framed := if (args.getD []).length < 3 then w else writeUint32 w.length ++ w
      return tagOf (args.getD []).length annots :: UInt8.ofNat prim ::
        (framed ++ writeAnnots args annots)

/-- `writeExpr`, with a bound on its nesting. -/
def writeExpr (host : Host) : ℕ → Transform → Expr → Except MichelError Bytes
  | 0, _, _ => .error .outOfFuel
  | fuel + 1, tf, expr => do
    let (e, supply) ← writeTransform host tf expr
    writeNode (writeExpr host fuel) e supply

/-- The transform of an optional type. -/
def transformOf : Option Expr → Transform
  | some t => .typed t
  | none => .passThrough

/-- `packData`. -/
def packData (host : Host) (d : Expr) (t : Option Expr) : Except MichelError Bytes := do
  let w ← writeExpr host d.weight (transformOf t) d
  return 5 :: w

/-! ## Reading -/

/-- The transform back of a type whose texts are written as octets: a text stays as it is. -/
def readLeaf (t d : Expr) (expected : String) (text : Bytes → Except MichelError JSString) :
    Except MichelError Expr :=
  match d with
  | .string _ => return d
  | .bytes hex => do
    match ← parseBytes hex with
    | none => mismatch t d "can't parse bytes"
    | some bytes => do
      let s ← text (bytes.map octet)
      return .string s
  | _ => mismatch t d expected

/-- The transform back of a `timestamp`. -/
def readTimestamp (t d : Expr) : Except MichelError Expr :=
  match d with
  | .string _ => return d
  | .int text =>
    match (parseInt 10 text).bind fun n => timeClip (n * 1000) with
    | some ms => return .string ((toISOString ms).take 19 ++ js "Z")
    | none => .error .rangeError
  | _ => mismatch t d "address expected"

/-- The first half of `getReadTransformFuncs`, of a pair type. -/
def readPairSupply (t d : Expr) : Except MichelError Supply := do
  if !isPairData d then mismatch t d "pair expected"
  let (tc, _) ← unpackComb "pair" t
  return .list (tc.map typedTransform)

/-- The types whose nodes are turned into texts. -/
def textTypes : List String := ["chain_id", "signature", "key_hash", "key", "address", "timestamp"]

/-- The first half of `getReadTransformFuncs(t)`: the transforms of the children of `d`. -/
def readTypedSupply (t d : Expr) : Except MichelError Supply :=
  match t with
  | .seq _ => readPairSupply t d
  | .prim p args _ =>
    if p = "pair" then readPairSupply t d
    else if p = "or" then
      match d with
      | .prim q _ _ =>
        if isOrData d then return .list [typedArg args (if q = "Left" then 0 else 1)]
        else mismatch t d "or expected"
      | _ => mismatch t d "or expected"
    else if p = "option" then
      match d with
      | .prim q _ _ =>
        if isOptionData d then return .list (if q = "Some" then [typedArg args 0] else [])
        else mismatch t d "option expected"
      | _ => mismatch t d "option expected"
    else if p = "list" ∨ p = "set" then
      match d with
      | .seq _ => return .forever (typedArg args 0)
      | _ => mismatch t d (p ++ " expected")
    else if p = "map" then
      match d with
      | .seq _ => return .forever (.ok (.elt t))
      | _ => mismatch t d "map expected"
    else if textTypes.contains p then return .list []
    else passThroughSupply d
  | _ => passThroughSupply d

/-- The first half of a `ReadTransformFuncs`. -/
def readSupply : Transform → Expr → Except MichelError Supply
  | .passThrough, d => passThroughSupply d
  | .typed t, d => readTypedSupply t d
  | .elt t, d => eltSupply t d

/-- The second half of a `ReadTransformFuncs`: the node itself. -/
def readResult (host : Host) (tf : Transform) (d : Expr) : Except MichelError Expr :=
  match tf with
  | .typed t@(.prim p _ _) =>
    if p = "chain_id" then readLeaf t d "chain id expected" (chainIdText host)
    else if p = "signature" then readLeaf t d "signature expected" (signatureText host)
    else if p = "key_hash" then readLeaf t d "key hash expected" (keyHashText host)
    else if p = "key" then readLeaf t d "public key expected" (keyText host)
    else if p = "address" then readLeaf t d "address expected" (addressText host)
    else if p = "timestamp" then readTimestamp t d
    else return d
  | _ => return d

/-- The value of the octets of an integer, added up from the last one. -/
def intOfOctets (buf : Bytes) : ℤ :=
  let val : ℕ := buf.tail.foldr (fun byte val => val * 128 + byte.toNat % 128) 0
  let byte := (buf.headD 0).toNat
  let val : ℕ := val * 64 + byte % 64
  if byte % 128 / 64 = 1 then -(val : ℤ) else val

section

variable (read : Transform → Reader UInt8 MichelError Expr)

/-- Children until the end of a segment. -/
def readWhile : ℕ → Supply → Bytes → Except MichelError (List Expr)
  | _, _, [] => .ok []
  | 0, _, _ :: _ => .error .outOfFuel
  | fuel + 1, args, b :: bs => do
    let (tf, args) ← args.next
    let (e, rest) ← read tf (b :: bs)
    let es ← readWhile fuel args rest
    return e :: es

/-- `argn` children. -/
def readTimes : ℕ → Supply → Reader UInt8 MichelError (List Expr)
  | 0, _ => pure []
  | argn + 1, args => do
    let (tf, args) ← lift args.next
    let e ← read tf
    let es ← readTimes argn args
    return e :: es

/-- The children in a segment of a known length. -/
def readItems (length : ℕ) (args : Supply) : Reader UInt8 MichelError (List Expr) := do
  let r ← readBytes length
  lift (readWhile read r.length args r)

/-- The arguments of a primitive: up to two end to end, more behind their length. -/
def readArguments (argn : ℕ) (args : Supply) : Reader UInt8 MichelError (List Expr) :=
  if argn < 3 then readTimes read argn args
  else do
    let length ← readUint32
    readItems read length args

end

/-- Two passes over one input; the second takes its transforms from what the first one read. -/
def twoPasses (body : Supply → Reader UInt8 MichelError (List Expr))
    (args : List Expr → Except MichelError Supply) : Reader UInt8 MichelError (List Expr) := fun bs => do
  let (res, _) ← body (.forever (.ok .passThrough)) bs
  let it ← args res
  let (res, rest) ← body it bs
  let _ ← args res
  return (res, rest)

/-- The `args` field of a primitive read with `argn` arguments. -/
def argsField (argn : ℕ) (args : List Expr) : Option (List Expr) := if argn = 0 then none else some args

/-- The annotations of a primitive. -/
def readAnnotations (present : Bool) : Reader UInt8 MichelError (Option (List JSString)) :=
  if present then do
    let length ← readUint32
    if length ≠ 0 then do
      let bytes ← readBytes length
      return some (splitWords (textDecode bytes))
    else return none
  else pure none

/-- A primitive, after its tag. -/
def readPrim (host : Host) (read : Transform → Reader UInt8 MichelError Expr) (tag : UInt8)
    (tf : Transform) : Reader UInt8 MichelError Expr := do
  let p ← readUint8
  match primitives[p.toNat]? with
  | none => fail (.error (js "Unknown primitive tag: " ++ natText p.toNat))
  | some prim => do
    let argn := (tag.toNat - 3) / 2
    let args ← twoPasses (readArguments read argn) fun res =>
      readSupply tf (.prim prim (argsField argn res) none)
    let annots ← readAnnotations ((tag.toNat - 3) % 2 == 1 || argn == 3)
    lift (readResult host tf (.prim prim (argsField argn args) annots))

/-- `readExpr`, with a bound on its nesting. -/
def readExpr (host : Host) : ℕ → Transform → Reader UInt8 MichelError Expr
  | 0, _ => fail .outOfFuel
  | fuel + 1, tf => do
    let tag ← readUint8
    if tag = 0 then do
      let buf ← Varint.chunk boundsErr
      lift (readResult host tf (.int (intText (intOfOctets buf))))
    else if tag = 1 then do
      let length ← readUint32
      let bytes ← readBytes length
      lift (readResult host tf (.string (textDecode bytes)))
    else if tag = 10 then do
      let length ← readUint32
      let bytes ← readBytes length
      lift (readResult host tf (.bytes (hexBytes bytes)))
    else if tag = 2 then do
      let length ← readUint32
      let res ← twoPasses (readItems (readExpr host fuel) length) fun res => readSupply tf (.seq res)
      lift (readResult host tf (.seq res))
    else if 9 < tag then fail (.error (js "Unknown tag: " ++ natText tag.toNat))
    else readPrim host (readExpr host fuel) tag tf

/-- `unpackData`. -/
def unpackData (host : Host) (src : Bytes) (t : Option Expr) : Except MichelError Expr := do
  let (magic, r) ← readUint8 src
  if magic ≠ 5 then .error (.error (js "incorrect packed data magic number"))
  else do
    let (ex, _) ← readExpr host src.length (transformOf t) r
    assertMichelsonData ex
    return ex

end MichelCodec
