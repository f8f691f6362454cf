import Taquito.Js.Doubles
import Taquito.LocalForging.Consumer
import Taquito.LocalForging.Identifiers

/-!
# The field codecs of the forger

`codec.ts`: for every type of field of an operation the function that writes it as hexadecimal text
and the function that reads it back from octets, and the two tables `encoders` and `decoders`. A
field of an operation is an optional value of the type of its codec; `none` is `undefined`.
-/

open Js Micheline

namespace LocalForging

open Utils (Prefix)

/-- What the forger uses of its host: base58check, `bignumber.js`, and `toLowerCase` of texts that
need not be ASCII. -/
structure Libraries where
  b58 : Base58Check
  big : BigNumberLib
  /-- `s.toLowerCase()`. -/
  toLowerCase : JSString → JSString

/-! ## Small codecs -/

/-- `boolEncoder`. -/
def boolEncoder (bool : Bool) : JSString := if bool then js "ff" else js "00"

/-- `boolDecoder`. -/
def boolDecoder : Decoder Bool := do
  let bool ← consumeByte
  return bool == 0xff

/-- `ballotEncoder`. -/
def ballotEncoder (ballot : JSString) : Except ForgeError JSString :=
  if ballot = js "yay" then .ok (js "00")
  else if ballot = js "nay" then .ok (js "01")
  else if ballot = js "pass" then .ok (js "02")
  else .error (.invalidBallotValue ballot)

/-- `ballotDecoder`. -/
def ballotDecoder : Decoder JSString := do
  let value ← consumeByte
  if value = 0x00 then return js "yay"
  else if value = 0x01 then return js "nay"
  else if value = 0x02 then return js "pass"
  else Reader.fail (.decodeBallotValue (natText value.toNat))

/-- `pvmKindEncoder`. -/
def pvmKindEncoder (pvm : JSString) : Except ForgeError JSString :=
  if pvm = js "arith" then .ok (js "00")
  else if pvm = js "wasm_2_0_0" then .ok (js "01")
  else .error (.unsupportedPvmKind pvm)

/-- `pvmKindDecoder`. -/
def pvmKindDecoder : Decoder JSString := do
  let value ← consumeByte
  if value = 0x00 then return js "arith"
  else if value = 0x01 then return js "wasm_2_0_0"
  else Reader.fail (.decodePvmKind (natText value.toNat))

/-- `passthroughFixedLengthDecoder`, which is an encoder. -/
def passthroughFixedLengthDecoder (byteLength : ℕ) (val : JSString) : Except ForgeError JSString :=
  if !val.all isHexDigit then .error (.error (val ++ js " is not a valid hex string"))
  else if val.length ≠ byteLength * 2 then
    .error (.error (val ++ js " isn't of length " ++ natText (byteLength * 2)))
  else .ok val

/-- `(val) => toHexString(val.consume(byteLength))`. -/
def fixedLengthDecoder (byteLength : ℕ) : Decoder JSString := do
  let bytes ← consume byteLength
  return toHexString bytes

/-! ## Integers of a fixed width -/

/-- A field of type number, or its text: a number with a fractional part is given by the text that
`String` makes of it. -/
inductive NumberField where
  | number (x : Double)
  | text (s : JSString)
  deriving DecidableEq, Repr

/-- `String(val)`. -/
def NumberField.toText : NumberField → JSString
  | number x => x.text
  | text s => s

/-- The operand of a bit operation. -/
def toInt32 : Double → BitVec 32
  | .finite z => BitVec.ofInt 32 z
  | _ => 0

/-- `int32Encoder` and `int16Encoder`, which differ in the number of octets. -/
def intFieldEncoder (count : ℕ) (val : NumberField) : JSString :=
  let num := toInt32 (Double.parse val.toText)
  toHex ((List.range count).map fun i =>
    let shiftBy := (count - (i + 1)) * 8
    UInt8.ofNat ((num &&& (0xff#32 <<< shiftBy)).sshiftRight shiftBy).toNat)

/-- `int32Decoder` and `int16Decoder`. -/
def intFieldDecoder (count : ℕ) : Decoder NumberField := do
  let num ← consume count
  let finalNum := num.zipIdx.foldl (fun (finalNum : BitVec 32) b =>
    finalNum ||| BitVec.ofNat 32 b.1.toNat <<< ((num.length - (b.2 + 1)) * 8)) 0
  return .number (.finite finalNum.toInt)

/-- `int32Encoder`. -/
def int32Encoder : NumberField → JSString := intFieldEncoder 4

/-- `int32Decoder`. -/
def int32Decoder : Decoder NumberField := intFieldDecoder 4

/-- `int16Encoder`. -/
def int16Encoder : NumberField → JSString := intFieldEncoder 2

/-- `int16Decoder`: two octets never make a negative number. -/
def int16Decoder : Decoder NumberField := intFieldDecoder 2

/-! ## Natural numbers -/

section numbers

variable (big : BigNumberLib)

/-- One octet of `zarithEncoder`: the last, or a remainder with the mark of continuation. The texts
of a number below 16, and so of every negative one, have a zero in front. -/
def zarithLast (nn : ℚ) : JSString :=
  (if nn < 16 then js "0" else []) ++ (BigNumber.finite nn).toText big 16

/-- The loop of `zarithEncoder` on a finite number, `fuel` times at most. -/
def zarithLoop : ℕ → ℚ → JSString
  | 0, nn => zarithLast big nn
  | fuel + 1, nn =>
    if nn < 128 then zarithLast big nn
    else
      let quotient : ℕ := ⌊nn / 128⌋.toNat
      let b := nn - 128 * (quotient : ℚ)
      (BigNumber.finite (b + 128)).toText big 16 ++ zarithLoop fuel (quotient : ℚ)

/-- `zarithEncoder`. The remainder of the positive infinity is `NaN`, which is never below 128. -/
def zarithEncoder (n : JSString) : Except ForgeError JSString :=
  match big.parse n with
  | .nan => .error (.typeError (js "Invalid zarith number " ++ n))
  | .infinity false => .error .neverReturns
  | .infinity true => .ok (js "0" ++ (BigNumber.infinity true).toText big 16)
  | .finite nn => .ok (zarithLoop big ⌊nn⌋.toNat.log2 nn)

/-- `zarithDecoder`. -/
def zarithDecoder : Decoder JSString := fun bs =>
  let mostSignificantByte := (bs.takeWhile fun b => b &&& 128 ≠ 0).length
  let num : ℕ := ((List.range (mostSignificantByte + 1)).reverse.map fun i =>
    (bs.getD i 0 &&& 0x7f).toNat).foldl (fun num tmp => num * 128 + tmp) 0
  (do
    let _ ← consume (mostSignificantByte + 1)
    return (BigNumber.finite num).text big) bs

/-- `burnLimitEncoder` and `depositsLimitEncoder`, which are the same. -/
def limitEncoder (val : Option JSString) : Except ForgeError JSString :=
  match val with
  | none | some [] => .ok (js "00")
  | some val => do return js "ff" ++ (← zarithEncoder big val)

/-- `burnLimitDecoder` and `depositsLimitDecoder`. -/
def limitDecoder : Decoder (Option JSString) := do
  let pre ← consumeByte
  if pre ≠ 0x00 then return some (← zarithDecoder big)
  else return none

end numbers

/-! ## Delegates and proposals -/

section identifiers

variable (b58 : Base58Check)

/-- `delegateEncoder`. -/
def delegateEncoder (val : Option JSString) : Except ForgeError JSString :=
  match val with
  | none | some [] => .ok (boolEncoder false)
  | some val => do return boolEncoder true ++ (← pkhEncoder b58 val)

/-- `delegateDecoder`. -/
def delegateDecoder : Decoder (Option JSString) := do
  let hasDelegate ← boolDecoder
  if hasDelegate then return some (← pkhDecoder b58)
  else return none

/-- `proposalsEncoder`: the length is computed from the number of proposals. -/
def proposalsEncoder (proposals : List JSString) : Except ForgeError JSString := do
  let length ← pad (2 * (32 * proposals.length)) 8
  let encoded ← proposals.mapM (prefixEncoder b58 .P)
  return length ++ encoded.flatten

/-- `proposalsDecoder`: the length is passed over, and everything that is left is read. -/
def proposalsDecoder : Decoder (List JSString) := do
  let _ ← consume 4
  fun proposal => (Reader.readAll (prefixDecoder b58 .P) .outOfFuel proposal.length proposal).map
    (·, [])

end identifiers

/-! ## Octets behind their length -/

/-- `paddedBytesEncoder`, and `txRollupBatchContentEncoder`. -/
def paddedBytesEncoder (val : JSString) : Except ForgeError JSString := do
  return (← pad val.length 8) ++ val

/-- `paddedBytesDecoder`, and `txRollupBatchContentDecoder`. -/
def paddedBytesDecoder : Decoder JSString := do
  let value ← extractRequiredLen 4
  return toHex value

/-- `smartRollupMessageEncoder`: the messages behind their lengths, from left to right. -/
def smartRollupMessages : List JSString → Except ForgeError JSString
  | [] => .ok []
  | curr :: val => do
    let message ← paddedBytesEncoder curr
    return message ++ (← smartRollupMessages val)

/-- `smartRollupMessageEncoder`. -/
def smartRollupMessageEncoder (val : List JSString) : Except ForgeError JSString := do
  let message ← smartRollupMessages val
  paddedBytesEncoder message

/-- `smartRollupMessageDecoder`. -/
def smartRollupMessageDecoder : Decoder (List JSString) := do
  let valueArray ← extractRequiredLen 4
  let ret ← Reader.lift (stripLengthPrefixFromBytes 4 ⟨valueArray, 0⟩)
  return ret.map toHex

/-! ## Micheline -/

section values

variable (big : BigNumberLib)

/-- `valueDecoder(new Uint8ArrayConsumer(value))`: what is left of the segment is not looked at. -/
def segmentValue (value : Bytes) : Except ForgeError Expr := (valueDecode value).map Prod.fst

/-- `valueParameterEncoder`. -/
def valueParameterEncoder (value : Expr) : Except ForgeError JSString := do
  let valueEncoded ← valueEncoder big value
  return (← pad valueEncoded.length 8) ++ valueEncoded

/-- `valueParameterDecoder`. -/
def valueParameterDecoder : Decoder Expr := do
  let value ← extractRequiredLen 4
  Reader.lift (segmentValue value)

/-- The script of a contract. -/
structure Script where
  code : Expr
  storage : Expr

/-- `scriptEncoder`. -/
def scriptEncoder (script : Script) : Except ForgeError JSString := do
  let code ← valueEncoder big script.code
  let storage ← valueEncoder big script.storage
  return (← pad code.length 8) ++ code ++ (← pad storage.length 8) ++ storage

/-- `scriptDecoder`. -/
def scriptDecoder : Decoder Script := do
  let code ← extractRequiredLen 4
  let storage ← extractRequiredLen 4
  let code ← Reader.lift (segmentValue code)
  let storage ← Reader.lift (segmentValue storage)
  return { code := code, storage := storage }

/-- `entrypointNameEncoder`. -/
def entrypointNameEncoder (entrypoint : JSString) : Except ForgeError JSString := do
  return (← valueEncoder big (.string entrypoint)).drop 2

/-- `entrypointNameDecoder`. -/
def entrypointNameDecoder : Decoder JSString := do
  let entry ← extractRequiredLen 4
  return utf8Decode entry

/-! ## Parameters -/

/-- `ENTRYPOINT_MAX_LENGTH`. -/
def ENTRYPOINT_MAX_LENGTH : ℕ := 31

/-- `entrypointMapping`. -/
def entrypointMapping : List (JSString × JSString) :=
  [(js "00", js "default"), (js "01", js "root"), (js "02", js "do"), (js "03", js "set_delegate"),
    (js "04", js "remove_delegate"), (js "05", js "deposit")]

/-- The names of the properties that every object inherits. -/
def objectPrototype : List JSString :=
  [js "constructor", js "__defineGetter__", js "__defineSetter__", js "hasOwnProperty",
    js "__lookupGetter__", js "__lookupSetter__", js "isPrototypeOf", js "propertyIsEnumerable",
    js "toString", js "valueOf", js "__proto__", js "toLocaleString"]

/-- The text of such a property: that of an object, or of a native function by its name. -/
def objectPrototypeText (property : JSString) : JSString :=
  if property = js "__proto__" then js "[object Object]"
  else
    let name := if property = js "constructor" then js "Object" else property
    js "function " ++ name ++ js "() \x7b [native code] \x7d"

/-- `entrypointMappingReverse[entrypoint]`, and `entrypoint in entrypointMappingReverse`: the
inherited properties are found as well. -/
def entrypointMappingReverse (entrypoint : JSString) : Option JSString :=
  match entrypointMapping.find? fun entry => entry.2 = entrypoint with
  | some entry => some entry.1
  | none =>
    if objectPrototype.contains entrypoint then some (objectPrototypeText entrypoint) else none

/-- `entrypointEncoder`. -/
def entrypointEncoder (entrypoint : JSString) : Except ForgeError JSString :=
  match entrypointMappingReverse entrypoint with
  | some code => .ok code
  | none =>
    if entrypoint.length > ENTRYPOINT_MAX_LENGTH then .error (.oversizedEntryPoint entrypoint)
    else do return js "ff" ++ (← valueEncoder big (.string entrypoint)).drop 8

/-- `entrypointDecoder`. -/
def entrypointDecoder : Decoder JSString := do
  let tag ← consumeByte
  let preamble ← Reader.lift (pad (2 * tag.toNat) 2)
  match entrypointMapping.lookup preamble with
  | some entrypoint => return entrypoint
  | none =>
    let entry ← extractRequiredLen 1
    let entrypoint := utf8Decode entry
    if entrypoint.length > ENTRYPOINT_MAX_LENGTH then
      Reader.fail (.oversizedEntryPoint entrypoint)
    else return entrypoint

/-- The parameters of a transaction. -/
structure Parameters where
  entrypoint : JSString
  value : Expr

/-- `val.entrypoint === 'default' && 'prim' in val.value && val.value.prim === 'Unit'`. -/
def Parameters.isDefaultUnit (val : Parameters) : Bool :=
  val.entrypoint = js "default" && match val.value with
    | .prim p _ _ => p == "Unit"
    | _ => false

/-- `parametersEncoder`: the length is padded without `pad`. -/
def parametersEncoder : Option Parameters → Except ForgeError JSString
  | none => .ok (js "00")
  | some val =>
    if val.isDefaultUnit then .ok (js "00")
    else do
      let encodedEntrypoint ← entrypointEncoder big val.entrypoint
      let parameters ← valueEncoder big val.value
      let length := padStart 8 (digitChar 0) (halvesText parameters.length)
      return js "ff" ++ encodedEntrypoint ++ length ++ parameters

/-- `parametersDecoder`. -/
def parametersDecoder : Decoder (Option Parameters) := do
  let preamble ← consumeByte
  if preamble = 0x00 then return none
  else
    let encodedEntrypoint ← entrypointDecoder
    let params ← extractRequiredLen 4
    let parameters ← Reader.lift (segmentValue params)
    return some { entrypoint := encodedEntrypoint, value := parameters }

end values

/-! ## The tables -/

/-- `CODEC`, of the fields of operations. -/
inductive CODEC where
  | identifier (codec : Identifier)
  | SECRET
  | RAW
  | ZARITH
  | DELEGATE
  | SCRIPT
  | BALLOT_STATEMENT
  | PROPOSAL_ARR
  | INT32
  | INT16
  | PARAMETERS
  | VALUE
  | PADDED_BYTES
  | SMART_ROLLUP_MESSAGE
  | ENTRYPOINT
  | TX_ROLLUP_ORIGINATION_PARAM
  | TX_ROLLUP_BATCH_CONTENT
  | BURN_LIMIT
  | DEPOSITS_LIMIT
  | PVM_KIND
  deriving DecidableEq, Repr

namespace CODEC

/-- The values of a field. -/
def Value : CODEC → Type
  | SCRIPT => Script
  | PROPOSAL_ARR | SMART_ROLLUP_MESSAGE => List JSString
  | INT32 | INT16 => NumberField
  | PARAMETERS => Parameters
  | VALUE => Expr
  | TX_ROLLUP_ORIGINATION_PARAM => Unit
  | _ => JSString

variable (lib : Libraries)

/-- `encoders`. A field that has to be there is never `undefined` once `forge` has looked. -/
def encoder : (c : CODEC) → Option c.Value → Except ForgeError JSString
  | DELEGATE, val => delegateEncoder lib.b58 val
  | PARAMETERS, val => parametersEncoder lib.big val
  | BURN_LIMIT, val | DEPOSITS_LIMIT, val => limitEncoder lib.big val
  | TX_ROLLUP_ORIGINATION_PARAM, _ => .ok []
  | identifier codec, some val => codec.encoder lib.b58 val
  | SECRET, some val => passthroughFixedLengthDecoder 20 val
  | RAW, some val => passthroughFixedLengthDecoder 32 val
  | ZARITH, some val => zarithEncoder lib.big val
  | SCRIPT, some val => scriptEncoder lib.big val
  | BALLOT_STATEMENT, some val => ballotEncoder val
  | PROPOSAL_ARR, some val => proposalsEncoder lib.b58 val
  | INT32, some val => .ok (int32Encoder val)
  | INT16, some val => .ok (int16Encoder val)
  | VALUE, some val => valueParameterEncoder lib.big val
  | PADDED_BYTES, some val | TX_ROLLUP_BATCH_CONTENT, some val => paddedBytesEncoder val
  | SMART_ROLLUP_MESSAGE, some val => smartRollupMessageEncoder val
  | ENTRYPOINT, some val => entrypointNameEncoder lib.big val
  | PVM_KIND, some val => pvmKindEncoder val
  | _, none => .error (.typeError (js "undefined"))

/-- `decoders`. -/
def decoder : (c : CODEC) → Decoder (Option c.Value)
  | DELEGATE => delegateDecoder lib.b58
  | PARAMETERS => parametersDecoder
  | BURN_LIMIT | DEPOSITS_LIMIT => limitDecoder lib.big
  | TX_ROLLUP_ORIGINATION_PARAM => pure (some ())
  | identifier codec => some <$> codec.decoder lib.b58
  | SECRET => some <$> fixedLengthDecoder 20
  | RAW => some <$> fixedLengthDecoder 32
  | ZARITH => some <$> zarithDecoder lib.big
  | SCRIPT => some <$> scriptDecoder
  | BALLOT_STATEMENT => some <$> ballotDecoder
  | PROPOSAL_ARR => some <$> proposalsDecoder lib.b58
  | INT32 => some <$> int32Decoder
  | INT16 => some <$> int16Decoder
  | VALUE => some <$> valueParameterDecoder
  | PADDED_BYTES | TX_ROLLUP_BATCH_CONTENT => some <$> paddedBytesDecoder
  | SMART_ROLLUP_MESSAGE => some <$> smartRollupMessageDecoder
  | ENTRYPOINT => some <$> entrypointNameDecoder
  | PVM_KIND => some <$> pvmKindDecoder

end CODEC

end LocalForging
