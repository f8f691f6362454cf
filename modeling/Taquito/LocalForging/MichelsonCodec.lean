import Taquito.Host.BigNumber
import Taquito.LocalForging.Utils
import Taquito.Lib.Varint
import Taquito.Micheline.Primitives

/-!
# The Micheline codec of the forger

`valueEncoder` builds hexadecimal text, `valueDecoder` consumes octets, as in the source; every
length prefix is computed from the text that follows it. The decoder recurses on a fuel argument.
`valueDecode` gives it one unit more than there are octets, which is always enough.
-/

open Js Micheline

namespace LocalForging

/-! ## Encoding -/

section Encoder

variable (lib : BigNumberLib)

/-- The matches of `/\d{6,7}/g` in a text of at most `fuel` characters. -/
def digitChunksAux : ℕ → JSString → List JSString
  | 0, _ => []
  | _, [] => []
  | fuel + 1, s =>
    if 7 ≤ s.length ∧ (s.take 7).all isDecimalDigit then
      s.take 7 :: digitChunksAux fuel (s.drop 7)
    else if 6 ≤ s.length ∧ (s.take 6).all isDecimalDigit then
      s.take 6 :: digitChunksAux fuel (s.drop 6)
    else digitChunksAux fuel (s.drop 1)

/-- The matches of `/\d{6,7}/g`. -/
def digitChunks (s : JSString) : List JSString := digitChunksAux s.length s

/-- The octet of a chunk of binary digits behind its continuation mark. -/
def chunkHex (mark : JSString) (x : JSString) : JSString :=
  padStart 2 (digitChar 0) (match parseInt 2 (mark ++ x) with
    | some n => (if n < 0 then js "-" else []) ++ numberText 16 n.natAbs
    | none => js "NaN")

/-- `numHex`: every chunk but the last carries the mark `1`. -/
def chunksHex : List JSString → JSString
  | [] => []
  | [x] => chunkHex (js "0") x
  | x :: y :: xs => chunkHex (js "1") x ++ chunksHex (y :: xs)

/-- `intEncoder`. -/
def intEncoder (int : JSString) : Except ForgeError JSString :=
  let text := (lib.parse int).toText lib 2
  let positiveMark := if text.head? = some 45 then js "1" else js "0"
  let binary := text.filter (· ≠ 45)
  let width :=
    if binary.length ≤ 6 then 6
    else if (binary.length - 6) % 7 ≠ 0 then binary.length + 7 - (binary.length - 6) % 7
    else binary.length
  match (digitChunks (padStart width (digitChar 0) binary)).reverse with
  | [] => .error (.typeError (js "Cannot read properties of null (reading 'reverse')"))
  | x :: xs => .ok (js "00" ++ chunksHex ((positiveMark ++ x) :: xs))

/-- `bytesEncoder`. -/
def bytesEncoder (bytes : JSString) : Except ForgeError JSString :=
  if !isHexPairs bytes then .error (.invalidHexString bytes)
  else do
    let len ← pad bytes.length 8
    return js "0a" ++ len ++ bytes

/-- `stringEncoder`. -/
def stringEncoder (string : JSString) : Except ForgeError JSString := do
  let str := toHex (utf8Encode string)
  let len ← pad str.length 8
  return js "01" ++ len ++ str

/-- `encodeAnnots`: the words joined by the octet of a space. -/
def encodeAnnots (value : List JSString) : Except ForgeError JSString := do
  let mergedAnnot := List.intercalate (js "20") (value.map fun x => toHex (utf8Encode x))
  let len ← pad mergedAnnot.length 8
  return len ++ mergedAnnot

/-- `primEncoder`: the annotations' part. -/
def encodedAnnots : Option (List JSString) → Except ForgeError JSString
  | some words => encodeAnnots words
  | none => .ok []

/-- `pad(encodedArgs.length / 2) + encodedArgs + pad(0)`. -/
def framedArgs (encodedArgs : JSString) : Except ForgeError JSString := do
  let len ← pad encodedArgs.length 8
  let zero ← pad 0 8
  return len ++ encodedArgs ++ zero

/-- `primEncoder`: the arguments' part; `args` is `none` where the field is absent, else the number
of arguments. -/
def frameArgs (p : String) (args : Option ℕ) (encodedArgs encodedAnnots : JSString) :
    Except ForgeError JSString :=
  if isLambda p && args.getD 0 != 0 then framedArgs encodedArgs
  else if isPair p && 2 < args.getD 0 then
    if encodedAnnots = [] then framedArgs encodedArgs
    else do
      let len ← pad encodedArgs.length 8
      return len ++ encodedArgs
  else if p == "view" && args.isSome then framedArgs encodedArgs
  else .ok encodedArgs

/-- `primEncoder`, given what its arguments encode to. -/
def primEncoder (p : String) (args : Option ℕ) (encodedArgs : Except ForgeError JSString)
    (annots : Option (List JSString)) : Except ForgeError JSString := do
  let preamble ← pad (2 * min (2 * args.getD 0 + annots.isSome.toNat + 3) 9) 2
  match opMappingReverse p with
  | none => .error (.error (js "invalid prim value: " ++ js p))
  | some op => do
    let encodedArgs ← encodedArgs
    let encodedAnnots ← encodedAnnots annots
    let encodedArgs ← frameArgs p args encodedArgs encodedAnnots
    return preamble ++ op ++ encodedArgs ++ encodedAnnots

mutual

/-- `valueEncoder`. -/
def valueEncoder : Expr → Except ForgeError JSString
  | .seq items => do
    let encoded ← valueEncoders items
    let len ← pad encoded.length 8
    return js "02" ++ len ++ encoded
  | .prim p none annots => primEncoder p none (.ok []) annots
  | .prim p (some args) annots =>
    primEncoder p (some args.length) (valueEncoders args) annots
  | .bytes hex => bytesEncoder hex
  | .string text => stringEncoder text
  | .int text => intEncoder lib text

/-- `value.map((x) => valueEncoder(x)).join('')`. -/
def valueEncoders : List Expr → Except ForgeError JSString
  | [] => .ok []
  | e :: es => do
    let head ← valueEncoder e
    let tail ← valueEncoders es
    return head ++ tail

end

end Encoder

/-! ## Decoding -/

/-- `extractRequiredLen(value, bytesLength)`. -/
def extractRequiredLen (bytesLength : ℕ) : Decoder Bytes := do
  let len ← consume bytesLength
  consume ((parseInt 16 (toHex len)).getD 0).toNat

/-- `bytesDecoder`. -/
def bytesDecoder : Decoder Expr := do
  let bytes ← extractRequiredLen 4
  return .bytes (toHex bytes)

/-- `stringDecoder`. -/
def stringDecoder : Decoder Expr := do
  let str ← extractRequiredLen 4
  return .string (utf8Decode str)

/-- The last `k` binary digits of an octet: `x.toString(2).slice(-k).padStart(k, '0')`. -/
def binaryDigits (k : ℕ) (x : ℕ) : JSString :=
  let text := numberText 2 x
  padStart k (digitChar 0) (text.drop (text.length - k))

/-- `intDecoder`, after the octets of the number are consumed: the first octet gives the sign and
its last six digits, every other its last seven, and the digits are read from the last octet on. -/
def chunkInt : Bytes → Expr
  | [] => .int []
  | c :: cs =>
    let isNegative := 64 ≤ c.toNat % 128
    let numBin := (binaryDigits 6 (c.toNat % 128) :: cs.map fun x => binaryDigits 7 x.toNat).reverse
    let num : ℕ := (digitsValue 2 numBin.flatten).getD 0
    .int (intText (if isNegative then -(num : ℤ) else num))

/-- `intDecoder`. -/
def intDecoder : Decoder Expr := do
  let hexNumber ← Varint.chunk (notEnough 1 0)
  return chunkInt hexNumber

/-- `s.split('20')`. -/
def split20 : JSString → List JSString
  | [] => [[]]
  | [c] => [[c]]
  | c :: d :: s =>
    if c = 50 ∧ d = 48 then [] :: split20 s
    else (split20 (d :: s)).modifyHead (c :: ·)

/-- `decodeAnnots`: the words are cut in the hexadecimal text. -/
def decodeAnnots : Decoder (List JSString) := do
  let restOfAnnot ← extractRequiredLen 4
  return (split20 (toHex restOfAnnot)).map fun x => utf8Decode (bufferFromHex x)

section Decoder

variable (valueDecoder : Decoder Expr)

/-- A `while (val.length() > 0)` loop over a length-delimited segment. -/
def segmentDecoder : Decoder (List Expr) := do
  let val ← extractRequiredLen 4
  Reader.lift (Reader.readAll valueDecoder .outOfFuel val.length val)

/-- `primViewDecoder`. -/
def primViewDecoder (p : String) : Decoder Expr := do
  let _ ← consume 4
  let args ← Reader.times valueDecoder 4
  let _ ← consume 4
  return .prim p (some args) none

/-- The annotations of a node that announces some. -/
def annotsDecoder (hasAnnot : Bool) : Decoder (Option (List JSString)) :=
  if hasAnnot then some <$> decodeAnnots else pure none

/-- `primDecoder`, after the code: combs of more than two arguments. -/
def combDecoder (p : String) (hasAnnot : Bool) : Decoder Expr := do
  let args ← segmentDecoder valueDecoder
  let combPairAnnots ← decodeAnnots
  if combPairAnnots.head? ≠ some [] then return .prim p (some args) (some combPairAnnots)
  else do
    let annots ← annotsDecoder hasAnnot
    return .prim p (some args) annots

/-- The length before, and the annotations' length after, the arguments of a `LAMBDA`: passed over.
-/
def skipLength (framed : Bool) : Decoder Bytes := if framed then consume 4 else pure []

/-- `primDecoder`, after the code: every other primitive. -/
def argsDecoder (p : String) (argsCount : ℕ) (hasAnnot : Bool) : Decoder Expr := do
  let _ ← skipLength (isLambda p && 0 < argsCount)
  let args ← Reader.times valueDecoder argsCount
  let _ ← skipLength (isLambda p && 0 < argsCount)
  let annots ← annotsDecoder hasAnnot
  return .prim p (if args.isEmpty then none else some args) annots

/-- `primDecoder`. -/
def primDecoder (preamble : UInt8) : Decoder Expr := do
  let hasAnnot := (preamble.toNat - 3) % 2 == 1
  let argsCount := (preamble.toNat - 3) / 2
  let code ← consumeByte
  let op := padStart 2 (digitChar 0) (numberText 16 code.toNat)
  match opMappingGet op with
  | none => Reader.fail (.error (js "unknown op: " ++ op))
  | some p =>
    if p == "view" then
      if argsCount ≠ 0 then primViewDecoder valueDecoder p else return .prim p none none
    else if isPair p && 2 < argsCount then combDecoder valueDecoder p hasAnnot
    else argsDecoder valueDecoder p argsCount hasAnnot

end Decoder

/-- `valueDecoder`, with a bound on its nesting. -/
def valueDecoder : ℕ → Decoder Expr
  | 0 => Reader.fail .outOfFuel
  | fuel + 1 => do
    let preamble ← consumeByte
    if preamble = 0x0a then bytesDecoder
    else if preamble = 0x01 then stringDecoder
    else if preamble = 0x00 then intDecoder
    else if preamble = 0x02 then do
      let results ← segmentDecoder (valueDecoder fuel)
      return .seq results
    else primDecoder (valueDecoder fuel) preamble

/-- `valueDecoder`, with enough fuel for its input. -/
def valueDecode : Decoder Expr := fun bs => valueDecoder (bs.length + 1) bs

end LocalForging
