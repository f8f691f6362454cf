import Taquito.MichelsonEncoder.Tokens

/-!
# Types and schemas

`MType` is a type with its pairs split into binary ones, as `collapse` splits them, and
`MType.token` its token at an index. The classes that are not modelled (lambdas, tickets, sapling
states, global constants) stand in it with methods of their own; what they inherit from `Token` is
modelled.
-/

open Js

namespace MichelsonEncoder

/-- A type. -/
inductive MType where
  | pair (annots : Annots) (left right : MType)
  | or (annots : Annots) (left right : MType)
  | option (annots : Annots) (component : MType)
  | list (annots : Annots) (element : MType)
  | set (annots : Annots) (element : MType)
  | map (annots : Annots) (key value : MType)
  | bigMap (annots : Annots) (key value : MType)
  | contract (annots : Annots) (parameter : MType)
  | base (annots : Annots) (t : BaseType)
  | other (annots : Annots) (methods : ℕ → Token)

/-- A token of a class that is not modelled. -/
def otherToken (annots : Annots) (methods : ℕ → Token) (idx : ℕ) : Token :=
  { methods idx with
    kind := if (methods idx).kind = .ticket then .ticket else .other
    comparable := false
    annot := annot annots idx
    hasAnnotations := hasAnnotations annots
    ExtractSignature := [[(methods idx).ExtractSchema]] }

/-- The token of a type at an index. -/
def MType.token (host : Host) : MType → ℕ → Token
  | .pair annots left right => pairToken annots (left.token host) (right.token host)
  | .or annots left right => orToken host annots (left.token host) (right.token host)
  | .option annots component => optionToken annots (component.token host)
  | .list annots element => listToken annots (element.token host)
  | .set annots element => setToken annots (element.token host)
  | .map annots key value => mapToken host annots (key.token host) (value.token host)
  | .bigMap annots key value => bigMapToken host annots (key.token host) (value.token host)
  | .contract annots parameter => contractToken host annots (parameter.token host)
  | .base annots t => baseToken host annots t
  | .other annots methods => otherToken annots methods

/-- The type without components of this name. -/
def BaseType.ofPrim (p : String) : Option BaseType :=
  [.nat, .string, .address, .tx_rollup_l2_address, .bool, .mutez, .bytes, .timestamp, .int, .unit,
    .key, .key_hash, .signature, .operation, .chain_id, .never, .bls12_381_fr, .bls12_381_g1,
    .bls12_381_g2, .chest, .chest_key].find? fun t => t.prim = p

section createToken

variable (others : String → Option (List Expr) → Option (ℕ → Token))

/-- The type with these components, of the classes that have components. -/
def componentType (p : String) (annots : Annots) : List MType → Option MType
  | [t] =>
    if p = "option" then some (.option annots t)
    else if p = "list" then some (.list annots t)
    else if p = "set" then some (.set annots t)
    else if p = "contract" then some (.contract annots t)
    else none
  | [t, u] =>
    if p = "or" then some (.or annots t u)
    else if p = "map" then some (.map annots t u)
    else if p = "big_map" then some (.bigMap annots t u)
    else none
  | _ => none

mutual

/-- `createToken`: the type of an expression, where an array is a pair. `others` finds the methods
of the classes that are not modelled. -/
def createToken : Expr → Option MType
  | .seq items => createPair none items
  | .prim p none annots =>
    ((BaseType.ofPrim p).map (.base annots)).or ((others p none).map (.other annots))
  | .prim p (some args) annots =>
    if p = "pair" then createPair annots args
    else if p ∈ ["or", "option", "list", "set", "map", "big_map", "contract"] then
      (createTokens args).bind (componentType p annots)
    else ((BaseType.ofPrim p).map (.base annots)).or ((others p (some args)).map (.other annots))
  | _ => none

/-- A pair of two or more components, split as `collapse` splits it. -/
def createPair (annots : Annots) : List Expr → Option MType
  | [] => none
  | [_] => none
  | [left, right] => do return .pair annots (← createToken left) (← createToken right)
  | left :: args => do return .pair annots (← createToken left) (← createPair none args)

/-- The types of the arguments. -/
def createTokens : List Expr → Option (List MType)
  | [] => some []
  | e :: es => do return (← createToken e) :: (← createTokens es)

end

/-- `removeTopLevelAnnotation`. -/
def removeTopLevelAnnotation (root : Token) (obj : Val) : Val :=
  if (root.kind = .pair ∨ root.kind = .or) ∧ root.hasAnnotations then
    match obj with
    | .object [(_, value)] => value
    | obj => obj
  else obj

/-- `Schema.Execute`. -/
def Schema.Execute (host : Host) (type val : Expr) : Except EncoderError Val :=
  match createToken others type with
  | none => .error .InvalidTokenError
  | some t => do
    let root := t.token host 0
    return removeTopLevelAnnotation root (← root.Execute (some val))

/-- `Schema.Encode`: only a `TokenValidationError` is thrown on as it is. -/
def Schema.Encode (host : Host) (type : Expr) (value : Val) : Except EncoderError Encoded :=
  match createToken others type with
  | none => .error .InvalidTokenError
  | some t =>
    match (t.token host 0).EncodeObject value with
    | .ok encoded => .ok encoded
    | .error (.TokenValidationError name) => .error (.TokenValidationError name)
    | .error _ => .error .StorageEncodingError

/-- `Schema.ExtractSchema`. -/
def Schema.ExtractSchema (host : Host) (type : Expr) : Except EncoderError Val :=
  match createToken others type with
  | none => .error .InvalidTokenError
  | some t => .ok ( removeTopLevelAnnotation (t.token host 0) (t.token host 0).ExtractSchema)

/-- `Schema.generateSchema`. -/
def Schema.generateSchema (host : Host) (type : Expr) : Except EncoderError Val :=
  match createToken others type with
  | none => .error .InvalidTokenError
  | some t => .ok ( removeTopLevelAnnotation (t.token host 0) (t.token host 0).generateSchema)

end createToken

end MichelsonEncoder
