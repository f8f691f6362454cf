import Taquito.MichelsonEncoder.BaseTokens

/-!
# Tokens

A token is what `createToken` makes of a type and an index: the methods of its class (`Token`). The
classes of the types with components are functions of the tokens of their components, which they
create anew in every method, each method with an index of its own counting.

`MType` is a type with its pairs split into binary ones, as `collapse` splits them. The classes that
are not modelled (lambdas, tickets, sapling states, constants) stand in it as tokens of any kind.
-/

open Js

namespace MichelsonEncoder

/-- What `instanceof` tells of a token. -/
inductive Kind where
  | pair | or | bigMap
  | map (valueIsBigMap : Bool)
  | ticket
  | other
  deriving DecidableEq, Repr

/-- The methods of a token. -/
structure Token where
  kind : Kind
  comparable : Bool
  annot : JSString
  hasAnnotations : Bool
  Execute : Option Expr → Except EncoderError Val
  ToKey : Option Expr → Except EncoderError Val
  EncodeObject : Val → Except EncoderError Encoded
  Encode : List Val → Except EncoderError (Encoded × List Val)
  compare : Val → Val → Except EncoderError Ordering
  /-- `compare` of the token that `findToken` finds. -/
  findToken : JSString → Option (Val → Val → Except EncoderError Ordering)
  ExtractSchema : Val
  generateSchema : Val
  ExtractSignature : List (List Val)

/-- `annots` of a type. -/
abbrev Annots := Option (List JSString)

/-- `replace(/(%|:)(_Liq_entry_)?/, '')`. -/
def stripAnnot : JSString → JSString
  | [] => []
  | c :: s =>
    if c = 37 ∨ c = 58 then if (js "_Liq_entry_").isPrefixOf s then s.drop 11 else s
    else c :: stripAnnot s

/-- `annot`. -/
def annot (annots : Annots) (idx : ℕ) : JSString :=
  stripAnnot ((annots.bind List.head?).getD (natText idx))

/-- `hasAnnotations`. -/
def hasAnnotations (annots : Annots) : Bool := !(annots.getD []).isEmpty

/-- `Object.keys(token.ExtractSchema()).length`. -/
def Token.keyCount (t : Token) : ℕ := (objectKeys t.ExtractSchema.fields).length

/-- `{ __michelsonType, schema }`. -/
def schemaOf (michelsonType : String) (schema : Val) : Val :=
  .object [(js "__michelsonType", .string (js michelsonType)), (js "schema", schema)]

/-- `Object.keys(x)`, of a value. -/
def Val.keys : Val → Except EncoderError (List JSString)
  | .undefined | .null => .error .TypeError
  | .object fields => .ok (objectKeys fields)
  | .array items => .ok ((List.range items.length).map natText)
  | .string s => .ok ((List.range s.length).map natText)
  | .uint8Array bytes => .ok ((List.range bytes.length).map natText)
  | _ => .ok []

/-- `args` of a value, or what is thrown for reading it. -/
def argsOf (val : Option Expr) : Except EncoderError (List Expr) :=
  match val with
  | some (.prim _ (some args) _) => .ok args
  | _ => .error .TypeError

/-- `x === undefined`. -/
def Val.isUndefined : Val → Bool
  | .undefined => true
  | _ => false

/-- The errors of the comparisons of any two members. -/
def compareErrors (compare : Val → Val → Except EncoderError Ordering) (xs : List Val) :
    List EncoderError :=
  (xs.tails.flatMap fun
    | x :: ys => ys.flatMap fun y => [compare x y, compare y x]
    | [] => []).filterMap fun
    | .error e => some e
    | .ok _ => none

/-- `x` need not stand behind `y`. -/
def notBehind (compare : Val → Val → Except EncoderError Ordering) (x y : Val) : Bool :=
  match compare x y with
  | .ok .gt => false
  | _ => true

/-- `list.sort(compare)`, which puts `undefined` last. Which of the others are compared is left to
the implementation, so it throws if any comparison does. -/
def sortBy (compare : Val → Val → Except EncoderError Ordering) (xs : List Val) :
    Except EncoderError (List Val) :=
  let defined := xs.filter fun x => !x.isUndefined
  match (compareErrors compare defined).head? with
  | some e => .error e
  | none => .ok (defined.mergeSort (notBehind compare) ++ xs.filter Val.isUndefined)

/-! ## Maps -/

/-- `Schema.Typecheck`, for the token of the schema. -/
def Token.typecheck (host : Host) (t : Token) (val : Val) : Bool :=
  (t.kind = .bigMap ∧ BaseType.isInteger (BaseType.toNumber host val)) ||
  (t.kind = .ticket ∧ ["ticketer", "value", "amount"].all fun label =>
    ((lookup (js label) val.fields).getD .undefined).truthy) ||
  t.kind = .map true || (t.EncodeObject val).isOk

/-- The entries of a `MichelsonMap`. -/
abbrev Entries := List (Option JSString × Val × Val)

/-- `keyMap.set` and `valueMap.set`. -/
def setEntry (text : Option JSString) (key value : Val) : Entries → Entries
  | [] => [(text, key, value)]
  | e :: es => if e.1 = text then (text, key, value) :: es else e :: setEntry text key value es

section map

variable (host : Host) (keySchema valueSchema : Token)

/-- `MichelsonMap.set`, of a map with a type. -/
def MichelsonMap.set (key value : Val) (entries : Entries) : Except EncoderError Entries :=
  if !keySchema.typecheck host key then .error .MapTypecheckError
  else if !valueSchema.typecheck host value then .error .MapTypecheckError
  else .ok (setEntry (key.serialize host) key value entries)

/-- `MichelsonMap.get`, of a map with a type. -/
def MichelsonMap.get (key : Val) (entries : Entries) : Except EncoderError Val :=
  if !keySchema.typecheck host key then .error .MapTypecheckError
  else .ok (((entries.find? fun e => e.1 = key.serialize host).map fun e => e.2.2).getD .undefined)

/-- The loop of `MapToken.Execute` and `BigMapToken.Execute`. -/
def executeEntries (elts : List Expr) (entries : Entries) : Except EncoderError Entries :=
  match elts with
  | [] => .ok entries
  | current :: elts => do
    let args ← argsOf (some current)
    let key ← keySchema.ToKey args[0]?
    let value ← valueSchema.Execute args[1]?
    executeEntries elts (← MichelsonMap.set host keySchema valueSchema key value entries)

/-- `objLitToMichelsonMap`. -/
def objLitToMichelsonMap (name : String) (val : Val) : Except EncoderError Entries :=
  match val with
  | .map entries => .ok entries
  | .null => .error .TypeError
  | .object fields =>
    .ok ((objectKeys fields).map fun k =>
      ((Val.string k).serialize host, .string k, (lookup k fields).getD .undefined))
  | .array items =>
    .ok (items.mapIdx fun i v =>
      ((Val.string (natText i)).serialize host, .string (natText i), v))
  | _ => .error (.TokenValidationError name)

/-- `EncodeObject` of the classes of maps: the values are those that the keys have in the map. -/
def encodeEntries (entries : Entries) : Except EncoderError Encoded := do
  let keys ← sortBy keySchema.compare (entries.map fun e => e.2.1)
  let elts ← keys.mapM fun key => do
    let k ← keySchema.EncodeObject key
    let value := (entries.find? fun e => e.1 = key.serialize host).map fun e => e.2.2
    let v ← valueSchema.EncodeObject (value.getD .undefined)
    return .prim "Elt" (some [k, v])
  return .seq elts

end map

/-- `MapToken`. -/
def mapToken (host : Host) (annots : Annots) (key value : ℕ → Token) (idx : ℕ) : Token where
  kind := .map ((value 0).kind = .bigMap)
  comparable := false
  annot := annot annots idx
  hasAnnotations := hasAnnotations annots
  Execute
    | some (.seq elts) => Val.map <$> executeEntries host (key 0) (value 0) elts []
    | _ => .error .TypeError
  ToKey _ := .error .TypeError
  EncodeObject val := do
    encodeEntries host (key 0) (value 0) (← objLitToMichelsonMap host "MapValidationError" val)
  Encode args := do
    let (val, args) := BaseType.pop args
    let entries ← objLitToMichelsonMap host "MapValidationError" val
    return (← encodeEntries host (key 0) (value 0) entries, args)
  compare _ _ := .error .TypeError
  findToken _ := none
  ExtractSchema := .object [(js "map",
    .object [(js "key", (key 0).ExtractSchema), (js "value", (value 0).ExtractSchema)])]
  generateSchema := schemaOf "map" (.object
    [(js "key", (key 0).generateSchema), (js "value", (value 0).generateSchema)])
  ExtractSignature := [[.object [(js "map",
    .object [(js "key", (key 0).ExtractSchema), (js "value", (value 0).ExtractSchema)])]]]

/-- `BigMapToken`, which is also decoded from the number of the big map. -/
def bigMapToken (host : Host) (annots : Annots) (key value : ℕ → Token) (idx : ℕ) : Token where
  kind := .bigMap
  comparable := false
  annot := annot annots idx
  hasAnnotations := hasAnnotations annots
  Execute
    | some (.seq elts) => Val.map <$> executeEntries host (key 0) (value 0) elts []
    | some (.int text) => .ok (.string text)
    | none => .error .TypeError
    | _ => .error (.TokenValidationError "BigMapValidationError")
  ToKey _ := .error .TypeError
  EncodeObject val := do
    encodeEntries host (key 0) (value 0) (← objLitToMichelsonMap host "BigMapValidationError" val)
  Encode args := do
    let (val, args) := BaseType.pop args
    let entries ← objLitToMichelsonMap host "BigMapValidationError" val
    return (← encodeEntries host (key 0) (value 0) entries, args)
  compare _ _ := .error .TypeError
  findToken _ := none
  ExtractSchema := .object [(js "big_map",
    .object [(js "key", (key 0).ExtractSchema), (js "value", (value 0).ExtractSchema)])]
  generateSchema := schemaOf "big_map" (.object
    [(js "key", (key 0).generateSchema), (js "value", (value 0).generateSchema)])
  ExtractSignature := [[.object [(js "big_map",
    .object [(js "key", (key 0).ExtractSchema), (js "value", (value 0).ExtractSchema)])]]]

/-! ## Pairs -/

/-- `collapse`, of a value. -/
def collapse (val : Option Expr) : Except EncoderError (Option Expr × Option Expr) :=
  let ofArgs (args : List Expr) : Option Expr × Option Expr :=
    if args.length > 2 then (args[0]?, some (.prim "Pair" (some (args.drop 1)) none))
    else (args[0]?, args[1]?)
  match val with
  | none => .error .TypeError
  | some (.seq items) => .ok (ofArgs items)
  | some (.prim _ (some args) _) => .ok (ofArgs args)
  | some _ => .error .TokenArgumentValidationError

/-- A pair that is not annotated has no label of its own. -/
def Token.isPlainPair (t : Token) : Bool := t.kind = .pair && !t.hasAnnotations

section pair

variable (left right : ℕ → Token) (idx : ℕ)

/-- `tokens`. -/
def PairToken.tokens : Token × Token :=
  let tok := left idx
  let cnt := if tok.kind = .pair then tok.keyCount else 1
  (tok, right (idx + cnt))

/-- The value of a component: under its label, unless it is a plain pair. -/
def component (t : Token) (value : Val) : Val :=
  if t.isPlainPair then value else .object [(t.annot, value)]

/-- `traversal`. -/
def PairToken.traversal {m : Type → Type} [Monad m] (getLeftValue getRightValue : Token → m Val) :
    m Val := do
  let leftToken := left idx
  let keyCount := if leftToken.kind = .pair then leftToken.keyCount else 1
  let leftValue := component leftToken (← getLeftValue leftToken)
  let rightToken := right (idx + keyCount)
  let rightValue := component rightToken (← getRightValue rightToken)
  return .object (spread leftValue.fields rightValue.fields)

/-- The value that a component has in an object. -/
def componentOf (t : Token) (args : Val) : Except EncoderError Val :=
  if t.isPlainPair then .ok args else args.get t.annot

/-- `schema` of what `generateSchema` gives a plain pair, and all of it otherwise. -/
def innerSchema (t : Token) : Val :=
  if t.isPlainPair then (lookup (js "schema") t.generateSchema.fields).getD .undefined
  else t.generateSchema

/-- `Execute` of a pair. -/
def PairToken.Execute (val : Option Expr) : Except EncoderError Val := do
  let args ← collapse val
  PairToken.traversal left right idx (fun t => t.Execute args.1) (fun t => t.Execute args.2)

/-- `EncodeObject` of a pair. -/
def PairToken.EncodeObject (args : Val) : Except EncoderError Encoded := do
  let (leftToken, rightToken) := PairToken.tokens left right idx
  let leftValue ← componentOf leftToken args
  let rightValue ← componentOf rightToken args
  let l ← leftToken.EncodeObject leftValue
  let r ← rightToken.EncodeObject rightValue
  return .prim "Pair" (some [l, r])

/-- `Encode` of a pair. -/
def PairToken.Encode (args : List Val) : Except EncoderError (Encoded × List Val) := do
  let (leftToken, rightToken) := PairToken.tokens left right idx
  let (l, args) ← leftToken.Encode args
  let (r, args) ← rightToken.Encode args
  return (.prim "Pair" (some [l, r]), args)

/-- `compare` of pairs. -/
def PairToken.compare (val1 val2 : Val) : Except EncoderError Ordering := do
  let (leftToken, rightToken) := PairToken.tokens left right idx
  if leftToken.comparable && rightToken.comparable then
    let result ←
      leftToken.compare (← componentOf leftToken val1) (← componentOf leftToken val2)
    if result = .eq then
      rightToken.compare (← componentOf rightToken val1) (← componentOf rightToken val2)
    else return result
  else .error .TokenComparisonError

/-- `ExtractSignature` of a pair. -/
def PairToken.ExtractSignature : List (List Val) :=
  let leftToken := left idx
  let keyCount := if leftToken.kind = .or then leftToken.keyCount else 1
  let rightToken := right (idx + keyCount)
  leftToken.ExtractSignature.flatMap fun leftSig =>
    rightToken.ExtractSignature.map fun rightSig => leftSig ++ rightSig

end pair

/-- `PairToken`. -/
def pairToken (annots : Annots) (left right : ℕ → Token) (idx : ℕ) : Token where
  kind := .pair
  comparable := true
  annot := annot annots idx
  hasAnnotations := hasAnnotations annots
  Execute := PairToken.Execute left right idx
  ToKey := PairToken.Execute left right idx
  EncodeObject := PairToken.EncodeObject left right idx
  Encode := PairToken.Encode left right idx
  compare := PairToken.compare left right idx
  findToken _ := none
  ExtractSchema := Id.run (PairToken.traversal left right idx
    (fun t => pure t.ExtractSchema) fun t => pure t.ExtractSchema)
  generateSchema := schemaOf "pair" (Id.run (PairToken.traversal left right idx
    (fun t => pure (innerSchema t)) fun t => pure (innerSchema t)))
  ExtractSignature := PairToken.ExtractSignature left right idx

/-! ## Alternatives -/

/-- The value of an alternative: under its label, unless it is an `or`. -/
def alternative (t : Token) (value : Val) : Val :=
  if t.kind = .or then value else .object [(t.annot, value)]

/-- An alternative that the label names. -/
def Token.named (t : Token) (label : JSString) : Prop := t.annot = label ∧ t.kind ≠ .or

instance (t : Token) (label : JSString) : Decidable (t.named label) :=
  inferInstanceAs (Decidable (_ ∧ _))

/-- A value in the constructor of its alternative; `null` is none. -/
def inject (p : String) (val : Encoded) : Option Encoded :=
  match val with
  | .null => none
  | val => some (.prim p (some [val]))

section or

variable (host : Host) (left right : ℕ → Token) (idx : ℕ)

/-- The tokens of the alternatives, as every method but `traversal` creates them. -/
def OrToken.tokens : Token × Token :=
  let leftToken := left idx
  let keyCount := if leftToken.kind = .or then leftToken.keyCount else 1
  (leftToken, right (idx + keyCount))

/-- `Execute` of an `or`. -/
def OrToken.Execute (val : Option Expr) : Except EncoderError Val :=
  let (leftToken, rightToken) := OrToken.tokens left right idx
  match val with
  | none => .error .TypeError
  | some (.prim p args _) =>
    if p = "Right" then do
      let args ← argsOf (some (.prim p args none))
      return alternative rightToken (← rightToken.Execute args[0]?)
    else if p = "Left" then do
      let args ← argsOf (some (.prim p args none))
      return alternative leftToken (← leftToken.Execute args[0]?)
    else .error .OrTokenDecodingError
  | some _ => .error .OrTokenDecodingError

/-- What is found in an inner `or`, and `null` of any other alternative. -/
def OrToken.within {σ : Type} (t : Token) (args : σ)
    (inner : Token → σ → Except EncoderError (Encoded × σ)) : Except EncoderError (Encoded × σ) :=
  if t.kind = .or then inner t args else .ok (.null, args)

/-- The search of `EncodeObject` and `Encode` for the alternative with a label: the value is that of
an alternative with this name, or what is found in an inner `or`, or `null`. -/
def OrToken.search {σ : Type} (label : JSString) (args : σ)
    (direct : Token → Except EncoderError (Encoded × σ))
    (inner : Token → σ → Except EncoderError (Encoded × σ)) : Except EncoderError (Encoded × σ) := do
  let (leftToken, rightToken) := OrToken.tokens left right idx
  if leftToken.named label then
    let (val, args) ← direct leftToken
    return (.prim "Left" (some [val]), args)
  else if rightToken.named label then
    let (val, args) ← direct rightToken
    return (.prim "Right" (some [val]), args)
  else
    let (val, args) ← OrToken.within leftToken args inner
    match inject "Left" val with
    | some val => return (val, args)
    | none =>
      let (val, args) ← OrToken.within rightToken args inner
      return ((inject "Right" val).getD .null, args)

/-- `EncodeObject` of an `or`: the label is the first key. -/
def OrToken.EncodeObject (args : Val) : Except EncoderError Encoded := do
  let label := (← args.keys).head?.getD (js "undefined")
  Prod.fst <$> OrToken.search left right idx label ()
    (fun t => do return (← t.EncodeObject (← args.get label), ()))
    (fun t _ => do return (← t.EncodeObject args, ()))

/-- `Encode` of an `or`: the label is the last argument. -/
def OrToken.Encode (args : List Val) : Except EncoderError (Encoded × List Val) :=
  OrToken.search left right idx ((args.getLast?.getD .undefined).text host) args
    (fun t => t.Encode args.dropLast) (fun t args => t.Encode args)

/-- The signatures of an alternative begin with its label, unless it is an `or`. -/
def alternativeSignature (t : Token) : List (List Val) :=
  if t.kind = .or then t.ExtractSignature
  else t.ExtractSignature.map fun sig => .string t.annot :: sig

/-- `ExtractSignature` of an `or`. -/
def OrToken.ExtractSignature : List (List Val) :=
  let (leftToken, rightToken) := OrToken.tokens left right idx
  alternativeSignature leftToken ++ alternativeSignature rightToken

/-- An `or` that is not annotated has no label of its own. -/
def Token.isPlainOr (t : Token) : Bool := t.kind = .or && !t.hasAnnotations

/-- What an alternative adds to a schema: its own, if it is a plain `or`, and else under its label.
-/
def schemaAlternative (getValue : Token → Val) (t : Token) : Val :=
  if t.isPlainOr then getValue t else .object [(t.annot, getValue t)]

/-- `traversal`, which counts the keys of an `or` only if it is not annotated. -/
def OrToken.traversal (getValue : Token → Val) : Val :=
  let leftToken := left idx
  let keyCount := if leftToken.isPlainOr then leftToken.keyCount else 1
  let rightToken := right (idx + keyCount)
  .object (spread (schemaAlternative getValue leftToken).fields
    (schemaAlternative getValue rightToken).fields)

/-- `schema` of what `generateSchema` gives a plain `or`, and all of it otherwise. -/
def innerAlternatives (t : Token) : Val :=
  if t.isPlainOr then (lookup (js "schema") t.generateSchema.fields).getD .undefined
  else t.generateSchema

/-- `findToken`. -/
def OrToken.findToken (label : JSString) : Option (Val → Val → Except EncoderError Ordering) :=
  let (leftToken, rightToken) := OrToken.tokens left right idx
  if leftToken.named label ∧ leftToken.comparable then some leftToken.compare
  else if rightToken.named label ∧ rightToken.comparable then some rightToken.compare
  else
    ((if leftToken.kind = .or then leftToken.findToken label else none).orElse fun _ =>
      if rightToken.kind = .or then rightToken.findToken label else none)

/-- `compare` of two values of an `or`; `undefined` counts as equal. -/
def OrToken.compare (val1 val2 : Val) : Except EncoderError Ordering := do
  let labelVal1 := (← val1.keys).head?
  let labelVal2 := (← val2.keys).head?
  if labelVal1 = labelVal2 then
    let label := labelVal1.getD (js "undefined")
    match OrToken.findToken left right idx label with
    | some compare => compare (← val1.get label) (← val2.get label)
    | none => return .eq
  else
    let encoded1 := ((← OrToken.EncodeObject left right idx val1).toJson host).text
    let encoded2 := ((← OrToken.EncodeObject left right idx val2).toJson host).text
    return if encoded1 < encoded2 then .lt else .gt

end or

/-- `OrToken`. -/
def orToken (host : Host) (annots : Annots) (left right : ℕ → Token) (idx : ℕ) : Token where
  kind := .or
  comparable := true
  annot := annot annots idx
  hasAnnotations := hasAnnotations annots
  Execute := OrToken.Execute left right idx
  ToKey := OrToken.Execute left right idx
  EncodeObject := OrToken.EncodeObject left right idx
  Encode := OrToken.Encode host left right idx
  compare := OrToken.compare host left right idx
  findToken := OrToken.findToken left right idx
  ExtractSchema := OrToken.traversal left right idx Token.ExtractSchema
  generateSchema := schemaOf "or" (OrToken.traversal left right idx innerAlternatives)
  ExtractSignature := OrToken.ExtractSignature left right idx

/-! ## Options, lists and sets -/

/-- `Execute` of an option. -/
def OptionToken.Execute (schema : Token) (val : Option Expr) : Except EncoderError Val :=
  match val with
  | none => .error .TypeError
  | some (.prim p args annots) =>
    if p = "None" then .ok .null
    else do
      let args ← argsOf (some (.prim p args annots))
      schema.Execute args[0]?
  | some _ => .error .TypeError

/-- `value === undefined || value === null`. -/
def Val.isNone : Val → Bool
  | .undefined | .null => true
  | _ => false

/-- `EncodeObject` of an option. -/
def OptionToken.EncodeObject (schema : Token) (args : Val) : Except EncoderError Encoded :=
  if args.isNone then .ok (.prim "None" none)
  else do return .prim "Some" (some [← schema.EncodeObject args])

/-- `Encode` of an option. -/
def OptionToken.Encode (schema : Token) (args : List Val) :
    Except EncoderError (Encoded × List Val) :=
  if (args.getLast?.getD .undefined).isNone then .ok (.prim "None" none, args.dropLast)
  else do
    let (val, args) ← schema.Encode args
    return (.prim "Some" (some [val]), args)

/-- `OptionToken`. Its label is that of its component, if the type has no `annots`. -/
def optionToken (annots : Annots) (component : ℕ → Token) (idx : ℕ) : Token where
  kind := .other
  comparable := true
  annot := if annots.isSome then annot annots idx else (component idx).annot
  hasAnnotations := hasAnnotations annots
  Execute := OptionToken.Execute (component 0)
  ToKey := OptionToken.Execute (component 0)
  EncodeObject := OptionToken.EncodeObject (component 0)
  Encode := OptionToken.Encode (component 0)
  compare val1 val2 :=
    if !val1.truthy then .ok .lt
    else if !val2.truthy then .ok .gt
    else (component 0).compare val1 val2
  findToken _ := none
  ExtractSchema := (component 0).ExtractSchema
  generateSchema := schemaOf "option" (component 0).generateSchema
  ExtractSignature := (component 0).ExtractSignature ++ [[]]

/-- The members of a value that the class of lists or sets finds valid. -/
def validArray (name : String) (val : Val) : Except EncoderError (List Val) :=
  match val with
  | .array items => .ok items
  | _ => .error (.TokenValidationError name)

/-- `ListToken`. -/
def listToken (annots : Annots) (element : ℕ → Token) (idx : ℕ) : Token where
  kind := .other
  comparable := false
  annot := annot annots idx
  hasAnnotations := hasAnnotations annots
  Execute
    | some (.seq items) => do return .array (← items.mapM fun e => (element 0).Execute (some e))
    | _ => .error (.TokenValidationError "ListValidationError")
  ToKey _ := .error .TypeError
  EncodeObject args := do
    let items ← validArray "ListValidationError" args
    return .seq (← items.mapM (element 0).EncodeObject)
  Encode args := do
    let (val, args) := BaseType.pop args
    let items ← validArray "ListValidationError" val
    return (.seq (← items.mapM (element 0).EncodeObject), args)
  compare _ _ := .error .TypeError
  findToken _ := none
  ExtractSchema := .object [(js "list", (element idx).ExtractSchema)]
  generateSchema := schemaOf "list" (element idx).generateSchema
  ExtractSignature := [[.object [(js "list", (element idx).ExtractSchema)]]]

/-- `EncodeObject` of a set. -/
def SetToken.EncodeObject (keySchema : Token) (args : Val) : Except EncoderError Encoded := do
  let items ← sortBy keySchema.compare (← validArray "SetValidationError" args)
  return .seq (← items.mapM keySchema.EncodeObject)

/-- `SetToken`. -/
def setToken (annots : Annots) (element : ℕ → Token) (idx : ℕ) : Token where
  kind := .other
  comparable := false
  annot := annot annots idx
  hasAnnotations := hasAnnotations annots
  Execute
    | some (.seq items) => do return .array (← items.mapM fun e => (element 0).Execute (some e))
    | _ => .error .TypeError
  ToKey _ := .error .TypeError
  EncodeObject := SetToken.EncodeObject (element 0)
  Encode args := do
    let (val, args) := BaseType.pop args
    return (← SetToken.EncodeObject (element 0) val, args)
  compare _ _ := .error .TypeError
  findToken _ := none
  ExtractSchema := .string (js "set")
  generateSchema := schemaOf "set" (element 0).generateSchema
  ExtractSignature := [[.string (js "set")]]

/-! ## Tokens without components -/

/-- `ContractToken`. -/
def contractToken (host : Host) (annots : Annots) (parameter : ℕ → Token) (idx : ℕ) : Token where
  kind := .other
  comparable := false
  annot := annot annots idx
  hasAnnotations := hasAnnotations annots
  Execute
    | some val => BaseType.textOrEncoded (.TokenValidationError "ContractValidationError")
      (Utils.encodePubKey host.b58) val
    | none => .error .TypeError
  ToKey _ := .error .TypeError
  EncodeObject := BaseType.validText "ContractValidationError" (Utils.validateAddress host.b58)
  Encode args := do
    let (val, args) := BaseType.pop args
    return (← BaseType.validText "ContractValidationError" (Utils.validateAddress host.b58) val,
      args)
  compare _ _ := .error .TypeError
  findToken _ := none
  ExtractSchema := .string (js "contract")
  generateSchema :=
    schemaOf "contract" (.object [(js "parameter", (parameter 0).generateSchema)])
  ExtractSignature := [[.string (js "contract")]]

/-- The token of a type without components. -/
def baseToken (host : Host) (annots : Annots) (t : BaseType) (idx : ℕ) : Token where
  kind := .other
  comparable := t.comparable
  annot := annot annots idx
  hasAnnotations := hasAnnotations annots
  Execute := t.execute host
  ToKey := t.toKey host
  EncodeObject := t.encodeObject host
  Encode := t.encode host
  compare := t.compare host
  findToken _ := none
  ExtractSchema := .string (js t.prim)
  generateSchema := schemaOf t.prim (.string (js t.prim))
  ExtractSignature := [[.string (js t.prim)]]

end MichelsonEncoder
