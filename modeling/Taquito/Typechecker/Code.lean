import Taquito.MichelCodec.Binary
import Taquito.Typechecker.Operations

/-!
# Typing code and data

`functionTypeInternal` types an instruction or a sequence of them, `assertDataValidInternal` checks
data against a type, and `assertContractValid` a contract. They call each other: a `PUSH` holds
data, a `lambda` in data holds code, `CREATE_CONTRACT` holds a contract. Each is written once with
the others as parameters, and then all of them on a fuel argument, for which `size` is enough.
-/

open Js MichelCodec

namespace Typechecker

open StackType

/-! ## Data -/

/-- `isFunction`, with a bound on the nesting. -/
def isFunctionTo : ℕ → Expr → Bool
  | 0, _ => false
  | fuel + 1, d =>
    match d with
    | .seq items => items.all fun v =>
      match v with
      | .seq _ => isFunctionTo fuel v
      | .prim p _ _ => isInstruction p
      | _ => false
    | _ => false

/-- `isFunction`. -/
def isFunction (d : Expr) : Bool := isFunctionTo d.depth d

/-- `MichelsonTypeError`, of data. -/
def unexpected (t d : Expr) (expected : String) : Checked Unit :=
  .error (.dataError t d (js expected))

/-- `decodeAddressBytes`, `decodePublicKeyHashBytes` and `decodePublicKeyBytes`. -/
def decodeBytes {α : Type} (decode : Bytes → Except MichelError α) (hex : JSString) :
    Except MichelError α := do
  match ← parseBytes hex with
  | some octets => decode (octets.map octet)
  | none => .error (.error (js "can't parse bytes: \"" ++ hex ++ js "\""))

section

variable (host : Host)

/-- A literal whose text is an identifier of given kinds, or whose octets are read by `decode`. -/
def identifierValid {α : Type} (types : List TezosIDType) (decode : Bytes → Except MichelError α)
    (t d : Expr) (expected : String) : Checked Unit :=
  match d with
  | .string s => do
    let id ← lift (checkDecodeTezosID host.b58 s types)
    if id.isNone then unexpected t d expected
  | .bytes hex => if (decodeBytes decode hex).toBool then .ok () else unexpected t d expected
  | _ => unexpected t d expected

/-- The text of an address up to an entrypoint. -/
def withoutEntrypoint (s : JSString) : JSString := s.takeWhile (· ≠ 37)

/-- `parseBytes(d.bytes) !== null`. -/
def bytesValid (t d : Expr) (hex : JSString) (expected : String) : Checked Unit := do
  let octets ← lift (parseBytes hex)
  if octets.isNone then unexpected t d expected

/-- `parseDate`, of a literal. -/
def parseLiteralDate (a : Expr) : Option (Option ℤ) :=
  match a with
  | .string s => parseDate host s
  | .int text => if isDecimal text then some ((parseInt 10 text).bind timeClip) else none
  | _ => none

/-- `assertDataValidInternal`, of the types without arguments; `none` is another type. -/
def literalValid (t d : Expr) : String → Option (Checked Unit)
  | "int" => some <| match d with
    | .int text => if isDecimal text then .ok () else unexpected t d "integer value expected"
    | _ => unexpected t d "integer value expected"
  | "nat" | "mutez" => some <| match d with
    | .int text => if isNatural text then .ok () else unexpected t d "natural value expected"
    | _ => unexpected t d "natural value expected"
  | "string" => some <| match d with
    | .string _ => .ok ()
    | _ => unexpected t d "string value expected"
  | "bytes" | "bls12_381_g1" | "bls12_381_g2" => some <| match d with
    | .bytes hex => bytesValid t d hex "bytes value expected"
    | _ => unexpected t d "bytes value expected"
  | "bool" => some <| match d with
    | .prim p _ _ =>
      if p = "True" ∨ p = "False" then .ok () else unexpected t d "boolean value expected"
    | _ => unexpected t d "boolean value expected"
  | "key_hash" =>
    some (identifierValid host publicKeyHashTypes readPublicKeyHash t d "key hash expected")
  | "timestamp" => some <|
    if (parseLiteralDate host d).isSome then .ok () else unexpected t d "timestamp expected"
  | "address" => some <| match d with
    | .string s => do
      let id ← lift (checkDecodeTezosID host.b58 (withoutEntrypoint s)
        (publicKeyHashTypes ++ [.ContractHash, .TxRollupL2Address, .RollupAddress]))
      if id.isNone then unexpected t d "address expected"
    | d => identifierValid host [] readAddressBase t d "address expected"
  | "key" => some (identifierValid host publicKeyTypes readPublicKey t d "public key expected")
  | "unit" => some <| match d with
    | .prim p _ _ => if p = "Unit" then .ok () else unexpected t d "unit value expected"
    | _ => unexpected t d "unit value expected"
  | "signature" => some <| match d with
    | .bytes _ => .ok ()
    | .string s => do
      let id ← lift (checkDecodeTezosID host.b58 s signatureTypes)
      if id.isNone then unexpected t d "signature expected"
    | _ => unexpected t d "signature expected"
  | "chain_id" => some <| match d with
    | .string s => do
      let _ ← lift (decodeBase58Check host.b58 s)
    | .bytes hex => bytesValid t d hex "chain id expected"
    | _ => unexpected t d "chain id expected"
  | "bls12_381_fr" => some <| match d with
    | .int text => if isDecimal text then .ok () else unexpected t d "BLS12-381 element expected"
    | .bytes hex => bytesValid t d hex "BLS12-381 element expected"
    | _ => unexpected t d "BLS12-381 element expected"
  | "sapling_state" => some <| match d with
    | .seq _ => .ok ()
    | _ => unexpected t d "sapling state expected"
  | _ => none

/-- `check` of every member in turn. -/
def forEachData (check : Expr → Checked Unit) : List Expr → Checked Unit
  | [] => .ok ()
  | d :: ds => do
    check d
    forEachData check ds

/-- An argument of data or of its type. -/
def exprArg (args : Option (List Expr)) (k : ℕ) : Checked Expr :=
  match (args.getD [])[k]? with
  | some e => .ok e
  | none => undefinedType

/-- The two components of `unpackComb`. -/
def combParts (id : String) (e : Expr) : Checked (Expr × Expr) := do
  let comb ← lift (MichelCodec.unpackComb id e)
  match comb.1 with
  | [some a, some b] => return (a, b)
  | _ => undefinedType

variable (functionType : List StackType → Expr → Checked ReturnType)
  (valid : Expr → Expr → Checked Unit)

/-- `assertDataValidInternal`, of a pair. -/
def pairValid (d t : Expr) : Checked Unit :=
  if isPairData d then do
    lift (assertDataListIfAny d)
    let dc ← combParts "Pair" d
    let tc ← combParts "pair" t
    valid dc.1 tc.1
    valid dc.2 tc.2
  else unexpected t d "pair expected"

/-- `assertDataValidInternal`, of a function. -/
def lambdaValid (d t : Expr) (args : Option (List Expr)) : Checked Unit :=
  if isFunction d then do
    match ← functionType [ofExpr (← exprArg args 0)] d with
    | .failed _ _ => unexpected t d "function is failed with error type: [object Object]"
    | .stack [ret] => assertScalarTypesEqual (ofExpr (← exprArg args 1)) ret false
    | .stack _ => unexpected t d "function must return a value"
  else unexpected t d "function expected"

/-- `assertDataValidInternal`, of an element of a map. -/
def eltValid (t d : Expr) (args : Option (List Expr)) (v : Expr) : Checked Unit :=
  match v with
  | .prim "Elt" vargs _ => do
    valid (← exprArg vargs 0) (← exprArg args 0)
    valid (← exprArg vargs 1) (← exprArg args 1)
  | _ => unexpected t d "map elements expected"

/-- `assertDataValidInternal`, of the types with arguments. -/
def structureValid (d t : Expr) (p : String) (args : Option (List Expr)) : Checked Unit :=
  if p = "option" then
    match d with
    | .prim "None" _ _ => .ok ()
    | .prim "Some" dargs _ => do valid (← exprArg dargs 0) (← exprArg args 0)
    | _ => unexpected t d "option expected"
  else if p = "list" ∨ p = "set" then
    match d with
    | .seq items => do
      lift (assertDataListIfAny d)
      forEachData (fun v => do valid v (← exprArg args 0)) items
    | _ => unexpected t d (p ++ " expected")
  else if p = "or" then
    match d with
    | .prim "Left" dargs _ => do valid (← exprArg dargs 0) (← exprArg args 0)
    | .prim "Right" dargs _ => do valid (← exprArg dargs 0) (← exprArg args 1)
    | _ => unexpected t d "union (or) expected"
  else if p = "lambda" then lambdaValid functionType d t args
  else if p = "map" ∨ p = "big_map" then
    match d with
    | .seq items => forEachData (eltValid valid t d args) items
    | _ => unexpected t d (p ++ " expected")
  else if p = "ticket" then do
    valid d (.prim "pair" (some [.prim "address" none none, ← exprArg args 0,
      .prim "nat" none none]) none)
  else unexpected t d ("type " ++ p ++ " don't have Michelson literal representation")

/-- `assertDataValidInternal`. -/
def dataValid (d t : Expr) : Checked Unit :=
  match t with
  | .seq _ => pairValid valid d t
  | .prim p args _ =>
    if p = "pair" then pairValid valid d t
    else
      match literalValid host t d p with
      | some result => result
      | none => structureValid functionType valid d t p args
  | _ => unexpected t d "type undefined don't have Michelson literal representation"

end

/-! ## Code -/

section

variable (run : Expr → List StackType → Checked ReturnType)
  (runAlone : Expr → List StackType → Checked ReturnType) (valid : Expr → Expr → Checked Unit)
  (contractValid : Expr → Checked Unit) (i : Instruction) (stack : List StackType)

/-- `branchType`. -/
def branchType (br₀ br₁ : ReturnType) : Checked ReturnType :=
  match br₀, br₁ with
  | .failed _ _, br₁ => .ok br₁
  | br₀, .failed _ _ => .ok br₀
  | .stack a, .stack b => do
    ensureStacksEqual i stack a b
    return .stack a

/-- An element that a branch or a body finds on its stack. -/
def element (t : StackType) (v : List JSString) : Checked StackType :=
  annotate i stack t { t := .null, v := .list v }

/-- `IF_NONE`. -/
def typeIF_NONE : Checked ReturnType := do
  let _ ← instructionAnn i stack {} {}
  args1 i stack ["option"] fun s tail => do
    let br₀ ← run (← i.arg 0) tail
    let some' ← element i stack (← argOf s 0) (varSuffix (← argAnn i stack s) (js "some"))
    let br₁ ← run (← i.arg 1) (some' :: tail)
    branchType i stack br₀ br₁

/-- The variable annotation of a side of an `or`. -/
def sideVar (va side : UnpackedAnnotations) (default : String) : List JSString :=
  varSuffix va (match side.f with
    | some l => (l.headD []).drop 1
    | none => js default)

/-- `IF_LEFT`. -/
def typeIF_LEFT : Checked ReturnType := do
  let _ ← instructionAnn i stack {} {}
  args1 i stack ["or"] fun s tail => do
    let va ← argAnn i stack s
    let lefta ← argAnn i stack (← argOf s 0)
    let righta ← argAnn i stack (← argOf s 1)
    let left ← element i stack (← argOf s 0) (sideVar va lefta "left")
    let br₀ ← run (← i.arg 0) (left :: tail)
    let right ← element i stack (← argOf s 1) (sideVar va righta "right")
    let br₁ ← run (← i.arg 1) (right :: tail)
    branchType i stack br₀ br₁

/-- `IF_CONS`. -/
def typeIF_CONS : Checked ReturnType := do
  let _ ← instructionAnn i stack {} {}
  args1 i stack ["list"] fun s tail => do
    let va ← argAnn i stack s
    let hd ← element i stack (← argOf s 0) (varSuffix va (js "hd"))
    let tl ← element i stack s (varSuffix va (js "tl"))
    let br₀ ← run (← i.arg 0) (hd :: tl :: tail)
    let br₁ ← run (← i.arg 1) tail
    branchType i stack br₀ br₁

/-- `IF`. -/
def typeIF : Checked ReturnType := do
  let _ ← instructionAnn i stack {} {}
  args1 i stack ["bool"] fun _ tail => do
    let br₀ ← run (← i.arg 0) tail
    let br₁ ← run (← i.arg 1) tail
    branchType i stack br₀ br₁

/-- The type of the elements of a collection. -/
def elementType (s : StackType) : Checked StackType :=
  match s with
  | .prim "map" args _ _ => .ok (.prim "pair" args none none)
  | s => argOf s 0

/-- `'prim' in failed && failed.prim === 'never'`. -/
def isNever (t : StackType) : Bool := t.primOf = some "never"

/-- `MAP`. -/
def typeMAP : Checked ReturnType :=
  args1 i stack ["list", "map", "option"] fun s tail => do
    let elt ← element i stack (← elementType s) (varSuffix (← argAnn i stack s) (js "elt"))
    match ← run (← i.arg 0) (elt :: tail) with
    | .failed type level =>
      if isNever type then return .failed type (level + 1)
      else refusePrim i stack (js "FAIL is not allowed in MAP")
    | .stack [] => refusePrim i stack (js "function must return a value")
    | .stack (body :: rest) => do
      ensureStacksEqual i stack rest tail
      if s.primOf = some "list" then push (annotateVar i stack (ofPrim "list" [body]) none) tail
      else if s.primOf = some "map" then
        push (do annotateVar i stack (ofPrim "map" [← argOf s 0, body]) none) tail
      else push (annotateVar i stack (ofPrim "option" [body]) none) tail

/-- The type after a body that has to leave a given stack, and fails one level deeper. -/
def loopType (body : ReturnType) (expected : List StackType) (after : Checked (List StackType)) :
    Checked ReturnType :=
  match body with
  | .failed type level => .ok (.failed type (level + 1))
  | .stack body => do
    ensureStacksEqual i stack body expected
    return .stack (← after)

/-- `ITER`. -/
def typeITER : Checked ReturnType := do
  let _ ← instructionAnn i stack {} {}
  args1 i stack ["set", "list", "map"] fun s tail => do
    let elt ← element i stack (← elementType s) (varSuffix (← argAnn i stack s) (js "elt"))
    let body ← run (← i.arg 0) (elt :: tail)
    loopType i stack body tail (.ok tail)

/-- `LOOP`. -/
def typeLOOP : Checked ReturnType := do
  let _ ← instructionAnn i stack {} {}
  args1 i stack ["bool"] fun _ tail => do
    let body ← run (← i.arg 0) tail
    loopType i stack body (leaf "bool" :: tail) (.ok tail)

/-- `LOOP_LEFT`. -/
def typeLOOP_LEFT : Checked ReturnType := do
  let _ ← instructionAnn i stack {} {}
  args1 i stack ["or"] fun s tail => do
    let left ← element i stack (← argOf s 0) (varSuffix (← argAnn i stack s) (js "left"))
    let body ← run (← i.arg 0) (left :: tail)
    loopType i stack body (s :: tail) do
      let ia ← instructionAnn i stack { v := 1 } {}
      let right ← annotate i stack (← argOf s 1) { t := .null, v := .ofOption ia.v }
      return right :: tail

/-- `DIP`. -/
def typeDIP : Checked ReturnType := do
  let _ ← instructionAnn i stack {} {}
  let args ← match i.args with
    | some args => .ok args
    | none => undefinedType
  let n ← if args.length = 2 then do natOf (← i.arg 0) else .ok 1
  assertDepth i stack n
  match ← run (← i.arg (if args.length = 2 then 1 else 0)) (stack.drop n) with
  | .failed type level => return .failed type (level + 1)
  | .stack body => return .stack (stack.take n ++ body)

/-- `CREATE_CONTRACT`. -/
def typeCREATE_CONTRACT : Checked ReturnType := do
  let ia ← instructionAnn i stack { v := 2 } {}
  args3 i stack ["option"] ["mutez"] [] fun s _ storage tail => do
    assertKeyHash i stack s
    ensure i stack .storable storage
    let contract ← i.arg 0
    contractValid contract
    let stored ← contractSection (← sectionsOf (ofExpr contract)) "storage"
    assertScalarTypesEqual (← argOf stored 0) storage false
    let operation ← annotate i stack (leaf "operation") { v := varAt ia 0 }
    let self ← parameterContract (ofExpr contract)
    let address ← annotate i stack (addressOf self) { v := varAt ia 1 }
    return .stack (operation :: address :: tail)

/-- `PUSH`. -/
def typePUSH : Checked ReturnType := do
  let t ← i.arg 0
  assertTypeAnnotationsValid (ofExpr t) false
  valid (← i.arg 1) t
  push (annotateVar i stack (ofExpr t) none) stack

/-- `LAMBDA` and `LAMBDA_REC`. -/
def typeLAMBDA : Checked ReturnType := do
  let a ← i.typeArg 0
  assertTypeAnnotationsValid a false
  let b ← i.typeArg 1
  assertTypeAnnotationsValid b false
  let s := if i.prim = "LAMBDA_REC" then [a, ofPrim "lambda" [a, b]] else [a]
  match ← runAlone (← i.arg 2) s with
  | .failed type level => return .failed type (level + 1)
  | .stack [body] => do
    ensureTypesEqual i stack b body
    push (annotateVar i stack (ofPrim "lambda" [a, b]) none) stack
  | .stack _ => refusePrim i stack (js "function must return a value")

/-- The instructions that run code or look at data; `none` is another instruction. -/
def typeCode : String → Option (Checked ReturnType)
  | "IF_NONE" => some (typeIF_NONE run i stack)
  | "IF_LEFT" => some (typeIF_LEFT run i stack)
  | "IF_CONS" => some (typeIF_CONS run i stack)
  | "IF" => some (typeIF run i stack)
  | "MAP" => some (typeMAP run i stack)
  | "ITER" => some (typeITER run i stack)
  | "LOOP" => some (typeLOOP run i stack)
  | "LOOP_LEFT" => some (typeLOOP_LEFT run i stack)
  | "DIP" => some (typeDIP run i stack)
  | "CREATE_CONTRACT" => some (typeCREATE_CONTRACT contractValid i stack)
  | "PUSH" => some (typePUSH valid i stack)
  | "LAMBDA" | "LAMBDA_REC" => some (typeLAMBDA runAlone i stack)
  | _ => none

end

/-- The instructions that do neither and are in no table. -/
def typeOperation (ctx : Context) (i : Instruction) (stack : List StackType) :
    String → Option (Checked ReturnType)
  | "DUP" => some (typeDUP i stack)
  | "SWAP" => some (typeSWAP i stack)
  | "SOME" => some (typeSOME i stack)
  | "UNIT" => some (typeUNIT i stack)
  | "PAIR" => some (typePAIR i stack)
  | "UNPAIR" => some (typeUNPAIR i stack)
  | "CAR" => some (typeField i stack false)
  | "CDR" => some (typeField i stack true)
  | "CONS" => some (typeCONS i stack)
  | "MEM" => some (typeMEM i stack)
  | "GET" => some (typeGET i stack)
  | "UPDATE" => some (typeUPDATE i stack)
  | "GET_AND_UPDATE" => some (typeGET_AND_UPDATE i stack)
  | "EXEC" => some (typeEXEC i stack)
  | "APPLY" => some (typeAPPLY i stack)
  | "FAILWITH" => some (typeFAILWITH i stack ctx)
  | "NEVER" => some (typeNEVER i stack)
  | "RENAME" => some (typeRENAME i stack)
  | "CONCAT" => some (typeCONCAT i stack)
  | "SLICE" => some (typeSLICE i stack)
  | "PACK" => some (typePACK i stack)
  | "NEG" => some (typeNEG i stack)
  | "NOT" => some (typeNOT i stack)
  | "COMPARE" => some (typeCOMPARE i stack)
  | "SELF" => some (typeSELF i stack ctx)
  | "TRANSFER_TOKENS" => some (typeTRANSFER_TOKENS i stack)
  | "SET_DELEGATE" => some (typeSET_DELEGATE i stack)
  | "ADDRESS" => some (typeADDRESS i stack)
  | "SELF_ADDRESS" => some (typeSELF_ADDRESS i stack ctx)
  | "DROP" => some (typeDROP i stack)
  | "DIG" => some (typeDIG i stack)
  | "DUG" => some (typeDUG i stack)
  | "NONE" => some (typeEmpty i stack "option")
  | "LEFT" => some (typeSide i stack true)
  | "RIGHT" => some (typeSide i stack false)
  | "NIL" => some (typeEmpty i stack "list")
  | "UNPACK" => some (typeUNPACK i stack)
  | "CONTRACT" => some (typeCONTRACT i stack)
  | "CAST" => some (typeCAST i stack)
  | "EMPTY_SET" => some (typeEMPTY_SET i stack)
  | "EMPTY_MAP" => some (typeEMPTY_MAP i stack)
  | "EMPTY_BIG_MAP" => some (typeEMPTY_BIG_MAP i stack)
  | "TICKET" => some (typeTICKET i stack ctx)
  | "JOIN_TICKETS" => some (typeJOIN_TICKETS i stack)
  | "SPLIT_TICKET" => some (typeSPLIT_TICKET i stack)
  | "READ_TICKET" => some (typeREAD_TICKET i stack)
  | "PAIRING_CHECK" => some (typePAIRING_CHECK i stack)
  | "SAPLING_EMPTY_STATE" => some (typeSAPLING_EMPTY_STATE i stack)
  | "SAPLING_VERIFY_UPDATE" => some (typeSAPLING_VERIFY_UPDATE i stack ctx)
  | "VIEW" => some (typeVIEW i stack)
  | "EMIT" => some (typeEMIT i stack)
  | _ => none

section

variable (run : Context → Expr → List StackType → Checked ReturnType)
  (valid : Context → Expr → Expr → Checked Unit) (contractValid : Expr → Checked Unit)
  (ctx : Context)

/-- The context without its contract. -/
def Context.alone (ctx : Context) : Context := { ctx with contract := none }

/-- `retStack`: the type of one instruction. -/
def retStack (i : Instruction) (stack : List StackType) : Checked ReturnType :=
  match signatureOf i.prim with
  | some s => typeSignature i stack s
  | none =>
  match binaryOf ctx.proto i.prim with
  | some op => typeBinary i stack op
  | none =>
  match typeOperation ctx i stack i.prim with
  | some result => result
  | none =>
  match typeCode (run ctx) (run ctx.alone) (valid ctx.alone) contractValid i stack i.prim with
  | some result => result
  | none => .error (.michelsonError [ofExpr i.expr] (js "unexpected instruction: " ++ js i.prim))

/-- The loop of `instructionListType`: the last result, and whether it is that of the last
instruction. -/
def typeFrom : List Expr → List StackType → Checked (ReturnType × Bool)
  | [], stack => .ok (.stack stack, true)
  | op :: inst, stack => do
    match ← run ctx op stack with
    | .failed type level => return (.failed type level, inst.isEmpty)
    | .stack stack => typeFrom inst stack

/-- `instructionListType`. -/
def instructionListType (inst : List Expr) (stack : List StackType) : Checked ReturnType := do
  match ← typeFrom run ctx inst stack with
  | (.failed type level, last) =>
    if level = 0 ∧ !isNever type ∧ !last then
      .error (.instructionError (.seq inst) (.failed type level)
        (js "FAIL must appear in a tail position"))
    else return .failed type (level + 1)
  | (.stack types, _) => return .stack types

/-- `functionTypeInternal`. -/
def instructionType (inst : Expr) (stack : List StackType) : Checked ReturnType :=
  match inst with
  | .seq items => instructionListType run ctx items stack
  | .prim p args annots => retStack run valid contractValid ctx ⟨p, args, annots⟩ stack
  | _ => .error (.michelsonError [ofExpr inst] (js "unexpected instruction: undefined"))

/-- `{ ...t, annots: [name] }`. -/
def sectionType (t : StackType) (name : String) : StackType :=
  match t with
  | .seq items => .spread items (some [js name])
  | t => t.withAnnots [js name]

/-- `assertSection`. -/
def assertSection (contract : StackType) (parameter storage ret : StackType) (code : Expr) :
    Checked ReturnType := do
  assertTypeAnnotationsValid parameter true
  assertTypeAnnotationsValid storage false
  let arg := ofPrim "pair" [sectionType parameter "@parameter", sectionType storage "@storage"]
  let out ← run { ctx with contract := some contract } code [arg]
  match out with
  | .failed _ _ => return out
  | .stack types =>
    match assertStacksEqual types [ret] with
    | .ok _ => return out
    | .error e =>
      match e.michelsonMessage with
      | some message => .error (.instructionError code out message)
      | none => .error e

/-- The views of a contract, by name: a later one takes the place of an earlier one. -/
def contractViews : List StackType → Checked (List (JSString × StackType))
  | [] => .ok []
  | s :: ss => do
    if s.primOf = some "view" then
      let name ← match ← argOf s 0 with
        | .string name => .ok name
        | _ => .ok (js "undefined")
      let views ← contractViews ss
      return if views.any (·.1 = name) then views else (name, s) :: views
    else contractViews ss

/-- `assertSection` of every view. -/
def viewsValid (contract storage : StackType) : List (JSString × StackType) → Checked Unit
  | [] => .ok ()
  | (_, view) :: views => do
    let _ ← assertSection run ctx contract (← argOf view 1) storage (← argOf view 2)
      (← argOf view 3).erase
    viewsValid contract storage views

/-- `assertContractValid`. -/
def contractType (contract : StackType) : Checked ReturnType := do
  let sections ← sectionsOf contract
  let parameter ← argOf (← contractSection sections "parameter") 0
  let storage ← argOf (← contractSection sections "storage") 0
  let code ← argOf (← contractSection sections "code") 0
  let expected := ofPrim "pair" [ofPrim "list" [leaf "operation"], storage]
  let ret ← assertSection run ctx contract parameter storage expected code.erase
  viewsValid run ctx contract storage (← contractViews sections)
  return ret

end

mutual

/-- `functionTypeInternal`, with a bound on the calls. -/
def functionTypeTo (host : Host) : ℕ → Context → Expr → List StackType → Checked ReturnType
  | 0, _, _, _ => .error (.thrown .outOfFuel)
  | fuel + 1, ctx, inst, stack =>
    instructionType (functionTypeTo host fuel) (dataValidTo host fuel)
      (fun contract => do let _ ← contractTypeTo host fuel {} (ofExpr contract)) ctx inst stack

/-- `assertDataValidInternal`, with a bound on the calls. -/
def dataValidTo (host : Host) : ℕ → Context → Expr → Expr → Checked Unit
  | 0, _, _, _ => .error (.thrown .outOfFuel)
  | fuel + 1, ctx, d, t =>
    dataValid host (fun stack code => functionTypeTo host fuel ctx code stack)
      (dataValidTo host fuel ctx) d t

/-- `assertContractValid`, with a bound on the calls. -/
def contractTypeTo (host : Host) : ℕ → Context → StackType → Checked ReturnType
  | 0, _, _ => .error (.thrown .outOfFuel)
  | fuel + 1, ctx, contract => contractType (functionTypeTo host fuel) ctx contract

end

mutual

/-- A bound on the calls for code or data. -/
def size : Expr → ℕ
  | .seq items => sizes items + 4
  | .prim _ (some args) _ => sizes args + 4
  | _ => 4

/-- The sum over a list. -/
def sizes : List Expr → ℕ
  | [] => 0
  | e :: es => size e + 4 + sizes es

end

section

variable (host : Host)

/-- `assertDataValid`. -/
def assertDataValid (ctx : Context) (d t : Expr) : Checked Unit := do
  assertTypeAnnotationsValid (ofExpr t) false
  dataValidTo host (size d) ctx d t

/-- `functionType`. -/
def functionType (ctx : Context) (inst : Expr) (stack : List StackType) : Checked ReturnType := do
  forEachType (assertTypeAnnotationsValid · false) stack
  match ctx.contract with
  | some contract =>
    forEachType (fun s => do
        let sec ← contractSection (← sectionsOf contract) (s.primOf.getD "")
        assertTypeAnnotationsValid (← argOf sec 0) false) [leaf "parameter", leaf "storage"]
  | none => .ok ()
  functionTypeTo host (size inst) ctx inst stack

/-- `assertContractValid`. -/
def assertContractValid (ctx : Context) (contract : Expr) : Checked ReturnType :=
  contractTypeTo host (size contract) ctx (ofExpr contract)

end

end Typechecker
