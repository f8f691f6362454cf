import Taquito.Typechecker.Instructions

/-!
# The typing of operations

The cases of `functionTypeInternal` for the instructions that neither run code nor look at data. The
instructions whose result does not depend on the types that they meet are a table.
-/

open Js MichelCodec

namespace Typechecker

open StackType

/-! ## Constant results -/

/-- The types of the arguments, the type of the result and the default of its variable annotation.
-/
structure Signature where
  ids : List (List String)
  result : StackType
  var : Option JSString := none

/-- `option`, of a type without arguments. -/
def optionOf (p : String) : StackType := ofPrim "option" [leaf p]

/-- The instructions with a constant result. -/
def signatureOf : String → Option Signature
  | "SIZE" => some ⟨[["string", "list", "set", "map", "bytes"]], leaf "nat", none⟩
  | "SUB_MUTEZ" => some ⟨[["mutez"], ["mutez"]], optionOf "mutez", none⟩
  | "ABS" => some ⟨[["int"]], leaf "nat", none⟩
  | "ISNAT" => some ⟨[["int"]], optionOf "nat", none⟩
  | "INT" => some ⟨[["nat", "bls12_381_fr", "bytes"]], leaf "int", none⟩
  | "BYTES" => some ⟨[["nat", "int"]], leaf "bytes", none⟩
  | "NAT" => some ⟨[["bytes"]], leaf "nat", none⟩
  | "LSL" | "LSR" => some ⟨[["nat", "bytes"], ["nat", "bytes"]], leaf "nat", none⟩
  | "EQ" | "NEQ" | "LT" | "GT" | "LE" | "GE" => some ⟨[["int"]], leaf "bool", none⟩
  | "IMPLICIT_ACCOUNT" => some ⟨[["key_hash"]], ofPrim "contract" [leaf "unit"], none⟩
  | "NOW" => some ⟨[], leaf "timestamp", some (js "@now")⟩
  | "AMOUNT" => some ⟨[], leaf "mutez", some (js "@amount")⟩
  | "BALANCE" => some ⟨[], leaf "mutez", some (js "@balance")⟩
  | "CHECK_SIGNATURE" => some ⟨[["key"], ["signature"], ["bytes"]], leaf "bool", none⟩
  | "BLAKE2B" | "SHA256" | "SHA512" | "KECCAK" | "SHA3" => some ⟨[["bytes"]], leaf "bytes", none⟩
  | "HASH_KEY" => some ⟨[["key"]], leaf "key_hash", none⟩
  | "SOURCE" => some ⟨[], leaf "address", some (js "@source")⟩
  | "SENDER" => some ⟨[], leaf "address", some (js "@sender")⟩
  | "CHAIN_ID" => some ⟨[], leaf "chain_id", none⟩
  | "LEVEL" => some ⟨[], leaf "nat", some (js "@level")⟩
  | "TOTAL_VOTING_POWER" => some ⟨[], leaf "nat", none⟩
  | "VOTING_POWER" => some ⟨[["key_hash"]], leaf "nat", none⟩
  | "OPEN_CHEST" =>
    some ⟨[["chest_key"], ["chest"], ["nat"]], ofPrim "or" [leaf "bytes", leaf "bool"], none⟩
  | "MIN_BLOCK_TIME" => some ⟨[], leaf "nat", none⟩
  | _ => none

/-! ## Arithmetic -/

/-- The type of a result: a new one, or that of the first or the second argument. -/
inductive BinaryResult where
  | type (t : StackType)
  | first
  | second

/-- The type itself. -/
def BinaryResult.typeOf (r : BinaryResult) (a b : StackType) : StackType :=
  match r with
  | .type t => t
  | .first => a
  | .second => b

/-- An operation of two arguments. -/
structure Binary where
  ids : List String
  ids' : List String
  result : String → String → Option BinaryResult
  message : JSString → JSString → JSString

/-- The types of the elements of a curve and of its field. -/
def bls : List String := ["bls12_381_g1", "bls12_381_g2", "bls12_381_fr"]

/-- `ADD`. -/
def addResult (a b : String) : Option BinaryResult :=
  if (a = "nat" ∧ b = "int") ∨ (a = "int" ∧ b = "nat") then some (.type (leaf "int"))
  else if (a = "int" ∧ b = "timestamp") ∨ (a = "timestamp" ∧ b = "int") then
    some (.type (leaf "timestamp"))
  else if (["int", "nat", "mutez"] ++ bls).contains a ∧ a = b then some .first
  else none

/-- `SUB`. -/
def subResult (a b : String) : Option BinaryResult :=
  if ((a = "nat" ∨ a = "int") ∧ (b = "nat" ∨ b = "int")) ∨ (a = "timestamp" ∧ b = "timestamp") then
    some (.type (leaf "int"))
  else if a = "timestamp" ∧ b = "int" then some (.type (leaf "timestamp"))
  else if a = "mutez" ∧ b = "mutez" then some (.type (leaf "mutez"))
  else none

/-- `MUL`. -/
def mulResult (a b : String) : Option BinaryResult :=
  if (a = "nat" ∧ b = "int") ∨ (a = "int" ∧ b = "nat") then some (.type (leaf "int"))
  else if (a = "nat" ∧ b = "mutez") ∨ (a = "mutez" ∧ b = "nat") then some (.type (leaf "mutez"))
  else if (bls.contains a ∧ b = "bls12_381_fr") ∨ ((a = "nat" ∨ a = "int") ∧ a = b) then some .first
  else if ((a = "nat" ∨ a = "int") ∧ b = "bls12_381_fr") ∨
      ((b = "nat" ∨ b = "int") ∧ a = "bls12_381_fr") then
    some (.type (leaf "bls12_381_fr"))
  else none

/-- `res`, of `EDIV`. -/
def divided (a b : String) : BinaryResult :=
  .type (ofPrim "option" [ofPrim "pair" [leaf a, leaf b]])

/-- `EDIV`. -/
def edivResult (a b : String) : Option BinaryResult :=
  if a = "nat" ∧ b = "nat" then some (divided "nat" "nat")
  else if (a = "nat" ∨ a = "int") ∧ (b = "nat" ∨ b = "int") then some (divided "int" "nat")
  else if a = "mutez" ∧ b = "nat" then some (divided "mutez" "mutez")
  else if a = "mutez" ∧ b = "mutez" then some (divided "nat" "mutez")
  else none

/-- A message about two types. -/
def about (before between : String) (a b : JSString) : JSString :=
  js before ++ a ++ js between ++ b

/-- The operations of two arguments, in a protocol. -/
def binaryOf (proto : Protocol) : String → Option Binary
  | "ADD" =>
    some ⟨["nat", "int", "timestamp", "mutez"] ++ bls, ["nat", "int", "timestamp", "mutez"] ++ bls,
      addResult, about "can't add " " to "⟩
  | "SUB" =>
    let ids := if ProtoInferiorTo proto .PsiThaCa then ["nat", "int", "timestamp", "mutez"]
      else ["nat", "int", "timestamp"]
    some ⟨ids, ids, subResult, fun a b => about "can't subtract " " from " a b⟩
  | "MUL" =>
    some ⟨["nat", "int", "mutez"] ++ bls, ["nat", "int", "mutez"] ++ bls, mulResult,
      about "can't multiply " " by "⟩
  | "EDIV" =>
    some ⟨["nat", "int", "mutez"], ["nat", "int", "mutez"], edivResult,
      about "can't euclideally divide " " by "⟩
  | "OR" | "XOR" =>
    some ⟨["nat", "bytes", "bool"], ["nat", "bytes", "bool"],
      fun a b => if a ≠ b then none else some .second,
      about "both arguments must be of the same type: " ", "⟩
  | "AND" =>
    some ⟨["nat", "bytes", "bool", "int"], ["nat", "bytes", "bool"],
      fun a b => if (a ≠ "int" ∨ b ≠ "nat") ∧ a ≠ b then none else some .second,
      about "both arguments must be of the same type: " ", "⟩
  | _ => none

section

variable (i : Instruction) (stack : List StackType)

/-- `args`, of as many types as there are. -/
def assertTypeIDs : ℕ → List (List String) → List StackType → Checked Unit
  | n, ids :: rest, a :: tail => do
    assertTypeID i stack n ids a
    assertTypeIDs (n + 1) rest tail
  | _, _, _ => .ok ()

/-- An instruction with a constant result. -/
def typeSignature (s : Signature) : Checked ReturnType :=
  if stack.length < s.ids.length then tooFew i stack s.ids.length
  else do
    assertTypeIDs i stack 0 s.ids stack
    push (annotateVar i stack s.result s.var) (stack.drop s.ids.length)

/-- An operation of two arguments. -/
def typeBinary (op : Binary) : Checked ReturnType :=
  args2 i stack op.ids op.ids' fun a b tail =>
    match op.result (a.primOf.getD "") (b.primOf.getD "") with
    | some r => push (annotateVar i stack (r.typeOf a b) none) tail
    | none => refusePrim i stack (op.message (idText a.primOf) (idText b.primOf))

/-- `NEG`. -/
def typeNEG : Checked ReturnType :=
  args1 i stack (["nat", "int"] ++ bls) fun s tail =>
    if s.primOf = some "nat" ∨ s.primOf = some "int" then
      push (annotateVar i stack (leaf "int") none) tail
    else push (annotateVar i stack s none) tail

/-- `NOT`. -/
def typeNOT : Checked ReturnType :=
  args1 i stack ["nat", "bytes", "bool", "int"] fun s tail =>
    if s.primOf = some "bool" then push (annotateVar i stack (leaf "bool") none) tail
    else push (annotateVar i stack (leaf "int") none) tail

/-- `COMPARE`. -/
def typeCOMPARE : Checked ReturnType :=
  args2 i stack [] [] fun a b tail => do
    ensure i stack .comparable a
    ensure i stack .comparable b
    push (annotateVar i stack (leaf "int") none) tail

/-! ## The stack -/

/-- `DUP`. -/
def typeDUP : Checked ReturnType := do
  let n ← i.count 1
  if n = 0 then refuse i stack (js "DUP 0 is forbidden")
  else argAt i stack (n - 1) [] fun s =>
    if s.typeID = some "ticket" then refuse i stack (js "ticket can't be DUPed")
    else return .stack (s :: stack)

/-- `SWAP`. -/
def typeSWAP : Checked ReturnType :=
  args2 i stack [] [] fun a b tail => do
    let _ ← instructionAnn i stack {} {}
    return .stack (b :: a :: tail)

/-- `args(n - 1, null)`: the stack has `n` elements. -/
def assertDepth (n : ℕ) : Checked Unit := if stack.length < n then tooFew i stack 1 else .ok ()

/-- `DROP`. -/
def typeDROP : Checked ReturnType := do
  let _ ← instructionAnn i stack {} {}
  let n ← i.count 1
  assertDepth i stack n
  return .stack (stack.drop n)

/-- `DIG`. -/
def typeDIG : Checked ReturnType := do
  let _ ← instructionAnn i stack {} {}
  let n ← natOf (← i.arg 0)
  argAt i stack n [] fun a => return .stack (a :: (stack.take n ++ stack.drop (n + 1)))

/-- `DUG`: the depth of the stack is not looked at. -/
def typeDUG : Checked ReturnType := do
  let _ ← instructionAnn i stack {} {}
  let n ← natOf (← i.arg 0)
  argAt i stack 0 [] fun a =>
    return .stack ((stack.drop 1).take n ++ a :: stack.drop (n + 1))

/-- `RENAME`. -/
def typeRENAME : Checked ReturnType :=
  args1 i stack [] fun s tail => push (annotateVar i stack s none) tail

/-- `CAST`. -/
def typeCAST : Checked ReturnType := do
  let _ ← instructionAnn i stack {} {}
  args1 i stack [] fun s tail => do
    let t ← i.typeArg 0
    assertTypeAnnotationsValid t false
    ensureTypesEqual i stack t s
    return .stack (t :: tail)

/-! ## Options, unions and collections -/

/-- `SOME`. -/
def typeSOME : Checked ReturnType :=
  args1 i stack [] fun s tail => push (annotateResult i stack (ofPrim "option" [s])) tail

/-- `UNIT`. -/
def typeUNIT : Checked ReturnType := push (annotateResult i stack (leaf "unit")) stack

/-- `NONE` and `NIL`. -/
def typeEmpty (p : String) : Checked ReturnType := do
  let t ← i.typeArg 0
  assertTypeAnnotationsValid t false
  push (annotateResult i stack (ofPrim p [t])) stack

/-- The field annotation of the side of `LEFT` and `RIGHT` that is on the stack. -/
def givenField (ia va : UnpackedAnnotations) : Nullable :=
  match ia.f with
  | none | some [] => .undefined
  | some (f :: fs) =>
    if f = js "%" then .undefined
    else if f = js "%@" then
      match va.v with
      | some v => .list [js "%" ++ (v.headD []).drop 1]
      | none => .undefined
    else .list (f :: fs)

/-- The field annotation of the other side. -/
def otherField (ia : UnpackedAnnotations) : Nullable :=
  match ia.f with
  | some (f :: g :: fs) => if g = js "%" then .undefined else .list (f :: g :: fs)
  | _ => .undefined

/-- `LEFT` and `RIGHT`. -/
def typeSide (left : Bool) : Checked ReturnType :=
  args1 i stack [] fun s tail => do
    let ia ← instructionAnn i stack { f := 2, t := 1, v := 1 } { specialFields := true }
    let va ← argAnn i stack s
    let given ← annotate i stack s { t := .null, v := .null, f := givenField ia va }
    let other ← annotate i stack (← i.typeArg 0) { t := .null, f := otherField ia }
    push (annotate i stack (ofPrim "or" (if left then [given, other] else [other, given]))
      { t := .ofOption ia.t, v := .ofOption ia.v }) tail

/-- `CONS`. -/
def typeCONS : Checked ReturnType :=
  args2 i stack [] ["list"] fun a l tail => do
    let elt ← argOf l 0
    ensureTypesEqual i stack a elt
    push (annotateVar i stack (ofPrim "list" [elt]) none) tail

/-- `MEM`. -/
def typeMEM : Checked ReturnType :=
  args2 i stack [] ["set", "map", "big_map"] fun a c tail => do
    ensure i stack .comparable a
    ensureTypesEqual i stack a (← argOf c 0)
    push (annotateVar i stack (leaf "bool") none) tail

/-- `GET`, of a map. -/
def typeGetMap : Checked ReturnType :=
  args2 i stack [] ["map", "big_map"] fun a c tail => do
    ensure i stack .comparable a
    ensureTypesEqual i stack a (← argOf c 0)
    push (annotateVar i stack (ofPrim "option" [← argOf c 1]) none) tail

/-- `GET`. -/
def typeGET : Checked ReturnType :=
  match i.args with
  | some args => typeGetNth i stack args
  | none => typeGetMap i stack

/-- The collection after `UPDATE`: its arguments keep their type annotations. -/
def updated (p : String) (args : List StackType) : Checked StackType := do
  let kept ← args.mapM fun a => annotate i stack a { t := .null }
  return ofPrim p kept

/-- `UPDATE`, of a set or a map. -/
def typeUpdateMap : Checked ReturnType :=
  args2 i stack [] ["bool", "option"] fun key value tail => do
    ensure i stack .comparable key
    if value.primOf = some "bool" then
      argAt i stack 2 ["set"] fun set => do
        ensureTypesEqual i stack key (← argOf set 0)
        push (do annotateVar i stack (← updated i stack "set" [key]) none) (tail.drop 1)
    else
      argAt i stack 2 ["map", "big_map"] fun map => do
        ensureTypesEqual i stack key (← argOf map 0)
        let type ← argOf value 0
        if map.primOf = some "map" then
          push (do annotateVar i stack (← updated i stack "map" [key, type]) none) (tail.drop 1)
        else
          ensure i stack .bigMapStorable type
          push (do annotateVar i stack (← updated i stack "big_map" [key, type]) none) (tail.drop 1)

/-- `UPDATE`. -/
def typeUPDATE : Checked ReturnType :=
  match i.args with
  | some args => typeUpdateNth i stack args
  | none => typeUpdateMap i stack

/-- `GET_AND_UPDATE`. -/
def typeGET_AND_UPDATE : Checked ReturnType := do
  let ia ← instructionAnn i stack { v := 2 } {}
  args3 i stack [] ["option"] ["map", "big_map"] fun key value map tail => do
    ensure i stack .comparable key
    ensureTypesEqual i stack key (← argOf map 0)
    let type ← argOf value 0
    let found ← argOf map 1
    ensureTypesEqual i stack type found
    let p := if map.primOf = some "map" then "map" else "big_map"
    if p = "big_map" then ensure i stack .bigMapStorable type
    let found ← annotate i stack (ofPrim "option" [found]) { v := varAt ia 0 }
    let map ← annotate i stack (← updated i stack p [key, type]) { v := varAt ia 1 }
    return .stack (found :: map :: tail)

/-- `EMPTY_SET`. -/
def typeEMPTY_SET : Checked ReturnType := do
  let t ← i.typeArg 0
  assertTypeAnnotationsValid t false
  ensure i stack .comparable t
  push (annotateResult i stack (ofPrim "set" (ofExprs (i.args.getD [])))) stack

/-- `EMPTY_MAP`. -/
def typeEMPTY_MAP : Checked ReturnType := do
  let t ← i.typeArg 0
  assertTypeAnnotationsValid t false
  ensure i stack .comparable t
  assertTypeAnnotationsValid (← i.typeArg 1) false
  push (annotateResult i stack (ofPrim "map" (ofExprs (i.args.getD [])))) stack

/-- `EMPTY_BIG_MAP`: the check of the values looks at the keys. -/
def typeEMPTY_BIG_MAP : Checked ReturnType := do
  let t ← i.typeArg 0
  assertTypeAnnotationsValid t false
  ensure i stack .comparable t
  assertTypeAnnotationsValid (← i.typeArg 1) false
  ensure i stack .bigMapStorable t
  push (annotateResult i stack (ofPrim "big_map" (ofExprs (i.args.getD [])))) stack

/-! ## Strings and octets -/

/-- `CONCAT`. -/
def typeCONCAT : Checked ReturnType :=
  args1 i stack ["string", "list", "bytes"] fun s tail =>
    if s.primOf = some "list" then do
      let elt ← argOf s 0
      if elt.typeID ≠ some "string" ∧ elt.typeID ≠ some "bytes" then
        refusePrim i stack (js "can't concatenate list of " ++ idText elt.typeID ++ js "'s")
      else push (annotateVar i stack elt none) tail
    else argAt i stack 1 ["string", "bytes"] fun s' =>
      if s.primOf ≠ s'.primOf then
        refusePrim i stack (js "can't concatenate " ++ idText s.primOf ++ js " with " ++
          idText s'.primOf)
      else push (annotateVar i stack s' none) (tail.drop 1)

/-- `SLICE`. -/
def typeSLICE : Checked ReturnType :=
  args3 i stack ["nat"] ["nat"] ["string", "bytes"] fun _ _ s tail =>
    push (annotateVar i stack (ofPrim "option" [s]) (some (js "@slice"))) tail

/-- `PACK`. -/
def typePACK : Checked ReturnType :=
  args1 i stack [] fun s tail => do
    ensure i stack .packable s
    push (annotateVar i stack (leaf "bytes") (some (js "@packed"))) tail

/-- `UNPACK`. -/
def typeUNPACK : Checked ReturnType :=
  args1 i stack ["bytes"] fun _ tail => do
    let t ← i.typeArg 0
    assertTypeAnnotationsValid t false
    push (annotateVar i stack (ofPrim "option" [t]) (some (js "@unpacked"))) tail

/-! ## Functions -/

/-- `EXEC`. -/
def typeEXEC : Checked ReturnType :=
  args2 i stack [] ["lambda"] fun a f tail => do
    ensureTypesEqual i stack a (← argOf f 0)
    push (do annotateVar i stack (← argOf f 1) none) tail

/-- `typeArgs(t)[n]`. -/
def typeArgAt (t : StackType) (n : ℕ) : Checked StackType := do
  match (← typeArgs t)[n]? with
  | some a => return a
  | none => undefinedType

/-- `APPLY`. -/
def typeAPPLY : Checked ReturnType :=
  args2 i stack [] ["lambda"] fun a f tail => do
    ensure i stack .storable a
    ensure i stack .pushable a
    let pt ← argOf f 0
    if !pt.isPairType then
      refusePrim i stack (js "function's argument must be a pair: " ++ idText pt.typeID)
    else
      ensureTypesEqual i stack a (← typeArgAt pt 0)
      push (do annotateVar i stack (ofPrim "lambda" [← typeArgAt pt 1, ← argOf f 1]) none) tail

/-- `FAILWITH`. -/
def typeFAILWITH (ctx : Context) : Checked ReturnType :=
  args1 i stack [] fun s _ => do
    if !ProtoInferiorTo ctx.proto .PtEdo2Zk then ensure i stack .packable s
    return .failed s 0

/-- `NEVER`. -/
def typeNEVER : Checked ReturnType :=
  args1 i stack ["never"] fun _ _ => return .failed (leaf "never") 0

/-! ## Contracts and operations -/

/-- The entrypoint of a contract that an instruction names. -/
def entryPoint (contract : StackType) (ia : UnpackedAnnotations) : Checked StackType := do
  match ← contractEntryPoint contract (ia.f.getD []).head? with
  | some ep => return ep
  | none => refusePrim i stack (js "contract has no entrypoint null")

/-- `SELF`. -/
def typeSELF (ctx : Context) : Checked ReturnType :=
  match ctx.contract with
  | none => refusePrim i stack (js "contract required")
  | some contract => do
    let ia ← instructionAnn i stack { f := 1, v := 1 } {}
    let ep ← entryPoint i stack contract ia
    push (annotate i stack (ofPrim "contract" [ep]) { v := .list (ia.v.getD [js "@self"]) }) stack

/-- `TRANSFER_TOKENS`. -/
def typeTRANSFER_TOKENS : Checked ReturnType :=
  args3 i stack [] ["mutez"] ["contract"] fun a _ c tail => do
    ensureTypesEqual i stack a (← argOf c 0)
    push (annotateVar i stack (leaf "operation") none) tail

/-- The argument of an option is a key hash. -/
def assertKeyHash (option : StackType) : Checked Unit := do
  let arg ← argOf option 0
  if arg.typeID ≠ some "key_hash" then
    refusePrim i stack (js "key hash expected: " ++ idText arg.typeID)

/-- `SET_DELEGATE`. -/
def typeSET_DELEGATE : Checked ReturnType :=
  args1 i stack ["option"] fun s tail => do
    assertKeyHash i stack s
    push (annotateVar i stack (leaf "operation") none) tail

/-- An address type that refers to a contract. -/
def addressOf (contract : StackType) : StackType := .prim "address" none none (some contract)

/-- The variable annotation of an instruction, or one made from that of its argument. -/
def givenVar (ia : UnpackedAnnotations) (s : StackType) (suffix : JSString) :
    Checked (List JSString) :=
  match ia.v with
  | some v => .ok v
  | none => do return varSuffix (← argAnn i stack s) suffix

/-- `ADDRESS`. -/
def typeADDRESS : Checked ReturnType :=
  args1 i stack ["contract"] fun s tail => do
    let ia ← instructionAnn i stack { v := 1 } {}
    let v ← givenVar i stack ia s (js "address")
    push (annotate i stack (addressOf s) { v := .list v }) tail

/-- The type of the parameter of a contract, as that of a contract. -/
def parameterContract (contract : StackType) : Checked StackType := do
  let param ← contractSection (← sectionsOf contract) "parameter"
  return ofPrim "contract" [← argOf param 0]

/-- `SELF_ADDRESS`. -/
def typeSELF_ADDRESS (ctx : Context) : Checked ReturnType :=
  match ctx.contract with
  | none => push (annotateVar i stack (leaf "address") (some (js "@address"))) stack
  | some contract => do
    let self ← parameterContract contract
    push (annotateVar i stack (addressOf self) (some (js "@address"))) stack

/-- The contract type that an address type carries. -/
def StackType.refContract : StackType → Option StackType
  | .prim _ _ _ refContract => refContract
  | _ => none

/-- `CONTRACT`. -/
def typeCONTRACT : Checked ReturnType :=
  args1 i stack ["address"] fun s tail => do
    let t ← i.typeArg 0
    assertTypeAnnotationsValid t false
    let ia ← instructionAnn i stack { v := 1, f := 1 } {}
    match s.refContract with
    | some contract => do
      let ep ← entryPoint i stack contract ia
      ensureTypesEqual i stack ep t
    | none => .ok ()
    let v ← givenVar i stack ia s (js "contract")
    push (annotate i stack (ofPrim "option" [ofPrim "contract" [t]]) { v := .list v }) tail

/-- `VIEW`. -/
def typeVIEW : Checked ReturnType :=
  args2 i stack [] ["address"] fun a _ tail => do
    ensure i stack .pushable a
    push (annotateVar i stack (ofPrim "option" [← i.typeArg 1]) none) tail

/-- `EMIT`: without an argument the stack is not looked at. -/
def typeEMIT : Checked ReturnType := do
  let ia ← instructionAnn i stack { f := 1, t := 1 } {}
  match i.args with
  | some _ =>
    args1 i stack [] fun s tail => do
      ensureTypesEqual i stack s (← i.typeArg 0)
      push (annotate i stack (leaf "operation") ia.nullable) tail
  | none => push (annotate i stack (leaf "operation") ia.nullable) (stack.drop 1)

/-! ## Tickets, curves and sapling -/

/-- `TICKET`. -/
def typeTICKET (ctx : Context) : Checked ReturnType :=
  args2 i stack [] ["nat"] fun s _ tail => do
    ensure i stack .comparable s
    let ticket := annotateResult i stack (ofPrim "ticket" [s])
    if ProtoInferiorTo ctx.proto .PtLimaPtL then push ticket tail
    else push (do annotateVar i stack (ofPrim "option" [← ticket]) none) tail

/-- `JOIN_TICKETS`. -/
def typeJOIN_TICKETS : Checked ReturnType :=
  args1 i stack ["pair"] fun s tail => do
    let p ← unpackComb s
    if p.first.typeID ≠ some "ticket" then
      refusePrim i stack (js "ticket expected: " ++ idText p.first.typeID)
    else
      ensureTypesEqual i stack p.first p.second
      push (do annotateVar i stack (← updated i stack "option" [p.first]) none) tail

/-- `SPLIT_TICKET`. -/
def typeSPLIT_TICKET : Checked ReturnType :=
  args2 i stack ["ticket"] ["pair"] fun s amounts tail => do
    let p ← unpackComb amounts
    if p.first.typeID ≠ some "nat" then
      refusePrim i stack (js "nat expected: " ++ idText p.first.typeID)
    else
      ensureTypesEqual i stack p.first p.second
      push (do annotateVar i stack (ofPrim "option" [← updated i stack "pair" [s, s]]) none) tail

/-- `READ_TICKET`. -/
def typeREAD_TICKET : Checked ReturnType := do
  let ia ← instructionAnn i stack { v := 2 } {}
  args1 i stack ["ticket"] fun s tail => do
    let content ← annotate i stack (← argOf s 0) { t := .null }
    let read ← annotate i stack (ofPrim "pair" [leaf "address", content, leaf "nat"])
      { v := varAt ia 0 }
    let ticket ← annotate i stack s { v := varAt ia 1, t := .null }
    return .stack (read :: ticket :: tail)

/-- `PAIRING_CHECK`. -/
def typePAIRING_CHECK : Checked ReturnType :=
  args1 i stack ["list"] fun l tail => do
    let p ← argOf l 0
    if !p.isPairType then refusePrim i stack (js "pair expected: " ++ idText p.typeID)
    else
      let c ← unpackComb p
      if c.first.typeID ≠ some "bls12_381_g1" then
        refusePrim i stack (js "bls12_381_g1 expected: " ++ idText c.first.typeID)
      else if c.second.typeID ≠ some "bls12_381_g2" then
        refusePrim i stack (js "bls12_381_g2 expected: " ++ idText c.second.typeID)
      else push (annotateVar i stack (leaf "bool") none) tail

/-- `SAPLING_EMPTY_STATE`. -/
def typeSAPLING_EMPTY_STATE : Checked ReturnType := do
  push (annotateResult i stack (ofPrim "sapling_state" [← i.typeArg 0])) stack

/-- `SAPLING_VERIFY_UPDATE`. -/
def typeSAPLING_VERIFY_UPDATE (ctx : Context) : Checked ReturnType :=
  args2 i stack ["sapling_transaction"] ["sapling_state"] fun t s tail => do
    let x ← memoSize t
    let y ← memoSize s
    if x.isNone || x != y then
      refusePrim i stack (js "sapling memo size mismatch: " ++ memoText t ++ js " != " ++ memoText s)
    else
      let result : Checked StackType := do
        let balance ← updatedState s
        if ProtoInferiorTo ctx.proto .PtJakarta then return ofPrim "option" [balance]
        else return ofPrim "option" [ofPrim "pair" [leaf "bytes", balance]]
      push (do annotateVar i stack (← result) none) tail
where
  /-- The balance and the state. -/
  updatedState (s : StackType) : Checked StackType := do
    return ofPrim "pair" [leaf "int", ← annotate i stack s { t := .null }]

end

end Typechecker
