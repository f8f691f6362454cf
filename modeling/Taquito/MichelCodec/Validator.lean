import Taquito.MichelCodec.Utils

/-!
# The Michelson validator

The type guards of `michelson-validator.ts`: each returns, or throws on the first node it refuses.
The seven checks of a type differ in the primitives they refuse and share one traversal, so they are
one definition with the check as a parameter; the checks of instructions, data and contracts call
each other. All recurse on a fuel argument, for which the depth of the expression is enough.
-/

open Js

namespace MichelCodec

/-! ## Tables -/

/-- The instructions without arguments. -/
def noArgInstructionIDs : List String :=
  ["ABS", "ADD", "ADDRESS", "AMOUNT", "AND", "APPLY", "BALANCE", "BLAKE2B", "CAR", "CDR", "CHAIN_ID",
    "CHECK_SIGNATURE", "COMPARE", "CONCAT", "CONS", "EDIV", "EQ", "EXEC", "FAILWITH", "GE",
    "GET_AND_UPDATE", "GT", "HASH_KEY", "IMPLICIT_ACCOUNT", "INT", "ISNAT", "JOIN_TICKETS", "KECCAK",
    "LE", "LEVEL", "LSL", "LSR", "LT", "MEM", "MUL", "NEG", "NEQ", "NEVER", "NOT", "NOW", "OR",
    "PACK", "PAIRING_CHECK", "READ_TICKET", "SAPLING_VERIFY_UPDATE", "SELF", "SELF_ADDRESS",
    "SENDER", "SET_DELEGATE", "SHA256", "SHA3", "SHA512", "SIZE", "SLICE", "SOME", "SOURCE",
    "SPLIT_TICKET", "SUB", "SWAP", "TICKET", "TICKET_DEPRECATED", "TOTAL_VOTING_POWER",
    "TRANSFER_TOKENS", "UNIT", "VOTING_POWER", "XOR", "RENAME", "OPEN_CHEST", "SUB_MUTEZ",
    "MIN_BLOCK_TIME", "BYTES", "NAT"]

/-- All instructions. -/
def instructionIDs : List String :=
  noArgInstructionIDs ++
    ["CONTRACT", "CREATE_CONTRACT", "DIG", "DIP", "DROP", "DUG", "DUP", "EMIT", "EMPTY_BIG_MAP",
      "EMPTY_MAP", "EMPTY_SET", "GET", "IF", "IF_CONS", "IF_LEFT", "IF_NONE", "ITER", "LAMBDA",
      "LAMBDA_REC", "LEFT", "LOOP", "LOOP_LEFT", "MAP", "NIL", "NONE", "PAIR", "PUSH", "RIGHT",
      "SAPLING_EMPTY_STATE", "UNPACK", "UNPAIR", "UPDATE", "CAST", "VIEW"]

/-- The comparable types without arguments. -/
def simpleComparableTypeIDs : List String :=
  ["unit", "never", "bool", "int", "nat", "string", "chain_id", "bytes", "mutez", "key_hash", "key",
    "signature", "timestamp", "address", "tx_rollup_l2_address"]

/-- All types. -/
def typeIDs : List String :=
  simpleComparableTypeIDs ++
    ["or", "pair", "set", "big_map", "contract", "lambda", "list", "map", "operation", "option",
      "bls12_381_g1", "bls12_381_g2", "bls12_381_fr", "sapling_transaction",
      "sapling_transaction_deprecated", "sapling_state", "ticket", "chest_key", "chest"]

/-! ## Guards -/

/-- A check: it returns, or throws. -/
abbrev Guard := Except MichelError Unit

/-- `throw new MichelsonValidationError(ex, message)`. -/
def invalid (ex : Expr) (message : JSString) : Guard := .error (.michelsonValidationError ex message)

/-- `assertPrimOrSeq`. -/
def assertPrimOrSeq (ex : Expr) : Guard :=
  match ex with
  | .seq _ => .ok ()
  | .prim .. => .ok ()
  | _ => invalid ex (js "prim or sequence expression expected")

/-- `assertSeq`, with the items of the sequence. -/
def assertSeq (ex : Expr) (k : List Expr → Guard) : Guard :=
  match ex with
  | .seq items => k items
  | _ => invalid ex (js "sequence expression expected")

/-- `assertIntLiteral` and `assertNatural`. -/
def assertNatural (ex : Expr) : Guard :=
  match ex with
  | .int text =>
    if text.head? = some 45 then invalid ex (js "natural number expected") else .ok ()
  | _ => invalid ex (js "int literal expected")

/-- `assertIntLiteral`. -/
def assertIntLiteral (ex : Expr) : Guard :=
  match ex with
  | .int _ => .ok ()
  | _ => invalid ex (js "int literal expected")

/-- `assertStringLiteral`, with the text. -/
def assertStringLiteral (ex : Expr) (k : JSString → Guard) : Guard :=
  match ex with
  | .string text => k text
  | _ => invalid ex (js "string literal expected")

/-- `assertArgs(ex, n)`, with the arguments of a primitive. -/
def assertArgs (ex : Expr) (args : Option (List Expr)) (n : ℕ) : Guard :=
  if (n = 0 ∧ args.isNone) ∨ args.map List.length = some n then .ok ()
  else invalid ex (natText n ++ js " arguments expected")

/-- `assertArgs(ex, 1)`, then its argument. -/
def oneArg (ex : Expr) (args : Option (List Expr)) (k : Expr → Guard) : Guard :=
  match args with
  | some [a] => k a
  | _ => assertArgs ex args 1

/-- `assertArgs(ex, 2)`, then its arguments. -/
def twoArgs (ex : Expr) (args : Option (List Expr)) (k : Expr → Expr → Guard) : Guard :=
  match args with
  | some [a, b] => k a b
  | _ => assertArgs ex args 2

/-- A check of every member in turn. -/
def forEach (check : Expr → Guard) : List Expr → Guard
  | [] => .ok ()
  | e :: es => do
    check e
    forEach check es

/-! ## Types -/

/-- The checks of a type. -/
inductive TypeCheck where
  | type | comparable | packable | pushable | storable | passable | bigMapStorable
  deriving DecidableEq, Repr

/-- The types a check refuses, besides those that are not types. -/
def TypeCheck.refused : TypeCheck → List String
  | .type | .comparable => []
  | .packable => ["big_map", "operation", "sapling_state", "ticket"]
  | .pushable => ["big_map", "operation", "sapling_state", "ticket", "contract"]
  | .storable => ["operation", "contract"]
  | .passable => ["operation"]
  | .bigMapStorable => ["big_map", "operation", "sapling_state"]

/-- The message of a refusal. -/
def TypeCheck.message : TypeCheck → String → JSString
  | .type, _ => js "type expected"
  | .comparable, p => js p ++ js ": type is not comparable"
  | .packable, p => js p ++ js ": type can't be used inside PACK/UNPACK instructions"
  | .pushable, p => js p ++ js ": type can't be pushed"
  | .storable, p => js p ++ js ": type can't be used as part of a storage"
  | .passable, p => js p ++ js ": type can't be used as part of a parameter"
  | .bigMapStorable, p => js p ++ js ": type can't be used inside a big_map"

/-- `traverseType(ex, cb)`, of a pair: at least two components. -/
def traversePair (cb : Expr → Guard) (ex : Expr) (args : Option (List Expr)) : Guard :=
  if (args.getD []).length < 2 then invalid ex (js "at least 2 arguments expected")
  else forEach (fun a => do assertPrimOrSeq a; cb a) (args.getD [])

/-- `traverseType(ex, cb)`, where `cb` is the check `k`. -/
def traverseType (check : TypeCheck → Expr → Guard) (k : TypeCheck) (ex : Expr) : Guard :=
  match ex with
  | .seq items => traversePair (check k) ex (some items)
  | .prim p args _ =>
    if p = "pair" then traversePair (check k) ex args
    else if p = "option" ∨ p = "list" then oneArg ex args fun a => do
      assertPrimOrSeq a
      check k a
    else if p = "contract" then oneArg ex args (check .passable)
    else if p = "or" then twoArgs ex args fun a b => do
      assertPrimOrSeq a
      assertPrimOrSeq b
      check k a
      check k b
    else if p = "lambda" then twoArgs ex args fun a b => do
      check .type a
      check .type b
    else if p = "set" then oneArg ex args (check .comparable)
    else if p = "map" then twoArgs ex args fun a b => do
      assertPrimOrSeq a
      assertPrimOrSeq b
      check .comparable a
      check k b
    else if p = "big_map" then twoArgs ex args fun a b => do
      assertPrimOrSeq a
      assertPrimOrSeq b
      check .comparable a
      check .bigMapStorable b
      check k b
    else if p = "ticket" then oneArg ex args fun a => do
      assertPrimOrSeq a
      check .comparable a
    else if p = "sapling_state" ∨ p = "sapling_transaction" then oneArg ex args assertIntLiteral
    else assertArgs ex args 0
  | _ => .ok ()

/-- The seven checks of a type. -/
def assertTypeCheck : ℕ → TypeCheck → Expr → Guard
  | 0, _, _ => .error .outOfFuel
  | fuel + 1, k, ex => do
    assertPrimOrSeq ex
    match ex with
    | .prim p _ _ =>
      if k = .comparable then
        if p = "pair" ∨ p = "or" ∨ p = "option" then traverseType (assertTypeCheck fuel) k ex
        else if simpleComparableTypeIDs.contains p then .ok ()
        else invalid ex (k.message p)
      else if !typeIDs.contains p || k.refused.contains p then invalid ex (k.message p)
      else traverseType (assertTypeCheck fuel) k ex
    | _ => if k = .comparable then traverseType (assertTypeCheck fuel) k ex else .ok ()

/-! ## Instructions, data and contracts -/

/-- The pattern `^[a-zA-Z0-9_.%@]*$`. -/
def viewRe (s : JSString) : Bool :=
  s.all fun c =>
    (97 ≤ c.toNat && c.toNat ≤ 122) || (65 ≤ c.toNat && c.toNat ≤ 90) || isDecimalDigit c ||
      c = 95 || c = 46 || c = 37 || c = 64

/-- `maxViewNameLength`. -/
def maxViewNameLength : ℕ := 31

/-- `assertViewNameValid`. -/
def assertViewNameValid (name : JSString) : Guard :=
  if maxViewNameLength < name.length then
    invalid (.string name) (js "view name too long: " ++ name)
  else if !viewRe name then
    invalid (.string name) (js "invalid character(s) in view name: " ++ name)
  else .ok ()

section

variable (instruction data contract : Expr → Guard) (type : TypeCheck → Expr → Guard)

/-- `assertMichelsonInstruction`, of a sequence. -/
def instructionSequence (ex : Expr) (items : List Expr) : Guard :=
  forEach (fun n => match n with
    | .seq _ => instruction n
    | .prim .. => instruction n
    | _ => invalid ex (js "sequence or prim expected")) items

/-- `assertSeq` and `assertMichelsonInstruction`. -/
def codeBlock (ex : Expr) : Guard := assertSeq ex fun items => instructionSequence instruction ex items

/-- `assertMichelsonInstruction`, of a primitive with arguments. -/
def instructionArgs (ex : Expr) (p : String) (args : Option (List Expr)) : Guard :=
  if ["DROP", "PAIR", "UNPAIR", "DUP", "UPDATE", "GET"].contains p then
    match args with
    | none => .ok ()
    | some _ => oneArg ex args assertNatural
  else if ["DIG", "DUG", "SAPLING_EMPTY_STATE"].contains p then oneArg ex args assertNatural
  else if ["NONE", "LEFT", "RIGHT", "NIL", "CAST"].contains p then oneArg ex args (type .type)
  else if p = "UNPACK" then oneArg ex args (type .packable)
  else if p = "CONTRACT" then oneArg ex args (type .passable)
  else if ["IF_NONE", "IF_LEFT", "IF_CONS", "IF"].contains p then twoArgs ex args fun a b => do
    codeBlock instruction a
    codeBlock instruction b
  else if ["MAP", "ITER", "LOOP", "LOOP_LEFT"].contains p then oneArg ex args instruction
  else if p = "CREATE_CONTRACT" then oneArg ex args contract
  else if p = "DIP" then
    match args with
    | some [n, body] => do
      assertNatural n
      codeBlock instruction body
    | some [body] => codeBlock instruction body
    | _ => invalid ex (js "1 or 2 arguments expected")
  else if p = "PUSH" then twoArgs ex args fun t d => do
    type .pushable t
    data d
  else if p = "EMPTY_SET" then oneArg ex args (type .comparable)
  else if p = "EMPTY_MAP" then twoArgs ex args fun k v => do
    type .comparable k
    type .type v
  else if p = "EMPTY_BIG_MAP" then twoArgs ex args fun k v => do
    type .comparable k
    type .bigMapStorable v
  else if p = "LAMBDA_REC" ∨ p = "LAMBDA" then
    match args with
    | some [a, b, body] => do
      type .type a
      type .type b
      codeBlock instruction body
    | _ => assertArgs ex args 3
  else if p = "VIEW" then twoArgs ex args fun name t => do
    assertStringLiteral name assertViewNameValid
    type .type t
    type .pushable t
  else if p = "EMIT" then
    if 0 < (args.getD []).length then assertArgs ex args 1 else assertArgs ex args 0
  else invalid ex (js "instruction expected")

/-- `assertMichelsonInstruction`, of a primitive. -/
def instructionPrim (ex : Expr) (p : String) (args : Option (List Expr)) : Guard :=
  if noArgInstructionIDs.contains p then assertArgs ex args 0
  else instructionArgs instruction data contract type ex p args

/-- `assertMichelsonData`, of an entry of a sequence: a map element, or data. -/
def dataEntry (n : Expr) : Guard :=
  match n with
  | .prim p args _ =>
    if p = "Elt" then twoArgs n args fun k v => do
      data k
      data v
    else data n
  | _ => data n

/-- An entry is a map element. -/
def isElt : Expr → Bool
  | .prim p _ _ => p == "Elt"
  | _ => false

/-- `assertMichelsonData`, of a primitive. -/
def dataPrim (ex : Expr) (p : String) (args : Option (List Expr)) : Guard :=
  if ["Unit", "True", "False", "None"].contains p then assertArgs ex args 0
  else if p = "Pair" then
    if (args.getD []).length < 2 then invalid ex (js "at least 2 arguments expected")
    else forEach data (args.getD [])
  else if ["Left", "Right", "Some"].contains p then oneArg ex args data
  else if p = "Lambda_rec" then
    match args with
    | none => .ok ()
    | some items => instructionSequence instruction (.seq items) items
  else if instructionIDs.contains p then instructionPrim instruction data contract type ex p args
  else invalid ex (js "data entry or instruction expected")

/-- `assertMichelsonContract`, of one section. -/
def contractSection (ex sec : Expr) (views : List JSString) (p : String)
    (args : Option (List Expr)) (annots : Option (List JSString)) : Except MichelError (List JSString) :=
  if p = "code" then do
    oneArg sec args (codeBlock instruction)
    return views
  else if p = "parameter" then do
    oneArg sec args (type .passable)
    if annots.isSome then invalid sec (js "Annotation must be part of the parameter type")
    return views
  else if p = "storage" then do
    oneArg sec args (type .storable)
    return views
  else if p = "view" then
    match args with
    | some [.string name, param, ret, body] =>
      if views.contains name then .error (.michelsonValidationError ex (js "duplicate view name: " ++ name))
      else do
        assertViewNameValid name
        type .pushable param
        type .pushable ret
        codeBlock instruction body
        return name :: views
    | some [name, _, _, _] => do
      assertStringLiteral name fun _ => .ok ()
      return views
    | _ => do
      assertArgs sec args 4
      return views
  else .error (.michelsonValidationError ex (js "unexpected contract section: " ++ js p))

/-- `assertMichelsonContract`, of the sections after `sections` and `views`. -/
def contractSections (ex : Expr) : List String → List JSString → List Expr → Guard
  | _, _, [] => .ok ()
  | sections, views, .prim p args annots :: rest =>
    if p ≠ "view" ∧ sections.contains p then
      invalid ex (js "duplicate contract section: " ++ js p)
    else do
      let views ← contractSection instruction type ex (.prim p args annots) views p args annots
      contractSections ex (if p = "view" then sections else p :: sections) views rest
  | _, _, sec :: _ => invalid sec (js "prim expression expected")

end

mutual

/-- `assertMichelsonInstruction`, with a bound on its nesting. -/
def assertInstruction : ℕ → Expr → Guard
  | 0, _ => .error .outOfFuel
  | fuel + 1, ex =>
    match ex with
    | .seq items => instructionSequence (assertInstruction fuel) ex items
    | .prim p args _ =>
      instructionPrim (assertInstruction fuel) (assertData fuel) (assertContract fuel)
        (assertTypeCheck fuel) ex p args
    | _ => invalid ex (js "prim expression expected")

/-- `assertMichelsonData`, with a bound on its nesting. -/
def assertData : ℕ → Expr → Guard
  | 0, _ => .error .outOfFuel
  | fuel + 1, ex =>
    match ex with
    | .seq items => do
      forEach (dataEntry (assertData fuel)) items
      if items.any isElt && !items.all isElt then
        invalid ex (js "data entries and map elements can't be intermixed")
    | .prim p args _ =>
      dataPrim (assertInstruction fuel) (assertData fuel) (assertContract fuel)
        (assertTypeCheck fuel) ex p args
    | _ => .ok ()

/-- `assertMichelsonContract`, with a bound on its nesting. -/
def assertContract : ℕ → Expr → Guard
  | 0, _ => .error .outOfFuel
  | fuel + 1, ex =>
    assertSeq ex fun secs => contractSections (assertInstruction fuel) (assertTypeCheck fuel) ex [] [] secs

end

/-- `assertMichelsonInstruction`. -/
def assertMichelsonInstruction (ex : Expr) : Guard := assertInstruction ex.depth ex

/-- `assertMichelsonData`. -/
def assertMichelsonData (ex : Expr) : Guard := assertData ex.depth ex

/-- `assertMichelsonType`. -/
def assertMichelsonType (ex : Expr) : Guard := assertTypeCheck ex.depth .type ex

/-- `assertMichelsonComparableType`. -/
def assertMichelsonComparableType (ex : Expr) : Guard := assertTypeCheck ex.depth .comparable ex

/-- `assertMichelsonPackableType`. -/
def assertMichelsonPackableType (ex : Expr) : Guard := assertTypeCheck ex.depth .packable ex

/-- `assertMichelsonPushableType`. -/
def assertMichelsonPushableType (ex : Expr) : Guard := assertTypeCheck ex.depth .pushable ex

/-- `assertMichelsonStorableType`. -/
def assertMichelsonStorableType (ex : Expr) : Guard := assertTypeCheck ex.depth .storable ex

/-- `assertMichelsonPassableType`. -/
def assertMichelsonPassableType (ex : Expr) : Guard := assertTypeCheck ex.depth .passable ex

/-- `assertMichelsonBigMapStorableType`. -/
def assertMichelsonBigMapStorableType (ex : Expr) : Guard :=
  assertTypeCheck ex.depth .bigMapStorable ex

/-- The functions of the checks. -/
def TypeCheck.assert : TypeCheck → Expr → Guard
  | .type => assertMichelsonType
  | .comparable => assertMichelsonComparableType
  | .packable => assertMichelsonPackableType
  | .pushable => assertMichelsonPushableType
  | .storable => assertMichelsonStorableType
  | .passable => assertMichelsonPassableType
  | .bigMapStorable => assertMichelsonBigMapStorableType

/-- `assertMichelsonContract`. -/
def assertMichelsonContract (ex : Expr) : Guard := assertContract ex.depth ex

/-- `isInstruction`. -/
def isInstruction (p : String) : Bool := instructionIDs.contains p

/-- `assertDataListIfAny`, of the items of a list. -/
def assertDataItems (d : Expr) : List Expr → Guard
  | [] => .ok ()
  | .prim p _ _ :: vs =>
    if isInstruction p then .error (.michelsonError d (js "Instruction outside of a lambda"))
    else if p = "Elt" then .error (.michelsonError d (js "Elt item outside of a map literal"))
    else assertDataItems d vs
  | _ :: vs => assertDataItems d vs

/-- `assertDataListIfAny`; both messages end with the data. -/
def assertDataListIfAny (d : Expr) : Guard :=
  match d with
  | .seq items => assertDataItems d items
  | _ => .ok ()

end MichelCodec
