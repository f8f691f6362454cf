import Taquito.Lib.Outcomes
import Taquito.Michelson.Values

/-!
# The semantics of Michelson

A definitional interpreter for code on values: `exec` runs code on a stack and gives the stack after
it, or stops. It stops because the code failed with a value, because the stack or a value is not what
the instruction needs (it is `stuck`), or because the bound on the depth of the evaluation is
reached. `step` is one instruction, with the evaluation of code as a parameter.

The instructions are those for stacks, pairs, options, unions, collections, functions and control.
All others are stuck here.
-/

open Js MichelCodec

namespace Michelson

/-- Why an evaluation stops. -/
inductive Halt where
  | failed (v : Value)
  | stuck
  | outOfFuel
  deriving Repr

/-- An evaluation. -/
abbrev Run (α : Type) := Except Halt α

/-- What is there, or the machine is stuck. -/
def orStuck {α : Type} : Option α → Run α
  | some a => .ok a
  | none => .error .stuck

/-- A number in code. -/
def numeral : Expr → Option ℕ
  | .int text =>
    match parseInt 10 text with
    | some (.ofNat n) => some n
    | _ => none
  | _ => none

/-- The number of an instruction, which has a default. -/
def countOf (args : Option (List Expr)) (default : ℕ) : Run ℕ :=
  match args with
  | none => .ok default
  | some args => do numeral (← orStuck args[0]?) |> orStuck

/-- An argument of an instruction. -/
def argument (args : Option (List Expr)) (k : ℕ) : Run Expr := orStuck (args.getD [])[k]?

/-! ## Stacks, pairs and constructors -/

/-- `DUP n`. -/
def stepDUP (args : Option (List Expr)) (stack : List Value) : Run (List Value) := do
  let n ← countOf args 1
  if n = 0 then .error .stuck else return (← orStuck stack[n - 1]?) :: stack

/-- `SWAP`. -/
def stepSWAP : List Value → Run (List Value)
  | a :: b :: stack => .ok (b :: a :: stack)
  | _ => .error .stuck

/-- `DROP n`. -/
def stepDROP (args : Option (List Expr)) (stack : List Value) : Run (List Value) := do
  let n ← countOf args 1
  if stack.length < n then .error .stuck else return stack.drop n

/-- `DIG n`. -/
def stepDIG (args : Option (List Expr)) (stack : List Value) : Run (List Value) := do
  let n ← orStuck (numeral (← argument args 0))
  return (← orStuck stack[n]?) :: (stack.take n ++ stack.drop (n + 1))

/-- `DUG n`: the top goes under `n` others. -/
def stepDUG (args : Option (List Expr)) (stack : List Value) : Run (List Value) := do
  let n ← orStuck (numeral (← argument args 0))
  match stack with
  | a :: stack =>
    if stack.length < n then .error .stuck else return stack.take n ++ a :: stack.drop n
  | [] => .error .stuck

/-- `PAIR n`. -/
def stepPAIR (args : Option (List Expr)) (stack : List Value) : Run (List Value) := do
  let n ← countOf args 2
  if stack.length < n then .error .stuck
  else return (← orStuck (combValue (stack.take n))) :: stack.drop n

/-- `UNPAIR n`. -/
def stepUNPAIR (args : Option (List Expr)) (stack : List Value) : Run (List Value) := do
  let n ← countOf args 2
  match stack with
  | v :: stack => return (← orStuck (v.parts n)) ++ stack
  | [] => .error .stuck

/-- `CAR` and `CDR`. -/
def stepField (second : Bool) : List Value → Run (List Value)
  | .pair a b :: stack => .ok ((if second then b else a) :: stack)
  | _ => .error .stuck

/-- An instruction that wraps the top. -/
def stepWrap (wrap : Value → Value) : List Value → Run (List Value)
  | a :: stack => .ok (wrap a :: stack)
  | [] => .error .stuck

/-- `CONS`. -/
def stepCONS : List Value → Run (List Value)
  | a :: .list items :: stack => .ok (.list (a :: items) :: stack)
  | _ => .error .stuck

/-- `APPLY`. -/
def stepAPPLY : List Value → Run (List Value)
  | a :: .lambda code :: stack => .ok (.applied (.lambda code) a :: stack)
  | a :: .applied f c :: stack => .ok (.applied (.applied f c) a :: stack)
  | _ => .error .stuck

/-- `FAILWITH`. -/
def stepFAILWITH : List Value → Run (List Value)
  | v :: _ => .error (.failed v)
  | [] => .error .stuck

/-- `PUSH`. -/
def stepPUSH (args : Option (List Expr)) (stack : List Value) : Run (List Value) := do
  let t ← orStuck (tyOf (← argument args 0))
  return (← orStuck (readValue t (← argument args 1))) :: stack

/-! ## Collections -/

section

variable (order : String → Expr → Expr → Ordering)

/-- The integer that `COMPARE` gives. -/
def orderValue : Ordering → Value
  | .lt => .atom "int" (.int (js "-1"))
  | .eq => .atom "int" (.int (js "0"))
  | .gt => .atom "int" (.int (js "1"))

/-- `COMPARE`. -/
def stepCOMPARE : List Value → Run (List Value)
  | a :: b :: stack => do return orderValue (← orStuck (compareValues order a b)) :: stack
  | _ => .error .stuck

/-- `MEM`. -/
def stepMEM : List Value → Run (List Value)
  | k :: .set items :: stack => do
    return .bool (← orStuck (locate order id k items)).2.1.isSome :: stack
  | k :: .map entries :: stack => do
    return .bool (← orStuck (locate order Prod.fst k entries)).2.1.isSome :: stack
  | _ => .error .stuck

/-- A value that may be missing. -/
def optionValue : Option Value → Value
  | some v => .just v
  | none => .nothing

/-- `GET`. -/
def stepGET (args : Option (List Expr)) (stack : List Value) : Run (List Value) :=
  match args, stack with
  | some args, v :: stack => do
    let n ← orStuck (numeral (← orStuck args[0]?))
    return (← orStuck (v.nth n)) :: stack
  | none, k :: .map entries :: stack => do
    let found ← orStuck (locate order Prod.fst k entries)
    return optionValue (found.2.1.map Prod.snd) :: stack
  | _, _ => .error .stuck

/-- `UPDATE`. -/
def stepUPDATE (args : Option (List Expr)) (stack : List Value) : Run (List Value) :=
  match args, stack with
  | some args, x :: v :: stack => do
    let n ← orStuck (numeral (← orStuck args[0]?))
    return (← orStuck (x.setNth v n)) :: stack
  | none, k :: .bool b :: .set items :: stack => do
    let found ← orStuck (locate order id k items)
    return .set (found.1 ++ (if b then [k] else []) ++ found.2.2) :: stack
  | none, k :: .just v :: .map entries :: stack => do
    let found ← orStuck (locate order Prod.fst k entries)
    return .map (found.1 ++ (k, v) :: found.2.2) :: stack
  | none, k :: .nothing :: .map entries :: stack => do
    let found ← orStuck (locate order Prod.fst k entries)
    return .map (found.1 ++ found.2.2) :: stack
  | _, _ => .error .stuck

/-! ## Code -/

variable (exec : Expr → List Value → Run (List Value))

/-- The instruction itself, once more. -/
def again (p : String) (args : Option (List Expr)) (stack : List Value) : Run (List Value) :=
  exec (.prim p args none) stack

/-- `DIP n`. -/
def stepDIP (args : Option (List Expr)) (stack : List Value) : Run (List Value) := do
  let two := (args.getD []).length = 2
  let n ← if two then do orStuck (numeral (← argument args 0)) else .ok 1
  if stack.length < n then .error .stuck
  else return stack.take n ++ (← exec (← argument args (if two then 1 else 0)) (stack.drop n))

/-- `IF_NONE`. -/
def stepIF_NONE (args : Option (List Expr)) : List Value → Run (List Value)
  | .nothing :: stack => do exec (← argument args 0) stack
  | .just a :: stack => do exec (← argument args 1) (a :: stack)
  | _ => .error .stuck

/-- `IF_LEFT`. -/
def stepIF_LEFT (args : Option (List Expr)) : List Value → Run (List Value)
  | .left a :: stack => do exec (← argument args 0) (a :: stack)
  | .right b :: stack => do exec (← argument args 1) (b :: stack)
  | _ => .error .stuck

/-- `IF_CONS`. -/
def stepIF_CONS (args : Option (List Expr)) : List Value → Run (List Value)
  | .list (a :: items) :: stack => do exec (← argument args 0) (a :: .list items :: stack)
  | .list [] :: stack => do exec (← argument args 1) stack
  | _ => .error .stuck

/-- `IF`. -/
def stepIF (args : Option (List Expr)) : List Value → Run (List Value)
  | .bool b :: stack => do exec (← argument args (if b then 0 else 1)) stack
  | _ => .error .stuck

/-- `LOOP`. -/
def stepLOOP (args : Option (List Expr)) : List Value → Run (List Value)
  | .bool true :: stack => do again exec "LOOP" args (← exec (← argument args 0) stack)
  | .bool false :: stack => .ok stack
  | _ => .error .stuck

/-- `LOOP_LEFT`. -/
def stepLOOP_LEFT (args : Option (List Expr)) : List Value → Run (List Value)
  | .left a :: stack => do again exec "LOOP_LEFT" args (← exec (← argument args 0) (a :: stack))
  | .right b :: stack => .ok (b :: stack)
  | _ => .error .stuck

/-- The elements that a loop over a collection visits. -/
def elements : Value → Option (List Value)
  | .list items => some items
  | .set items => some items
  | .map entries => some (entries.map fun e => .pair e.1 e.2)
  | _ => none

/-- `ITER`. -/
def stepITER (args : Option (List Expr)) : List Value → Run (List Value)
  | v :: stack => do
    let items ← orStuck (elements v)
    let body ← argument args 0
    items.foldlM (fun s a => exec body (a :: s)) stack
  | [] => .error .stuck

/-- The top of a stack, with the rest. -/
def popped : List Value → Run (Value × List Value)
  | a :: stack => .ok (a, stack)
  | [] => .error .stuck

/-- The body of `MAP` for every element in turn: the results, with the stack that is left. -/
def mapElements (body : Expr) : List Value → List Value → Run (List Value × List Value)
  | [], stack => .ok ([], stack)
  | a :: items, stack => do
    let first ← popped (← exec body (a :: stack))
    let rest ← mapElements body items first.2
    return (first.1 :: rest.1, rest.2)

/-- `MAP`. -/
def stepMAP (args : Option (List Expr)) : List Value → Run (List Value)
  | .list items :: stack => do
    let out ← mapElements exec (← argument args 0) items stack
    return .list out.1 :: out.2
  | .map entries :: stack => do
    let out ← mapElements exec (← argument args 0) (entries.map fun e => .pair e.1 e.2) stack
    return .map ((entries.map Prod.fst).zip out.1) :: out.2
  | .nothing :: stack => .ok (.nothing :: stack)
  | .just a :: stack => do
    let out ← popped (← exec (← argument args 0) (a :: stack))
    return .just out.1 :: out.2
  | _ => .error .stuck

/-- The code of a function, with its whole argument. -/
def unapplied : Value → Value → Option (Expr × Value)
  | .lambda code, a => some (code, a)
  | .applied f c, a => unapplied f (.pair c a)
  | _, _ => none

/-- `EXEC`. -/
def stepEXEC : List Value → Run (List Value)
  | a :: f :: stack => do
    let call ← orStuck (unapplied f a)
    match ← exec call.1 [call.2] with
    | [r] => return r :: stack
    | _ => .error .stuck
  | _ => .error .stuck

/-- One instruction. -/
def step (p : String) (args : Option (List Expr)) (stack : List Value) : Run (List Value) :=
  match p with
  | "DUP" => stepDUP args stack
  | "SWAP" => stepSWAP stack
  | "DROP" => stepDROP args stack
  | "DIG" => stepDIG args stack
  | "DUG" => stepDUG args stack
  | "DIP" => stepDIP exec args stack
  | "PAIR" => stepPAIR args stack
  | "UNPAIR" => stepUNPAIR args stack
  | "CAR" => stepField false stack
  | "CDR" => stepField true stack
  | "LEFT" => stepWrap .left stack
  | "RIGHT" => stepWrap .right stack
  | "SOME" => stepWrap .just stack
  | "NONE" => .ok (.nothing :: stack)
  | "NIL" => .ok (.list [] :: stack)
  | "EMPTY_SET" => .ok (.set [] :: stack)
  | "EMPTY_MAP" => .ok (.map [] :: stack)
  | "UNIT" => .ok (.atom "unit" (.prim "Unit" none none) :: stack)
  | "CONS" => stepCONS stack
  | "COMPARE" => stepCOMPARE order stack
  | "MEM" => stepMEM order stack
  | "GET" => stepGET order args stack
  | "UPDATE" => stepUPDATE order args stack
  | "IF_NONE" => stepIF_NONE exec args stack
  | "IF_LEFT" => stepIF_LEFT exec args stack
  | "IF_CONS" => stepIF_CONS exec args stack
  | "IF" => stepIF exec args stack
  | "LOOP" => stepLOOP exec args stack
  | "LOOP_LEFT" => stepLOOP_LEFT exec args stack
  | "ITER" => stepITER exec args stack
  | "MAP" => stepMAP exec args stack
  | "LAMBDA" => do return .lambda (← argument args 2) :: stack
  | "EXEC" => stepEXEC exec stack
  | "APPLY" => stepAPPLY stack
  | "PUSH" => stepPUSH args stack
  | "FAILWITH" => stepFAILWITH stack
  | "RENAME" => .ok stack
  | "CAST" => .ok stack
  | _ => .error .stuck

end

/-- The evaluation of code, with a bound on its depth. -/
def exec (order : String → Expr → Expr → Ordering) : ℕ → Expr → List Value → Run (List Value)
  | 0, _, _ => .error .outOfFuel
  | fuel + 1, .seq items, stack => items.foldlM (fun s e => exec order fuel e s) stack
  | fuel + 1, .prim p args _, stack => step order (exec order fuel) p args stack
  | _ + 1, _, _ => .error .stuck

end Michelson
