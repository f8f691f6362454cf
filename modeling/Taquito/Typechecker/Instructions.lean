import Taquito.Typechecker.StackTypes

/-!
# The instructions of the typechecker

The cases of `functionTypeInternal` for the instructions without code or data of their own: each
takes its arguments off the stack and puts annotated results on it. Instructions that differ in the
types of their arguments and result only are one definition with a table, as are the arithmetic
operations of two arguments.
-/

open Js MichelCodec

namespace Typechecker

open StackType

/-- `Context`. The absent context is the empty one, and `traceCallback` is left out. -/
structure Context where
  protocol : Option Protocol := none
  contract : Option StackType := none

/-- `ctx?.protocol || DefaultProtocol`. -/
def Context.proto (ctx : Context) : Protocol := ctx.protocol.getD DefaultProtocol

/-- An instruction. -/
structure Instruction where
  prim : String
  args : Option (List Expr)
  annots : Option (List JSString)

/-- The expression that it is. -/
def Instruction.expr (i : Instruction) : Expr := .prim i.prim i.args i.annots

/-- An instruction's own argument. -/
def Instruction.arg (i : Instruction) (k : ℕ) : Checked Expr :=
  match (i.args.getD [])[k]? with
  | some e => .ok e
  | none => undefinedType

/-- An instruction's own argument, as a type. -/
def Instruction.typeArg (i : Instruction) (k : ℕ) : Checked StackType := do
  return ofExpr (← i.arg k)

/-- `parseInt(e.int, 10)`. -/
def natOf (e : Expr) : Checked ℕ :=
  match e with
  | .int text =>
    match parseInt 10 text with
    | some (.ofNat n) => .ok n
    | _ => .error (.notNatural e)
  | _ => .error (.notNatural e)

/-- The count of an instruction, which has a default. -/
def Instruction.count (i : Instruction) (default : ℕ) : Checked ℕ :=
  match i.args with
  | none => .ok default
  | some _ => do natOf (← i.arg 0)

/-- `null` or an array of annotations, or `undefined`. -/
inductive Nullable where
  | undefined
  | null
  | list (l : List JSString)

/-- What is there, or `undefined`. -/
def Nullable.ofOption : Option (List JSString) → Nullable
  | none => .undefined
  | some l => .list l

/-- `(x === null ? src : x) || []`. -/
def Nullable.get (x : Nullable) (src : Option (List JSString)) : List JSString :=
  match x with
  | .undefined => []
  | .null => src.getD []
  | .list l => l

/-- It is not `undefined`. -/
def Nullable.isDefined : Nullable → Bool
  | .undefined => false
  | _ => true

/-- `Nullable<UnpackedAnnotations>`. -/
structure NullableAnnotations where
  f : Nullable := .undefined
  t : Nullable := .undefined
  v : Nullable := .undefined

/-- Annotations of an instruction, for its result. -/
def UnpackedAnnotations.nullable (a : UnpackedAnnotations) : NullableAnnotations :=
  ⟨.ofOption a.f, .ofOption a.t, .ofOption a.v⟩

/-- The numbers of annotations an instruction may have. -/
structure AnnotationCounts where
  f : ℕ := 0
  t : ℕ := 0
  v : ℕ := 0

/-- `{ ...rest, annots }`, without an empty list of annotations. An array becomes a pair. -/
def StackType.withAnnots (t : StackType) (ann : List JSString) : StackType :=
  let annots := if ann.isEmpty then none else some ann
  match t with
  | .seq items => .prim "pair" (some items) annots none
  | .prim p args _ refContract => .prim p args annots refContract
  | .spread items _ => .spread items annots
  | t => t

/-- `varSuffix`. -/
def varSuffix (a : UnpackedAnnotations) (suffix : JSString) : List JSString :=
  match a.v with
  | some l => [js "@" ++ (l.headD []).drop 1 ++ js "." ++ suffix]
  | none => [js "@" ++ suffix]

section

variable (i : Instruction) (stack : List StackType)

/-! ## Helpers -/

/-- `throw new MichelsonInstructionError(instruction, stack, message)`. -/
def refuse {α : Type} (message : JSString) : Checked α :=
  .error (.instructionError i.expr (.stack stack) message)

/-- `${instruction.prim}: message`. -/
def refusePrim {α : Type} (message : JSString) : Checked α :=
  refuse i stack (js i.prim ++ js ": " ++ message)

/-- `rethrow` and `rethrowTypeGuard`, of what is called. -/
def rethrow {α : Type} (x : Checked α) : Checked α :=
  match x with
  | .ok a => .ok a
  | .error e =>
    match e.michelsonMessage with
    | some message => refuse i stack message
    | none => .error e

/-- `argAnn`. -/
def argAnn (t : StackType) : Checked UnpackedAnnotations := rethrow i stack (unpackAnnotations t {})

/-- `ensureTypesEqual`. -/
def ensureTypesEqual (a b : StackType) : Checked Unit :=
  rethrow i stack (assertScalarTypesEqual a b false)

/-- `ensureStacksEqual`. -/
def ensureStacksEqual (a b : List StackType) : Checked Unit :=
  rethrow i stack (assertStacksEqual a b)

/-- `ensureComparableType`, `ensurePackableType`, ... -/
def ensure (k : TypeCheck) (t : StackType) : Checked Unit :=
  rethrow i stack (lift (k.assert t.erase))

/-- `args`: the stack is too short. -/
def tooFew {α : Type} (n : ℕ) : Checked α :=
  refusePrim i stack (js "stack must have at least " ++ natText n ++ js " element(s)")

/-- `args`, of one element. No identifiers admit every type. -/
def assertTypeID (n : ℕ) (ids : List String) (t : StackType) : Checked Unit :=
  if ids.isEmpty || ids.any fun id => t.typeID = some id then .ok ()
  else refusePrim i stack (js "stack type mismatch: [" ++ natText n ++ js "] expected to be " ++
    commaText (ids.map js) ++ js ", got " ++ idText t.typeID ++ js " instead")

/-- `args(n, ids)[0]`. -/
def argAt {α : Type} (n : ℕ) (ids : List String) (k : StackType → Checked α) : Checked α :=
  match stack[n]? with
  | some a => do
    assertTypeID i stack n ids a
    k a
  | none => tooFew i stack 1

/-- `args(0, ids)`, with the stack under the element. -/
def args1 {α : Type} (ids : List String) (k : StackType → List StackType → Checked α) : Checked α :=
  match stack with
  | a :: tail => do
    assertTypeID i stack 0 ids a
    k a tail
  | _ => tooFew i stack 1

/-- `args(0, ids, ids')`, with the stack under the elements. -/
def args2 {α : Type} (ids ids' : List String)
    (k : StackType → StackType → List StackType → Checked α) : Checked α :=
  match stack with
  | a :: b :: tail => do
    assertTypeID i stack 0 ids a
    assertTypeID i stack 1 ids' b
    k a b tail
  | _ => tooFew i stack 2

/-- `args(0, ids, ids', ids'')`, with the stack under the elements. -/
def args3 {α : Type} (ids ids' ids'' : List String)
    (k : StackType → StackType → StackType → List StackType → Checked α) : Checked α :=
  match stack with
  | a :: b :: c :: tail => do
    assertTypeID i stack 0 ids a
    assertTypeID i stack 1 ids' b
    assertTypeID i stack 2 ids'' c
    k a b c tail
  | _ => tooFew i stack 3

/-- `instructionAnn`. -/
def instructionAnn (num : AnnotationCounts) (opt : UnpackAnnotationsOptions) :
    Checked UnpackedAnnotations := do
  let a ← rethrow i stack (unpackAnnotations (ofExpr i.expr)
    { opt with emptyFields := 1 < num.f, emptyVar := 1 < num.v })
  let assertNum (a : Option (List JSString)) (n : ℕ) (type : String) : Checked Unit :=
    if n < (a.getD []).length then
      refusePrim i stack (js "at most " ++ natText n ++ js " " ++ js type ++
        js " annotations allowed")
    else .ok ()
  assertNum a.f num.f "field"
  assertNum a.t num.t "type"
  assertNum a.v num.v "variable"
  return a

/-- `annotate`. -/
def annotate (tt : StackType) (a : NullableAnnotations) : Checked StackType := do
  let src ← argAnn i stack tt
  if a.v.isDefined || a.t.isDefined || a.f.isDefined then
    return tt.withAnnots (a.v.get src.v ++ a.t.get src.t ++ a.f.get src.f)
  else return tt.withAnnots []

/-- `annotateVar`. -/
def annotateVar (t : StackType) (default : Option JSString) : Checked StackType := do
  let ia ← instructionAnn i stack { v := 1 } {}
  annotate i stack t
    { v := match ia.v, default with
        | some v, _ => .list v
        | none, some d => .list [d]
        | none, none => .null
      t := .null }

/-- A result on top of a stack. -/
def push (t : Checked StackType) (tail : List StackType) : Checked ReturnType := do
  return .stack ((← t) :: tail)

/-- The annotations of an instruction that has a type and a variable annotation, on its result. -/
def annotateResult (t : StackType) : Checked StackType := do
  let ia ← instructionAnn i stack { t := 1, v := 1 } {}
  annotate i stack t ia.nullable

/-- `va?.[n]`: a variable annotation that is not empty. -/
def varAt (ia : UnpackedAnnotations) (n : ℕ) : Nullable :=
  match (ia.v.getD [])[n]? with
  | some v => if v = js "@" then .undefined else .list [v]
  | none => .undefined

/-- The variable annotation of a field, from the annotation of the instruction. -/
def fieldVar (insVarAnn fieldAnn varAnn : Option JSString) (defField : JSString) : Nullable :=
  match insVarAnn with
  | none => .null
  | some ann =>
    if ann = js "@%" then
      match fieldAnn with
      | some f => .list [js "@" ++ f.drop 1]
      | none => .undefined
    else if ann = js "@%%" then
      match varAnn, fieldAnn with
      | some v, some f => .list [js "@" ++ v.drop 1 ++ js "." ++ f.drop 1]
      | some v, none => .list [js "@" ++ v.drop 1 ++ js "." ++ defField]
      | none, some f => .list [js "@" ++ f.drop 1]
      | none, none => .undefined
    else .list [ann]

/-- `annotateField`, from the annotations of the pair. -/
def annotateField (arg field : StackType) (insAnn : UnpackedAnnotations) (n : ℕ)
    (defField : JSString) : Checked StackType := do
  let fieldAnn := ((← argAnn i stack field).f.getD []).head?
  match (insAnn.f.getD [])[n]?, fieldAnn with
  | some insFieldAnn, some fieldAnn =>
    if insFieldAnn ≠ js "%" ∧ insFieldAnn ≠ fieldAnn then
      refusePrim i stack (js "field names doesn't match: " ++ insFieldAnn ++ js " !== " ++ fieldAnn)
  | _, _ => .ok ()
  let varAnn := ((← argAnn i stack arg).v.getD []).head?
  annotate i stack field
    { t := .null, v := fieldVar (insAnn.v.getD [])[n]? fieldAnn varAnn defField }

/-! ## Combs -/

/-- A comb has not enough components. -/
def tooFewFields {α : Type} (n : ℕ) : Checked α :=
  refusePrim i stack (js "at least " ++ natText n ++ js " fields are expected")

/-- `getN(src, n, i)`; `i` is never zero. -/
def getN (n : ℕ) : StackType → ℕ → Checked (List StackType)
  | _, 0 => tooFewFields i stack n
  | src, k + 1 => do
    let p ← unpackComb src
    if k = 0 then return [p.first]
    else if k = 1 then return [p.first, p.second]
    else if p.second.isPairType then return p.first :: (← getN n p.second k)
    else tooFewFields i stack n

/-- `getNth(src, n, i)`. -/
def getNth (n : ℕ) : StackType → ℕ → Checked StackType
  | src, 0 => return src
  | src, 1 => return (← unpackComb src).first
  | src, k + 2 => do
    let p ← unpackComb src
    if p.second.isPairType then getNth n p.second k
    else if k = 0 then return p.second
    else tooFewFields i stack (n + 1)

/-- `updateNth(src, x, n, i)`. -/
def updateNth (x : StackType) (n : ℕ) : StackType → ℕ → Checked StackType
  | _, 0 => return x
  | src, 1 => do
    let p ← unpackComb src
    return p.withArgs x p.second
  | src, k + 2 => do
    let p ← unpackComb src
    if p.second.isPairType then return p.withArgs p.first (← updateNth x n p.second k)
    else if k = 0 then return p.withArgs p.first x
    else tooFewFields i stack (n + 1)

/-- The name that a field annotation `%@` takes from a variable annotation. -/
def trim (s : JSString) : JSString :=
  let tail := (s.reverse.takeWhile (· ≠ 46)).reverse
  if tail.length + 1 < s.length then tail else s.drop 1

/-- The field annotation of a component of `PAIR`. -/
def pairField (ia va : UnpackedAnnotations) (k : ℕ) : Nullable :=
  match (ia.f.getD [])[k]? with
  | none => .undefined
  | some f =>
    if f = js "%" then .undefined
    else if f = js "%@" then
      match va.v with
      | some v => .list [js "%" ++ trim (v.headD [])]
      | none => .undefined
    else .list [f]

/-- The components of `PAIR`, from the `k`-th on. -/
def pairFields (ia : UnpackedAnnotations) : ℕ → List StackType → Checked (List StackType)
  | _, [] => .ok []
  | k, v :: s => do
    let va ← argAnn i stack v
    let field ← annotate i stack v { v := .null, t := .null, f := pairField ia va k }
    return field :: (← pairFields ia (k + 1) s)

/-- `PAIR`. -/
def typePAIR : Checked ReturnType := do
  let n ← i.count 2
  if n < 2 then refuse i stack (js "PAIR " ++ natText n ++ js " is forbidden")
  else if stack.length < n then tooFew i stack n
  else
    let ia ← instructionAnn i stack { f := n, t := 1, v := 1 } { specialFields := true }
    let retArgs ← pairFields i stack ia 0 (stack.take n)
    push (annotate i stack (ofPrim "pair" retArgs) { t := .ofOption ia.t, v := .ofOption ia.v })
      (stack.drop n)

/-- The components of `UNPAIR`, from the `k`-th on. -/
def unpairFields (arg : StackType) (ia : UnpackedAnnotations) :
    ℕ → List StackType → Checked (List StackType)
  | _, [] => .ok []
  | k, field :: s => do
    let field ← annotateField i stack arg field ia k (if k = 0 then js "car" else js "cdr")
    return field :: (← unpairFields arg ia (k + 1) s)

/-- `UNPAIR`. -/
def typeUNPAIR : Checked ReturnType := do
  let n ← i.count 2
  if n < 2 then refuse i stack (js "UNPAIR " ++ natText n ++ js " is forbidden")
  else args1 i stack ["pair"] fun s tail => do
    let ia ← instructionAnn i stack { f := 2, v := 2 } { specialVar := true }
    let fields ← getN i stack n s n
    return .stack ((← unpairFields i stack s ia 0 fields) ++ tail)

/-- `CAR` and `CDR`. -/
def typeField (second : Bool) : Checked ReturnType :=
  args1 i stack ["pair"] fun s tail => do
    let p ← unpackComb s
    let ia ← instructionAnn i stack { f := 1, v := 1 } { specialVar := true }
    push (annotateField i stack (p.withArgs p.first p.second) (if second then p.second else p.first)
      ia 0 (if second then js "cdr" else js "car")) tail

/-- `GET n`. -/
def typeGetNth (args : List Expr) : Checked ReturnType := do
  let n ← match args with
    | e :: _ => natOf e
    | [] => undefinedType
  args1 i stack ["pair"] fun s tail => do
    let field ← getNth i stack n s n
    push (annotateVar i stack field none) tail

/-- `UPDATE n`. -/
def typeUpdateNth (args : List Expr) : Checked ReturnType := do
  let n ← match args with
    | e :: _ => natOf e
    | [] => undefinedType
  args2 i stack [] ["pair"] fun x s tail => do
    let updated ← updateNth i stack x n s n
    push (annotateVar i stack updated none) tail

end

end Typechecker
