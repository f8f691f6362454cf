import Taquito.Lib.Reader
import Taquito.MichelCodec.Protocol
import Taquito.MichelCodec.Validator

/-!
# Types on the stack of the typechecker

The checker of `michelson-typecheck.ts` works on Micheline expressions with one addition: an address
type may carry, under the symbol `refContract`, the type of the contract it was taken from. A
`StackType` is such an expression. `erase` forgets the references, and `ofExpr` is an expression
without any.

Two types are compared by `assertScalarTypesEqual`, which takes pairs apart with `unpackComb` and
looks at the names that both types have. The recursions over a type are bounded by a fuel argument,
for which the weight of the type is enough.
-/

open Js MichelCodec

namespace Typechecker

/-- A type as the checker holds it, or another expression among its arguments. -/
inductive StackType where
  | int (text : JSString)
  | string (text : JSString)
  | bytes (hex : JSString)
  | seq (items : List StackType)
  | prim (prim : String) (args : Option (List StackType)) (annots : Option (List JSString))
      (refContract : Option StackType)
  /-- What spreading an array into an object gives: it may have annotations, and has no `prim`. -/
  | spread (items : List StackType) (annots : Option (List JSString))
  deriving Repr, Inhabited

namespace StackType

mutual

/-- An expression without references. -/
def ofExpr : Expr → StackType
  | .int text => .int text
  | .string text => .string text
  | .bytes hex => .bytes hex
  | .seq items => .seq (ofExprs items)
  | .prim p none annots => .prim p none annots none
  | .prim p (some args) annots => .prim p (some (ofExprs args)) annots none

/-- `ofExpr` of every member. -/
def ofExprs : List Expr → List StackType
  | [] => []
  | e :: es => ofExpr e :: ofExprs es

end

mutual

/-- The type as the validator sees it. A spread array is refused there like a literal. -/
def erase : StackType → Expr
  | .int text => .int text
  | .string text => .string text
  | .bytes hex => .bytes hex
  | .seq items => .seq (erases items)
  | .prim p none annots _ => .prim p none annots
  | .prim p (some args) annots _ => .prim p (some (erases args)) annots
  | .spread _ _ => .int []

/-- `erase` of every member. -/
def erases : List StackType → List Expr
  | [] => []
  | t :: ts => t.erase :: erases ts

end

mutual

/-- A bound on the nesting of a type whose combs are split into pairs. -/
def weight : StackType → ℕ
  | .seq items => weights items + 1
  | .prim _ (some args) _ _ => weights args + 1
  | _ => 1

/-- The sum over a list, counting its members. -/
def weights : List StackType → ℕ
  | [] => 0
  | t :: ts => t.weight + 1 + weights ts

end

/-- `t.prim`; `none` is `undefined`. -/
def primOf : StackType → Option String
  | .prim p _ _ _ => some p
  | _ => none

/-- `t.annots`. -/
def annots : StackType → Option (List JSString)
  | .prim _ _ annots _ => annots
  | .spread _ annots => annots
  | _ => none

/-- `typeID`; `none` is `undefined`. -/
def typeID : StackType → Option String
  | .seq _ => some "pair"
  | t => t.primOf

/-- `isPairType`. -/
def isPairType : StackType → Bool
  | .seq _ => true
  | .prim p _ _ _ => p == "pair"
  | _ => false

/-- A primitive without annotations. -/
def ofPrim (p : String) (args : List StackType) : StackType := .prim p (some args) none none

/-- A primitive without arguments and annotations. -/
def leaf (p : String) : StackType := .prim p none none none

end StackType

open StackType

/-! ## What the checker throws -/

/-- `MichelsonReturnType`: a stack, or the type of what the code fails with. -/
inductive ReturnType where
  | stack (types : List StackType)
  | failed (type : StackType) (level : ℕ)
  deriving Repr, Inhabited

/-- What the checker throws. Where a message ends with the JSON of data, the error carries the
data. -/
inductive CheckError where
  /-- `MichelsonError` and `MichelsonTypeError`, of types. -/
  | michelsonError (val : List StackType) (message : JSString)
  /-- The `MichelsonError` of a contract without a section. -/
  | missingSection (val : List StackType) (name : String)
  /-- `MichelsonTypeError`, of data. -/
  | dataError (val data : Expr) (message : JSString)
  | instructionError (val : Expr) (stackState : ReturnType) (message : JSString)
  /-- What a check of the validator or a utility throws. -/
  | thrown (e : MichelError)
  /-- The argument of an instruction is not a natural numeral: `parseInt` gives `NaN` or less than
  zero, and what follows from it is not modelled. -/
  | notNatural (val : Expr)
  deriving Repr

/-- The message of an instance of `MichelsonError`. -/
def CheckError.michelsonMessage : CheckError → Option JSString
  | .michelsonError _ message => some message
  | .missingSection _ name => some (js "missing contract section: " ++ js name)
  | .dataError _ _ message => some message
  | .instructionError _ _ message => some message
  | .thrown (.michelsonError _ message) => some message
  | .thrown (.michelsonValidationError _ message) => some message
  | .thrown (.michelsonTypeError _ _ expected) => some expected
  | _ => none

/-- A result of the checker. -/
abbrev Checked (α : Type) := Except CheckError α

/-- A result of the validator or a utility. -/
def lift {α : Type} (x : Except MichelError α) : Checked α := x.mapError .thrown

/-- `undefined` where an object is read. -/
def undefinedType {α : Type} : Checked α :=
  .error (.thrown (.typeError (js "Cannot read properties of undefined")))

/-- `String(x)`, where `none` is `undefined`. -/
def idText (p : Option String) : JSString := js (p.getD "undefined")

/-- `String(l)` of an array of strings. -/
def commaText : List JSString → JSString
  | [] => []
  | [s] => s
  | s :: l => s ++ js "," ++ commaText l

/-! ## Annotations -/

/-- `UnpackedAnnotations`: the annotations of fields, types and variables. -/
structure UnpackedAnnotations where
  f : Option (List JSString) := none
  t : Option (List JSString) := none
  v : Option (List JSString) := none
  deriving DecidableEq, Repr, Inhabited

/-- `UnpackAnnotationsOptions`. -/
structure UnpackAnnotationsOptions where
  specialVar : Bool := false
  emptyVar : Bool := false
  specialFields : Bool := false
  emptyFields : Bool := false

/-- `[_0-9a-zA-Z]` -/
def isAnnotationStart (c : UInt16) : Bool :=
  (97 ≤ c.toNat && c.toNat ≤ 122) || (65 ≤ c.toNat && c.toNat ≤ 90) || isDecimalDigit c || c = 95

/-- `[_0-9a-zA-Z.%@]` -/
def isAnnotationRest (c : UInt16) : Bool := isAnnotationStart c || c = 46 || c = 37 || c = 64

/-- `annRe.test`. -/
def annRe (s : JSString) : Bool :=
  s == js "@%" || s == js "@%%" || s == js "%@" ||
    match s with
    | c :: [] => c = 64 || c = 58 || c = 37
    | c :: d :: s => (c = 64 || c = 58 || c = 37) && isAnnotationStart d && s.all isAnnotationRest
    | [] => false

/-- `unpackAnnotations`, of one annotation; `none` is an unexpected one. -/
def unpackAnnotation (opt : UnpackAnnotationsOptions) (a : UnpackedAnnotations) (v : JSString) :
    Option UnpackedAnnotations :=
  if v.isEmpty then some a
  else if !annRe v || (!opt.specialVar && (v == js "@%" || v == js "@%%")) ||
      (!opt.specialFields && v == js "%@") then none
  else if v.head? = some 37 then
    some (if opt.emptyFields || 1 < v.length then { a with f := some (a.f.getD [] ++ [v]) } else a)
  else if v.head? = some 58 then
    some (if 1 < v.length then { a with t := some (a.t.getD [] ++ [v]) } else a)
  else
    some (if opt.emptyVar || 1 < v.length then { a with v := some (a.v.getD [] ++ [v]) } else a)

/-- `unpackAnnotations`, of the annotations after `a`; an error is the unexpected one. -/
def unpackAnnotationsFrom (opt : UnpackAnnotationsOptions) :
    UnpackedAnnotations → List JSString → Except JSString UnpackedAnnotations
  | a, [] => .ok a
  | a, v :: annots =>
    match unpackAnnotation opt a v with
    | some a => unpackAnnotationsFrom opt a annots
    | none => .error v

/-- `unpackAnnotations`. An array has no annotations. -/
def unpackAnnotations (p : StackType) (opt : UnpackAnnotationsOptions) :
    Checked UnpackedAnnotations :=
  match unpackAnnotationsFrom opt {} (p.annots.getD []) with
  | .ok a => .ok a
  | .error v =>
    .error (.michelsonError [p] (idText p.primOf ++ js ": unexpected annotation: " ++ v))

/-! ## Arguments -/

/-- `t.args[i]`. -/
def argOf (t : StackType) (i : ℕ) : Checked StackType :=
  match t with
  | .prim _ (some args) _ _ =>
    match args[i]? with
    | some a => .ok a
    | none => undefinedType
  | _ => undefinedType

/-- `typeArgs`, where they are read one after the other. -/
def typeArgs (t : StackType) : Checked (List StackType) :=
  match t with
  | .seq items => .ok items
  | .prim _ (some args) _ _ => .ok args
  | _ => undefinedType

/-- What `unpackComb('pair', t)` returns: a pair of two components. -/
structure Comb where
  first : StackType
  second : StackType
  annots : Option (List JSString)
  refContract : Option StackType

/-- `unpackComb`, of the components and what else the type has. A pair without components has
`undefined` for the first one, and its use throws. -/
def unpackArgs (args : List StackType) (annots : Option (List JSString))
    (refContract : Option StackType) : Checked Comb :=
  match args with
  | [a, b] => .ok ⟨a, b, none, none⟩
  | a :: rest => .ok ⟨a, ofPrim "pair" rest, annots, refContract⟩
  | [] => undefinedType

/-- `unpackComb('pair', t)`. -/
def unpackComb (t : StackType) : Checked Comb :=
  match t with
  | .seq items => unpackArgs items none none
  | .prim _ (some args) annots refContract => unpackArgs args annots refContract
  | _ => undefinedType

/-- `{ ...p, args: [a, b] }`. -/
def Comb.withArgs (p : Comb) (a b : StackType) : StackType :=
  .prim "pair" (some [a, b]) p.annots p.refContract

/-! ## Equality -/

/-- The names are equal, if both types have one. -/
def namesDiffer (a b : Option (List JSString)) : Bool :=
  match a, b with
  | some (x :: _), some (y :: _) => x != y
  | _, _ => false

/-- The memo size of a sapling type; `none` is `NaN`. -/
def memoSize (t : StackType) : Checked (Option ℤ) := do
  match ← argOf t 0 with
  | .int text => return parseInt 10 text
  | _ => return none

/-- `a.args[0].int` in a message. -/
def memoText (t : StackType) : JSString :=
  match argOf t 0 with
  | .ok (.int text) => text
  | _ => js "undefined"

/-- `MichelsonTypeError`, of a type. -/
def typeError {α : Type} (t : StackType) (message : JSString) : Checked α :=
  .error (.michelsonError [t] message)

section

variable (equal : StackType → StackType → Bool → Checked Unit)

/-- `assertScalarTypesEqual`, of the arguments. -/
def argumentsEqual (a b : StackType) : Checked Unit := do
  if a.isPairType then
    let aArgs ← unpackComb a
    let bArgs ← unpackComb b
    equal aArgs.first bArgs.first true
    equal aArgs.second bArgs.second true
  else
    let prim := a.primOf.getD ""
    if ["option", "list", "contract", "set", "ticket"].contains prim then
      equal (← argOf a 0) (← argOf b 0) false
    else if prim = "or" then
      equal (← argOf a 0) (← argOf b 0) true
      equal (← argOf a 1) (← argOf b 1) true
    else if ["lambda", "map", "big_map"].contains prim then
      equal (← argOf a 0) (← argOf b 0) false
      equal (← argOf a 1) (← argOf b 1) false
    else if ["sapling_state", "sapling_transaction"].contains prim then
      let x ← memoSize a
      let y ← memoSize b
      if x.isNone || x != y then
        typeError a (idText a.typeID ++ js ": type argument mismatch: " ++ memoText a ++ js " != " ++
          memoText b)

/-- `assertScalarTypesEqual`, of two types. -/
def typesEqual (a b : StackType) (field : Bool) : Checked Unit := do
  if a.typeID ≠ b.typeID then
    typeError a (js "types mismatch: " ++ idText a.typeID ++ js " != " ++ idText b.typeID)
  let x ← unpackAnnotations a {}
  let y ← unpackAnnotations b {}
  if namesDiffer x.t y.t then
    typeError a (idText a.typeID ++ js ": type names mismatch: " ++ (x.t.getD []).headD [] ++
      js " != " ++ (y.t.getD []).headD [])
  if field && namesDiffer x.f y.f then
    typeError a (idText a.typeID ++ js ": field names mismatch: " ++ (x.f.getD []).headD [] ++
      js " != " ++ commaText (y.f.getD []))
  argumentsEqual equal a b

end

/-- `assertScalarTypesEqual`, with a bound on the nesting of the first type. -/
def scalarTypesEqual : ℕ → StackType → StackType → Bool → Checked Unit
  | 0 => fun _ _ _ => .error (.thrown .outOfFuel)
  | fuel + 1 => typesEqual (scalarTypesEqual fuel)

/-- `assertScalarTypesEqual`. -/
def assertScalarTypesEqual (a b : StackType) (field : Bool) : Checked Unit :=
  scalarTypesEqual a.weight a b field

/-- `assertScalarTypesEqual`, of the types of two stacks in turn. -/
def eachEqual : List StackType → List StackType → Checked Unit
  | a :: as, b :: bs => do
    assertScalarTypesEqual a b false
    eachEqual as bs
  | _, _ => .ok ()

/-- `assertStacksEqual`. -/
def assertStacksEqual (a b : List StackType) : Checked Unit :=
  if a.length ≠ b.length then
    .error (.michelsonError a (js "stack length mismatch: " ++ natText a.length ++ js " != " ++
      natText b.length))
  else eachEqual a b

/-! ## The annotations of a type -/

/-- `check` of every member in turn. -/
def forEachType (check : StackType → Checked Unit) : List StackType → Checked Unit
  | [] => .ok ()
  | t :: ts => do
    check t
    forEachType check ts

/-- `assertTypeAnnotationsValid`, of the annotations of the type itself. -/
def ownAnnotationsValid (t : StackType) (field : Bool) : Checked Unit := do
  let ann ← unpackAnnotations t {}
  let shown := js ": " ++ commaText (t.annots.getD [])
  if 1 < (ann.t.getD []).length then
    typeError t (idText t.primOf ++ js ": at most one type annotation allowed" ++ shown)
  if field then
    if 1 < (ann.f.getD []).length then
      typeError t (idText t.primOf ++ js ": at most one field annotation allowed" ++ shown)
  else if 0 < (ann.f.getD []).length then
    typeError t (idText t.primOf ++ js ": field annotations aren't allowed" ++ shown)

/-- `assertTypeAnnotationsValid`, of the arguments. -/
def argAnnotationsValid (valid : StackType → Bool → Checked Unit) (t : StackType) :
    Checked Unit := do
  if t.isPairType then
    forEachType (valid · true) (← typeArgs t)
  else
    let prim := t.primOf.getD ""
    if ["option", "list", "contract", "set"].contains prim then
      valid (← argOf t 0) false
    else if prim = "or" then
      forEachType (valid · true) (← typeArgs t)
    else if ["lambda", "map", "big_map"].contains prim then
      valid (← argOf t 0) false
      valid (← argOf t 1) false

/-- `assertTypeAnnotationsValid`, with a bound on the nesting of the type. -/
def typeAnnotationsValid : ℕ → StackType → Bool → Checked Unit
  | 0, _, _ => .error (.thrown .outOfFuel)
  | fuel + 1, t, field => do
    match t with
    | .seq _ => .ok ()
    | t => ownAnnotationsValid t field
    argAnnotationsValid (typeAnnotationsValid fuel) t

/-- `assertTypeAnnotationsValid`. -/
def assertTypeAnnotationsValid (t : StackType) (field : Bool) : Checked Unit :=
  typeAnnotationsValid t.weight t field

/-! ## Sections and entrypoints -/

/-- The sections that a `for` loop over a contract visits. -/
def sectionsOf (contract : StackType) : Checked (List StackType) :=
  match contract with
  | .seq sections => .ok sections
  | _ => undefinedType

/-- The first member with a given primitive. -/
def findSection (section' : String) : List StackType → Option StackType
  | [] => none
  | s :: ss => if s.primOf = some section' then some s else findSection section' ss

/-- `contractSection`. -/
def contractSection (contract : List StackType) (section' : String) : Checked StackType :=
  match findSection section' contract with
  | some s => .ok s
  | none => .error (.missingSection contract section')

/-- `isContract`. -/
def isContract : StackType → Bool
  | .seq items => items.any fun s =>
    s.primOf = some "parameter" || s.primOf = some "storage" || s.primOf = some "code"
  | _ => false

/-- `isOrType`. -/
def isOrType : StackType → Bool
  | .seq _ => true
  | .prim p _ _ _ => p == "or"
  | _ => false

/-- An entrypoint of a contract: its name and its type. -/
abbrev EntryPoints := List (JSString × StackType)

/-- The first of some annotations, as the name of a type. -/
def named (f : Option (List JSString)) (t : StackType) : EntryPoints :=
  match f with
  | some (name :: _) => [(name, t)]
  | _ => []

/-- `getArg`, of one side of an `or`. -/
def sideEntryPoints (entryPoints : StackType → Checked EntryPoints) (arg : Option StackType) :
    Checked EntryPoints := do
  match arg with
  | none => undefinedType
  | some arg =>
    let a ← unpackAnnotations arg {}
    let ch ← if arg.typeID = some "or" then entryPoints arg else .ok []
    return named a.f arg ++ ch

/-- `contractEntryPoints`, with a bound on the nesting. -/
def entryPointsOf : ℕ → StackType → Checked EntryPoints
  | 0, _ => .error (.thrown .outOfFuel)
  | fuel + 1, src => do
    if isContract src then
      let param ← contractSection (← sectionsOf src) "parameter"
      let type ← argOf param 0
      let ch ← entryPointsOf fuel type
      let a ← unpackAnnotations param {}
      return named a.f type ++ ch
    else if isOrType src then
      let args ← typeArgs src
      let left ← sideEntryPoints (entryPointsOf fuel) args[0]?
      let right ← sideEntryPoints (entryPointsOf fuel) args[1]?
      return left ++ right
    else return []

/-- `contractEntryPoints`. -/
def contractEntryPoints (src : StackType) : Checked EntryPoints := entryPointsOf src.weight src

/-- `contractEntryPoint`; `none` is `null`. -/
def contractEntryPoint (src : StackType) (ep : Option JSString) : Checked (Option StackType) := do
  let ep := ep.getD (js "%default")
  let entryPoints ← contractEntryPoints src
  match entryPoints.find? fun x => x.1 = ep with
  | some x => return some x.2
  | none =>
    if ep = js "%default" then
      if isContract src then
        let param ← contractSection (← sectionsOf src) "parameter"
        return some (← argOf param 0)
      else return some src
    else return none

end Typechecker
