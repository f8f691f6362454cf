import Taquito.MichelCodec.Utils

/-!
# Types and values of Michelson

What the checker is about: a type of Michelson without names and without the forms of its combs, the
values of these types, and the operations of the machine on values. A value of a base type is a
literal of that type, and how two such values compare is a parameter, as is which literals a base
type has. The code of a lambda is kept as it is written.

`tyOf` reads a type from an expression, `readValue` a value of a type from data.
-/

open Js MichelCodec

namespace Michelson

/-! ## Types -/

/-- The types of one argument. -/
inductive Unary where
  | option | list | set | contract | ticket
  deriving DecidableEq, Repr

/-- The types of two arguments other than pairs. -/
inductive Binary where
  | or | map | bigMap | lambda
  deriving DecidableEq, Repr

/-- The primitive of a type of one argument. -/
def Unary.ofName : String → Option Unary
  | "option" => some .option
  | "list" => some .list
  | "set" => some .set
  | "contract" => some .contract
  | "ticket" => some .ticket
  | _ => none

/-- The primitive of a type of two arguments. -/
def Binary.ofName : String → Option Binary
  | "or" => some .or
  | "map" => some .map
  | "big_map" => some .bigMap
  | "lambda" => some .lambda
  | _ => none

/-- A type. The other arguments of a base type, such as a memo size, are left out. -/
inductive Ty where
  | atom (p : String)
  | pair (a b : Ty)
  | unary (u : Unary) (a : Ty)
  | binary (u : Binary) (a b : Ty)
  deriving DecidableEq, Repr

/-- A primitive of a base type. -/
def isAtom (p : String) : Bool :=
  p != "pair" && (Unary.ofName p).isNone && (Binary.ofName p).isNone

/-- A comb of types. -/
def combTy : List Ty → Option Ty
  | [] => none
  | [_] => none
  | [a, b] => some (.pair a b)
  | a :: rest => do return .pair a (← combTy rest)

/-- A type of some arguments. -/
def typeOfArgs (p : String) (args : List Ty) : Option Ty :=
  if p = "pair" then combTy args
  else
    match Unary.ofName p, args with
    | some u, a :: _ => some (.unary u a)
    | _, _ =>
      match Binary.ofName p, args with
      | some u, a :: b :: _ => some (.binary u a b)
      | _, _ => none

mutual

/-- The type that an expression denotes. -/
def tyOf : Expr → Option Ty
  | .seq items => do combTy (← tysOf items)
  | .prim p none _ => if isAtom p then some (.atom p) else none
  | .prim p (some args) _ =>
    if isAtom p then some (.atom p) else do typeOfArgs p (← tysOf args)
  | _ => none

/-- The types that some expressions denote. -/
def tysOf : List Expr → Option (List Ty)
  | [] => some []
  | e :: es => do return (← tyOf e) :: (← tysOf es)

end

/-- The base types whose values are compared. -/
def comparableAtoms : List String :=
  ["unit", "never", "bool", "int", "nat", "string", "chain_id", "bytes", "mutez", "key_hash", "key",
    "signature", "timestamp", "address", "tx_rollup_l2_address"]

/-- The types whose values are compared. -/
def Ty.isComparable : Ty → Bool
  | .atom p => comparableAtoms.contains p
  | .pair a b => a.isComparable && b.isComparable
  | .unary .option a => a.isComparable
  | .binary .or a b => a.isComparable && b.isComparable
  | _ => false

/-- The types whose values code can hold. -/
def Ty.isPushable : Ty → Bool
  | .atom p => p != "operation" && p != "sapling_state"
  | .pair a b => a.isPushable && b.isPushable
  | .unary u a => u != .contract && u != .ticket && a.isPushable
  | .binary .lambda _ _ => true
  | .binary u a b => u != .bigMap && a.isPushable && b.isPushable

/-! ## Values -/

/-- A value. -/
inductive Value where
  | bool (b : Bool)
  /-- A value of another base type, by a literal. -/
  | atom (p : String) (literal : Expr)
  | pair (a b : Value)
  | left (a : Value)
  | right (b : Value)
  | nothing
  | just (a : Value)
  | list (items : List Value)
  | set (items : List Value)
  | map (entries : List (Value × Value))
  | lambda (code : Expr)
  /-- A lambda that was given the first component of its argument. -/
  | applied (f a : Value)
  /-- A contract or a ticket, which the machine hands out. -/
  | handle (id : Expr)
  deriving Repr, Inhabited

section

variable (isLiteral : String → Expr → Prop) (typed : Expr → Ty → Ty → Prop)

/-- The values of a type, given the literals of the base types and the code from one type to
another. -/
inductive HasType : Value → Ty → Prop
  | bool (b : Bool) : HasType (.bool b) (.atom "bool")
  | atom {p : String} {literal : Expr} (other : p ≠ "bool") (h : isLiteral p literal) :
    HasType (.atom p literal) (.atom p)
  | pair {a b : Value} {A B : Ty} (ha : HasType a A) (hb : HasType b B) :
    HasType (.pair a b) (.pair A B)
  | left {a : Value} {A B : Ty} (ha : HasType a A) : HasType (.left a) (.binary .or A B)
  | right {b : Value} {A B : Ty} (hb : HasType b B) : HasType (.right b) (.binary .or A B)
  | nothing {A : Ty} : HasType .nothing (.unary .option A)
  | just {a : Value} {A : Ty} (ha : HasType a A) : HasType (.just a) (.unary .option A)
  | list {items : List Value} {A : Ty} (h : ∀ a ∈ items, HasType a A) :
    HasType (.list items) (.unary .list A)
  | set {items : List Value} {A : Ty} (h : ∀ a ∈ items, HasType a A) :
    HasType (.set items) (.unary .set A)
  | map {u : Binary} {entries : List (Value × Value)} {A B : Ty} (hu : u = .map ∨ u = .bigMap)
    (hk : ∀ e ∈ entries, HasType e.1 A) (hv : ∀ e ∈ entries, HasType e.2 B) :
    HasType (.map entries) (.binary u A B)
  | lambda {code : Expr} {A B : Ty} (h : typed code A B) : HasType (.lambda code) (.binary .lambda A B)
  | applied {f c : Value} {C A B : Ty} (hf : HasType f (.binary .lambda (.pair C A) B))
    (hc : HasType c C) : HasType (.applied f c) (.binary .lambda A B)
  | handle {u : Unary} {id : Expr} {A : Ty} (hu : u = .contract ∨ u = .ticket) :
    HasType (.handle id) (.unary u A)

end

/-! ## Combs -/

/-- The component that `GET n` reads. -/
def Value.nth : Value → ℕ → Option Value
  | v, 0 => some v
  | .pair a _, 1 => some a
  | .pair _ b, n + 2 => b.nth n
  | _, _ => none

/-- The value after `UPDATE n`. -/
def Value.setNth (x : Value) : Value → ℕ → Option Value
  | _, 0 => some x
  | .pair _ b, 1 => some (.pair x b)
  | .pair a b, n + 2 => do return .pair a (← x.setNth b n)
  | _, _ => none

/-- The components that `UNPAIR n` takes apart. -/
def Value.parts : Value → ℕ → Option (List Value)
  | .pair a b, 2 => some [a, b]
  | .pair a b, n + 1 => do return a :: (← b.parts n)
  | _, _ => none

/-- The comb that `PAIR n` builds. -/
def combValue : List Value → Option Value
  | [] => none
  | [_] => none
  | [a, b] => some (.pair a b)
  | a :: rest => do return .pair a (← combValue rest)

/-! ## Order and collections -/

section

variable (order : String → Expr → Expr → Ordering)

/-- The order of two values of a comparable type. -/
def compareValues : Value → Value → Option Ordering
  | .bool a, .bool b => some (compare a b)
  | .atom p a, .atom q b => if p = q ∧ comparableAtoms.contains p then some (order p a b) else none
  | .pair a b, .pair a' b' => do return (← compareValues a a').then (← compareValues b b')
  | .left a, .left a' => compareValues a a'
  | .left _, .right _ => some .lt
  | .right _, .left _ => some .gt
  | .right b, .right b' => compareValues b b'
  | .nothing, .nothing => some .eq
  | .nothing, .just _ => some .lt
  | .just _, .nothing => some .gt
  | .just a, .just a' => compareValues a a'
  | _, _ => none

/-- Where a key stands in an ordered collection: what is before it, what has it, and the rest. -/
def locate {α : Type} (key : α → Value) (k : Value) : List α → Option (List α × Option α × List α)
  | [] => some ([], none, [])
  | x :: xs => do
    match ← compareValues order k (key x) with
    | .lt => return ([], none, x :: xs)
    | .eq => return ([], some x, xs)
    | .gt =>
      let found ← locate key k xs
      return (x :: found.1, found.2.1, found.2.2)

end

/-! ## Values of comparable types -/

section

variable {isLiteral : String → Expr → Prop} {typed : Expr → Ty → Ty → Prop}
  (order : String → Expr → Expr → Ordering)

/-- Two values of a comparable type are compared. -/
theorem compareValues_of_hasType {A : Ty} (hA : A.isComparable = true) {a b : Value}
    (ha : HasType isLiteral typed a A) (hb : HasType isLiteral typed b A) :
    ∃ o, compareValues order a b = some o := by
  induction A generalizing a b with
  | atom p =>
    cases ha with
    | bool x =>
      cases hb with
      | bool y => exact ⟨_, rfl⟩
      | atom other => exact absurd rfl other
    | atom other =>
      cases hb with
      | bool y => exact absurd rfl other
      | atom => exact ⟨_, if_pos ⟨rfl, hA⟩⟩
  | pair A B ihA ihB =>
    rw [Ty.isComparable, Bool.and_eq_true] at hA
    cases ha with
    | pair ha₁ ha₂ =>
      cases hb with
      | pair hb₁ hb₂ =>
        obtain ⟨o, ho⟩ := ihA hA.1 ha₁ hb₁
        obtain ⟨o', ho'⟩ := ihB hA.2 ha₂ hb₂
        exact ⟨o.then o', by rw [compareValues, ho, ho']; rfl⟩
  | unary u A ih =>
    cases u with
    | option =>
      cases ha with
      | nothing =>
        cases hb with
        | nothing => exact ⟨_, rfl⟩
        | just hb => exact ⟨_, rfl⟩
        | handle hu => cases hu <;> contradiction
      | just ha =>
        cases hb with
        | nothing => exact ⟨_, rfl⟩
        | just hb =>
          obtain ⟨o, ho⟩ := ih hA ha hb
          exact ⟨o, ho⟩
        | handle hu => cases hu <;> contradiction
      | handle hu => cases hu <;> contradiction
    | _ => cases hA
  | binary u A B ihA ihB =>
    cases u with
    | or =>
      rw [Ty.isComparable, Bool.and_eq_true] at hA
      cases ha with
      | left ha =>
        cases hb with
        | left hb =>
          obtain ⟨o, ho⟩ := ihA hA.1 ha hb
          exact ⟨o, ho⟩
        | right hb => exact ⟨_, rfl⟩
        | map hu => cases hu <;> contradiction
      | right ha =>
        cases hb with
        | left hb => exact ⟨_, rfl⟩
        | right hb =>
          obtain ⟨o, ho⟩ := ihB hA.2 ha hb
          exact ⟨o, ho⟩
        | map hu => cases hu <;> contradiction
      | map hu => cases hu <;> contradiction
    | _ => cases hA

/-- A key of a comparable type has its place in a collection, made of elements of the collection. -/
theorem locate_of_hasType {α : Type} (key : α → Value) {A : Ty} (hA : A.isComparable = true)
    {k : Value} (hk : HasType isLiteral typed k A) {l : List α}
    (hl : ∀ x ∈ l, HasType isLiteral typed (key x) A) :
    ∃ before found after, locate order key k l = some (before, found, after) ∧
      (∀ x ∈ before, x ∈ l) ∧ (∀ x ∈ found, x ∈ l) ∧ ∀ x ∈ after, x ∈ l := by
  induction l with
  | nil => exact ⟨[], none, [], rfl, fun x hx => hx, fun x hx => (by cases hx), fun x hx => hx⟩
  | cons x l ih =>
    obtain ⟨hx, hl⟩ := List.forall_mem_cons.mp hl
    obtain ⟨o, ho⟩ := compareValues_of_hasType order hA hk hx
    obtain ⟨before, found, after, hloc, hb, hf, ha⟩ := ih hl
    cases o with
    | lt =>
      exact ⟨[], none, x :: l, by rw [locate, ho]; rfl, fun y hy => (by cases hy),
        fun y hy => (by cases hy), fun y hy => hy⟩
    | eq =>
      refine ⟨[], some x, l, by rw [locate, ho]; rfl, fun y hy => (by cases hy), fun y hy => ?_,
        fun y hy => List.mem_cons_of_mem x hy⟩
      cases hy
      exact List.mem_cons_self
    | gt =>
      have hgt : locate order key k (x :: l) = some (x :: before, found, after) := by
        simp only [locate, ho, hloc, Option.bind_eq_bind, Option.bind_some]
        rfl
      refine ⟨x :: before, found, after, hgt, ?_, fun y hy => List.mem_cons_of_mem x (hf y hy),
        fun y hy => List.mem_cons_of_mem x (ha y hy)⟩
      intro y hy
      obtain rfl | hy := List.mem_cons.mp hy
      · exact List.mem_cons_self
      · exact List.mem_cons_of_mem x (hb y hy)

end

/-! ## Reading data -/

/-- The two components of `Pair`. -/
def pairData (d : Expr) : Option (Expr × Expr) :=
  match unpackComb "Pair" d with
  | .ok ([some a, some b], _) => some (a, b)
  | _ => none

/-- The key and the value of `Elt`. -/
def eltData : Expr → Option (Expr × Expr)
  | .prim "Elt" (some (k :: v :: _)) _ => some (k, v)
  | _ => none

/-- The argument of a constructor of data. -/
def constructed : Expr → Option (String × Option Expr)
  | .prim p args _ => some (p, (args.getD []).head?)
  | _ => none

/-- The items of a sequence. -/
def itemsOf : Expr → Option (List Expr)
  | .seq items => some items
  | _ => none

/-- The value that data denotes at a type. -/
def readValue : Ty → Expr → Option Value
  | .atom p, d =>
    if p = "bool" then
      match constructed d with
      | some ("True", _) => some (.bool true)
      | some ("False", _) => some (.bool false)
      | _ => none
    else some (.atom p d)
  | .pair a b, d => do
    let parts ← pairData d
    return .pair (← readValue a parts.1) (← readValue b parts.2)
  | .unary .option a, d =>
    match constructed d with
    | some ("None", _) => some .nothing
    | some ("Some", some x) => do return .just (← readValue a x)
    | _ => none
  | .unary .list a, d => do return .list (← (← itemsOf d).mapM (readValue a))
  | .unary .set a, d => do return .set (← (← itemsOf d).mapM (readValue a))
  | .unary _ _, _ => none
  | .binary .or a b, d =>
    match constructed d with
    | some ("Left", some x) => do return .left (← readValue a x)
    | some ("Right", some x) => do return .right (← readValue b x)
    | _ => none
  | .binary .map k v, d => do
    return .map (← (← itemsOf d).mapM fun e => do
      let parts ← eltData e
      return (← readValue k parts.1, ← readValue v parts.2))
  | .binary .lambda _ _, d => do
    let _ ← itemsOf d
    return .lambda d
  | .binary .bigMap _ _, _ => none

end Michelson
