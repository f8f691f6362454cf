import Taquito.Michelson.Semantics
import Taquito.Typechecker.Meanings

/-!
# Values of the types on a stack

A value fits a type of the checker if it has the type that this one means, and a stack of values
fits a stack of types. `Sound allowed r x`: an evaluation does what the checker says of the code. It
ends normally only if the code is not said to fail, and then its stack fits, and it stops in an
allowed way only.

The lemmas here invert the checker's helpers: what a success of `args2` or `push` says.
-/

open Js MichelCodec Michelson

namespace Typechecker

open StackType

section

variable (isLiteral : String → Expr → Prop) (typed : Expr → Ty → Ty → Prop)

/-- A value has the type that an expression means. -/
def Fits (v : Value) (t : StackType) : Prop := ∃ T, Means t T ∧ HasType isLiteral typed v T

/-- The values of a stack have the types of a stack. -/
def FitsStack (vs : List Value) (types : List StackType) : Prop :=
  List.Forall₂ (Fits isLiteral typed) vs types

/-- The stack after code that is given a result: there is none if the code is said to fail. -/
def Fulfils : ReturnType → List Value → Prop
  | .stack types, vs => FitsStack isLiteral typed vs types
  | .failed _ _, _ => False

/-- The evaluation does what the checker says of the code, or stops in an allowed way. -/
def Sound (allowed : Halt → Prop) (r : ReturnType) (x : Run (List Value)) : Prop :=
  Ends allowed (Fulfils isLiteral typed r) x

end

/-! ## Types that mean something -/

/-- An expression means a type. -/
def IsType (t : StackType) : Prop := ∃ T, Means t T

/-- The types of a result mean something, if the code does not fail. -/
def AreTypes (r : ReturnType) : Prop := ∀ types, r = .stack types → ∀ t ∈ types, IsType t

theorem FitsStack.isType {isLiteral : String → Expr → Prop} {typed : Expr → Ty → Ty → Prop}
    {vs : List Value} {types : List StackType} (h : FitsStack isLiteral typed vs types) :
    ∀ t ∈ types, IsType t := by
  induction h with
  | nil => exact fun t ht => absurd ht List.not_mem_nil
  | cons hv _ ih =>
    obtain ⟨T, hT, -⟩ := hv
    exact List.forall_mem_cons.mpr ⟨⟨T, hT⟩, ih⟩

/-! ## Meanings by the name of a type -/

theorem typeID_of_primOf {t : StackType} {p : String} (h : t.primOf = some p) :
    t.typeID = some p := by
  cases t with
  | prim q args annots r => exact h
  | _ => cases h

theorem Means.pairID {t : StackType} {T : Ty} (h : Means t T) (ht : t.typeID = some "pair") :
    ∃ p a b, T = .pair a b ∧ unpackComb t = .ok p ∧ Means p.first a ∧ Means p.second b := by
  have hpair := typeID_of_isPairType.mpr ht
  cases h with
  | pair _ hp ha hb => exact ⟨_, _, _, rfl, hp, ha, hb⟩
  | unary hq hu => cases (kind_excludes.1 (primOf_of_isPairType hpair hq)).1.symm.trans hu
  | binary hq hu => cases (kind_excludes.1 (primOf_of_isPairType hpair hq)).2.1.symm.trans hu
  | atom hq hu => cases (kind_excludes.1 (primOf_of_isPairType hpair hq)).2.2.symm.trans hu

theorem Means.unaryID {t : StackType} {T : Ty} {p : String} {u : Unary} (h : Means t T)
    (ht : t.typeID = some p) (hu : Unary.ofName p = some u) :
    ∃ x a, T = .unary u a ∧ argOf t 0 = .ok x ∧ Means x a := by
  cases h with
  | pair hpair =>
    cases ht.symm.trans (typeID_of_isPairType.mp hpair)
    cases hu
  | unary hq hv hx ha =>
    cases ht.symm.trans (typeID_of_primOf hq)
    cases hu.symm.trans hv
    exact ⟨_, _, rfl, hx, ha⟩
  | binary hq hv =>
    cases ht.symm.trans (typeID_of_primOf hq)
    cases (kind_excludes.2.1 u hu).1.symm.trans hv
  | atom hq hv =>
    cases ht.symm.trans (typeID_of_primOf hq)
    cases (kind_excludes.2.1 u hu).2.symm.trans hv

theorem Means.binaryID {t : StackType} {T : Ty} {p : String} {u : Michelson.Binary} (h : Means t T)
    (ht : t.typeID = some p) (hu : Michelson.Binary.ofName p = some u) :
    ∃ x y a b, T = .binary u a b ∧ argOf t 0 = .ok x ∧ argOf t 1 = .ok y ∧ Means x a ∧
      Means y b := by
  cases h with
  | pair hpair =>
    cases ht.symm.trans (typeID_of_isPairType.mp hpair)
    cases hu
  | unary hq hv =>
    cases ht.symm.trans (typeID_of_primOf hq)
    cases (kind_excludes.2.1 _ hv).1.symm.trans hu
  | binary hq hv hx hy ha hb =>
    cases ht.symm.trans (typeID_of_primOf hq)
    cases hu.symm.trans hv
    exact ⟨_, _, _, _, rfl, hx, hy, ha, hb⟩
  | atom hq hv =>
    cases ht.symm.trans (typeID_of_primOf hq)
    cases (kind_excludes.2.2 u hu).symm.trans hv

theorem Means.atomID {t : StackType} {T : Ty} {p : String} (h : Means t T)
    (ht : t.typeID = some p) (hp : isAtom p = true) : T = .atom p := by
  cases h with
  | pair hpair =>
    cases ht.symm.trans (typeID_of_isPairType.mp hpair)
    cases hp
  | unary hq hu =>
    cases ht.symm.trans (typeID_of_primOf hq)
    cases (kind_excludes.2.1 _ hu).2.symm.trans hp
  | binary hq hu =>
    cases ht.symm.trans (typeID_of_primOf hq)
    cases (kind_excludes.2.2 _ hu).symm.trans hp
  | atom hq =>
    cases ht.symm.trans (typeID_of_primOf hq)
    rfl

/-! ## Types that are built -/

theorem Means.ofPair {a b : StackType} {A B : Ty} (ha : Means a A) (hb : Means b B) :
    Means (ofPrim "pair" [a, b]) (.pair A B) :=
  .pair (t := ofPrim "pair" [a, b]) (p := ⟨a, b, none, none⟩) rfl rfl ha hb

theorem Means.ofUnary {p : String} {u : Unary} {x : StackType} {a : Ty}
    (hu : Unary.ofName p = some u) (ha : Means x a) : Means (ofPrim p [x]) (.unary u a) :=
  .unary (t := ofPrim p [x]) rfl hu rfl ha

theorem Means.ofBinary {p : String} {u : Michelson.Binary} {x y : StackType} {a b : Ty}
    (hu : Michelson.Binary.ofName p = some u) (ha : Means x a) (hb : Means y b) :
    Means (ofPrim p [x, y]) (.binary u a b) :=
  .binary (t := ofPrim p [x, y]) rfl hu rfl rfl ha hb

theorem Means.ofLeaf {p : String} (hp : isAtom p = true) : Means (leaf p) (.atom p) :=
  .atom (t := leaf p) rfl hp

/-! ## Inverting the helpers -/

section

variable {α : Type} {i : Instruction} {stack : List StackType} {r : α}

theorem args1_eq_ok {ids : List String} {k : StackType → List StackType → Checked α}
    (h : args1 i stack ids k = .ok r) :
    ∃ a tail, stack = a :: tail ∧ assertTypeID i stack 0 ids a = .ok () ∧ k a tail = .ok r := by
  match stack with
  | [] => cases h
  | a :: tail =>
    obtain ⟨_, hid, h⟩ := Except.bind_eq_ok.mp h
    exact ⟨a, tail, rfl, hid, h⟩

theorem args2_eq_ok {ids ids' : List String}
    {k : StackType → StackType → List StackType → Checked α} (h : args2 i stack ids ids' k = .ok r) :
    ∃ a b tail, stack = a :: b :: tail ∧ assertTypeID i stack 0 ids a = .ok () ∧
      assertTypeID i stack 1 ids' b = .ok () ∧ k a b tail = .ok r := by
  match stack with
  | [] => cases h
  | [_] => cases h
  | a :: b :: tail =>
    obtain ⟨_, hid, h⟩ := Except.bind_eq_ok.mp h
    obtain ⟨_, hid', h⟩ := Except.bind_eq_ok.mp h
    exact ⟨a, b, tail, rfl, hid, hid', h⟩

theorem argAt_eq_ok {n : ℕ} {ids : List String} {k : StackType → Checked α}
    (h : argAt i stack n ids k = .ok r) :
    ∃ a, stack[n]? = some a ∧ assertTypeID i stack n ids a = .ok () ∧ k a = .ok r := by
  unfold argAt at h
  split at h
  · obtain ⟨_, hid, h⟩ := Except.bind_eq_ok.mp h
    exact ⟨_, by assumption, hid, h⟩
  · cases h

theorem typeID_mem {n : ℕ} {ids : List String} {t : StackType}
    (h : assertTypeID i stack n ids t = .ok ()) (hids : ids ≠ []) :
    ∃ id ∈ ids, t.typeID = some id := by
  unfold assertTypeID at h
  split at h
  · rename_i hor
    rw [Bool.or_eq_true, List.any_eq_true] at hor
    obtain hempty | ⟨id, hid, heq⟩ := hor
    · exact absurd (List.isEmpty_iff.mp hempty) hids
    · exact ⟨id, hid, of_decide_eq_true heq⟩
  · cases h

theorem typeID_eq {n : ℕ} {id : String} {t : StackType}
    (h : assertTypeID i stack n [id] t = .ok ()) : t.typeID = some id := by
  obtain ⟨id', hid, heq⟩ := typeID_mem h (List.cons_ne_nil _ _)
  rwa [List.mem_singleton.mp hid] at heq

theorem push_eq_ok {t : Checked StackType} {tail : List StackType} {r : ReturnType}
    (h : push t tail = .ok r) : ∃ x, t = .ok x ∧ r = .stack (x :: tail) := by
  obtain ⟨x, hx, h⟩ := Except.bind_eq_ok.mp h
  cases h
  exact ⟨x, hx, rfl⟩

theorem rethrow_eq_ok {x : Checked α} (h : rethrow i stack x = .ok r) : x = .ok r := by
  cases x with
  | ok a => exact h
  | error e =>
    unfold rethrow at h
    dsimp only at h
    split at h <;> cases h

theorem comparable_of_ensure {t : StackType} {T : Ty} (h : Means t T)
    (hc : ensure i stack .comparable t = .ok ()) : T.isComparable = true := by
  have hlift := rethrow_eq_ok hc
  have hpass : Passes .comparable t.erase := by
    unfold Passes
    cases hassert : TypeCheck.comparable.assert t.erase with
    | ok u => rfl
    | error e =>
      rw [hassert] at hlift
      cases hlift
  exact comparable_of_admits h (((passes_iff_admits _ _).mp hpass).comparable true true)

theorem means_of_ensureTypesEqual {a b : StackType} (h : ensureTypesEqual i stack a b = .ok ())
    (T : Ty) : Means a T ↔ Means b T :=
  means_of_scalarTypesEqual (rethrow_eq_ok h) T

theorem numeral_of_natOf {e : Expr} {n : ℕ} (h : natOf e = .ok n) : numeral e = some n := by
  unfold natOf at h
  split at h
  · rename_i text
    split at h
    · rename_i m hm
      cases h
      rw [numeral, hm]
    · cases h
  · cases h

theorem countOf_of_count {d n : ℕ} (h : i.count d = .ok n) : countOf i.args d = .ok n := by
  unfold Instruction.count at h
  cases hargs : i.args with
  | none =>
    rw [hargs] at h
    cases h
    rfl
  | some args =>
    rw [hargs] at h
    obtain ⟨e, he, hn⟩ := Except.bind_eq_ok.mp h
    unfold Instruction.arg at he
    rw [hargs, Option.getD_some] at he
    unfold countOf
    dsimp only
    split at he
    · rename_i e' he'
      cases he
      rw [he', orStuck, Except.ok_bind, numeral_of_natOf hn]
      rfl
    · cases he

theorem argument_of_arg {k : ℕ} {e : Expr} (h : i.arg k = .ok e) : argument i.args k = .ok e := by
  unfold Instruction.arg at h
  unfold argument
  split at h
  · rename_i e' he'
    cases h
    rw [he']
    rfl
  · cases h

end

end Typechecker
