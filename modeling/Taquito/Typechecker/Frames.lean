import Taquito.Lib.Outcomes
import Taquito.Typechecker.Code

/-!
# Typing on a longer stack

An instruction looks at the top of its stack: what it accepts on a stack it accepts on a longer one,
and leaves the rest as it is. Two instructions do not obey this: `DUG n` on a stack of `n` elements,
and `EMIT` without an argument on the empty stack, which both act on elements that are not there.
`LocalAt` excludes these two uses. Where stacks are compared, the rest is compared with itself.

`Extends rest r r'` relates the results on the two stacks, and each case of the checker mirrors
itself. The typing of code is a parameter, with a typing that it mirrors, so that the rule also holds
between two checkers that agree on code.
-/

open Js MichelCodec

namespace Typechecker

open StackType

/-- The result on a longer stack: the rest of the stack stays. -/
def Extends (rest : List StackType) : ReturnType → ReturnType → Prop
  | .stack types, r => r = .stack (types ++ rest)
  | .failed type level, r => r = .failed type level

/-- A type equals itself for the checker. -/
def EqualsItself (t : StackType) : Prop := assertScalarTypesEqual t t false = .ok ()

/-- The instruction acts on elements that its stack has. -/
def LocalAt (i : Instruction) (stack : List StackType) : Prop :=
  (i.prim = "DUG" → ∀ e n, i.arg 0 = .ok e → natOf e = .ok n → n < stack.length) ∧
    (i.prim = "EMIT" → i.args = none → stack ≠ [])

section

variable {i : Instruction} {stack stack' rest : List StackType}

/-! ## Results that do not depend on the stack -/

theorem rethrow_mirrors {α : Type} {x y : Checked α} (h : Mirrors Eq x y) :
    Mirrors Eq (rethrow i stack x) (rethrow i stack' y) := by
  intro a ha
  cases x with
  | ok b =>
    cases ha
    obtain ⟨c, hc, rfl⟩ := h _ rfl
    rw [hc]
    exact ⟨_, rfl, rfl⟩
  | error e =>
    unfold rethrow at ha
    dsimp only at ha
    split at ha <;> cases ha

theorem argAnn_mirrors (t : StackType) : Mirrors Eq (argAnn i stack t) (argAnn i stack' t) :=
  rethrow_mirrors (Mirrors.same _)

theorem ensureTypesEqual_mirrors (a b : StackType) :
    Mirrors Eq (ensureTypesEqual i stack a b) (ensureTypesEqual i stack' a b) :=
  rethrow_mirrors (Mirrors.same _)

theorem ensure_mirrors (k : TypeCheck) (t : StackType) :
    Mirrors Eq (ensure i stack k t) (ensure i stack' k t) :=
  rethrow_mirrors (Mirrors.same _)

theorem assertTypeID_mirrors (n : ℕ) (ids : List String) (t : StackType) :
    Mirrors Eq (assertTypeID i stack n ids t) (assertTypeID i stack' n ids t) :=
  Mirrors.ite (fun _ => .ok rfl) fun _ => .error

theorem instructionAnn_mirrors (num : AnnotationCounts) (opt : UnpackAnnotationsOptions) :
    Mirrors Eq (instructionAnn i stack num opt) (instructionAnn i stack' num opt) := by
  have hcount (a : Option (List JSString)) (n : ℕ) (message : JSString) :
      Mirrors Eq (if n < (a.getD []).length then refusePrim i stack message else .ok ())
        (if n < (a.getD []).length then refusePrim i stack' message else (.ok () : Checked Unit)) :=
    .ite (fun _ => .error) fun _ => .ok rfl
  refine .bind_eq (rethrow_mirrors (.same _)) fun a => ?_
  refine .bind_eq (hcount _ _ _) fun _ => .bind_eq (hcount _ _ _) fun _ => ?_
  exact .bind_eq (hcount _ _ _) fun _ => .ok rfl

theorem annotate_mirrors (t : StackType) (a : NullableAnnotations) :
    Mirrors Eq (annotate i stack t a) (annotate i stack' t a) :=
  .bind_eq (argAnn_mirrors t) fun _ => .same _

theorem annotateVar_mirrors (t : StackType) (default : Option JSString) :
    Mirrors Eq (annotateVar i stack t default) (annotateVar i stack' t default) :=
  .bind_eq (instructionAnn_mirrors _ _) fun _ => annotate_mirrors _ _

theorem annotateResult_mirrors (t : StackType) :
    Mirrors Eq (annotateResult i stack t) (annotateResult i stack' t) :=
  .bind_eq (instructionAnn_mirrors _ _) fun _ => annotate_mirrors _ _

theorem annotateField_mirrors (arg field : StackType) (ia : UnpackedAnnotations) (n : ℕ)
    (default : JSString) :
    Mirrors Eq (annotateField i stack arg field ia n default)
      (annotateField i stack' arg field ia n default) := by
  refine .bind_eq (argAnn_mirrors field) fun fieldAnn => ?_
  have hrest : Mirrors Eq
      (do
        let varAnn := ((← argAnn i stack arg).v.getD []).head?
        annotate i stack field { t := .null
                                 v := fieldVar (ia.v.getD [])[n]? (fieldAnn.f.getD []).head? varAnn
                                   default })
      (do
        let varAnn := ((← argAnn i stack' arg).v.getD []).head?
        annotate i stack' field { t := .null
                                  v := fieldVar (ia.v.getD [])[n]? (fieldAnn.f.getD []).head? varAnn
                                    default }) :=
    .bind_eq (argAnn_mirrors arg) fun _ => annotate_mirrors _ _
  dsimp only
  split
  · exact .ite (fun _ => .error) fun _ => hrest
  · exact .bind_eq (.same _) fun _ => hrest

/-! ## Combs -/

theorem getN_mirrors (n : ℕ) (src : StackType) (k : ℕ) :
    Mirrors Eq (getN i stack n src k) (getN i stack' n src k) := by
  induction k generalizing src with
  | zero => exact .error
  | succ k ih =>
    refine .bind_eq (.same _) fun p => .ite (fun _ => .same _) fun _ => ?_
    refine .ite (fun _ => .same _) fun _ => .ite (fun _ => ?_) fun _ => .error
    exact .bind_eq (ih p.second) fun _ => .same _

theorem getNth_mirrors (n : ℕ) (src : StackType) (k : ℕ) :
    Mirrors Eq (getNth i stack n src k) (getNth i stack' n src k) := by
  induction k using Nat.twoStepInduction generalizing src with
  | zero => exact .same _
  | one => exact .same _
  | more k ih =>
    refine .bind_eq (.same _) fun p => .ite (fun _ => ih p.second) fun _ => ?_
    exact .ite (fun _ => .same _) fun _ => .error

theorem updateNth_mirrors (x : StackType) (n : ℕ) (src : StackType) (k : ℕ) :
    Mirrors Eq (updateNth i stack x n src k) (updateNth i stack' x n src k) := by
  induction k using Nat.twoStepInduction generalizing src with
  | zero => exact .same _
  | one => exact .same _
  | more k ih =>
    refine .bind_eq (.same _) fun p => .ite (fun _ => ?_) fun _ => ?_
    · exact .bind_eq (ih p.second) fun _ => .same _
    · exact .ite (fun _ => .same _) fun _ => .error

theorem pairFields_mirrors (ia : UnpackedAnnotations) (k : ℕ) (s : List StackType) :
    Mirrors Eq (pairFields i stack ia k s) (pairFields i stack' ia k s) := by
  induction s generalizing k with
  | nil => exact .same _
  | cons v s ih =>
    refine .bind_eq (argAnn_mirrors v) fun va => .bind_eq (annotate_mirrors _ _) fun field => ?_
    exact .bind_eq (ih (k + 1)) fun _ => .same _

theorem unpairFields_mirrors (arg : StackType) (ia : UnpackedAnnotations) (k : ℕ)
    (s : List StackType) :
    Mirrors Eq (unpairFields i stack arg ia k s) (unpairFields i stack' arg ia k s) := by
  induction s generalizing k with
  | nil => exact .same _
  | cons field s ih =>
    refine .bind_eq (annotateField_mirrors _ _ _ _ _) fun field => ?_
    exact .bind_eq (ih (k + 1)) fun _ => .same _

theorem updated_mirrors (p : String) (args : List StackType) :
    Mirrors Eq (updated i stack p args) (updated i stack' p args) := by
  refine .bind_eq ?_ fun kept => .same _
  induction args with
  | nil => exact .same _
  | cons a args ih =>
    rw [List.mapM_cons, List.mapM_cons]
    exact .bind_eq (annotate_mirrors _ _) fun _ => .bind_eq ih fun _ => .same _

theorem givenVar_mirrors (ia : UnpackedAnnotations) (s : StackType) (suffix : JSString) :
    Mirrors Eq (givenVar i stack ia s suffix) (givenVar i stack' ia s suffix) := by
  unfold givenVar
  split
  · exact .same _
  · exact .bind_eq (argAnn_mirrors s) fun _ => .same _

theorem entryPoint_mirrors (contract : StackType) (ia : UnpackedAnnotations) :
    Mirrors Eq (entryPoint i stack contract ia) (entryPoint i stack' contract ia) := by
  refine .bind_eq (.same _) fun ep => ?_
  split
  · exact .same _
  · exact .error

theorem assertKeyHash_mirrors (option : StackType) :
    Mirrors Eq (assertKeyHash i stack option) (assertKeyHash i stack' option) :=
  .bind_eq (.same _) fun _ => .ite (fun _ => .error) fun _ => .same _

/-! ## Arguments and results -/

theorem push_extends {t t' : Checked StackType} (h : Mirrors Eq t t') (tail : List StackType) :
    Mirrors (Extends rest) (push t tail) (push t' (tail ++ rest)) :=
  .bind_eq h fun _ => .ok rfl

theorem argAt_extends {n : ℕ} {ids : List String} {k k' : StackType → Checked ReturnType}
    (h : ∀ a, stack[n]? = some a → Mirrors (Extends rest) (k a) (k' a)) :
    Mirrors (Extends rest) (argAt i stack n ids k) (argAt i (stack ++ rest) n ids k') := by
  unfold argAt
  cases ha : stack[n]? with
  | none => exact .error
  | some a =>
    have hlt := (List.getElem?_eq_some_iff.mp ha).1
    rw [List.getElem?_append_left hlt, ha]
    exact .bind_eq (assertTypeID_mirrors _ _ _) fun _ => h a ha

theorem args1_extends {ids : List String} {k k' : StackType → List StackType → Checked ReturnType}
    (h : ∀ a tail, stack = a :: tail → Mirrors (Extends rest) (k a tail) (k' a (tail ++ rest))) :
    Mirrors (Extends rest) (args1 i stack ids k) (args1 i (stack ++ rest) ids k') := by
  match stack with
  | [] => exact .error
  | a :: tail => exact .bind_eq (assertTypeID_mirrors _ _ _) fun _ => h a tail rfl

theorem args2_extends {ids ids' : List String}
    {k k' : StackType → StackType → List StackType → Checked ReturnType}
    (h : ∀ a b tail, stack = a :: b :: tail →
      Mirrors (Extends rest) (k a b tail) (k' a b (tail ++ rest))) :
    Mirrors (Extends rest) (args2 i stack ids ids' k) (args2 i (stack ++ rest) ids ids' k') := by
  match stack with
  | [] => exact .error
  | [_] => exact .error
  | a :: b :: tail =>
    refine .bind_eq (assertTypeID_mirrors _ _ _) fun _ => ?_
    exact .bind_eq (assertTypeID_mirrors _ _ _) fun _ => h a b tail rfl

theorem args3_extends {ids ids' ids'' : List String}
    {k k' : StackType → StackType → StackType → List StackType → Checked ReturnType}
    (h : ∀ a b c tail, stack = a :: b :: c :: tail →
      Mirrors (Extends rest) (k a b c tail) (k' a b c (tail ++ rest))) :
    Mirrors (Extends rest) (args3 i stack ids ids' ids'' k)
      (args3 i (stack ++ rest) ids ids' ids'' k') := by
  match stack with
  | [] => exact .error
  | [_] => exact .error
  | [_, _] => exact .error
  | a :: b :: c :: tail =>
    refine .bind_eq (assertTypeID_mirrors _ _ _) fun _ => ?_
    refine .bind_eq (assertTypeID_mirrors _ _ _) fun _ => ?_
    exact .bind_eq (assertTypeID_mirrors _ _ _) fun _ => h a b c tail rfl

end

end Typechecker
