import Taquito.Lib.Throws
import Taquito.Typechecker.Code

/-!
# Missing sections in the typechecker

`contractSection` is called for contracts, for the contract of the context and for types that look
like a contract. `functionType_blames` and its companions say that whoever calls it, the checker
throws a missing section only of a list of sections that has none of that name.
-/

open Js MichelCodec

namespace Typechecker

open StackType

/-- An error that speaks of a missing section is right about it. -/
def Blames (e : CheckError) : Prop :=
  ∀ val name, e = .missingSection val name → findSection name val = none

section

variable {α : Type} (i : Instruction) (stack : List StackType)

theorem contractSection_blames (contract : List StackType) (name : String) :
    Throws Blames (contractSection contract name) := by
  intro e h val name' he
  unfold contractSection at h
  cases hfind : findSection name contract with
  | some s =>
    rw [hfind] at h
    cases h
  | none =>
    rw [hfind] at h
    cases h
    cases he
    exact hfind

@[grind ←] theorem blames_instructionError (e : Expr) (r : ReturnType) (message : JSString) :
    Blames (.instructionError e r message) := by
  rintro val name ⟨⟩

@[grind ←] theorem blames_michelsonError (val : List StackType) (message : JSString) :
    Blames (.michelsonError val message) := by
  rintro val name ⟨⟩

@[grind ←] theorem blames_dataError (val data : Expr) (message : JSString) :
    Blames (.dataError val data message) := by
  rintro val name ⟨⟩

@[grind ←] theorem blames_thrown (e : MichelError) : Blames (.thrown e) := by
  rintro val name ⟨⟩

@[grind ←] theorem blames_notNatural (e : Expr) : Blames (.notNatural e) := by
  rintro val name ⟨⟩

/-! ## Helpers -/

@[grind ←] theorem undefinedType_blames : Throws Blames (undefinedType : Checked α) :=
  Throws.error_iff.mpr (blames_thrown _)

@[grind ←] theorem lift_blames (x : Except MichelError α) : Throws Blames (lift x) := by
  unfold lift
  cases x with
  | ok a => exact Throws.ok a
  | error e => exact Throws.error_iff.mpr (blames_thrown e)

@[grind ←] theorem argOf_blames (t : StackType) (k : ℕ) : Throws Blames (argOf t k) := by
  cases t with
  | prim p args annots refContract =>
    cases args with
    | none => exact undefinedType_blames
    | some args =>
      unfold argOf
      dsimp only
      cases args[k]? with
      | none => exact undefinedType_blames
      | some a => exact Throws.ok a
  | _ => exact undefinedType_blames

@[grind ←] theorem typeArgs_blames (t : StackType) : Throws Blames (typeArgs t) := by
  cases t with
  | prim p args annots refContract =>
    cases args with
    | none => exact undefinedType_blames
    | some args => exact Throws.ok args
  | seq items => exact Throws.ok items
  | _ => exact undefinedType_blames

theorem unpackArgs_blames (args : List StackType) (annots : Option (List JSString))
    (refContract : Option StackType) : Throws Blames (unpackArgs args annots refContract) := by
  match args with
  | [] => exact undefinedType_blames
  | [a] => exact Throws.ok _
  | [a, b] => exact Throws.ok _
  | a :: b :: c :: rest => exact Throws.ok _

@[grind ←] theorem unpackComb_blames (t : StackType) : Throws Blames (unpackComb t) := by
  cases t with
  | prim p args annots refContract =>
    cases args with
    | none => exact undefinedType_blames
    | some args => exact unpackArgs_blames args annots refContract
  | seq items => exact unpackArgs_blames items none none
  | _ => exact undefinedType_blames

@[grind ←] theorem unpackAnnotations_blames (t : StackType) (opt : UnpackAnnotationsOptions) :
    Throws Blames (unpackAnnotations t opt) := by
  unfold unpackAnnotations
  cases unpackAnnotationsFrom opt {} (t.annots.getD []) with
  | ok a => exact Throws.ok a
  | error v => exact Throws.error_iff.mpr (blames_michelsonError _ _)

@[grind ←] theorem memoSize_blames (t : StackType) : Throws Blames (memoSize t) := by
  refine Throws.bind (argOf_blames t 0) fun size => ?_
  cases size with
  | int text => exact Throws.ok _
  | _ => exact Throws.ok none

@[grind ←] theorem sectionsOf_blames (t : StackType) : Throws Blames (sectionsOf t) := by
  cases t with
  | seq sections => exact Throws.ok sections
  | _ => exact undefinedType_blames

@[grind ←] theorem refuse_blames (message : JSString) :
    Throws Blames (refuse i stack message : Checked α) :=
  Throws.error_iff.mpr (blames_instructionError _ _ _)

@[grind ←] theorem refusePrim_blames (message : JSString) :
    Throws Blames (refusePrim i stack message : Checked α) := refuse_blames i stack _

@[grind ←] theorem tooFew_blames (n : ℕ) : Throws Blames (tooFew i stack n : Checked α) :=
  refusePrim_blames i stack _

/-- An error with a message becomes an error of the instruction. -/
@[grind ←] theorem rethrow_blames (x : Checked α) : Throws Blames (rethrow i stack x) := by
  unfold rethrow
  cases x with
  | ok a => exact Throws.ok a
  | error e =>
    cases e with
    | thrown e =>
      dsimp only
      cases (CheckError.thrown e).michelsonMessage with
      | some message => exact refuse_blames i stack message
      | none => exact Throws.error_iff.mpr (blames_thrown e)
    | notNatural e => exact Throws.error_iff.mpr (blames_notNatural e)
    | _ => exact refuse_blames i stack _

@[grind ←] theorem argAnn_blames (t : StackType) : Throws Blames (argAnn i stack t) :=
  rethrow_blames i stack _

@[grind ←] theorem ensureTypesEqual_blames (a b : StackType) :
    Throws Blames (ensureTypesEqual i stack a b) := rethrow_blames i stack _

@[grind ←] theorem ensureStacksEqual_blames (a b : List StackType) :
    Throws Blames (ensureStacksEqual i stack a b) := rethrow_blames i stack _

@[grind ←] theorem ensure_blames (k : TypeCheck) (t : StackType) :
    Throws Blames (ensure i stack k t) := rethrow_blames i stack _

/-! ## Arguments -/

@[grind ←] theorem assertTypeID_blames (n : ℕ) (ids : List String) (t : StackType) :
    Throws Blames (assertTypeID i stack n ids t) :=
  Throws.ite (Throws.ok ()) (refusePrim_blames i stack _)

@[grind ←] theorem argAt_blames (n : ℕ) (ids : List String) {k : StackType → Checked α}
    (hk : ∀ a, Throws Blames (k a)) : Throws Blames (argAt i stack n ids k) := by
  unfold argAt
  cases stack[n]? with
  | none => exact tooFew_blames i stack 1
  | some a => exact Throws.bind (assertTypeID_blames i stack n ids a) fun _ => hk a

@[grind ←] theorem args1_blames (ids : List String) {k : StackType → List StackType → Checked α}
    (hk : ∀ a tail, Throws Blames (k a tail)) : Throws Blames (args1 i stack ids k) := by
  match stack with
  | [] => exact tooFew_blames i [] 1
  | a :: tail => exact Throws.bind (assertTypeID_blames i _ 0 ids a) fun _ => hk a tail

@[grind ←] theorem args2_blames (ids ids' : List String)
    {k : StackType → StackType → List StackType → Checked α}
    (hk : ∀ a b tail, Throws Blames (k a b tail)) : Throws Blames (args2 i stack ids ids' k) := by
  match stack with
  | [] => exact tooFew_blames i [] 2
  | [a] => exact tooFew_blames i [a] 2
  | a :: b :: tail =>
    refine Throws.bind (assertTypeID_blames i _ 0 ids a) fun _ => ?_
    exact Throws.bind (assertTypeID_blames i _ 1 ids' b) fun _ => hk a b tail

@[grind ←] theorem args3_blames (ids ids' ids'' : List String)
    {k : StackType → StackType → StackType → List StackType → Checked α}
    (hk : ∀ a b c tail, Throws Blames (k a b c tail)) :
    Throws Blames (args3 i stack ids ids' ids'' k) := by
  match stack with
  | [] => exact tooFew_blames i [] 3
  | [a] => exact tooFew_blames i [a] 3
  | [a, b] => exact tooFew_blames i [a, b] 3
  | a :: b :: c :: tail =>
    refine Throws.bind (assertTypeID_blames i _ 0 ids a) fun _ => ?_
    refine Throws.bind (assertTypeID_blames i _ 1 ids' b) fun _ => ?_
    exact Throws.bind (assertTypeID_blames i _ 2 ids'' c) fun _ => hk a b c tail

@[grind ←] theorem arg_blames (k : ℕ) : Throws Blames (i.arg k) := by
  unfold Instruction.arg
  cases (i.args.getD [])[k]? with
  | none => exact undefinedType_blames
  | some e => exact Throws.ok e

@[grind ←] theorem typeArg_blames (k : ℕ) : Throws Blames (i.typeArg k) :=
  Throws.bind (arg_blames i k) fun e => Throws.ok (ofExpr e)

@[grind ←] theorem natOf_blames (e : Expr) : Throws Blames (natOf e) := by
  cases e with
  | int text =>
    unfold natOf
    dsimp only
    split
    · exact Throws.ok _
    · exact Throws.error_iff.mpr (blames_notNatural _)
  | _ => exact Throws.error_iff.mpr (blames_notNatural _)

@[grind ←] theorem count_blames (default : ℕ) : Throws Blames (i.count default) := by
  unfold Instruction.count
  cases i.args with
  | none => exact Throws.ok default
  | some args => exact Throws.bind (arg_blames i 0) natOf_blames

/-! ## Annotations -/

@[grind ←] theorem instructionAnn_blames (num : AnnotationCounts) (opt : UnpackAnnotationsOptions) :
    Throws Blames (instructionAnn i stack num opt) := by
  refine Throws.bind (rethrow_blames i stack _) fun a => ?_
  refine Throws.bind (Throws.ite (refusePrim_blames i stack _) (Throws.ok ())) fun _ => ?_
  refine Throws.bind (Throws.ite (refusePrim_blames i stack _) (Throws.ok ())) fun _ => ?_
  exact Throws.bind (Throws.ite (refusePrim_blames i stack _) (Throws.ok ())) fun _ => Throws.ok a

@[grind ←] theorem annotate_blames (t : StackType) (a : NullableAnnotations) :
    Throws Blames (annotate i stack t a) :=
  Throws.bind (argAnn_blames i stack t) fun _ => Throws.ite (Throws.ok _) (Throws.ok _)

@[grind ←] theorem annotateVar_blames (t : StackType) (default : Option JSString) :
    Throws Blames (annotateVar i stack t default) :=
  Throws.bind (instructionAnn_blames i stack _ _) fun _ => annotate_blames i stack t _

@[grind ←] theorem annotateResult_blames (t : StackType) :
    Throws Blames (annotateResult i stack t) :=
  Throws.bind (instructionAnn_blames i stack _ _) fun ia => annotate_blames i stack t ia.nullable

@[grind ←] theorem push_blames {t : Checked StackType} (ht : Throws Blames t) :
    Throws Blames (push t stack) :=
  Throws.bind ht fun _ => Throws.ok _

@[grind ←] theorem annotateField_blames (arg field : StackType) (ia : UnpackedAnnotations) (n : ℕ)
    (defField : JSString) : Throws Blames (annotateField i stack arg field ia n defField) := by
  unfold annotateField
  grind

/-! ## Recursions over types -/

@[grind ←] theorem typeError_blames (t : StackType) (message : JSString) :
    Throws Blames (typeError t message : Checked α) := by
  unfold typeError
  grind

theorem argumentsEqual_blames {equal : StackType → StackType → Bool → Checked Unit}
    (h : ∀ a b field, Throws Blames (equal a b field)) (a b : StackType) :
    Throws Blames (argumentsEqual equal a b) := by
  unfold argumentsEqual
  grind

theorem scalarTypesEqual_blames (fuel : ℕ) (a b : StackType) (field : Bool) :
    Throws Blames (scalarTypesEqual fuel a b field) := by
  induction fuel generalizing a b field with
  | zero => exact Throws.error_iff.mpr (blames_thrown _)
  | succ fuel ih =>
    have hargs := argumentsEqual_blames ih a b
    unfold scalarTypesEqual typesEqual
    grind

@[grind ←] theorem assertScalarTypesEqual_blames (a b : StackType) (field : Bool) :
    Throws Blames (assertScalarTypesEqual a b field) := scalarTypesEqual_blames _ a b field

theorem assertStacksEqual_blames (a b : List StackType) :
    Throws Blames (assertStacksEqual a b) := by
  have heach : ∀ a b, Throws Blames (eachEqual a b) := by
    intro a
    induction a with
    | nil => exact fun b => Throws.ok ()
    | cons t a ih =>
      intro b
      cases b with
      | nil => exact Throws.ok ()
      | cons u b => exact Throws.bind (assertScalarTypesEqual_blames t u false) fun _ => ih b
  unfold assertStacksEqual
  grind

@[grind ←] theorem forEachType_blames {check : StackType → Checked Unit}
    (h : ∀ t, Throws Blames (check t)) (types : List StackType) :
    Throws Blames (forEachType check types) := by
  induction types with
  | nil => exact Throws.ok ()
  | cons t types ih => exact Throws.bind (h t) fun _ => ih

theorem argAnnotationsValid_blames {valid : StackType → Bool → Checked Unit}
    (h : ∀ t field, Throws Blames (valid t field)) (t : StackType) :
    Throws Blames (argAnnotationsValid valid t) := by
  unfold argAnnotationsValid
  grind

@[grind ←] theorem ownAnnotationsValid_blames (t : StackType) (field : Bool) :
    Throws Blames (ownAnnotationsValid t field) := by
  unfold ownAnnotationsValid
  grind

theorem typeAnnotationsValid_blames (fuel : ℕ) (t : StackType) (field : Bool) :
    Throws Blames (typeAnnotationsValid fuel t field) := by
  induction fuel generalizing t field with
  | zero => exact Throws.error_iff.mpr (blames_thrown _)
  | succ fuel ih =>
    have hargs := argAnnotationsValid_blames ih t
    unfold typeAnnotationsValid
    split <;> grind

@[grind ←] theorem assertTypeAnnotationsValid_blames (t : StackType) (field : Bool) :
    Throws Blames (assertTypeAnnotationsValid t field) := typeAnnotationsValid_blames _ t field

@[grind ←] theorem getN_blames (n : ℕ) (t : StackType) (k : ℕ) :
    Throws Blames (getN i stack n t k) := by
  induction k generalizing t with
  | zero => exact refuse_blames i stack _
  | succ k ih =>
    unfold getN tooFewFields
    grind

@[grind ←] theorem getNth_blames (n : ℕ) : ∀ (k : ℕ) (t : StackType),
    Throws Blames (getNth i stack n t k)
  | 0, t => Throws.ok t
  | 1, t => Throws.bind (unpackComb_blames t) fun c => Throws.ok c.first
  | k + 2, t => by
    have ih := getNth_blames n k
    unfold getNth tooFewFields
    grind

@[grind ←] theorem updateNth_blames (x : StackType) (n : ℕ) : ∀ (k : ℕ) (t : StackType),
    Throws Blames (updateNth i stack x n t k)
  | 0, t => Throws.ok x
  | 1, t => Throws.bind (unpackComb_blames t) fun c => Throws.ok (c.withArgs x c.second)
  | k + 2, t => by
    have ih := updateNth_blames x n k
    unfold updateNth tooFewFields
    grind

theorem sideEntryPoints_blames {entryPoints : StackType → Checked EntryPoints}
    (h : ∀ t, Throws Blames (entryPoints t)) (arg : Option StackType) :
    Throws Blames (sideEntryPoints entryPoints arg) := by
  unfold sideEntryPoints
  split <;> grind

theorem entryPointsOf_blames (fuel : ℕ) (t : StackType) : Throws Blames (entryPointsOf fuel t) := by
  induction fuel generalizing t with
  | zero => exact Throws.error_iff.mpr (blames_thrown _)
  | succ fuel ih =>
    have hside := sideEntryPoints_blames ih
    have hsection := contractSection_blames
    unfold entryPointsOf
    grind

@[grind ←] theorem contractEntryPoints_blames (t : StackType) :
    Throws Blames (contractEntryPoints t) := entryPointsOf_blames _ t

@[grind ←] theorem contractEntryPoint_blames (t : StackType) (ep : Option JSString) :
    Throws Blames (contractEntryPoint t ep) := by
  have hsection := contractSection_blames
  unfold contractEntryPoint
  grind

/-! ## Instructions -/

theorem typeSignature_blames (s : Signature) : Throws Blames (typeSignature i stack s) := by
  have hids : ∀ n ids types, Throws Blames (assertTypeIDs i stack n ids types) := by
    intro n ids types
    induction ids generalizing n types with
    | nil => exact Throws.ok ()
    | cons id ids ih =>
      cases types with
      | nil => exact Throws.ok ()
      | cons t types => exact Throws.bind (assertTypeID_blames i stack n id t) fun _ => ih (n + 1) types
  unfold typeSignature
  grind

theorem typeBinary_blames (op : Binary) : Throws Blames (typeBinary i stack op) := by
  unfold typeBinary
  grind

@[grind ←] theorem assertDepth_blames (n : ℕ) : Throws Blames (assertDepth i stack n) := by
  unfold assertDepth
  grind

@[grind ←] theorem typeDUP_blames : Throws Blames (typeDUP i stack) := by
  unfold typeDUP
  grind

@[grind ←] theorem typeSWAP_blames : Throws Blames (typeSWAP i stack) := by
  unfold typeSWAP
  grind

@[grind ←] theorem typeSOME_blames : Throws Blames (typeSOME i stack) := by
  unfold typeSOME
  grind

@[grind ←] theorem typeUNIT_blames : Throws Blames (typeUNIT i stack) := by
  unfold typeUNIT
  grind

@[grind ←] theorem typeCONS_blames : Throws Blames (typeCONS i stack) := by
  unfold typeCONS
  grind

@[grind ←] theorem typeMEM_blames : Throws Blames (typeMEM i stack) := by
  unfold typeMEM
  grind

@[grind ←] theorem typeEXEC_blames : Throws Blames (typeEXEC i stack) := by
  unfold typeEXEC
  grind

@[grind ←] theorem typeNEVER_blames : Throws Blames (typeNEVER i stack) := by
  unfold typeNEVER
  grind

@[grind ←] theorem typeRENAME_blames : Throws Blames (typeRENAME i stack) := by
  unfold typeRENAME
  grind

@[grind ←] theorem typeCONCAT_blames : Throws Blames (typeCONCAT i stack) := by
  unfold typeCONCAT
  grind

@[grind ←] theorem typeSLICE_blames : Throws Blames (typeSLICE i stack) := by
  unfold typeSLICE
  grind

@[grind ←] theorem typePACK_blames : Throws Blames (typePACK i stack) := by
  unfold typePACK
  grind

@[grind ←] theorem typeNEG_blames : Throws Blames (typeNEG i stack) := by
  unfold typeNEG
  grind

@[grind ←] theorem typeNOT_blames : Throws Blames (typeNOT i stack) := by
  unfold typeNOT
  grind

@[grind ←] theorem typeCOMPARE_blames : Throws Blames (typeCOMPARE i stack) := by
  unfold typeCOMPARE
  grind

@[grind ←] theorem typeTRANSFER_TOKENS_blames : Throws Blames (typeTRANSFER_TOKENS i stack) := by
  unfold typeTRANSFER_TOKENS
  grind

@[grind ←] theorem typeDROP_blames : Throws Blames (typeDROP i stack) := by
  unfold typeDROP
  grind

@[grind ←] theorem typeDIG_blames : Throws Blames (typeDIG i stack) := by
  unfold typeDIG
  grind

@[grind ←] theorem typeDUG_blames : Throws Blames (typeDUG i stack) := by
  unfold typeDUG
  grind

@[grind ←] theorem typeUNPACK_blames : Throws Blames (typeUNPACK i stack) := by
  unfold typeUNPACK
  grind

@[grind ←] theorem typeCAST_blames : Throws Blames (typeCAST i stack) := by
  unfold typeCAST
  grind

@[grind ←] theorem typeEMPTY_SET_blames : Throws Blames (typeEMPTY_SET i stack) := by
  unfold typeEMPTY_SET
  grind

@[grind ←] theorem typeEMPTY_MAP_blames : Throws Blames (typeEMPTY_MAP i stack) := by
  unfold typeEMPTY_MAP
  grind

@[grind ←] theorem typeEMPTY_BIG_MAP_blames : Throws Blames (typeEMPTY_BIG_MAP i stack) := by
  unfold typeEMPTY_BIG_MAP
  grind

@[grind ←] theorem typeREAD_TICKET_blames : Throws Blames (typeREAD_TICKET i stack) := by
  unfold typeREAD_TICKET
  grind

@[grind ←] theorem typePAIRING_CHECK_blames : Throws Blames (typePAIRING_CHECK i stack) := by
  unfold typePAIRING_CHECK
  grind

@[grind ←] theorem typeSAPLING_EMPTY_STATE_blames : Throws Blames (typeSAPLING_EMPTY_STATE i stack) := by
  unfold typeSAPLING_EMPTY_STATE
  grind

@[grind ←] theorem typeVIEW_blames : Throws Blames (typeVIEW i stack) := by
  unfold typeVIEW
  grind

@[grind ←] theorem typeEMIT_blames : Throws Blames (typeEMIT i stack) := by
  unfold typeEMIT
  grind

@[grind ←] theorem pairFields_blames (ia : UnpackedAnnotations) (k : ℕ) (types : List StackType) :
    Throws Blames (pairFields i stack ia k types) := by
  induction types generalizing k with
  | nil => exact Throws.ok []
  | cons t types ih =>
    unfold pairFields
    grind

@[grind ←] theorem typePAIR_blames : Throws Blames (typePAIR i stack) := by
  unfold typePAIR
  grind

@[grind ←] theorem unpairFields_blames (arg : StackType) (ia : UnpackedAnnotations) (k : ℕ)
    (types : List StackType) : Throws Blames (unpairFields i stack arg ia k types) := by
  induction types generalizing k with
  | nil => exact Throws.ok []
  | cons t types ih =>
    unfold unpairFields
    grind

@[grind ←] theorem typeUNPAIR_blames : Throws Blames (typeUNPAIR i stack) := by
  unfold typeUNPAIR
  grind

@[grind ←] theorem typeField_blames (second : Bool) : Throws Blames (typeField i stack second) := by
  unfold typeField
  grind

@[grind ←] theorem typeGetNth_blames (args : List Expr) :
    Throws Blames (typeGetNth i stack args) := by
  unfold typeGetNth
  grind

@[grind ←] theorem typeGetMap_blames : Throws Blames (typeGetMap i stack) := by
  unfold typeGetMap
  grind

@[grind ←] theorem typeGET_blames : Throws Blames (typeGET i stack) := by
  unfold typeGET
  split <;> grind

@[grind ←] theorem updated_blames (p : String) (args : List StackType) :
    Throws Blames (updated i stack p args) :=
  Throws.bind (Throws.mapM (fun a => annotate_blames i stack a _) args) fun kept =>
    Throws.ok (ofPrim p kept)

@[grind ←] theorem typeUpdateNth_blames (args : List Expr) :
    Throws Blames (typeUpdateNth i stack args) := by
  unfold typeUpdateNth
  grind

@[grind ←] theorem typeUpdateMap_blames : Throws Blames (typeUpdateMap i stack) := by
  unfold typeUpdateMap
  refine args2_blames i stack _ _ fun key value tail => ?_
  refine Throws.bind (ensure_blames i stack _ key) fun _ => ?_
  grind

@[grind ←] theorem typeUPDATE_blames : Throws Blames (typeUPDATE i stack) := by
  unfold typeUPDATE
  split <;> grind

@[grind ←] theorem typeGET_AND_UPDATE_blames : Throws Blames (typeGET_AND_UPDATE i stack) := by
  unfold typeGET_AND_UPDATE
  refine Throws.bind (instructionAnn_blames i stack _ _) fun ia => ?_
  refine args3_blames i stack _ _ _ fun key value map tail => ?_
  refine Throws.bind (ensure_blames i stack _ key) fun _ => ?_
  refine Throws.bind (argOf_blames map 0) fun keys => ?_
  refine Throws.bind (ensureTypesEqual_blames i stack key keys) fun _ => ?_
  refine Throws.bind (argOf_blames value 0) fun type => ?_
  grind

@[grind ←] theorem typeEmpty_blames (p : String) : Throws Blames (typeEmpty i stack p) := by
  unfold typeEmpty
  grind

@[grind ←] theorem typeSide_blames (left : Bool) : Throws Blames (typeSide i stack left) := by
  unfold typeSide
  refine args1_blames i stack _ fun s tail => ?_
  refine Throws.bind (instructionAnn_blames i stack _ _) fun ia => ?_
  grind

@[grind ←] theorem typeArgAt_blames (t : StackType) (n : ℕ) : Throws Blames (typeArgAt t n) := by
  unfold typeArgAt
  grind

@[grind ←] theorem typeAPPLY_blames : Throws Blames (typeAPPLY i stack) := by
  unfold typeAPPLY
  refine args2_blames i stack _ _ fun a f tail => ?_
  refine Throws.bind (ensure_blames i stack _ a) fun _ => ?_
  refine Throws.bind (ensure_blames i stack _ a) fun _ => ?_
  grind

@[grind ←] theorem typeFAILWITH_blames (ctx : Context) : Throws Blames (typeFAILWITH i stack ctx) := by
  unfold typeFAILWITH
  grind

@[grind ←] theorem entryPoint_blames (contract : StackType) (ia : UnpackedAnnotations) :
    Throws Blames (entryPoint i stack contract ia) := by
  unfold entryPoint
  grind

@[grind ←] theorem typeSELF_blames (ctx : Context) : Throws Blames (typeSELF i stack ctx) := by
  unfold typeSELF
  split <;> grind

@[grind ←] theorem assertKeyHash_blames (option : StackType) :
    Throws Blames (assertKeyHash i stack option) := by
  unfold assertKeyHash
  grind

@[grind ←] theorem typeSET_DELEGATE_blames : Throws Blames (typeSET_DELEGATE i stack) := by
  unfold typeSET_DELEGATE
  grind

@[grind ←] theorem givenVar_blames (ia : UnpackedAnnotations) (s : StackType) (suffix : JSString) :
    Throws Blames (givenVar i stack ia s suffix) := by
  unfold givenVar
  split <;> grind

@[grind ←] theorem typeADDRESS_blames : Throws Blames (typeADDRESS i stack) := by
  unfold typeADDRESS
  grind

@[grind ←] theorem parameterContract_blames (contract : StackType) :
    Throws Blames (parameterContract contract) := by
  have hsection := contractSection_blames
  unfold parameterContract
  grind

@[grind ←] theorem typeSELF_ADDRESS_blames (ctx : Context) :
    Throws Blames (typeSELF_ADDRESS i stack ctx) := by
  unfold typeSELF_ADDRESS
  split <;> grind

@[grind ←] theorem typeCONTRACT_blames : Throws Blames (typeCONTRACT i stack) := by
  unfold typeCONTRACT
  refine args1_blames i stack _ fun s tail => ?_
  refine Throws.bind (typeArg_blames i 0) fun t => ?_
  refine Throws.bind (assertTypeAnnotationsValid_blames t false) fun _ => ?_
  grind

@[grind ←] theorem typeTICKET_blames (ctx : Context) : Throws Blames (typeTICKET i stack ctx) := by
  unfold typeTICKET
  grind

@[grind ←] theorem typeJOIN_TICKETS_blames : Throws Blames (typeJOIN_TICKETS i stack) := by
  unfold typeJOIN_TICKETS
  grind

@[grind ←] theorem typeSPLIT_TICKET_blames : Throws Blames (typeSPLIT_TICKET i stack) := by
  unfold typeSPLIT_TICKET
  grind

@[grind ←] theorem updatedState_blames (s : StackType) :
    Throws Blames (typeSAPLING_VERIFY_UPDATE.updatedState i stack s) := by
  unfold typeSAPLING_VERIFY_UPDATE.updatedState
  grind

@[grind ←] theorem typeSAPLING_VERIFY_UPDATE_blames (ctx : Context) :
    Throws Blames (typeSAPLING_VERIFY_UPDATE i stack ctx) := by
  unfold typeSAPLING_VERIFY_UPDATE
  refine args2_blames i stack _ _ fun t s tail => ?_
  refine Throws.bind (memoSize_blames t) fun x => ?_
  grind

theorem typeOperation_blames (ctx : Context) (p : String) {r : Checked ReturnType}
    (h : typeOperation ctx i stack p = some r) : Throws Blames r := by
  unfold typeOperation at h
  split at h
  all_goals first | cases h; done | cases h; grind

end

/-! ## Data -/

section

variable {host : Host} {functionType : List StackType → Expr → Checked ReturnType}
  {valid : Expr → Expr → Checked Unit} (d t : Expr)

@[grind ←] theorem unexpected_blames (expected : String) :
    Throws Blames (unexpected t d expected) := by
  unfold unexpected
  grind

@[grind ←] theorem bytesValid_blames (hex : JSString) (expected : String) :
    Throws Blames (bytesValid t d hex expected) := by
  unfold bytesValid
  grind

@[grind ←] theorem identifierValid_blames {α : Type} (types : List TezosIDType)
    (decode : Bytes → Except MichelError α) (expected : String) :
    Throws Blames (identifierValid host types decode t d expected) := by
  unfold identifierValid
  split <;> grind

theorem literalValid_blames (p : String) {r : Checked Unit} (h : literalValid host t d p = some r) :
    Throws Blames r := by
  unfold literalValid at h
  split at h
  all_goals first
    | cases h; done
    | cases h; split <;> grind
    | cases h; grind

@[grind ←] theorem forEachData_blames {check : Expr → Checked Unit}
    (h : ∀ d, Throws Blames (check d)) (ds : List Expr) : Throws Blames (forEachData check ds) := by
  induction ds with
  | nil => exact Throws.ok ()
  | cons d ds ih => exact Throws.bind (h d) fun _ => ih

@[grind ←] theorem exprArg_blames (args : Option (List Expr)) (k : ℕ) :
    Throws Blames (exprArg args k) := by
  unfold exprArg
  split <;> grind

@[grind ←] theorem combParts_blames (id : String) (e : Expr) : Throws Blames (combParts id e) := by
  unfold combParts
  refine Throws.bind (lift_blames _) fun comb => ?_
  split <;> grind

theorem pairValid_blames (hvalid : ∀ d t, Throws Blames (valid d t)) :
    Throws Blames (pairValid valid d t) := by
  unfold pairValid
  grind

theorem lambdaValid_blames (hrun : ∀ stack code, Throws Blames (functionType stack code))
    (args : Option (List Expr)) : Throws Blames (lambdaValid functionType d t args) := by
  unfold lambdaValid
  split
  · refine Throws.bind (exprArg_blames args 0) fun a => ?_
    refine Throws.bind (hrun _ d) fun out => ?_
    split <;> grind
  · exact unexpected_blames d t _

theorem eltValid_blames (hvalid : ∀ d t, Throws Blames (valid d t)) (args : Option (List Expr))
    (v : Expr) : Throws Blames (eltValid valid t d args v) := by
  unfold eltValid
  split <;> grind

theorem structureValid_blames (hrun : ∀ stack code, Throws Blames (functionType stack code))
    (hvalid : ∀ d t, Throws Blames (valid d t)) (p : String) (args : Option (List Expr)) :
    Throws Blames (structureValid functionType valid d t p args) := by
  have helt := eltValid_blames d t hvalid args
  have hlambda := lambdaValid_blames d t hrun args
  unfold structureValid
  grind

theorem dataValid_blames (hrun : ∀ stack code, Throws Blames (functionType stack code))
    (hvalid : ∀ d t, Throws Blames (valid d t)) :
    Throws Blames (dataValid host functionType valid d t) := by
  have hpair := pairValid_blames d t hvalid
  have hliteral := @literalValid_blames host d t
  have hstructure := structureValid_blames d t hrun hvalid
  unfold dataValid
  split <;> grind

end

/-! ## Code -/

section

variable {run runAlone : Expr → List StackType → Checked ReturnType}
  {valid : Expr → Expr → Checked Unit} {contractValid : Expr → Checked Unit} (i : Instruction)
  (stack : List StackType)

@[grind ←] theorem branchType_blames (br₀ br₁ : ReturnType) :
    Throws Blames (branchType i stack br₀ br₁) := by
  unfold branchType
  split <;> grind

@[grind ←] theorem element_blames (t : StackType) (v : List JSString) :
    Throws Blames (element i stack t v) := annotate_blames i stack t _

@[grind ←] theorem elementType_blames (s : StackType) : Throws Blames (elementType s) := by
  unfold elementType
  split <;> grind

@[grind ←] theorem loopType_blames (body : ReturnType) (expected : List StackType)
    {after : Checked (List StackType)} (h : Throws Blames after) :
    Throws Blames (loopType i stack body expected after) := by
  unfold loopType
  split <;> grind

theorem typeIF_NONE_blames (hrun : ∀ code stack, Throws Blames (run code stack)) :
    Throws Blames (typeIF_NONE run i stack) := by
  unfold typeIF_NONE
  refine Throws.bind (instructionAnn_blames i stack _ _) fun _ => ?_
  refine args1_blames i stack _ fun s tail => ?_
  grind

theorem typeIF_LEFT_blames (hrun : ∀ code stack, Throws Blames (run code stack)) :
    Throws Blames (typeIF_LEFT run i stack) := by
  unfold typeIF_LEFT
  refine Throws.bind (instructionAnn_blames i stack _ _) fun _ => ?_
  refine args1_blames i stack _ fun s tail => ?_
  refine Throws.bind (argAnn_blames i stack s) fun va => ?_
  refine Throws.bind (argOf_blames s 0) fun left => ?_
  refine Throws.bind (argAnn_blames i stack left) fun lefta => ?_
  refine Throws.bind (argOf_blames s 1) fun right => ?_
  refine Throws.bind (argAnn_blames i stack right) fun righta => ?_
  refine Throws.bind (argOf_blames s 0) fun left => ?_
  refine Throws.bind (element_blames i stack left _) fun elt => ?_
  refine Throws.bind (arg_blames i 0) fun code => ?_
  refine Throws.bind (hrun code _) fun br₀ => ?_
  grind

theorem typeIF_CONS_blames (hrun : ∀ code stack, Throws Blames (run code stack)) :
    Throws Blames (typeIF_CONS run i stack) := by
  unfold typeIF_CONS
  refine Throws.bind (instructionAnn_blames i stack _ _) fun _ => ?_
  refine args1_blames i stack _ fun s tail => ?_
  refine Throws.bind (argAnn_blames i stack s) fun va => ?_
  grind

theorem typeIF_blames (hrun : ∀ code stack, Throws Blames (run code stack)) :
    Throws Blames (typeIF run i stack) := by
  unfold typeIF
  grind

theorem typeMAP_blames (hrun : ∀ code stack, Throws Blames (run code stack)) :
    Throws Blames (typeMAP run i stack) := by
  unfold typeMAP
  refine args1_blames i stack _ fun s tail => ?_
  refine Throws.bind (elementType_blames s) fun type => ?_
  refine Throws.bind (argAnn_blames i stack s) fun va => ?_
  refine Throws.bind (element_blames i stack type _) fun elt => ?_
  refine Throws.bind (arg_blames i 0) fun code => ?_
  refine Throws.bind (hrun code _) fun out => ?_
  split <;> grind

theorem typeITER_blames (hrun : ∀ code stack, Throws Blames (run code stack)) :
    Throws Blames (typeITER run i stack) := by
  unfold typeITER
  refine Throws.bind (instructionAnn_blames i stack _ _) fun _ => ?_
  refine args1_blames i stack _ fun s tail => ?_
  grind

theorem typeLOOP_blames (hrun : ∀ code stack, Throws Blames (run code stack)) :
    Throws Blames (typeLOOP run i stack) := by
  unfold typeLOOP
  grind

theorem typeLOOP_LEFT_blames (hrun : ∀ code stack, Throws Blames (run code stack)) :
    Throws Blames (typeLOOP_LEFT run i stack) := by
  unfold typeLOOP_LEFT
  refine Throws.bind (instructionAnn_blames i stack _ _) fun _ => ?_
  refine args1_blames i stack _ fun s tail => ?_
  refine Throws.bind (argOf_blames s 0) fun type => ?_
  refine Throws.bind (argAnn_blames i stack s) fun va => ?_
  refine Throws.bind (element_blames i stack type _) fun elt => ?_
  grind

theorem typeDIP_blames (hrun : ∀ code stack, Throws Blames (run code stack)) :
    Throws Blames (typeDIP run i stack) := by
  unfold typeDIP
  refine Throws.bind (instructionAnn_blames i stack _ _) fun _ => ?_
  split
  all_goals
    refine Throws.bind (by grind) fun args => ?_
    grind

theorem typeCREATE_CONTRACT_blames (hcontract : ∀ contract, Throws Blames (contractValid contract)) :
    Throws Blames (typeCREATE_CONTRACT contractValid i stack) := by
  have hsection := contractSection_blames
  unfold typeCREATE_CONTRACT
  refine Throws.bind (instructionAnn_blames i stack _ _) fun _ => ?_
  refine args3_blames i stack _ _ _ fun s _ storage tail => ?_
  refine Throws.bind (assertKeyHash_blames i stack s) fun _ => ?_
  refine Throws.bind (ensure_blames i stack _ storage) fun _ => ?_
  refine Throws.bind (arg_blames i 0) fun contract => ?_
  refine Throws.bind (hcontract contract) fun _ => ?_
  refine Throws.bind (sectionsOf_blames _) fun sections => ?_
  refine Throws.bind (hsection sections "storage") fun stored => ?_
  refine Throws.bind (argOf_blames stored 0) fun type => ?_
  grind

theorem typePUSH_blames (hvalid : ∀ d t, Throws Blames (valid d t)) :
    Throws Blames (typePUSH valid i stack) := by
  unfold typePUSH
  grind

theorem typeLAMBDA_blames (hrun : ∀ code stack, Throws Blames (runAlone code stack)) :
    Throws Blames (typeLAMBDA runAlone i stack) := by
  unfold typeLAMBDA
  refine Throws.bind (typeArg_blames i 0) fun a => ?_
  refine Throws.bind (assertTypeAnnotationsValid_blames a false) fun _ => ?_
  refine Throws.bind (typeArg_blames i 1) fun b => ?_
  refine Throws.bind (assertTypeAnnotationsValid_blames b false) fun _ => ?_
  refine Throws.bind (arg_blames i 2) fun code => ?_
  refine Throws.bind (hrun code _) fun out => ?_
  split <;> grind

theorem typeCode_blames (hrun : ∀ code stack, Throws Blames (run code stack))
    (halone : ∀ code stack, Throws Blames (runAlone code stack))
    (hvalid : ∀ d t, Throws Blames (valid d t))
    (hcontract : ∀ contract, Throws Blames (contractValid contract)) (p : String)
    {r : Checked ReturnType} (h : typeCode run runAlone valid contractValid i stack p = some r) :
    Throws Blames r := by
  unfold typeCode at h
  split at h
  · cases h
    exact typeIF_NONE_blames i stack hrun
  · cases h
    exact typeIF_LEFT_blames i stack hrun
  · cases h
    exact typeIF_CONS_blames i stack hrun
  · cases h
    exact typeIF_blames i stack hrun
  · cases h
    exact typeMAP_blames i stack hrun
  · cases h
    exact typeITER_blames i stack hrun
  · cases h
    exact typeLOOP_blames i stack hrun
  · cases h
    exact typeLOOP_LEFT_blames i stack hrun
  · cases h
    exact typeDIP_blames i stack hrun
  · cases h
    exact typeCREATE_CONTRACT_blames i stack hcontract
  · cases h
    exact typePUSH_blames i stack hvalid
  · cases h
    exact typeLAMBDA_blames i stack halone
  · cases h
    exact typeLAMBDA_blames i stack halone
  · cases h

end

section

variable {run : Context → Expr → List StackType → Checked ReturnType}
  {valid : Context → Expr → Expr → Checked Unit} {contractValid : Expr → Checked Unit}

theorem retStack_blames (hrun : ∀ ctx code stack, Throws Blames (run ctx code stack))
    (hvalid : ∀ ctx d t, Throws Blames (valid ctx d t))
    (hcontract : ∀ contract, Throws Blames (contractValid contract)) (ctx : Context)
    (i : Instruction) (stack : List StackType) :
    Throws Blames (retStack run valid contractValid ctx i stack) := by
  unfold retStack
  split
  · exact typeSignature_blames i stack _
  · split
    · exact typeBinary_blames i stack _
    · split
      · exact typeOperation_blames i stack ctx i.prim ‹_›
      · split
        · exact typeCode_blames i stack (hrun ctx) (hrun ctx.alone) (hvalid ctx.alone) hcontract
            i.prim ‹_›
        · exact Throws.error_iff.mpr (blames_michelsonError _ _)

theorem typeFrom_blames (hrun : ∀ ctx code stack, Throws Blames (run ctx code stack))
    (ctx : Context) (inst : List Expr) (stack : List StackType) :
    Throws Blames (typeFrom run ctx inst stack) := by
  induction inst generalizing stack with
  | nil => exact Throws.ok _
  | cons op inst ih =>
    refine Throws.bind (hrun ctx op stack) fun out => ?_
    cases out with
    | failed type level => exact Throws.ok _
    | stack types => exact ih types

theorem instructionType_blames (hrun : ∀ ctx code stack, Throws Blames (run ctx code stack))
    (hvalid : ∀ ctx d t, Throws Blames (valid ctx d t))
    (hcontract : ∀ contract, Throws Blames (contractValid contract)) (ctx : Context)
    (inst : Expr) (stack : List StackType) :
    Throws Blames (instructionType run valid contractValid ctx inst stack) := by
  unfold instructionType
  split
  · refine Throws.bind (typeFrom_blames hrun ctx _ stack) fun out => ?_
    split <;> grind
  · exact retStack_blames hrun hvalid hcontract ctx _ stack
  · exact Throws.error_iff.mpr (blames_michelsonError _ _)

theorem assertSection_blames (hrun : ∀ ctx code stack, Throws Blames (run ctx code stack))
    (ctx : Context) (contract parameter storage ret : StackType) (code : Expr) :
    Throws Blames (assertSection run ctx contract parameter storage ret code) := by
  unfold assertSection
  refine Throws.bind (assertTypeAnnotationsValid_blames parameter true) fun _ => ?_
  refine Throws.bind (assertTypeAnnotationsValid_blames storage false) fun _ => ?_
  refine Throws.bind (hrun _ code _) fun out => ?_
  split
  · exact Throws.ok _
  · split
    · exact Throws.ok _
    · rename_i e he
      have hblames := assertStacksEqual_blames _ _ e he
      split <;> grind

theorem viewsValid_blames (hrun : ∀ ctx code stack, Throws Blames (run ctx code stack))
    (ctx : Context) (contract storage : StackType) (views : List (JSString × StackType)) :
    Throws Blames (viewsValid run ctx contract storage views) := by
  have hassert := assertSection_blames hrun ctx contract
  induction views with
  | nil => exact Throws.ok ()
  | cons view views ih =>
    unfold viewsValid
    grind

theorem contractViews_blames (sections : List StackType) : Throws Blames (contractViews sections) := by
  induction sections with
  | nil => exact Throws.ok []
  | cons s ss ih =>
    unfold contractViews
    grind

theorem contractType_blames (hrun : ∀ ctx code stack, Throws Blames (run ctx code stack))
    (ctx : Context) (contract : StackType) : Throws Blames (contractType run ctx contract) := by
  have hsection := contractSection_blames
  have hassert := assertSection_blames hrun ctx contract
  have hviews := viewsValid_blames hrun ctx contract
  have hnames := contractViews_blames
  unfold contractType
  refine Throws.bind (sectionsOf_blames contract) fun sections => ?_
  refine Throws.bind (hsection sections "parameter") fun parameter => ?_
  refine Throws.bind (argOf_blames parameter 0) fun parameter => ?_
  grind

end

section

variable (host : Host)

theorem checker_blames (fuel : ℕ) :
    (∀ ctx code stack, Throws Blames (functionTypeTo host fuel ctx code stack)) ∧
      (∀ ctx d t, Throws Blames (dataValidTo host fuel ctx d t)) ∧
        ∀ ctx contract, Throws Blames (contractTypeTo host fuel ctx contract) := by
  induction fuel with
  | zero =>
    refine ⟨fun ctx code stack => ?_, fun ctx d t => ?_, fun ctx contract => ?_⟩
    · exact Throws.error_iff.mpr (blames_thrown .outOfFuel)
    · exact Throws.error_iff.mpr (blames_thrown .outOfFuel)
    · exact Throws.error_iff.mpr (blames_thrown .outOfFuel)
  | succ fuel ih =>
    obtain ⟨hrun, hvalid, hcontract⟩ := ih
    refine ⟨fun ctx code stack => ?_, fun ctx d t => ?_, fun ctx contract => ?_⟩
    · exact instructionType_blames hrun hvalid
        (fun contract => Throws.bind (hcontract {} (ofExpr contract)) fun _ => Throws.ok ()) ctx code stack
    · exact dataValid_blames d t (fun stack code => hrun ctx code stack) (hvalid ctx)
    · exact contractType_blames hrun ctx contract

/-- **The checker speaks of missing sections where they are missing.** -/
theorem assertContractValid_blames (ctx : Context) (contract : Expr) :
    Throws Blames (assertContractValid host ctx contract) :=
  (checker_blames host (size contract)).2.2 ctx (ofExpr contract)

end

end Typechecker
