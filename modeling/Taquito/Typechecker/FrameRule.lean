import Taquito.Typechecker.CombLens
import Taquito.Typechecker.FramedOperations

/-!
# The frame rule

What code does on a stack it does on a longer one, and the rest of the stack stays as it is. This
holds of code whose instructions act on elements that their stacks have (`LocalAt`), and of a rest
whose types equal themselves.

The condition is about the instructions that the checker visits, which depends on its run. It is
stated by the same checker with one more test: `typeWhere meets` refuses an instruction, its stack
and its result unless they meet a condition. The checker mirrors it on every longer stack, and on
the same stack (`typeWhere_mirrors`).
-/

open Js MichelCodec

namespace Typechecker

open StackType

/-! ## Conditions on the visited instructions -/

/-- What is asked of an instruction, with the stack that it is typed on and its result. -/
abbrev Condition := Instruction → List StackType → ReturnType → Bool

section

variable (meets : Condition) (host : Host)

/-- A result, if it meets the condition. -/
def ifMeets (inst : Expr) (stack : List StackType) (r : ReturnType) : Checked ReturnType :=
  match inst with
  | .prim p args annots =>
    if meets ⟨p, args, annots⟩ stack r then .ok r
    else .error (.instructionError inst r (js "excluded"))
  | _ => .ok r

mutual

/-- `functionTypeTo`, of code whose instructions meet a condition. -/
def typeWhere : ℕ → Context → Expr → List StackType → Checked ReturnType
  | 0, _, _, _ => .error (.thrown .outOfFuel)
  | fuel + 1, ctx, inst, stack => do
    let r ← instructionType (typeWhere fuel) (dataWhere fuel)
      (fun contract => do let _ ← contractWhere fuel {} (ofExpr contract)) ctx inst stack
    ifMeets meets inst stack r

/-- `dataValidTo`, of data whose code meets a condition. -/
def dataWhere : ℕ → Context → Expr → Expr → Checked Unit
  | 0, _, _, _ => .error (.thrown .outOfFuel)
  | fuel + 1, ctx, d, t =>
    dataValid host (fun stack code => typeWhere fuel ctx code stack) (dataWhere fuel ctx) d t

/-- `contractTypeTo`, of a contract whose code meets a condition. -/
def contractWhere : ℕ → Context → StackType → Checked ReturnType
  | 0, _, _ => .error (.thrown .outOfFuel)
  | fuel + 1, ctx, contract => contractType (typeWhere fuel) ctx contract

end

end

/-! ## Stacks that are compared -/

theorem eachEqual_append {a b rest : List StackType} (hrest : ∀ t ∈ rest, EqualsItself t)
    (hlen : a.length = b.length) (h : eachEqual a b = .ok ()) :
    eachEqual (a ++ rest) (b ++ rest) = .ok () := by
  induction a generalizing b with
  | nil =>
    obtain rfl := List.eq_nil_of_length_eq_zero hlen.symm
    rw [List.nil_append]
    clear h hlen
    induction rest with
    | nil => rfl
    | cons t rest ih =>
      obtain ⟨ht, hrest⟩ := List.forall_mem_cons.mp hrest
      exact Except.bind_eq_ok.mpr ⟨(), ht, ih hrest⟩
  | cons x a ih =>
    cases b with
    | nil => cases hlen
    | cons y b =>
      obtain ⟨_, hxy, h⟩ := Except.bind_eq_ok.mp h
      exact Except.bind_eq_ok.mpr ⟨(), hxy, ih (Nat.succ.inj hlen) h⟩

theorem assertStacksEqual_append {a b rest : List StackType} (hrest : ∀ t ∈ rest, EqualsItself t)
    (h : assertStacksEqual a b = .ok ()) : assertStacksEqual (a ++ rest) (b ++ rest) = .ok () := by
  unfold assertStacksEqual at h
  split at h
  · cases h
  · rename_i hlen
    have hlen := not_not.mp hlen
    rw [assertStacksEqual, if_neg (by rw [List.length_append, List.length_append, hlen]; simp)]
    exact eachEqual_append hrest hlen h

section

variable {i : Instruction} {stack rest : List StackType}

theorem ensureStacksEqual_mirrors (hrest : ∀ t ∈ rest, EqualsItself t) (a b : List StackType) :
    Mirrors Eq (ensureStacksEqual i stack a b)
      (ensureStacksEqual i (stack ++ rest) (a ++ rest) (b ++ rest)) :=
  rethrow_mirrors fun _ h => ⟨(), assertStacksEqual_append hrest h, rfl⟩

/-! ## Branches and loops -/

theorem branchType_extends (hrest : ∀ t ∈ rest, EqualsItself t) {br₀ br₁ br₀' br₁' : ReturnType}
    (h₀ : Extends rest br₀ br₀') (h₁ : Extends rest br₁ br₁') :
    Mirrors (Extends rest) (branchType i stack br₀ br₁)
      (branchType i (stack ++ rest) br₀' br₁') := by
  cases br₀ with
  | failed type level =>
    cases h₀
    exact .ok h₁
  | stack a =>
    cases h₀
    cases br₁ with
    | failed type level =>
      cases h₁
      exact .ok rfl
    | stack b =>
      cases h₁
      exact .bind_eq (ensureStacksEqual_mirrors hrest _ _) fun _ => .ok rfl

theorem loopType_extends (hrest : ∀ t ∈ rest, EqualsItself t) {body body' : ReturnType}
    (hbody : Extends rest body body') (expected : List StackType)
    {after after' : Checked (List StackType)}
    (hafter : Mirrors (fun l l' => l' = l ++ rest) after after') :
    Mirrors (Extends rest) (loopType i stack body expected after)
      (loopType i (stack ++ rest) body' (expected ++ rest) after') := by
  cases body with
  | failed type level =>
    cases hbody
    exact .ok rfl
  | stack types =>
    cases hbody
    refine .bind_eq (ensureStacksEqual_mirrors hrest _ _) fun _ => .bind hafter ?_
    rintro l _ rfl
    exact .ok rfl

theorem element_mirrors {stack' : List StackType} (t : StackType) (v : List JSString) :
    Mirrors Eq (element i stack t v) (element i stack' t v) := annotate_mirrors _ _

/-! ## Code -/

variable {run run' : Expr → List StackType → Checked ReturnType}
  (hrest : ∀ t ∈ rest, EqualsItself t)
  (hrun : ∀ code stack, Mirrors (Extends rest) (run code stack) (run' code (stack ++ rest)))

include hrest hrun

theorem typeIF_NONE_extends :
    Mirrors (Extends rest) (typeIF_NONE run i stack) (typeIF_NONE run' i (stack ++ rest)) := by
  refine .bind_eq (instructionAnn_mirrors _ _) fun _ => args1_extends fun s tail _ => ?_
  refine .bind_eq (.same _) fun code => .bind (hrun _ _) fun br₀ br₀' h₀ => ?_
  refine .bind_eq (.same _) fun t => .bind_eq (argAnn_mirrors _) fun a => ?_
  refine .bind_eq (element_mirrors _ _) fun some' => .bind_eq (.same _) fun code => ?_
  exact .bind (hrun _ _) fun br₁ br₁' h₁ => branchType_extends hrest h₀ h₁

theorem typeIF_LEFT_extends :
    Mirrors (Extends rest) (typeIF_LEFT run i stack) (typeIF_LEFT run' i (stack ++ rest)) := by
  refine .bind_eq (instructionAnn_mirrors _ _) fun _ => args1_extends fun s tail _ => ?_
  refine .bind_eq (argAnn_mirrors _) fun va => .bind_eq (.same _) fun a => ?_
  refine .bind_eq (argAnn_mirrors _) fun lefta => .bind_eq (.same _) fun b => ?_
  refine .bind_eq (argAnn_mirrors _) fun righta => .bind_eq (.same _) fun a => ?_
  refine .bind_eq (element_mirrors _ _) fun left => .bind_eq (.same _) fun code => ?_
  refine .bind (hrun _ _) fun br₀ br₀' h₀ => .bind_eq (.same _) fun b => ?_
  refine .bind_eq (element_mirrors _ _) fun right => .bind_eq (.same _) fun code => ?_
  exact .bind (hrun _ _) fun br₁ br₁' h₁ => branchType_extends hrest h₀ h₁

theorem typeIF_CONS_extends :
    Mirrors (Extends rest) (typeIF_CONS run i stack) (typeIF_CONS run' i (stack ++ rest)) := by
  refine .bind_eq (instructionAnn_mirrors _ _) fun _ => args1_extends fun s tail _ => ?_
  refine .bind_eq (argAnn_mirrors _) fun va => .bind_eq (.same _) fun a => ?_
  refine .bind_eq (element_mirrors _ _) fun hd => .bind_eq (element_mirrors _ _) fun tl => ?_
  refine .bind_eq (.same _) fun code => .bind (hrun _ _) fun br₀ br₀' h₀ => ?_
  refine .bind_eq (.same _) fun code => ?_
  exact .bind (hrun _ _) fun br₁ br₁' h₁ => branchType_extends hrest h₀ h₁

theorem typeIF_extends :
    Mirrors (Extends rest) (typeIF run i stack) (typeIF run' i (stack ++ rest)) := by
  refine .bind_eq (instructionAnn_mirrors _ _) fun _ => args1_extends fun s tail _ => ?_
  refine .bind_eq (.same _) fun code => .bind (hrun _ _) fun br₀ br₀' h₀ => ?_
  refine .bind_eq (.same _) fun code => ?_
  exact .bind (hrun _ _) fun br₁ br₁' h₁ => branchType_extends hrest h₀ h₁

theorem typeMAP_extends :
    Mirrors (Extends rest) (typeMAP run i stack) (typeMAP run' i (stack ++ rest)) := by
  refine args1_extends fun s tail _ => .bind_eq (.same _) fun t => ?_
  refine .bind_eq (argAnn_mirrors _) fun a => .bind_eq (element_mirrors _ _) fun elt => ?_
  refine .bind_eq (.same _) fun code => .bind (hrun _ _) fun out out' hout => ?_
  cases out with
  | failed type level =>
    cases hout
    exact .ite (fun _ => .ok rfl) fun _ => .error
  | stack types =>
    cases hout
    cases types with
    | nil => exact .error
    | cons body below =>
      refine .bind_eq (ensureStacksEqual_mirrors hrest _ _) fun _ => ?_
      refine .ite (fun _ => push_extends (annotateVar_mirrors _ _) _) fun _ => ?_
      refine .ite (fun _ => push_extends ?_ _) fun _ => push_extends (annotateVar_mirrors _ _) _
      exact .bind_eq (.same _) fun _ => annotateVar_mirrors _ _

theorem typeITER_extends :
    Mirrors (Extends rest) (typeITER run i stack) (typeITER run' i (stack ++ rest)) := by
  refine .bind_eq (instructionAnn_mirrors _ _) fun _ => args1_extends fun s tail _ => ?_
  refine .bind_eq (.same _) fun t => .bind_eq (argAnn_mirrors _) fun a => ?_
  refine .bind_eq (element_mirrors _ _) fun elt => .bind_eq (.same _) fun code => ?_
  exact .bind (hrun _ _) fun body body' hbody => loopType_extends hrest hbody _ (.ok rfl)

theorem typeLOOP_extends :
    Mirrors (Extends rest) (typeLOOP run i stack) (typeLOOP run' i (stack ++ rest)) := by
  refine .bind_eq (instructionAnn_mirrors _ _) fun _ => args1_extends fun _ tail _ => ?_
  refine .bind_eq (.same _) fun code => .bind (hrun _ _) fun body body' hbody => ?_
  exact loopType_extends hrest hbody (leaf "bool" :: tail) (.ok rfl)

theorem typeLOOP_LEFT_extends :
    Mirrors (Extends rest) (typeLOOP_LEFT run i stack) (typeLOOP_LEFT run' i (stack ++ rest)) := by
  refine .bind_eq (instructionAnn_mirrors _ _) fun _ => args1_extends fun s tail _ => ?_
  refine .bind_eq (.same _) fun t => .bind_eq (argAnn_mirrors _) fun a => ?_
  refine .bind_eq (element_mirrors _ _) fun left => .bind_eq (.same _) fun code => ?_
  refine .bind (hrun _ _) fun body body' hbody => loopType_extends hrest hbody (s :: tail) ?_
  refine .bind_eq (instructionAnn_mirrors _ _) fun ia => .bind_eq (.same _) fun b => ?_
  exact .bind_eq (annotate_mirrors _ _) fun right => .ok rfl

omit hrest in
theorem typeDIP_extends :
    Mirrors (Extends rest) (typeDIP run i stack) (typeDIP run' i (stack ++ rest)) := by
  refine .bind_eq (instructionAnn_mirrors _ _) fun _ => ?_
  dsimp only
  split
  · refine .bind_eq (.same _) fun args => ?_
    split
    on_goal 1 => refine .bind_eq (.same _) fun _ => ?_
    all_goals
      refine .bind_eq (.same _) fun n => assertDepth_extends fun hlen => ?_
      refine .bind_eq (.same _) fun code => ?_
      rw [List.drop_append_of_le_length hlen, List.take_append_of_le_length hlen]
      refine .bind (hrun _ _) fun out out' hout => ?_
      cases out with
      | failed type level =>
        cases hout
        exact .ok rfl
      | stack body =>
        cases hout
        exact .ok (by rw [Extends, List.append_assoc])
  · exact .error

end

section

variable {i : Instruction} {stack rest : List StackType}

theorem typeCREATE_CONTRACT_extends {contractValid contractValid' : Expr → Checked Unit}
    (hcontract : ∀ c, Mirrors Eq (contractValid c) (contractValid' c)) :
    Mirrors (Extends rest) (typeCREATE_CONTRACT contractValid i stack)
      (typeCREATE_CONTRACT contractValid' i (stack ++ rest)) := by
  refine .bind_eq (instructionAnn_mirrors _ _) fun ia => args3_extends fun s _ storage tail _ => ?_
  refine .bind_eq (assertKeyHash_mirrors _) fun _ => .bind_eq (ensure_mirrors _ _) fun _ => ?_
  refine .bind_eq (.same _) fun contract => .bind_eq (hcontract contract) fun _ => ?_
  refine .bind_eq (.same _) fun sections => .bind_eq (.same _) fun stored => ?_
  refine .bind_eq (.same _) fun t => .bind_eq (.same _) fun _ => ?_
  refine .bind_eq (annotate_mirrors _ _) fun operation => .bind_eq (.same _) fun self => ?_
  exact .bind_eq (annotate_mirrors _ _) fun address => .ok rfl

theorem typePUSH_extends {valid valid' : Expr → Expr → Checked Unit}
    (hvalid : ∀ d t, Mirrors Eq (valid d t) (valid' d t)) :
    Mirrors (Extends rest) (typePUSH valid i stack) (typePUSH valid' i (stack ++ rest)) := by
  refine .bind_eq (.same _) fun t => .bind_eq (.same _) fun _ => .bind_eq (.same _) fun d => ?_
  exact .bind_eq (hvalid d t) fun _ => push_extends (annotateVar_mirrors _ _) _

theorem typeLAMBDA_extends {run run' : Expr → List StackType → Checked ReturnType}
    (hrun : ∀ code stack, Mirrors Eq (run code stack) (run' code stack)) :
    Mirrors (Extends rest) (typeLAMBDA run i stack) (typeLAMBDA run' i (stack ++ rest)) := by
  refine .bind_eq (.same _) fun a => .bind_eq (.same _) fun _ => .bind_eq (.same _) fun b => ?_
  refine .bind_eq (.same _) fun _ => .bind_eq (.same _) fun code => .bind_eq (hrun _ _) fun out => ?_
  split
  · exact .ok rfl
  · refine .bind_eq (ensureTypesEqual_mirrors _ _) fun _ => ?_
    exact push_extends (annotateVar_mirrors _ _) _
  · exact .error

/-! ## All instructions -/

variable {run run' runAlone runAlone' : Expr → List StackType → Checked ReturnType}
  {valid valid' : Expr → Expr → Checked Unit} {contractValid contractValid' : Expr → Checked Unit}

theorem typeCode_isSome {stack' : List StackType} {p : String} {r : Checked ReturnType}
    (h : typeCode run runAlone valid contractValid i stack p = some r) :
    ∃ r', typeCode run' runAlone' valid' contractValid' i stack' p = some r' := by
  unfold typeCode at h
  split at h
  all_goals first | exact ⟨_, rfl⟩ | cases h

theorem typeCode_extends (hrest : ∀ t ∈ rest, EqualsItself t)
    (hrun : ∀ code stack, Mirrors (Extends rest) (run code stack) (run' code (stack ++ rest)))
    (halone : ∀ code stack, Mirrors Eq (runAlone code stack) (runAlone' code stack))
    (hvalid : ∀ d t, Mirrors Eq (valid d t) (valid' d t))
    (hcontract : ∀ c, Mirrors Eq (contractValid c) (contractValid' c)) {p : String}
    {r : Checked ReturnType} (h : typeCode run runAlone valid contractValid i stack p = some r) :
    ∃ r', typeCode run' runAlone' valid' contractValid' i (stack ++ rest) p = some r' ∧
      Mirrors (Extends rest) r r' := by
  unfold typeCode at h
  split at h <;> cases h
  · exact ⟨_, rfl, typeIF_NONE_extends hrest hrun⟩
  · exact ⟨_, rfl, typeIF_LEFT_extends hrest hrun⟩
  · exact ⟨_, rfl, typeIF_CONS_extends hrest hrun⟩
  · exact ⟨_, rfl, typeIF_extends hrest hrun⟩
  · exact ⟨_, rfl, typeMAP_extends hrest hrun⟩
  · exact ⟨_, rfl, typeITER_extends hrest hrun⟩
  · exact ⟨_, rfl, typeLOOP_extends hrest hrun⟩
  · exact ⟨_, rfl, typeLOOP_LEFT_extends hrest hrun⟩
  · exact ⟨_, rfl, typeDIP_extends hrun⟩
  · exact ⟨_, rfl, typeCREATE_CONTRACT_extends hcontract⟩
  · exact ⟨_, rfl, typePUSH_extends hvalid⟩
  · exact ⟨_, rfl, typeLAMBDA_extends halone⟩
  · exact ⟨_, rfl, typeLAMBDA_extends halone⟩

end

/-! ## Sequences -/

section

variable {run run' : Context → Expr → List StackType → Checked ReturnType}
  {valid valid' : Context → Expr → Expr → Checked Unit}
  {contractValid contractValid' : Expr → Checked Unit} {rest : List StackType} {ctx : Context}

theorem retStack_extends (hrest : ∀ t ∈ rest, EqualsItself t)
    (hrun : ∀ ctx code stack,
      Mirrors (Extends rest) (run ctx code stack) (run' ctx code (stack ++ rest)))
    (halone : ∀ ctx code stack, Mirrors Eq (run ctx code stack) (run' ctx code stack))
    (hvalid : ∀ ctx d t, Mirrors Eq (valid ctx d t) (valid' ctx d t))
    (hcontract : ∀ c, Mirrors Eq (contractValid c) (contractValid' c)) {i : Instruction}
    {stack : List StackType} (hlocal : rest = [] ∨ LocalAt i stack) :
    Mirrors (Extends rest) (retStack run valid contractValid ctx i stack)
      (retStack run' valid' contractValid' ctx i (stack ++ rest)) := by
  unfold retStack
  split
  · exact typeSignature_extends _
  · split
    · exact typeBinary_extends _
    · cases ho : typeOperation ctx i stack i.prim with
      | some result =>
        obtain ⟨result', ho', h⟩ := typeOperation_extends
          (fun hp => hlocal.imp_right fun h => h.1 hp) (fun hp => hlocal.imp_right fun h => h.2 hp) ho
        rw [ho']
        exact h
      | none =>
        have ho' : typeOperation ctx i (stack ++ rest) i.prim = none := by
          by_contra hne
          obtain ⟨r, hr⟩ := Option.ne_none_iff_exists'.mp hne
          obtain ⟨r', hr'⟩ := typeOperation_isSome hr
          cases ho.symm.trans hr'
        rw [ho']
        cases hc : typeCode (run ctx) (run ctx.alone) (valid ctx.alone) contractValid i stack i.prim with
        | some result =>
          obtain ⟨result', hc', h⟩ := typeCode_extends hrest (hrun ctx) (halone ctx.alone)
            (hvalid ctx.alone) hcontract hc
          rw [hc']
          exact h
        | none => exact .error

/-- A result, and whether it is that of the last instruction. -/
def ExtendsLast (rest : List StackType) (r r' : ReturnType × Bool) : Prop :=
  Extends rest r.1 r'.1 ∧ r'.2 = r.2

theorem typeFrom_extends
    (hrun : ∀ ctx code stack,
      Mirrors (Extends rest) (run ctx code stack) (run' ctx code (stack ++ rest)))
    (inst : List Expr) (stack : List StackType) :
    Mirrors (ExtendsLast rest) (typeFrom run ctx inst stack)
      (typeFrom run' ctx inst (stack ++ rest)) := by
  induction inst generalizing stack with
  | nil => exact .ok ⟨rfl, rfl⟩
  | cons op inst ih =>
    refine .bind (hrun ctx op stack) fun out out' hout => ?_
    cases out with
    | failed type level =>
      cases hout
      exact .ok ⟨rfl, rfl⟩
    | stack types =>
      cases hout
      exact ih types

theorem instructionListType_extends
    (hrun : ∀ ctx code stack,
      Mirrors (Extends rest) (run ctx code stack) (run' ctx code (stack ++ rest)))
    (inst : List Expr) (stack : List StackType) :
    Mirrors (Extends rest) (instructionListType run ctx inst stack)
      (instructionListType run' ctx inst (stack ++ rest)) := by
  refine .bind (typeFrom_extends hrun inst stack) ?_
  rintro ⟨out, last⟩ ⟨out', last'⟩ ⟨hout, hlast⟩
  dsimp only at hout hlast
  subst hlast
  cases out with
  | failed type level =>
    cases hout
    exact .ite (fun _ => .error) fun _ => .ok rfl
  | stack types =>
    cases hout
    exact .ok rfl

theorem instructionType_extends (hrest : ∀ t ∈ rest, EqualsItself t)
    (hrun : ∀ ctx code stack,
      Mirrors (Extends rest) (run ctx code stack) (run' ctx code (stack ++ rest)))
    (halone : ∀ ctx code stack, Mirrors Eq (run ctx code stack) (run' ctx code stack))
    (hvalid : ∀ ctx d t, Mirrors Eq (valid ctx d t) (valid' ctx d t))
    (hcontract : ∀ c, Mirrors Eq (contractValid c) (contractValid' c)) {inst : Expr}
    {stack : List StackType}
    (hlocal : rest = [] ∨ ∀ p args annots, inst = .prim p args annots →
      LocalAt ⟨p, args, annots⟩ stack) :
    Mirrors (Extends rest) (instructionType run valid contractValid ctx inst stack)
      (instructionType run' valid' contractValid' ctx inst (stack ++ rest)) := by
  cases inst with
  | seq items => exact instructionListType_extends hrun items stack
  | prim p args annots =>
    exact retStack_extends hrest hrun halone hvalid hcontract
      (hlocal.imp_right fun h => h p args annots rfl)
  | int text => exact .error
  | string text => exact .error
  | bytes hex => exact .error

end

/-! ## Data and contracts -/

section

variable {host : Host} {functionType functionType' : List StackType → Expr → Checked ReturnType}
  {valid valid' : Expr → Expr → Checked Unit}
  (hrun : ∀ stack code, Mirrors Eq (functionType stack code) (functionType' stack code))
  (hvalid : ∀ d t, Mirrors Eq (valid d t) (valid' d t))

include hvalid in
theorem pairValid_mirrors (d t : Expr) : Mirrors Eq (pairValid valid d t) (pairValid valid' d t) := by
  refine .ite (fun _ => ?_) fun _ => .error
  refine .bind_eq (.same _) fun _ => .bind_eq (.same _) fun dc => .bind_eq (.same _) fun tc => ?_
  exact .bind_eq (hvalid _ _) fun _ => hvalid _ _

include hrun in
theorem lambdaValid_mirrors (d t : Expr) (args : Option (List Expr)) :
    Mirrors Eq (lambdaValid functionType d t args) (lambdaValid functionType' d t args) := by
  refine .ite (fun _ => ?_) fun _ => .error
  exact .bind_eq (.same _) fun a => .bind_eq (hrun _ _) fun out => .same _

include hvalid in
theorem eltValid_mirrors (t d : Expr) (args : Option (List Expr)) (v : Expr) :
    Mirrors Eq (eltValid valid t d args v) (eltValid valid' t d args v) := by
  unfold eltValid
  split
  · refine .bind_eq (.same _) fun k => .bind_eq (.same _) fun kt => ?_
    refine .bind_eq (hvalid _ _) fun _ => .bind_eq (.same _) fun v => .bind_eq (.same _) fun vt => ?_
    exact hvalid _ _
  · exact .same _

theorem forEachData_mirrors {check check' : Expr → Checked Unit}
    (h : ∀ d, Mirrors Eq (check d) (check' d)) (ds : List Expr) :
    Mirrors Eq (forEachData check ds) (forEachData check' ds) := by
  induction ds with
  | nil => exact .same _
  | cons d ds ih => exact .bind_eq (h d) fun _ => ih

include hvalid in
/-- An argument of data against an argument of its type. -/
theorem argValid_mirrors (dargs args : Option (List Expr)) (j k : ℕ) :
    Mirrors Eq (do valid (← exprArg dargs j) (← exprArg args k))
      (do valid' (← exprArg dargs j) (← exprArg args k)) :=
  .bind_eq (.same _) fun _ => .bind_eq (.same _) fun _ => hvalid _ _

include hrun hvalid in
theorem structureValid_mirrors (d t : Expr) (p : String) (args : Option (List Expr)) :
    Mirrors Eq (structureValid functionType valid d t p args)
      (structureValid functionType' valid' d t p args) := by
  refine .ite (fun _ => ?_) fun _ => .ite (fun _ => ?_) fun _ => .ite (fun _ => ?_) fun _ =>
    .ite (fun _ => lambdaValid_mirrors hrun d t args) fun _ => .ite (fun _ => ?_) fun _ =>
    .ite (fun _ => ?_) fun _ => .same _
  · split
    · exact .same _
    · exact argValid_mirrors hvalid _ _ _ _
    · exact .same _
  · split
    · refine .bind_eq (.same _) fun _ => forEachData_mirrors (fun v => ?_) _
      exact .bind_eq (.same _) fun _ => hvalid _ _
    · exact .same _
  · split
    · exact argValid_mirrors hvalid _ _ _ _
    · exact argValid_mirrors hvalid _ _ _ _
    · exact .same _
  · split
    · exact forEachData_mirrors (eltValid_mirrors hvalid t _ args) _
    · exact .same _
  · exact .bind_eq (.same _) fun _ => hvalid _ _

include hrun hvalid in
theorem dataValid_mirrors (d t : Expr) :
    Mirrors Eq (dataValid host functionType valid d t) (dataValid host functionType' valid' d t) := by
  cases t with
  | seq items => exact pairValid_mirrors hvalid d _
  | prim p args annots =>
    refine .ite (fun _ => pairValid_mirrors hvalid d _) fun _ => ?_
    split
    · exact .same _
    · exact structureValid_mirrors hrun hvalid d _ p args
  | int text => exact .same _
  | string text => exact .same _
  | bytes hex => exact .same _

end

section

variable {run run' : Context → Expr → List StackType → Checked ReturnType}
  (hrun : ∀ ctx code stack, Mirrors Eq (run ctx code stack) (run' ctx code stack))

include hrun

theorem assertSection_mirrors (ctx : Context) (contract parameter storage ret : StackType)
    (code : Expr) :
    Mirrors Eq (assertSection run ctx contract parameter storage ret code)
      (assertSection run' ctx contract parameter storage ret code) :=
  .bind_eq (.same _) fun _ => .bind_eq (.same _) fun _ => .bind_eq (hrun _ _ _) fun _ => .same _

theorem viewsValid_mirrors (ctx : Context) (contract storage : StackType)
    (views : List (JSString × StackType)) :
    Mirrors Eq (viewsValid run ctx contract storage views)
      (viewsValid run' ctx contract storage views) := by
  induction views with
  | nil => exact .same _
  | cons view views ih =>
    refine .bind_eq (.same _) fun parameter => .bind_eq (.same _) fun ret => ?_
    refine .bind_eq (.same _) fun code => ?_
    exact .bind_eq (assertSection_mirrors hrun _ _ _ _ _ _) fun _ => ih

theorem contractType_mirrors (ctx : Context) (contract : StackType) :
    Mirrors Eq (contractType run ctx contract) (contractType run' ctx contract) := by
  refine .bind_eq (.same _) fun sections => .bind_eq (.same _) fun s => .bind_eq (.same _) fun p => ?_
  refine .bind_eq (.same _) fun s => .bind_eq (.same _) fun storage => .bind_eq (.same _) fun s => ?_
  refine .bind_eq (.same _) fun code => .bind_eq (assertSection_mirrors hrun _ _ _ _ _ _) fun ret => ?_
  exact .bind_eq (.same _) fun views => .bind_eq (viewsValid_mirrors hrun _ _ _ _) fun _ => .same _

end

/-! ## The checkers -/

theorem extends_nil {r r' : ReturnType} : Extends [] r r' ↔ r = r' := by
  cases r with
  | stack types => rw [Extends, List.append_nil, eq_comm]
  | failed type level => rw [Extends, eq_comm]

variable {meets : Condition} {host : Host}

theorem ifMeets_eq_ok {inst : Expr} {stack : List StackType} {r r' : ReturnType}
    (h : ifMeets meets inst stack r = .ok r') :
    r' = r ∧ ∀ p args annots, inst = .prim p args annots →
      meets ⟨p, args, annots⟩ stack r = true := by
  unfold ifMeets at h
  split at h
  · split at h
    · cases h
      refine ⟨rfl, ?_⟩
      rintro p args annots heq
      cases heq
      assumption
    · cases h
  · cases h
    refine ⟨rfl, ?_⟩
    rintro p args annots heq
    exact absurd heq (by simp_all)

/-- The three checks agree with those of more restricted code. -/
theorem checks_mirror (fuel : ℕ) :
    (∀ ctx code stack, Mirrors Eq (typeWhere meets host fuel ctx code stack)
      (functionTypeTo host fuel ctx code stack)) ∧
    (∀ ctx d t, Mirrors Eq (dataWhere meets host fuel ctx d t) (dataValidTo host fuel ctx d t)) ∧
    ∀ ctx contract, Mirrors Eq (contractWhere meets host fuel ctx contract)
      (contractTypeTo host fuel ctx contract) := by
  induction fuel with
  | zero => exact ⟨fun _ _ _ => .error, fun _ _ _ => .error, fun _ _ => .error⟩
  | succ fuel ih =>
    obtain ⟨hrun, hvalid, hcontract⟩ := ih
    refine ⟨fun ctx code stack => ?_, fun ctx d t => ?_, fun ctx contract => ?_⟩
    · have hsame : Mirrors (Extends [])
          (instructionType (typeWhere meets host fuel) (dataWhere meets host fuel)
            (fun contract => do let _ ← contractWhere meets host fuel {} (ofExpr contract)) ctx code stack)
          (instructionType (functionTypeTo host fuel) (dataValidTo host fuel)
            (fun contract => do let _ ← contractTypeTo host fuel {} (ofExpr contract)) ctx code
              (stack ++ [])) := instructionType_extends (fun t ht => by cases ht)
        (fun ctx code stack => by
          rw [List.append_nil]
          exact (hrun ctx code stack).mono fun a b h => extends_nil.mpr h)
        hrun hvalid
        (fun c => .bind_eq (hcontract {} (ofExpr c)) fun _ => .same (pure ())) (.inl rfl)
      intro r hr
      obtain ⟨r₀, hr₀, hr⟩ := Except.bind_eq_ok.mp hr
      obtain ⟨rfl, -⟩ := ifMeets_eq_ok hr
      obtain ⟨r', hr', hsame⟩ := hsame r hr₀
      rw [List.append_nil] at hr'
      exact ⟨r', hr', extends_nil.mp hsame⟩
    · exact dataValid_mirrors (fun stack code => hrun ctx code stack) (hvalid ctx) d t
    · exact contractType_mirrors hrun ctx contract

/-- **The frame rule**: what the checker accepts on a stack it accepts on a longer one, and leaves
the rest as it is. -/
theorem functionTypeTo_append {rest : List StackType} (hrest : ∀ t ∈ rest, EqualsItself t)
    (hmeets : ∀ i stack r, meets i stack r = true → LocalAt i stack) (fuel : ℕ) (ctx : Context)
    (code : Expr) (stack : List StackType) :
    Mirrors (Extends rest) (typeWhere meets host fuel ctx code stack)
      (functionTypeTo host fuel ctx code (stack ++ rest)) := by
  induction fuel generalizing ctx code stack with
  | zero => exact .error
  | succ fuel ih =>
    obtain ⟨hrun, hvalid, hcontract⟩ := @checks_mirror meets host fuel
    intro r hr
    obtain ⟨r₀, hr₀, hr⟩ := Except.bind_eq_ok.mp hr
    obtain ⟨rfl, hmet⟩ := ifMeets_eq_ok hr
    refine instructionType_extends hrest ih hrun hvalid
      (fun c => .bind_eq (hcontract {} (ofExpr c)) fun _ => .same (pure ())) (.inr ?_) r hr₀
    intro p args annots heq
    exact hmeets _ _ _ (hmet p args annots heq)

/-! ## The rule for `functionType` -/

/-- `LocalAt`, computed. -/
def isLocal : Condition := fun i stack _ =>
  if i.prim = "DUG" then
    match i.arg 0 with
    | .ok e =>
      match natOf e with
      | .ok n => n < stack.length
      | .error _ => true
    | .error _ => true
  else if i.prim = "EMIT" then i.args.isSome || !stack.isEmpty
  else true

theorem localAt_of_isLocal {i : Instruction} {stack : List StackType} {r : ReturnType}
    (h : isLocal i stack r = true) : LocalAt i stack := by
  unfold isLocal at h
  refine ⟨fun hp e n he hn => ?_, fun hp hnone => ?_⟩
  · rw [if_pos hp, he] at h
    dsimp only at h
    rw [hn] at h
    exact of_decide_eq_true h
  · rw [if_neg (by rw [hp]; decide), if_pos hp, hnone] at h
    rintro rfl
    cases h

/-- Typing visits no instruction that acts on elements its stack does not have. -/
def VisitsLocal (host : Host) (ctx : Context) (code : Expr) (stack : List StackType) : Prop :=
  ∃ r, typeWhere isLocal host (size code) ctx code stack = .ok r

/-- **The frame rule of `functionType`.** Code that is accepted on a stack, and acts on elements that
its stacks have only, is accepted on the stack with any well-annotated rest: it leaves the rest under
its results, or fails with the same type. -/
theorem functionType_append {host : Host} {ctx : Context} {code : Expr} {stack rest : List StackType}
    {r : ReturnType} (h : functionType host ctx code stack = .ok r)
    (hlocal : VisitsLocal host ctx code stack)
    (hann : ∀ t ∈ rest, assertTypeAnnotationsValid t false = .ok ())
    (hself : ∀ t ∈ rest, assertScalarTypesEqual t t false = .ok ()) :
    ∃ r', functionType host ctx code (stack ++ rest) = .ok r' ∧ Extends rest r r' := by
  obtain ⟨context, heq⟩ := functionType_checks host ctx
  rw [heq] at h ⊢
  obtain ⟨_, hstack, h⟩ := Except.bind_eq_ok.mp h
  obtain ⟨_, hcontext, h⟩ := Except.bind_eq_ok.mp h
  have hann' : forEachType (assertTypeAnnotationsValid · false) (stack ++ rest) = .ok () := by
    refine forEachType_eq_ok.mpr fun t ht => ?_
    obtain ht | ht := List.mem_append.mp ht
    · exact forEachType_eq_ok.mp hstack t ht
    · exact hann t ht
  obtain ⟨r₀, hr₀⟩ := hlocal
  obtain ⟨r₁, hr₁, rfl⟩ := (checks_mirror _).1 ctx code stack r₀ hr₀
  cases h.symm.trans hr₁
  rw [hann', Except.ok_bind, hcontext, Except.ok_bind]
  exact functionTypeTo_append hself (fun _ _ _ => localAt_of_isLocal) _ ctx code stack r hr₀

/-- Code that works under the top of its stack, with two branches. -/
def framedCode : Expr :=
  .seq [.prim "DIP" (some [.seq [.prim "DUP" none none]]) none,
    .prim "IF" (some [.seq [.prim "DROP" none none], .seq [.prim "DUG" (some [.int (js "1")]) none,
      .prim "DROP" none none]]) none]

theorem functionType_append_framedCode :
    VisitsLocal .plain {} framedCode [leaf "bool", leaf "int"] ∧
      ∃ r', functionType .plain {} framedCode [leaf "bool", leaf "int", leaf "string"] = .ok r' ∧
        Extends [leaf "string"] (.stack [leaf "int"]) r' := by
  have hlocal : VisitsLocal .plain {} framedCode [leaf "bool", leaf "int"] := ⟨_, rfl⟩
  refine ⟨hlocal, ?_⟩
  have h : functionType .plain {} framedCode [leaf "bool", leaf "int"] = .ok (.stack [leaf "int"]) :=
    rfl
  refine functionType_append h hlocal ?_ ?_
  · intro t ht
    obtain rfl := List.mem_singleton.mp ht
    rfl
  · intro t ht
    obtain rfl := List.mem_singleton.mp ht
    rfl

end Typechecker
