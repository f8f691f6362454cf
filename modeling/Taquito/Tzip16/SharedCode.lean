import Taquito.MichelsonEncoder.Values
import Taquito.Tzip16.StorageView

/-!
# Repeated calls of a view

`ViewFactory` gives every view that it builds the array of instructions of the metadata, and
`executeView` adapts that array in place and puts `CDR` before it. What a call runs therefore
depends on the calls before it. `Repeatable` says that it does not, `repeatable_iff` for which
calls this is so: no two of them reach the adaptation, or the view has a parameter and the contexts
of those that do give the replaced instructions the same values.

`Left` is the invariant of a run: the array is the one of the metadata, or what the first call that
adapted it made of that, behind some `CDR`.
-/

open Js MichelsonEncoder

namespace Tzip16

/-! ## The factory -/

/-- `MichelsonStorageViewType`, of which the metadata may lack every field. -/
structure MichelsonStorageViewType where
  parameter : Option Expr
  returnType : Option Expr
  code : Option (List Expr)

/-- `ViewImplementation`. -/
inductive ViewImplementation where
  | michelsonStorageView (viewValues : MichelsonStorageViewType)
  | restApiQuery

/-- What the views of one implementation have in common. -/
structure SharedView where
  returnType : Expr
  /-- The instructions of the metadata, before any call. -/
  code : List Expr
  viewParameterType : Option Expr

/-- `ViewFactory.getView`. -/
def getView : ViewImplementation → Option SharedView
  | .michelsonStorageView ⟨parameter, some returnType, some code⟩ =>
    some ⟨returnType, code, parameter⟩
  | _ => none

/-! ## A call -/

/-- What a call throws before it runs a script. -/
inductive CallError where
  | view (err : ViewError)
  /-- A read of the contract's state was rejected. -/
  | ReadError
  deriving DecidableEq, Repr

/-- A call of `executeView`: its arguments, the type of the storage of the view's contract, and the
storage and the context that are read. -/
structure Call where
  args : List Val
  storageType : Expr
  reads : Option (Expr × Context)

/-- `args[0] === 'Unit'`. -/
def isUnitText : Val → Bool
  | .string s => s = js "Unit"
  | _ => false

section calls

-- `Encode` of the schema of a parameter, after `validateArgs`.
variable (encode : Expr → List Val → Except ViewError Expr)

/-- `formatArgsAndParameter`. -/
def formatArgsAndParameter (parameter : Option Expr) (argView : List Val) :
    Except ViewError (Expr × Expr) := do
  let viewParameterType := parameter.getD (.prim "unit" (some []) (some []))
  let args ←
    if primOf viewParameterType = some "unit" then
      match argView with
      | [] => .ok [.string (js "Unit")]
      | a :: _ => if isUnitText a then .ok argView else .error .NoParameterExpectedError
    else .ok argView
  let arg ← encode viewParameterType args
  return (arg, viewParameterType)

/-- What a call does before the adaptation: the checks, the arguments and the reads. -/
def prepared (view : SharedView) (call : Call) (code : List Expr) :
    Except CallError ((Expr × Expr) × Expr × Context) :=
  match (do
    findForbiddenInstructionInViewCode code
    illegalUseOfSelfInstruction code
    formatArgsAndParameter encode view.viewParameterType call.args) with
  | .error err => .error (.view err)
  | .ok formatted =>
    match call.reads with
    | none => .error .ReadError
    | some reads => .ok (formatted, reads)

/-- `adaptViewCodeToContext` and the `unshift` after it. -/
def adapted (view : SharedView) (ctx : Context) (code : List Expr) : List Expr :=
  if view.viewParameterType.isNone then plain "CDR" :: adaptViewCodeToContext ctx code
  else adaptViewCodeToContext ctx code

/-- `viewScript`. -/
def viewScript (view : SharedView) (call : Call) (formatted : Expr × Expr) (storageValue : Expr)
    (ctx : Context) (code : List Expr) : ViewScript where
  script := [
    .prim "parameter" (some [.prim "pair" (some [formatted.2, call.storageType]) none]) none,
    .prim "storage" (some [.prim "option" (some [view.returnType]) none]) none,
    .prim "code" (some [.seq (scriptCode code)]) none]
  storage := plain "None"
  input := .prim "Pair" (some [formatted.1, storageValue]) none
  amount := js "0"
  chain_id := ctx.chainId
  balance := js "0"

/-- `executeView`, up to the run of the script, on the array of instructions as the calls before
have left it. The second component is the array that the call leaves. -/
def executeCall (view : SharedView) (call : Call) (code : List Expr) :
    Except CallError ViewScript × List Expr :=
  match prepared encode view call code with
  | .error err => (.error err, code)
  | .ok (formatted, storageValue, ctx) =>
    (.ok (viewScript view call formatted storageValue ctx (adapted view ctx code)),
      adapted view ctx code)

/-- What a sequence of calls runs. -/
def runCalls (view : SharedView) : List Call → List Expr → List (Except CallError ViewScript)
  | [], _ => []
  | call :: calls, code =>
    (executeCall encode view call code).1 ::
      runCalls view calls (executeCall encode view call code).2

/-- What a first call runs, on the array of the metadata. -/
def firstCall (view : SharedView) (call : Call) : Except CallError ViewScript :=
  (executeCall encode view call view.code).1

/-- **Every call runs what a first call would run at that moment.** -/
def Repeatable (implementation : ViewImplementation) (calls : List Call) : Prop :=
  ∀ view ∈ getView implementation,
    runCalls encode view calls view.code = calls.map (firstCall encode view)

/-- The context of a call that reaches the adaptation, if it is the first one. -/
def reached (view : SharedView) (call : Call) : Option Context :=
  (prepared encode view call view.code).toOption.map fun r => r.2.2

end calls

/-- A first call of a view does what `executeView` does. -/
theorem executeCall_eq_executeView (encode : Expr → List Val → Except ViewError Expr)
    (view : SharedView) (call : Call) {storageValue : Expr} {ctx : Context} (code : List Expr)
    (hreads : call.reads = some (storageValue, ctx)) :
    executeCall encode view call code =
      match executeView
        ⟨code, view.returnType, view.viewParameterType, call.storageType, storageValue⟩ ctx
        (formatArgsAndParameter encode view.viewParameterType call.args) with
      | .error err => (.error (.view err), code)
      | .ok (script, view') => (.ok script, view'.code) := by
  rw [executeCall, prepared, executeView, hreads]
  cases findForbiddenInstructionInViewCode code with
  | error err => rfl
  | ok _ =>
    cases illegalUseOfSelfInstruction code with
    | error err => rfl
    | ok _ =>
      cases formatArgsAndParameter encode view.viewParameterType call.args with
      | error err => rfl
      | ok formatted => rfl

/-! ## What is replaced -/

mutual

/-- An instruction of this name is replaced, at some depth of an expression. -/
def Replaced (p : String) : Expr → Prop
  | .prim q none _ => q = p
  | .prim q (some args) annots => q = p ∨ ¬ Contextual q annots ∧ ReplacedIn p args
  | _ => False

/-- An instruction of this name is replaced, at some depth of a code. -/
def ReplacedIn (p : String) : List Expr → Prop
  | [] => False
  | e :: es => Replaced p e ∨ ReplacedIn p es

end

/-- Two contexts give the instructions that are replaced in a code the same values. -/
def SameValues (code : List Expr) (ctx ctx' : Context) : Prop :=
  ∀ p, ReplacedIn p code → instructionsToReplace ctx p = instructionsToReplace ctx' p

theorem replacedIn_iff {p : String} {code : List Expr} :
    ReplacedIn p code ↔ ∃ e ∈ code, Replaced p e := by
  induction code with
  | nil => simp [ReplacedIn]
  | cons e es ih => simp [ReplacedIn, ih]

theorem adaptViewCodeToContext_eq_map (ctx : Context) (code : List Expr) :
    adaptViewCodeToContext ctx code = code.map (adaptInstruction ctx) := by
  induction code with
  | nil => rfl
  | cons e es ih => rw [adaptViewCodeToContext, ih, List.map_cons]

theorem instructionsToReplace_of_contextual {p : String} {annots : Option (List JSString)}
    (ctx : Context) (h : Contextual p annots) :
    ∃ code, instructionsToReplace ctx p = some code := by
  simp only [Contextual, List.mem_cons, List.not_mem_nil, or_false] at h
  obtain rfl | rfl | rfl | rfl := h <;> exact ⟨_, rfl⟩

theorem adaptInstruction_of_contextual {p : String} {annots : Option (List JSString)}
    {ctx : Context} {code : List Expr} (args : Option (List Expr))
    (h : instructionsToReplace ctx p = some code) :
    adaptInstruction ctx (.prim p args annots) = .seq code := by
  cases args with
  | none => rw [adaptInstruction, h]
  | some args => rw [adaptInstruction, h]

theorem adaptInstruction_of_not {p : String} {annots : Option (List JSString)} {ctx : Context}
    (args : Option (List Expr)) (h : ¬ Contextual p annots) :
    adaptInstruction ctx (.prim p args annots) =
      .prim p (args.map (adaptViewCodeToContext ctx)) annots := by
  have htable := @instructionsToReplace_of_not ctx p annots h
  cases args with
  | none =>
    rw [adaptInstruction, htable]
    rfl
  | some args =>
    rw [adaptInstruction, htable]
    rfl

/-- Two contexts adapt an instruction alike exactly if they give what is replaced in it the same
values. -/
theorem adaptInstruction_eq_iff (ctx ctx' : Context) (e : Expr) :
    adaptInstruction ctx e = adaptInstruction ctx' e ↔
      ∀ p, Replaced p e → instructionsToReplace ctx p = instructionsToReplace ctx' p := by
  induction e with
  | prim q args annots ih =>
    by_cases hq : Contextual q annots
    · obtain ⟨code, hcode⟩ := instructionsToReplace_of_contextual ctx hq
      obtain ⟨code', hcode'⟩ := instructionsToReplace_of_contextual ctx' hq
      have honly : ∀ p, Replaced p (.prim q args annots) ↔ q = p := by
        intro p
        cases args with
        | none => exact Iff.rfl
        | some args => exact or_iff_left fun h => h.1 hq
      rw [adaptInstruction_of_contextual args hcode, adaptInstruction_of_contextual args hcode']
      constructor
      · intro h p hp
        obtain rfl := (honly p).mp hp
        rw [hcode, hcode', Expr.seq.inj h]
      · intro h
        have htable := h q ((honly q).mpr rfl)
        rw [hcode, hcode'] at htable
        rw [Option.some.inj htable]
    · rw [adaptInstruction_of_not args hq, adaptInstruction_of_not args hq]
      have hsame : instructionsToReplace ctx q = instructionsToReplace ctx' q := by
        rw [@instructionsToReplace_of_not ctx q annots hq,
          @instructionsToReplace_of_not ctx' q annots hq]
      cases args with
      | none =>
        refine iff_of_true rfl fun p hp => ?_
        rw [← (show q = p from hp)]
        exact hsame
      | some args =>
        rw [Option.getD_some] at ih
        have hargs : adaptViewCodeToContext ctx args = adaptViewCodeToContext ctx' args ↔
            SameValues args ctx ctx' := by
          rw [adaptViewCodeToContext_eq_map, adaptViewCodeToContext_eq_map, List.map_inj_left]
          constructor
          · intro h p hp
            obtain ⟨a, ha, hpa⟩ := replacedIn_iff.mp hp
            exact (ih a ha).mp (h a ha) p hpa
          · intro h a ha
            exact (ih a ha).mpr fun p hpa => h p (replacedIn_iff.mpr ⟨a, ha, hpa⟩)
        have hinj : Expr.prim q (some (adaptViewCodeToContext ctx args)) annots =
            .prim q (some (adaptViewCodeToContext ctx' args)) annots ↔
            adaptViewCodeToContext ctx args = adaptViewCodeToContext ctx' args := by
          rw [Expr.prim.injEq, Option.some.injEq]
          exact ⟨fun h => h.2.1, fun h => ⟨rfl, h, rfl⟩⟩
        refine hinj.trans (hargs.trans ⟨fun h p hp => ?_, fun h p hp => ?_⟩)
        · obtain rfl | hp := hp
          · exact hsame
          · exact h p hp.2
        · exact h p (Or.inr ⟨hq, hp⟩)
  | _ => exact iff_of_true rfl fun _ h => h.elim

/-- Two contexts adapt a code alike exactly if they give what is replaced in it the same values. -/
theorem adaptViewCodeToContext_eq_iff (ctx ctx' : Context) (code : List Expr) :
    adaptViewCodeToContext ctx code = adaptViewCodeToContext ctx' code ↔
      SameValues code ctx ctx' := by
  rw [adaptViewCodeToContext_eq_map, adaptViewCodeToContext_eq_map, List.map_inj_left]
  constructor
  · intro h p hp
    obtain ⟨e, he, hpe⟩ := replacedIn_iff.mp hp
    exact (adaptInstruction_eq_iff ctx ctx' e).mp (h e he) p hpe
  · intro h e he
    exact (adaptInstruction_eq_iff ctx ctx' e).mpr fun p hpe =>
      h p (replacedIn_iff.mpr ⟨e, he, hpe⟩)

/-! ## The array after a call -/

/-- What is adapted is not adapted again. -/
theorem adaptInstruction_adaptInstruction (ctx ctx' : Context) (e : Expr) :
    adaptInstruction ctx' (adaptInstruction ctx e) = adaptInstruction ctx e := by
  induction e with
  | prim p args annots ih =>
    by_cases hp : Contextual p annots
    · obtain ⟨code, hcode⟩ := instructionsToReplace_of_contextual ctx hp
      rw [adaptInstruction_of_contextual args hcode]
      rfl
    · rw [adaptInstruction_of_not args hp, adaptInstruction_of_not _ hp]
      cases args with
      | none => rfl
      | some args =>
        rw [Option.getD_some] at ih
        have hargs : adaptViewCodeToContext ctx' (adaptViewCodeToContext ctx args) =
            adaptViewCodeToContext ctx args := by
          rw [adaptViewCodeToContext_eq_map, adaptViewCodeToContext_eq_map, List.map_map]
          exact List.map_congr_left fun a ha => ih a ha
        rw [Option.map_some, Option.map_some, hargs]
  | _ => rfl

theorem adaptViewCodeToContext_twice (ctx ctx' : Context) (code : List Expr) :
    adaptViewCodeToContext ctx' (adaptViewCodeToContext ctx code) =
      adaptViewCodeToContext ctx code := by
  rw [adaptViewCodeToContext_eq_map, adaptViewCodeToContext_eq_map, List.map_map]
  exact List.map_congr_left fun e _ => adaptInstruction_adaptInstruction ctx ctx' e

theorem visited_of_adaptInstruction {P : InstructionProp} {ctx : Context} (e : Expr)
    (h : Visited P (adaptInstruction ctx e)) : Visited P e := by
  induction e with
  | prim p args annots ih =>
    by_cases hp : Contextual p annots
    · obtain ⟨code, hcode⟩ := instructionsToReplace_of_contextual ctx hp
      rw [adaptInstruction_of_contextual args hcode] at h
      exact h.elim
    · rw [adaptInstruction_of_not args hp] at h
      cases args with
      | none => exact h
      | some args =>
        obtain h | h := h
        · exact Or.inl h
        · rw [adaptViewCodeToContext_eq_map] at h
          obtain ⟨e', he', hv⟩ := visitedIn_iff.mp h
          obtain ⟨a, ha, rfl⟩ := List.mem_map.mp he'
          exact Or.inr (visitedIn_iff.mpr ⟨a, ha, ih a ha hv⟩)
  | _ => exact h

theorem primOf_adaptInstruction_ne (ctx : Context) (e : Expr) :
    primOf (adaptInstruction ctx e) ≠ some "SELF" := by
  cases e with
  | prim p args annots =>
    by_cases hp : Contextual p annots
    · obtain ⟨code, hcode⟩ := instructionsToReplace_of_contextual ctx hp
      rw [adaptInstruction_of_contextual args hcode]
      exact Option.some_ne_none _ ∘ Eq.symm
    · rw [adaptInstruction_of_not args hp]
      intro h
      have hself : p = "SELF" := Option.some.inj h
      exact hp (by rw [hself]; exact List.mem_cons_self)
  | _ => exact Option.some_ne_none _ ∘ Eq.symm

/-- `SELF` is misused nowhere in a code without `SELF` whose arguments misuse it nowhere. -/
theorem not_visitedMisuseIn {code : List Expr}
    (h : ∀ e ∈ code, primOf e ≠ some "SELF" ∧ ¬ VisitedMisuse e) : ¬ VisitedMisuseIn code := by
  induction code with
  | nil => exact fun h => h
  | cons e es ih =>
    rw [VisitedMisuseIn, not_or, not_or]
    have he := h e List.mem_cons_self
    exact ⟨fun hself => he.1 hself.1, he.2, ih fun a ha => h a (List.mem_cons_of_mem _ ha)⟩

theorem not_visitedMisuse_adaptInstruction (ctx : Context) (e : Expr) :
    ¬ VisitedMisuse (adaptInstruction ctx e) := by
  induction e with
  | prim p args annots ih =>
    by_cases hp : Contextual p annots
    · obtain ⟨code, hcode⟩ := instructionsToReplace_of_contextual ctx hp
      rw [adaptInstruction_of_contextual args hcode]
      exact fun h => h
    · rw [adaptInstruction_of_not args hp]
      cases args with
      | none => exact fun h => h
      | some args =>
        rw [Option.map_some, VisitedMisuse, adaptViewCodeToContext_eq_map]
        refine not_visitedMisuseIn fun e he => ?_
        obtain ⟨a, ha, rfl⟩ := List.mem_map.mp he
        exact ⟨primOf_adaptInstruction_ne ctx a, ih a ha⟩
  | _ => exact fun h => h

/-- The array of a view after some calls, of which the first that adapted it read this context. -/
def Left (view : SharedView) (first : Context) (code : List Expr) : Prop :=
  ∃ n, code = List.replicate n (plain "CDR") ++ adaptViewCodeToContext first view.code ∧
    (n = 0 ↔ view.viewParameterType.isSome)

theorem adaptViewCodeToContext_left (ctx ctx' : Context) (n : ℕ) (code : List Expr) :
    adaptViewCodeToContext ctx'
        (List.replicate n (plain "CDR") ++ adaptViewCodeToContext ctx code) =
      List.replicate n (plain "CDR") ++ adaptViewCodeToContext ctx code := by
  have hcdr : adaptInstruction ctx' (plain "CDR") = plain "CDR" :=
    adaptInstruction_of_not none (by simp [Contextual])
  rw [adaptViewCodeToContext_eq_map, List.map_append, List.map_replicate, hcdr,
    ← adaptViewCodeToContext_eq_map, adaptViewCodeToContext_twice]

/-- The first call that adapts the array leaves it so. -/
theorem left_adapted (view : SharedView) (ctx : Context) :
    Left view ctx (adapted view ctx view.code) := by
  cases hp : view.viewParameterType with
  | none =>
    refine ⟨1, ?_, by simp [hp]⟩
    rw [adapted, hp]
    rfl
  | some parameter =>
    refine ⟨0, ?_, by simp [hp]⟩
    rw [adapted, hp]
    rfl

/-- A later call adapts nothing, and puts another `CDR` before the array if the view has no
parameter. -/
theorem Left.adapted {view : SharedView} {first : Context} {code : List Expr} (ctx : Context)
    (h : Left view first code) : Left view first (adapted view ctx code) := by
  obtain ⟨n, rfl, hn⟩ := h
  rw [Tzip16.adapted, adaptViewCodeToContext_left]
  cases hp : view.viewParameterType with
  | none => exact ⟨n + 1, rfl, by simp [hp]⟩
  | some parameter => exact ⟨n, rfl, hp ▸ hn⟩

/-- A later call runs what a first call would exactly if the view has a parameter and the contexts
give the same values. -/
theorem Left.adapted_eq_iff {view : SharedView} {first : Context} {code : List Expr} (ctx : Context)
    (h : Left view first code) :
    Tzip16.adapted view ctx code = Tzip16.adapted view ctx view.code ↔
      view.viewParameterType.isSome ∧ SameValues view.code first ctx := by
  obtain ⟨n, rfl, hn⟩ := h
  rw [Tzip16.adapted, Tzip16.adapted, adaptViewCodeToContext_left]
  cases hp : view.viewParameterType with
  | none =>
    refine iff_of_false (fun heq => ?_) fun h => Bool.noConfusion h.1
    have hlength := congrArg List.length heq
    have hpos : n ≠ 0 := fun h0 => by simp [hp, h0] at hn
    simp only [Option.isNone_none, if_true, List.length_cons, List.length_append,
      List.length_replicate, adaptViewCodeToContext_eq_map, List.length_map] at hlength
    omega
  | some parameter =>
    have hzero : n = 0 := hn.mpr (by rw [hp]; rfl)
    rw [hzero]
    exact (adaptViewCodeToContext_eq_iff first ctx view.code).trans (and_iff_right rfl).symm

/-! ## Runs -/

section runs

variable (encode : Expr → List Val → Except ViewError Expr) (view : SharedView)

/-- A call reaches the adaptation only if the code of the metadata passes the checks. -/
theorem checks_of_reached {call : Call} {ctx : Context} (h : reached encode view call = some ctx) :
    ¬ VisitedIn Forbidden view.code ∧ ¬ VisitedMisuseIn view.code := by
  rw [reached, prepared] at h
  cases hf : findForbiddenInstructionInViewCode view.code with
  | error err =>
    rw [hf] at h
    cases h
  | ok _ =>
    cases hm : illegalUseOfSelfInstruction view.code with
    | error err =>
      rw [hf, hm] at h
      cases h
    | ok _ => exact ⟨findForbidden_eq_ok_iff.mp hf, illegalUseOfSelf_eq_ok_iff.mp hm⟩

/-- What precedes the adaptation is the same for every array that passes the checks. -/
theorem prepared_eq_of_checks (call : Call) {code code' : List Expr}
    (hf : ¬ VisitedIn Forbidden code) (hm : ¬ VisitedMisuseIn code)
    (hf' : ¬ VisitedIn Forbidden code') (hm' : ¬ VisitedMisuseIn code') :
    prepared encode view call code = prepared encode view call code' := by
  rw [prepared, prepared, findForbidden_eq_ok_iff.mpr hf, findForbidden_eq_ok_iff.mpr hf',
    illegalUseOfSelf_eq_ok_iff.mpr hm, illegalUseOfSelf_eq_ok_iff.mpr hm']

/-- The array that calls leave passes the checks. -/
theorem Left.checks {first : Context} {code : List Expr} (h : Left view first code)
    (hf : ¬ VisitedIn Forbidden view.code) :
    ¬ VisitedIn Forbidden code ∧ ¬ VisitedMisuseIn code := by
  obtain ⟨n, rfl, -⟩ := h
  constructor
  · intro hv
    obtain ⟨e, he, hv⟩ := visitedIn_iff.mp hv
    rw [adaptViewCodeToContext_eq_map] at he
    obtain he | he := List.mem_append.mp he
    · rw [List.eq_of_mem_replicate he] at hv
      exact absurd hv (by simp [plain, Visited, Forbidden, illegalInstructions])
    · obtain ⟨a, ha, rfl⟩ := List.mem_map.mp he
      exact hf (visitedIn_iff.mpr ⟨a, ha, visited_of_adaptInstruction a hv⟩)
  · refine not_visitedMisuseIn fun e he => ?_
    rw [adaptViewCodeToContext_eq_map] at he
    obtain he | he := List.mem_append.mp he
    · rw [List.eq_of_mem_replicate he]
      exact ⟨by simp [plain, primOf], fun h => h⟩
    · obtain ⟨a, -, rfl⟩ := List.mem_map.mp he
      exact ⟨primOf_adaptInstruction_ne first a, not_visitedMisuse_adaptInstruction first a⟩

/-- Scripts of one call are the same exactly if their code is. -/
theorem viewScript_inj (call : Call) (formatted : Expr × Expr) (storageValue : Expr) (ctx : Context)
    {code code' : List Expr} :
    viewScript view call formatted storageValue ctx code =
      viewScript view call formatted storageValue ctx code' ↔ code = code' := by
  refine ⟨fun h => scriptCode_inj ?_, fun h => by rw [h]⟩
  have hscript := congrArg ViewScript.script h
  simp only [viewScript, List.cons.injEq, Expr.prim.injEq, Option.some.injEq, Expr.seq.injEq,
    and_true, true_and] at hscript
  exact hscript

/-- What a call does on the array of the metadata. -/
theorem executeCall_of_not_reached {call : Call} {code : List Expr}
    (hprepared : prepared encode view call code = prepared encode view call view.code)
    (h : reached encode view call = none) :
    executeCall encode view call code = (firstCall encode view call, code) := by
  rw [firstCall, executeCall, executeCall, hprepared]
  rw [reached] at h
  cases hp : prepared encode view call view.code with
  | error err => rfl
  | ok r =>
    rw [hp] at h
    cases h

/-- A call that reaches the adaptation leaves the array adapted, and runs what a first call would
exactly if it adapts it as a first call would. -/
theorem executeCall_of_reached {call : Call} {code : List Expr} {ctx : Context}
    (hprepared : prepared encode view call code = prepared encode view call view.code)
    (h : reached encode view call = some ctx) :
    (executeCall encode view call code).2 = adapted view ctx code ∧
      ((executeCall encode view call code).1 = firstCall encode view call ↔
        adapted view ctx code = adapted view ctx view.code) := by
  rw [firstCall, executeCall, executeCall, hprepared]
  rw [reached] at h
  cases hp : prepared encode view call view.code with
  | error err =>
    rw [hp] at h
    cases h
  | ok r =>
    obtain ⟨formatted, storageValue, ctx'⟩ := r
    rw [hp] at h
    obtain rfl : ctx' = ctx := Option.some.inj h
    refine ⟨rfl, Iff.trans ⟨Except.ok.inj, congrArg Except.ok⟩ ?_⟩
    exact viewScript_inj view call formatted storageValue ctx'

/-- The calls after the first one that adapted the array. -/
theorem runCalls_left_iff {first : Context} (hf : ¬ VisitedIn Forbidden view.code)
    (hm : ¬ VisitedMisuseIn view.code) (calls : List Call) {code : List Expr}
    (h : Left view first code) :
    runCalls encode view calls code = calls.map (firstCall encode view) ↔
      ∀ ctx ∈ calls.filterMap (reached encode view),
        view.viewParameterType.isSome ∧ SameValues view.code first ctx := by
  induction calls generalizing code with
  | nil => exact iff_of_true rfl fun _ h => absurd h List.not_mem_nil
  | cons call calls ih =>
    have hchecks := h.checks view hf
    have hprepared := prepared_eq_of_checks encode view call hchecks.1 hchecks.2 hf hm
    rw [runCalls, List.map_cons, List.cons.injEq]
    cases hr : reached encode view call with
    | none =>
      rw [executeCall_of_not_reached encode view hprepared hr, List.filterMap_cons_none hr, ih h]
      exact and_iff_right rfl
    | some ctx =>
      obtain ⟨hleft, hrun⟩ := executeCall_of_reached encode view hprepared hr
      rw [hrun, hleft, h.adapted_eq_iff ctx, ih (h.adapted ctx), List.filterMap_cons_some hr,
        List.forall_mem_cons]

/-- **When calls do not disturb each other.** Among the contexts of the calls that reach the
adaptation, any two give the instructions that are replaced the same values, and the view has a
parameter if there are two. -/
def Undisturbed (calls : List Call) : Prop :=
  (calls.filterMap (reached encode view)).Pairwise fun ctx ctx' =>
    view.viewParameterType.isSome ∧ SameValues view.code ctx ctx'

theorem runCalls_iff (calls : List Call) :
    runCalls encode view calls view.code = calls.map (firstCall encode view) ↔
      Undisturbed encode view calls := by
  induction calls with
  | nil => exact iff_of_true rfl List.Pairwise.nil
  | cons call calls ih =>
    rw [Undisturbed, runCalls, List.map_cons, List.cons.injEq]
    cases hr : reached encode view call with
    | none =>
      rw [executeCall_of_not_reached encode view rfl hr, List.filterMap_cons_none hr, ih]
      exact and_iff_right rfl
    | some first =>
      obtain ⟨hf, hm⟩ := checks_of_reached encode view hr
      obtain ⟨hleft, hrun⟩ := executeCall_of_reached encode view rfl hr
      rw [hleft, List.filterMap_cons_some hr, List.pairwise_cons,
        runCalls_left_iff encode view hf hm calls (left_adapted view first)]
      refine ⟨fun h => ⟨h.2, ?_⟩, fun h => ⟨rfl, h.1⟩⟩
      -- What agrees with the first context agrees with each other.
      apply List.pairwise_of_forall_mem_list
      intro ctx hctx ctx' hctx'
      obtain ⟨hparameter, hsame⟩ := h.2 ctx hctx
      refine ⟨hparameter, fun p hp => ?_⟩
      rw [← hsame p hp, (h.2 ctx' hctx').2 p hp]

/-- **A view can be called repeatedly exactly if its calls do not disturb each other.** -/
theorem repeatable_iff (implementation : ViewImplementation) (calls : List Call) :
    Repeatable encode implementation calls ↔
      ∀ view ∈ getView implementation, Undisturbed encode view calls :=
  forall₂_congr fun view _ => runCalls_iff encode view calls

end runs

/-- A view without parameter that returns the storage. -/
def storageView : ViewImplementation :=
  .michelsonStorageView ⟨none, some (plain "nat"), some []⟩

/-- A call of it. -/
def storageCall : Call where
  args := []
  storageType := plain "nat"
  reads := some (.int (js "7"), ⟨js "KT1", js "0", js "2024-01-01T00:00:00Z", js "NetXdQprcVkpaWU"⟩)

/-- The second call of a view without parameter runs its code behind a second `CDR`. -/
theorem not_repeatable_storageView :
    ¬ Repeatable (fun _ _ => .ok (plain "Unit")) storageView [storageCall, storageCall] := by
  intro h
  obtain ⟨-, hsecond⟩ := List.cons.inj (h ⟨plain "nat", [], none⟩ rfl)
  obtain ⟨hscript, -⟩ := List.cons.inj hsecond
  have hcode := (viewScript_inj _ _ _ _ _).mp (Except.ok.inj hscript)
  exact absurd (congrArg List.length hcode) (by decide)

end Tzip16
