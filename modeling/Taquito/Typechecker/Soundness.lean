import Taquito.Typechecker.SoundControls
import Taquito.Typechecker.SoundData

/-!
# Soundness of the typechecker

If `functionType` accepts code on a stack of types, the machine executes the code on every stack of
values of these types without getting stuck, and where the execution ends normally its stack has the
types that the checker gives; where the checker says that the code fails, no execution ends normally
(`functionType_sound`).

The checker omits tests that this depends on, and says of some code that it fails where only a part
of it does: a loop whose body fails may run its body zero times, and a function whose body fails is
not called yet. `isRegular` states these tests, one for each instruction, and the theorem is about
code whose visited instructions pass them.

The proof is by induction on the evaluation. Where a branch or a body is not executed there are no
values to speak of, so that the types which the checker gives it are shown to be types first, by
induction on the checker (`areTypes_typeWhere`).
-/

open Js MichelCodec Michelson

namespace Typechecker

open StackType

/-! ## Regular code -/

/-- The instructions of the semantics that run no code. -/
def operations : List String :=
  ["DUP", "SWAP", "DROP", "DIG", "DUG", "RENAME", "CAST", "PAIR", "UNPAIR", "CAR", "CDR", "SOME",
    "LEFT", "RIGHT", "NONE", "NIL", "EMPTY_SET", "EMPTY_MAP", "UNIT", "CONS", "COMPARE", "MEM", "GET",
    "UPDATE", "APPLY"]

/-- The instructions of the semantics that run or hold code, or fail. -/
def controls : List String :=
  ["FAILWITH", "IF_NONE", "IF_LEFT", "IF_CONS", "IF", "LOOP", "LOOP_LEFT", "ITER", "MAP", "DIP",
    "PUSH", "LAMBDA", "EXEC"]

/-- The places of the types among the arguments of an instruction. -/
def typePlaces : String → List ℕ
  | "LEFT" | "RIGHT" | "NONE" | "NIL" | "EMPTY_SET" | "PUSH" => [0]
  | "EMPTY_MAP" | "LAMBDA" => [0, 1]
  | _ => []

/-- An argument of an instruction denotes a type. -/
def denotesType (i : Instruction) (k : ℕ) : Bool :=
  match i.arg k with
  | .ok e => (tyOf e).isSome
  | .error _ => true

/-- `COMPARE`: the two types are equal. -/
def comparesAlike : List StackType → Bool
  | a :: b :: _ => (assertScalarTypesEqual a b false).toBool
  | _ => true

/-- `UPDATE`: the new value of a map has the type of its values. -/
def updatesAlike (i : Instruction) : List StackType → Bool
  | _ :: value :: map :: _ =>
    i.args.isSome || value.typeID != some "option" ||
      match argOf value 0, argOf map 1 with
      | .ok x, .ok y => (assertScalarTypesEqual x y false).toBool
      | _, _ => true
  | _ => true

/-- `APPLY`: the argument of the function is a pair of two components. -/
def appliesToPair : List StackType → Bool
  | _ :: f :: _ =>
    match argOf f 0 >>= typeArgs with
    | .ok args => args.length = 2
    | .error _ => false
  | _ => true

/-- `ITER` and `MAP`: a map type has two arguments. -/
def visitsEntries : List StackType → Bool
  | .prim "map" (some args) _ _ :: _ => args.length = 2
  | _ => true

/-- `PUSH`: values of the type can be pushed. -/
def pushesValue (i : Instruction) : Bool :=
  match i.arg 0 with
  | .ok e => (tyOf e).any Ty.isPushable
  | .error _ => true

/-- The code is not said to fail. -/
def returns : ReturnType → Bool
  | .stack _ => true
  | .failed _ _ => false

/-- The test of an instruction that the checker omits. -/
def passesTest (i : Instruction) (stack : List StackType) (r : ReturnType) : Bool :=
  match i.prim with
  | "COMPARE" => comparesAlike stack
  | "UPDATE" => updatesAlike i stack
  | "APPLY" => appliesToPair stack
  | "PUSH" => pushesValue i
  | "LOOP" | "LOOP_LEFT" | "LAMBDA" => returns r
  | "ITER" | "MAP" => returns r && visitsEntries stack
  | _ => true

/-- An instruction of the semantics, on a stack and with a result for which it does what the checker
says. -/
def isRegular : Condition := fun i stack r =>
  (operations ++ controls).contains i.prim && (typePlaces i.prim).all (denotesType i) &&
    isLocal i stack r && passesTest i stack r

theorem isRegular_eq_true {i : Instruction} {stack : List StackType} {r : ReturnType}
    (h : isRegular i stack r = true) :
    (i.prim ∈ operations ∨ i.prim ∈ controls) ∧
      (∀ k ∈ typePlaces i.prim, ∀ e, i.arg k = .ok e → ∃ T, tyOf e = some T) ∧
        LocalAt i stack ∧ passesTest i stack r = true := by
  unfold isRegular at h
  rw [Bool.and_eq_true, Bool.and_eq_true, Bool.and_eq_true, List.contains_iff_mem, List.mem_append,
    List.all_eq_true] at h
  obtain ⟨⟨⟨hname, hplaces⟩, hlocal⟩, htest⟩ := h
  refine ⟨hname, fun k hk e he => ?_, localAt_of_isLocal hlocal, htest⟩
  have hdenotes := hplaces k hk
  unfold denotesType at hdenotes
  rw [he] at hdenotes
  exact Option.isSome_iff_exists.mp hdenotes

theorem eq_ok_of_toBool {x : Checked Unit} (h : x.toBool = true) : x = .ok () := by
  cases x with
  | ok u => rfl
  | error e => cases h

/-! ## Operations -/

section

variable {isLiteral : String → Expr → Prop} {typed : Expr → Ty → Ty → Prop}
  {order : String → Expr → Expr → Ordering} {exec : Expr → List Value → Run (List Value)}
  {run : Context → Expr → List StackType → Checked ReturnType}
  {valid : Context → Expr → Expr → Checked Unit} {contractValid : Expr → Checked Unit}
  {ctx : Context} {E : Halt → Prop}

/-- **Every operation does what the checker says.** -/
theorem operation_sound {i : Instruction} {stack : List StackType} {vs : List Value} {r : ReturnType}
    (hunit : isLiteral "unit" (.prim "Unit" none none))
    (hint : ∀ o, HasType isLiteral typed (orderValue o) (.atom "int"))
    (hi : i.prim ∈ operations) (hregular : isRegular i stack r = true)
    (h : retStack run valid contractValid ctx i stack = .ok r)
    (hvs : FitsStack isLiteral typed vs stack) :
    Sound isLiteral typed E r (step order exec i.prim i.args vs) := by
  obtain ⟨-, hplaces, hlocal, htest⟩ := isRegular_eq_true hregular
  obtain ⟨p, args, annots⟩ := i
  dsimp only at hi
  simp only [operations, List.mem_cons, List.not_mem_nil, or_false] at hi
  obtain rfl | rfl | rfl | rfl | rfl | rfl | rfl | rfl | rfl | rfl | rfl | rfl | rfl | rfl | rfl |
    rfl | rfl | rfl | rfl | rfl | rfl | rfl | rfl | rfl | rfl := hi
  · exact DUP_sound hvs h
  · exact SWAP_sound hvs h
  · exact DROP_sound hvs h
  · exact DIG_sound hvs h
  · exact DUG_sound hvs h (hlocal.1 rfl)
  · exact RENAME_sound hvs h
  · exact CAST_sound hvs h
  · exact PAIR_sound hvs h
  · exact UNPAIR_sound hvs h
  · exact field_sound hvs false h
  · exact field_sound hvs true h
  · exact SOME_sound hvs h
  · exact side_sound hvs true (hplaces 0 List.mem_cons_self) h
  · exact side_sound hvs false (hplaces 0 List.mem_cons_self) h
  · exact NONE_sound hvs (hplaces 0 List.mem_cons_self) h
  · exact NIL_sound hvs (hplaces 0 List.mem_cons_self) h
  · exact EMPTY_SET_sound hvs (hplaces 0 List.mem_cons_self) h
  · exact EMPTY_MAP_sound hvs (hplaces 0 List.mem_cons_self)
      (hplaces 1 (List.mem_cons_of_mem 0 List.mem_cons_self)) h
  · exact UNIT_sound hvs hunit h
  · exact CONS_sound hvs h
  · refine COMPARE_sound hvs hint ?_ h
    rintro a b tail rfl
    exact eq_ok_of_toBool htest
  · exact MEM_sound hvs h
  · cases args with
    | none => exact getMap_sound hvs h
    | some args => exact getNth_sound hvs h
  · cases args with
    | none =>
      refine updateMap_sound hvs h ?_
      rintro key value map tail x y rfl hvalue hx hy
      have htest : updatesAlike ⟨"UPDATE", none, annots⟩ (key :: value :: map :: tail) = true := htest
      rw [updatesAlike, hvalue, hx, hy] at htest
      exact eq_ok_of_toBool (by simpa using htest)
    | some args => exact updateNth_sound hvs h
  · refine APPLY_sound hvs h ?_
    rintro a f tail p rfl hp
    have htest : appliesToPair (a :: f :: tail) = true := htest
    rw [appliesToPair, hp, Except.ok_bind] at htest
    cases hargs : typeArgs p with
    | ok args =>
      rw [hargs] at htest
      exact (List.length_eq_two.mp (of_decide_eq_true htest)).imp fun x h => h.imp fun y h =>
        congrArg Except.ok h
    | error e =>
      rw [hargs] at htest
      cases htest

end

/-! ## Types that mean something -/

/-- Every type has a value, where all literals and all code are admitted. -/
theorem exists_hasType (T : Ty) : ∃ v, HasType (fun _ _ => True) (fun _ _ _ => True) v T := by
  induction T with
  | atom p =>
    by_cases hp : p = "bool"
    · exact ⟨.bool true, hp ▸ .bool true⟩
    · exact ⟨.atom p (.int []), .atom hp trivial⟩
  | pair A B ihA ihB =>
    obtain ⟨a, ha⟩ := ihA
    obtain ⟨b, hb⟩ := ihB
    exact ⟨.pair a b, .pair ha hb⟩
  | unary u A _ =>
    cases u with
    | option => exact ⟨.nothing, .nothing⟩
    | list => exact ⟨.list [], .list fun a ha => absurd ha List.not_mem_nil⟩
    | set => exact ⟨.set [], .set fun a ha => absurd ha List.not_mem_nil⟩
    | contract => exact ⟨.handle (.int []), .handle (.inl rfl)⟩
    | ticket => exact ⟨.handle (.int []), .handle (.inr rfl)⟩
  | binary u A B ihA _ =>
    have hmap (hu : u = .map ∨ u = .bigMap) :
        HasType (fun _ _ => True) (fun _ _ _ => True) (.map []) (.binary u A B) :=
      .map hu (fun e he => absurd he List.not_mem_nil) fun e he => absurd he List.not_mem_nil
    cases u with
    | or =>
      obtain ⟨a, ha⟩ := ihA
      exact ⟨.left a, .left ha⟩
    | map => exact ⟨.map [], hmap (.inl rfl)⟩
    | bigMap => exact ⟨.map [], hmap (.inr rfl)⟩
    | lambda => exact ⟨.lambda (.seq []), .lambda trivial⟩

theorem exists_fitsStack {types : List StackType} (h : ∀ t ∈ types, IsType t) :
    ∃ vs, FitsStack (fun _ _ => True) (fun _ _ _ => True) vs types := by
  induction types with
  | nil => exact ⟨[], .nil⟩
  | cons t types ih =>
    obtain ⟨⟨T, hT⟩, h⟩ := List.forall_mem_cons.mp h
    obtain ⟨v, hv⟩ := exists_hasType T
    obtain ⟨vs, hvs⟩ := ih h
    exact ⟨v :: vs, .cons ⟨T, hT, hv⟩ hvs⟩

section

variable {run : Context → Expr → List StackType → Checked ReturnType}
  {valid : Context → Expr → Expr → Checked Unit} {contractValid : Expr → Checked Unit}
  {ctx : Context} {i : Instruction} {stack : List StackType} {r : ReturnType}

/-- The results of operations are types: there is a value of each type, and the operation has a
result on it. -/
theorem areTypes_operation (hi : i.prim ∈ operations) (hregular : isRegular i stack r = true)
    (h : retStack run valid contractValid ctx i stack = .ok r) (hstack : ∀ t ∈ stack, IsType t) :
    AreTypes r := by
  obtain ⟨vs, hvs⟩ := exists_fitsStack hstack
  have hsound : Sound (fun _ _ => True) (fun _ _ _ => True) (fun _ => False) r
      (step (fun _ _ _ => .eq) (fun _ _ => .error .stuck) i.prim i.args vs) := operation_sound trivial
    (fun o => by cases o <;> exact .atom (by decide) trivial) hi hregular h hvs
  rintro types rfl
  cases hstep : step (fun _ _ _ => .eq) (fun _ _ => .error .stuck) i.prim i.args vs with
  | ok vs' =>
    rw [hstep] at hsound
    exact FitsStack.isType hsound
  | error e =>
    rw [hstep] at hsound
    exact hsound.elim

/-! ## The checker gives types -/

/-- `visitsEntries` as it is used. -/
theorem length_of_visitsEntries (h : visitsEntries stack = true) (args : List StackType)
    (annots : Option (List JSString)) (r : Option StackType) (tail : List StackType)
    (hstack : stack = .prim "map" (some args) annots r :: tail) : args.length = 2 := by
  subst hstack
  exact of_decide_eq_true h

theorem areTypes_control
    (hrun : ∀ {code types r}, run ctx code types = .ok r → (∀ t ∈ types, IsType t) → AreTypes r)
    (hi : i.prim ∈ controls) (hregular : isRegular i stack r = true)
    (h : retStack run valid contractValid ctx i stack = .ok r) (hstack : ∀ t ∈ stack, IsType t) :
    AreTypes r := by
  obtain ⟨-, hplaces, -, htest⟩ := isRegular_eq_true hregular
  obtain ⟨p, args, annots⟩ := i
  dsimp only at hi
  simp only [controls, List.mem_cons, List.not_mem_nil, or_false] at hi
  obtain rfl | rfl | rfl | rfl | rfl | rfl | rfl | rfl | rfl | rfl | rfl | rfl | rfl := hi
  · obtain ⟨t, level, rfl⟩ := typeFAILWITH_cases h
    exact .of_failed t level
  · exact areTypes_IF_NONE hrun hstack h
  · exact areTypes_IF_LEFT hrun hstack h
  · exact areTypes_IF_CONS hrun hstack h
  · exact areTypes_IF hrun hstack h
  · rintro types rfl
    exact areTypes_LOOP hstack h
  · rintro types rfl
    exact areTypes_LOOP_LEFT hstack h
  · rintro types rfl
    exact areTypes_ITER hstack h
  · rintro types rfl
    have htest : (true && visitsEntries stack) = true := htest
    exact areTypes_MAP hrun hstack (length_of_visitsEntries htest) h
  · exact areTypes_DIP hrun hstack h
  · exact areTypes_PUSH hstack (hplaces 0 List.mem_cons_self) h
  · rintro types rfl
    exact areTypes_LAMBDA hstack rfl (hplaces 0 List.mem_cons_self)
      (hplaces 1 (List.mem_cons_of_mem 0 List.mem_cons_self)) h
  · exact areTypes_EXEC hstack h

theorem instructionListType_cases {items : List Expr}
    (h : instructionListType run ctx items stack = .ok r) :
    ∃ r' last, typeFrom run ctx items stack = .ok (r', last) ∧
      (r = r' ∨ ∃ t level level', r' = .failed t level ∧ r = .failed t level') := by
  obtain ⟨⟨r', last⟩, hfrom, h⟩ := Except.bind_eq_ok.mp h
  refine ⟨r', last, hfrom, ?_⟩
  cases r' with
  | stack types =>
    cases h
    exact .inl rfl
  | failed t level =>
    dsimp only at h
    split at h
    · cases h
    · cases h
      exact .inr ⟨t, level, level + 1, rfl, rfl⟩

theorem areTypes_typeFrom
    (hrun : ∀ {code types r}, run ctx code types = .ok r → (∀ t ∈ types, IsType t) → AreTypes r)
    {items : List Expr} {last : Bool} (h : typeFrom run ctx items stack = .ok (r, last))
    (hstack : ∀ t ∈ stack, IsType t) : AreTypes r := by
  induction items generalizing stack with
  | nil =>
    cases h
    exact .of_stack hstack
  | cons op items ih =>
    obtain ⟨out, hout, h⟩ := Except.bind_eq_ok.mp h
    cases out with
    | failed t level =>
      cases h
      exact .of_failed t level
    | stack types => exact ih h (hrun hout hstack types rfl)

/-- **The checker gives types**: on a stack of types, regular code leaves types. -/
theorem areTypes_typeWhere {host : Host} {fuel : ℕ} {code : Expr}
    (h : typeWhere isRegular host fuel ctx code stack = .ok r) (hstack : ∀ t ∈ stack, IsType t) :
    AreTypes r := by
  induction fuel generalizing ctx code stack r with
  | zero => cases h
  | succ fuel ih =>
    obtain ⟨r', h, hmet⟩ := Except.bind_eq_ok.mp h
    obtain ⟨rfl, hmet⟩ := ifMeets_eq_ok hmet
    cases code with
    | seq items =>
      obtain ⟨r', last, hfrom, rfl | ⟨t, level, level', -, rfl⟩⟩ := instructionListType_cases h
      · exact areTypes_typeFrom ih hfrom hstack
      · exact .of_failed t level'
    | prim p args annots =>
      have hregular := hmet p args annots rfl
      obtain hi | hi := (isRegular_eq_true hregular).1
      · exact areTypes_operation hi hregular h hstack
      · exact areTypes_control ih hi hregular h hstack
    | _ => cases h

end

/-! ## Soundness -/

/-- The code of a function: the checker accepts it alone, from a type to a type. -/
def TypedCode (host : Host) (code : Expr) (A B : Ty) : Prop :=
  ∃ fuel ctx s t, Means s A ∧ Means t B ∧
    typeWhere isRegular host fuel ctx code [s] = .ok (.stack [t])

section

variable {host : Host}

theorem TypedCode.of_typeWhere {fuel : ℕ} {ctx : Context} {code : Expr} {s t : StackType} {A B : Ty}
    (h : typeWhere isRegular host fuel ctx code [s] = .ok (.stack [t])) (hA : Means s A)
    (hB : Means t B) : TypedCode host code A B := ⟨fuel, ctx, s, t, hA, hB, h⟩

theorem hasType_orderValue {typed : Expr → Ty → Ty → Prop} (o : Ordering) :
    HasType (Literal host) typed (orderValue o) (.atom "int") := by
  cases o
  all_goals exact .atom (by decide) ⟨.int [], rfl⟩

/-- Code that follows the checker, alone on an argument of its type. -/
theorem typedCode_runs {E : Halt → Prop} {exec : Expr → List Value → Run (List Value)}
    (hexec : ∀ fuel ctx, Follows (Literal host) (TypedCode host) E
      (typeWhere isRegular host fuel ctx) exec)
    {code : Expr} {x : Value} {A B : Ty} (hcode : TypedCode host code A B)
    (hx : HasType (Literal host) (TypedCode host) x A) :
    Ends E (fun out => ∃ v, out = [v] ∧ HasType (Literal host) (TypedCode host) v B)
      (exec code [x]) := by
  obtain ⟨fuel, ctx, s, t, hs, ht, h⟩ := hcode
  refine ((hexec fuel ctx).sound h (.cons ⟨A, hs, hx⟩ .nil)).mono fun out hout => ?_
  obtain ⟨v, vs, ⟨U, hU, hv⟩, hvs, rfl⟩ := FitsStack.cons_iff.mp hout
  cases hvs
  cases Means.unique hU ht
  exact ⟨v, rfl, hv⟩

/-- The instructions with code follow the checker, if the code in them does. -/
theorem control_sound {order : String → Expr → Expr → Ordering} {exec : Expr → List Value → Run (List Value)} {E : Halt → Prop}
    (hE : ∀ v, E (.failed v))
    (hexec : ∀ fuel ctx, Follows (Literal host) (TypedCode host) E
      (typeWhere isRegular host fuel ctx) exec)
    {fuel : ℕ} {ctx : Context} {contractValid : Expr → Checked Unit} {i : Instruction}
    {stack : List StackType} {vs : List Value} {r : ReturnType}
    (hi : i.prim ∈ controls) (hregular : isRegular i stack r = true)
    (h : retStack (typeWhere isRegular host fuel) (dataWhere isRegular host fuel) contractValid ctx i
      stack = .ok r)
    (hvs : FitsStack (Literal host) (TypedCode host) vs stack)
    (hagain : ∀ vs, FitsStack (Literal host) (TypedCode host) vs stack →
      Sound (Literal host) (TypedCode host) E r (again exec i.prim i.args vs)) :
    Sound (Literal host) (TypedCode host) E r (step order exec i.prim i.args vs) := by
  obtain ⟨-, hplaces, -, htest⟩ := isRegular_eq_true hregular
  obtain ⟨p, args, annots⟩ := i
  dsimp only at hi
  simp only [controls, List.mem_cons, List.not_mem_nil, or_false] at hi
  obtain rfl | rfl | rfl | rfl | rfl | rfl | rfl | rfl | rfl | rfl | rfl | rfl | rfl := hi
  · exact FAILWITH_sound hvs hE h
  · exact IF_NONE_sound (hexec fuel ctx) hvs h
  · exact IF_LEFT_sound (hexec fuel ctx) hvs h
  · exact IF_CONS_sound (hexec fuel ctx) hvs h
  · exact IF_sound (hexec fuel ctx) hvs h
  · cases r with
    | failed t level => cases htest
    | stack types => exact LOOP_sound (hexec fuel ctx) hvs hagain h
  · cases r with
    | failed t level => cases htest
    | stack types => exact LOOP_LEFT_sound (hexec fuel ctx) hvs hagain h
  · cases r with
    | failed t level => cases htest
    | stack types =>
      have htest : (true && visitsEntries stack) = true := htest
      exact ITER_sound (hexec fuel ctx) hvs (length_of_visitsEntries htest) h
  · cases r with
    | failed t level => cases htest
    | stack types =>
      have htest : (true && visitsEntries stack) = true := htest
      exact MAP_sound (hexec fuel ctx) hvs areTypes_typeWhere (length_of_visitsEntries htest) h
  · exact DIP_sound (hexec fuel ctx) hvs h
  · refine PUSH_sound hvs ?_ h
    intro d t hd ht hvalid
    have hpush : pushesValue ⟨"PUSH", args, annots⟩ = true := htest
    rw [pushesValue, ht] at hpush
    obtain ⟨T, hT, hpush⟩ := (Option.any_eq_true _ _).mp hpush
    obtain ⟨v, hv, hvT⟩ := dataWhere_denotes TypedCode.of_typeWhere hvalid hT hpush
    exact ⟨T, v, hT, hv, hvT⟩
  · cases r with
    | failed t level => cases htest
    | stack types =>
      exact LAMBDA_sound hvs rfl (hplaces 0 List.mem_cons_self)
        (hplaces 1 (List.mem_cons_of_mem 0 List.mem_cons_self)) TypedCode.of_typeWhere h
  · exact EXEC_sound hvs (typedCode_runs hexec) h

theorem typeFrom_sound {run : Context → Expr → List StackType → Checked ReturnType} {ctx : Context}
    {exec : Expr → List Value → Run (List Value)} {E : Halt → Prop}
    (hrun : Follows (Literal host) (TypedCode host) E (run ctx) exec) {items : List Expr}
    {stack : List StackType} {r : ReturnType} {last : Bool}
    (h : typeFrom run ctx items stack = .ok (r, last)) {vs : List Value}
    (hvs : FitsStack (Literal host) (TypedCode host) vs stack) :
    Sound (Literal host) (TypedCode host) E r (items.foldlM (fun s e => exec e s) vs) := by
  induction items generalizing stack vs with
  | nil =>
    cases h
    exact hvs
  | cons op items ih =>
    obtain ⟨out, hout, h⟩ := Except.bind_eq_ok.mp h
    rw [List.foldlM_cons]
    cases out with
    | failed t level =>
      cases h
      exact Ends.bind (hrun.sound hout hvs) fun _ hfalse => hfalse.elim
    | stack types => exact Ends.bind (hrun.sound hout hvs) fun vs' hvs' => ih h hvs'

/-- The evaluation does not look at annotations. -/
theorem exec_annots (order : String → Expr → Expr → Ordering) (steps : ℕ) (p : String) (args : Option (List Expr))
    (annots annots' : Option (List JSString)) (vs : List Value) :
    exec order steps (.prim p args annots) vs = exec order steps (.prim p args annots') vs := by
  cases steps <;> rfl

/-- **The evaluation follows the checker**, by induction on its depth. -/
theorem exec_follows (order : String → Expr → Expr → Ordering) (steps fuel : ℕ) (ctx : Context) :
    Follows (Literal host) (TypedCode host) (· ≠ .stuck) (typeWhere isRegular host fuel ctx)
      (exec order steps) := by
  induction steps generalizing fuel ctx with
  | zero =>
    intro code types r vs h hvs
    exact Ends.error (by simp)
  | succ steps ih =>
    intro code types r vs h hvs
    cases fuel with
    | zero => cases h
    | succ fuel =>
      have hwhole := h
      obtain ⟨r', h, hmet⟩ := Except.bind_eq_ok.mp h
      obtain ⟨rfl, hmet⟩ := ifMeets_eq_ok hmet
      cases code with
      | seq items =>
        obtain ⟨r', last, hfrom, hr⟩ := instructionListType_cases h
        have hsound := typeFrom_sound (ih fuel ctx) hfrom hvs
        obtain rfl | ⟨t, level, level', rfl, rfl⟩ := hr
        · exact hsound
        · exact hsound.of_failed _
      | prim p args annots =>
        have hregular := hmet p args annots rfl
        obtain hi | hi := (isRegular_eq_true hregular).1
        · exact operation_sound ⟨.int [], rfl⟩ hasType_orderValue hi hregular h hvs
        · refine control_sound (by simp) (fun fuel ctx => ih fuel ctx) hi hregular h hvs ?_
          -- The loop itself is typed as before, and is evaluated with less depth.
          intro vs hvs
          rw [again, exec_annots order steps p args none annots]
          exact (ih (fuel + 1) ctx).sound hwhole hvs
      | _ => cases h

end

/-- Typing visits only instructions that do what the checker says. -/
def VisitsRegular (host : Host) (ctx : Context) (code : Expr) (stack : List StackType) : Prop :=
  ∃ r, typeWhere isRegular host (size code) ctx code stack = .ok r

/-- **Soundness of `functionType`.** If it accepts regular code on a stack of types, the evaluation of
the code on values of these types never gets stuck; if it ends normally, the code is not said to fail
and the values that are left have the types of the result. -/
theorem functionType_sound {host : Host} {ctx : Context} {code : Expr} {stack : List StackType}
    {r : ReturnType} (h : functionType host ctx code stack = .ok r)
    (hregular : VisitsRegular host ctx code stack) {vs : List Value}
    (hvs : FitsStack (Literal host) (TypedCode host) vs stack)
    (order : String → Expr → Expr → Ordering) (steps : ℕ) :
    Sound (Literal host) (TypedCode host) (· ≠ .stuck) r (exec order steps code vs) := by
  obtain ⟨context, heq⟩ := functionType_checks host ctx
  rw [heq] at h
  obtain ⟨_, -, h⟩ := Except.bind_eq_ok.mp h
  obtain ⟨_, -, h⟩ := Except.bind_eq_ok.mp h
  obtain ⟨r₀, hr₀⟩ := hregular
  obtain ⟨r₁, hr₁, rfl⟩ := (checks_mirror _).1 ctx code stack r₀ hr₀
  cases h.symm.trans hr₁
  exact (exec_follows order steps (size code) ctx).sound hr₀ hvs

/-- Code that reverses a list. -/
def reversal : Expr :=
  .seq [.prim "NIL" (some [.prim "nat" none none]) none, .prim "SWAP" none none,
    .prim "ITER" (some [.seq [.prim "CONS" none none]]) none]

theorem functionType_sound_reversal :
    VisitsRegular .plain {} reversal [ofPrim "list" [leaf "nat"]] ∧
      ∀ order steps, Sound (Literal .plain) (TypedCode .plain) (· ≠ .stuck)
        (.stack [ofPrim "list" [leaf "nat"]])
        (exec order steps reversal [.list [.atom "nat" (.int (js "1")), .atom "nat" (.int (js "2"))]]) := by
  have hregular : VisitsRegular .plain {} reversal [ofPrim "list" [leaf "nat"]] := ⟨_, rfl⟩
  refine ⟨hregular, functionType_sound rfl hregular (.cons ?_ .nil)⟩
  refine ⟨_, Means.ofUnary rfl (Means.ofLeaf rfl), .list ?_⟩
  intro a ha
  simp only [List.mem_cons, List.not_mem_nil, or_false] at ha
  obtain rfl | rfl := ha
  all_goals exact .atom (by decide) ⟨.int [], rfl⟩

example (order : String → Expr → Expr → Ordering) (a b : Value) :
    exec order 4 reversal [.list [a, b]] = .ok [.list [b, a]] := rfl

end Typechecker
