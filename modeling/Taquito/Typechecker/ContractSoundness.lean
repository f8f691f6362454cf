import Taquito.Typechecker.Soundness

/-!
# Contracts that the checker accepts

`assertContractValid` accepts a contract: a call of it on an argument and a storage of its types
returns operations and a storage of the same type, or fails, and never gets stuck. Hence the storage
keeps its type over any sequence of calls, in which a call that fails leaves it as it is
(`assertContractValid_sound`). The views return what they promise, on every storage that is reached.

A parameter or a storage written as a bare sequence is excluded. The checker spreads it into an
object with numbered fields, which is no type.
-/

open Js MichelCodec Michelson

namespace Typechecker

open StackType

/-! ## Calls -/

section

variable (order : String → Expr → Expr → Ordering) (steps : ℕ) (code : Expr)

/-- A call: the operations that it returns, and the storage after it. -/
def call (storage argument : Value) : Run (Value × Value) := do
  match ← exec order steps code [.pair argument storage] with
  | [.pair operations storage'] => return (operations, storage')
  | _ => .error .stuck

/-- The storage after a call. One that fails has no effect. -/
def transact (storage argument : Value) : Run Value :=
  match call order steps code storage argument with
  | .ok out => .ok out.2
  | .error (.failed _) => .ok storage
  | .error e => .error e

/-- A view on a storage. -/
def look (storage argument : Value) : Run Value := do
  match ← exec order steps code [.pair argument storage] with
  | [v] => return v
  | _ => .error .stuck

end

/-! ## Sections -/

/-- A type that is not written as a bare sequence. -/
def IsPrim (t : StackType) : Prop := ∃ p, t.primOf = some p

theorem means_sectionType {t : StackType} {T : Ty} (ht : IsPrim t) (hT : Means t T) (name : String) :
    Means (sectionType t name) T := by
  obtain ⟨p, hp⟩ := ht
  cases t with
  | prim q args annots r => exact hT.withAnnots [js name]
  | _ => cases hp

section

variable {host : Host} {fuel : ℕ} {ctx : Context}
  {contract parameter storage ret : StackType} {code : Expr} {out : ReturnType}

/-- The code of a section, on an argument and a storage. -/
theorem assertSection_sound
    (h : assertSection (typeWhere isRegular host fuel) ctx contract parameter storage ret code =
      .ok out)
    (hp : IsPrim parameter) (hs : IsPrim storage) {v w : Value}
    (hv : Fits (Literal host) (TypedCode host) v parameter)
    (hw : Fits (Literal host) (TypedCode host) w storage)
    (order : String → Expr → Expr → Ordering) (steps : ℕ) :
    Ends (· ≠ .stuck)
      (fun vs => returns out = true ∧ ∃ r, vs = [r] ∧ Fits (Literal host) (TypedCode host) r ret)
      (exec order steps code [.pair v w]) := by
  obtain ⟨_, -, h⟩ := Except.bind_eq_ok.mp h
  obtain ⟨_, -, h⟩ := Except.bind_eq_ok.mp h
  obtain ⟨out', hout, h⟩ := Except.bind_eq_ok.mp h
  obtain ⟨T, hT, hv⟩ := hv
  obtain ⟨U, hU, hw⟩ := hw
  have hsound := (exec_follows order steps fuel _).sound hout
    (.cons ⟨.pair T U, Means.ofPair (means_sectionType hp hT "@parameter")
      (means_sectionType hs hU "@storage"), .pair hv hw⟩ .nil)
  cases out' with
  | failed t level => exact hsound.mono fun _ hfalse => hfalse.elim
  | stack types =>
    dsimp only at h
    cases hequal : assertStacksEqual types [ret] with
    | error e =>
      rw [hequal] at h
      dsimp only at h
      split at h <;> cases h
    | ok u =>
      rw [hequal] at h
      cases h
      refine hsound.mono fun vs hvs => ?_
      obtain ⟨r, rs, hr, hrs, rfl⟩ :=
        FitsStack.cons_iff.mp ((fitsStack_of_stacksEqual hequal).mp hvs)
      cases hrs
      exact ⟨rfl, r, rfl, hr⟩

theorem viewsValid_mem {run : Context → Expr → List StackType → Checked ReturnType}
    {views : List (JSString × StackType)} (h : viewsValid run ctx contract storage views = .ok ()) :
    ∀ view ∈ views, ∃ parameter ret code out, argOf view.2 1 = .ok parameter ∧
      argOf view.2 2 = .ok ret ∧ argOf view.2 3 = .ok code ∧
      assertSection run ctx contract parameter storage ret code.erase = .ok out := by
  induction views with
  | nil => exact fun view hview => absurd hview List.not_mem_nil
  | cons view views ih =>
    obtain ⟨parameter, hparameter, h⟩ := Except.bind_eq_ok.mp h
    obtain ⟨ret, hret, h⟩ := Except.bind_eq_ok.mp h
    obtain ⟨code, hcode, h⟩ := Except.bind_eq_ok.mp h
    obtain ⟨out, hout, h⟩ := Except.bind_eq_ok.mp h
    exact List.forall_mem_cons.mpr ⟨⟨parameter, ret, code, out, hparameter, hret, hcode, hout⟩, ih h⟩

end

/-! ## Contracts -/

/-- The sections of a contract: its types and its code. -/
def HasSections (contract : Expr) (parameter storage : StackType) (code : Expr) : Prop :=
  ∃ sections body, sectionsOf (ofExpr contract) = .ok sections ∧
    (do argOf (← contractSection sections "parameter") 0) = .ok parameter ∧
      (do argOf (← contractSection sections "storage") 0) = .ok storage ∧
        (do argOf (← contractSection sections "code") 0) = .ok body ∧ body.erase = code

/-- A view of a contract: its types and its code. -/
def HasView (contract : Expr) (name : JSString) (parameter ret : StackType) (code : Expr) : Prop :=
  ∃ sections views view body, sectionsOf (ofExpr contract) = .ok sections ∧
    contractViews sections = .ok views ∧ (name, view) ∈ views ∧ argOf view 1 = .ok parameter ∧
      argOf view 2 = .ok ret ∧ argOf view 3 = .ok body ∧ body.erase = code

/-- The code of a contract visits only instructions that do what the checker says. -/
def IsRegularContract (host : Host) (ctx : Context) (contract : Expr) : Prop :=
  ∃ r, contractWhere isRegular host (size contract) ctx (ofExpr contract) = .ok r

/-- What is promised of a contract whose code has the result `r`. -/
structure Safe (host : Host) (order : String → Expr → Expr → Ordering) (steps : ℕ) (contract : Expr)
    (parameter storage : StackType) (code : Expr) (r : ReturnType) : Prop where
  /-- A call returns operations and a storage, unless it fails. -/
  calls : ∀ v w, Fits (Literal host) (TypedCode host) v parameter →
    Fits (Literal host) (TypedCode host) w storage →
      Ends (· ≠ .stuck) (fun out => returns r = true ∧
        HasType (Literal host) (TypedCode host) out.1 (.unary .list (.atom "operation")) ∧
          Fits (Literal host) (TypedCode host) out.2 storage) (call order steps code w v)
  /-- Over any sequence of calls the storage keeps its type. -/
  runs : ∀ (args : List Value) (w : Value),
    (∀ v ∈ args, Fits (Literal host) (TypedCode host) v parameter) →
      Fits (Literal host) (TypedCode host) w storage →
        Ends (· = Halt.outOfFuel) (Fits (Literal host) (TypedCode host) · storage)
          (args.foldlM (transact order steps code) w)
  /-- A view returns what it promises, unless it fails. -/
  views : ∀ name argument ret body, HasView contract name argument ret body → IsPrim argument →
    ∀ v w, Fits (Literal host) (TypedCode host) v argument →
      Fits (Literal host) (TypedCode host) w storage →
        Ends (· ≠ .stuck) (Fits (Literal host) (TypedCode host) · ret) (look order steps body w v)

section

variable {host : Host} {order : String → Expr → Expr → Ordering} {steps : ℕ} {code : Expr}
  {storage : StackType} {r : ReturnType}

/-- Code that leaves a pair of operations and a storage makes a call. -/
theorem call_sound {v w : Value}
    (h : Ends (· ≠ .stuck) (fun vs => returns r = true ∧ ∃ out, vs = [out] ∧
      Fits (Literal host) (TypedCode host) out
        (ofPrim "pair" [ofPrim "list" [leaf "operation"], storage]))
      (exec order steps code [.pair v w])) :
    Ends (· ≠ .stuck) (fun out => returns r = true ∧
      HasType (Literal host) (TypedCode host) out.1 (.unary .list (.atom "operation")) ∧
        Fits (Literal host) (TypedCode host) out.2 storage) (call order steps code w v) := by
  refine Ends.bind h ?_
  rintro _ ⟨hreturns, out, rfl, hout⟩
  obtain ⟨operations, storage', p, rfl, hp, ⟨T, hT, hoperations⟩, hstorage⟩ := hout.pair rfl
  cases hp
  cases Means.unique hT (Means.ofUnary (u := .list) rfl (Means.ofLeaf (p := "operation") rfl))
  exact ⟨hreturns, hoperations, hstorage⟩

/-- A call, whether it fails or not, leaves a storage. -/
theorem transact_sound {v w : Value} (hw : Fits (Literal host) (TypedCode host) w storage)
    (h : Ends (· ≠ .stuck) (fun out => returns r = true ∧
      HasType (Literal host) (TypedCode host) out.1 (.unary .list (.atom "operation")) ∧
        Fits (Literal host) (TypedCode host) out.2 storage) (call order steps code w v)) :
    Ends (· = .outOfFuel) (Fits (Literal host) (TypedCode host) · storage)
      (transact order steps code w v) := by
  unfold transact
  cases hcall : call order steps code w v with
  | ok out =>
    rw [hcall] at h
    exact h.2.2
  | error e =>
    rw [hcall] at h
    cases e with
    | failed value => exact hw
    | stuck => exact absurd rfl h
    | outOfFuel => exact Ends.error rfl

end

theorem contractType_cases {run : Context → Expr → List StackType → Checked ReturnType} {ctx : Context}
    {contract : StackType} {r : ReturnType} (h : contractType run ctx contract = .ok r) :
    ∃ sections parameter storage code views, sectionsOf contract = .ok sections ∧
      (do argOf (← contractSection sections "parameter") 0) = .ok parameter ∧
      (do argOf (← contractSection sections "storage") 0) = .ok storage ∧
      (do argOf (← contractSection sections "code") 0) = .ok code ∧
      assertSection run ctx contract parameter storage
        (ofPrim "pair" [ofPrim "list" [leaf "operation"], storage]) code.erase = .ok r ∧
      contractViews sections = .ok views ∧ viewsValid run ctx contract storage views = .ok () := by
  obtain ⟨sections, hsections, h⟩ := Except.bind_eq_ok.mp h
  obtain ⟨p, hp, h⟩ := Except.bind_eq_ok.mp h
  obtain ⟨parameter, hparameter, h⟩ := Except.bind_eq_ok.mp h
  obtain ⟨s, hs, h⟩ := Except.bind_eq_ok.mp h
  obtain ⟨storage, hstorage, h⟩ := Except.bind_eq_ok.mp h
  obtain ⟨c, hc, h⟩ := Except.bind_eq_ok.mp h
  obtain ⟨code, hcode, h⟩ := Except.bind_eq_ok.mp h
  obtain ⟨ret, hret, h⟩ := Except.bind_eq_ok.mp h
  obtain ⟨views, hviews, h⟩ := Except.bind_eq_ok.mp h
  obtain ⟨_, hvalid, h⟩ := Except.bind_eq_ok.mp h
  cases h
  exact ⟨sections, parameter, storage, code, views, hsections,
    Except.bind_eq_ok.mpr ⟨p, hp, hparameter⟩, Except.bind_eq_ok.mpr ⟨s, hs, hstorage⟩,
    Except.bind_eq_ok.mpr ⟨c, hc, hcode⟩, hret, hviews, hvalid⟩

/-- **Soundness of `assertContractValid`.** A contract whose code is regular is safe: no call gets
stuck, and the storage keeps its type over any sequence of calls. -/
theorem assertContractValid_sound {host : Host} {ctx : Context} {contract : Expr} {r : ReturnType}
    (h : assertContractValid host ctx contract = .ok r) (hregular : IsRegularContract host ctx contract)
    {parameter storage : StackType} {code : Expr} (hparts : HasSections contract parameter storage code)
    (hp : IsPrim parameter) (hs : IsPrim storage) (order : String → Expr → Expr → Ordering)
    (steps : ℕ) : Safe host order steps contract parameter storage code r := by
  obtain ⟨r₀, hr₀⟩ := hregular
  obtain ⟨r₁, hr₁, rfl⟩ := (checks_mirror _).2.2 ctx (ofExpr contract) r₀ hr₀
  cases h.symm.trans hr₁
  obtain ⟨sections, body, hsections, hparameter, hstorage, hcode, rfl⟩ := hparts
  cases hfuel : size contract with
  | zero =>
    rw [hfuel] at hr₀
    cases hr₀
  | succ fuel =>
    rw [hfuel] at hr₀
    obtain ⟨sections', parameter', storage', body', views, hsections', hparameter', hstorage', hcode',
      hret, hviews, hvalid⟩ := contractType_cases hr₀
    cases hsections.symm.trans hsections'
    cases hparameter.symm.trans hparameter'
    cases hstorage.symm.trans hstorage'
    cases hcode.symm.trans hcode'
    have hcalls (v w : Value) (hv : Fits (Literal host) (TypedCode host) v parameter)
        (hw : Fits (Literal host) (TypedCode host) w storage) :=
      call_sound (assertSection_sound hret hp hs hv hw order steps)
    refine ⟨hcalls, fun args w hargs hw => ?_, ?_⟩
    · exact Ends.foldlM (fun v hv w hw => transact_sound hw (hcalls v w (hargs v hv) hw)) hw
    · rintro name argument ret code ⟨sections', views', view, body', hsections', hviews', hview,
        hargument, hret', hbody, rfl⟩ hprim v w hv hw
      cases hsections.symm.trans hsections'
      cases hviews.symm.trans hviews'
      obtain ⟨argument', ret', body', out, hargument', hret'', hbody', hout⟩ :=
        viewsValid_mem hvalid _ hview
      cases hargument.symm.trans hargument'
      cases hret'.symm.trans hret''
      cases hbody.symm.trans hbody'
      refine Ends.bind (assertSection_sound hout hprim hs hv hw order steps) ?_
      rintro _ ⟨-, res, rfl, hres⟩
      exact hres

/-- Code that makes the storage of the reversed argument. -/
def storeReversal : Expr :=
  .seq [.prim "CAR" none none, reversal, .prim "NIL" (some [.prim "operation" none none]) none,
    .prim "PAIR" none none]

/-- A contract that stores its argument in reverse order, with a view of its storage. -/
def reversalContract : Expr :=
  .seq [.prim "parameter" (some [.prim "list" (some [.prim "nat" none none]) none]) none,
    .prim "storage" (some [.prim "list" (some [.prim "nat" none none]) none]) none,
    .prim "code" (some [storeReversal]) none,
    .prim "view" (some [.string (js "stored"), .prim "unit" none none,
      .prim "list" (some [.prim "nat" none none]) none, .seq [.prim "CDR" none none]]) none]

theorem assertContractValid_sound_reversalContract :
    Safe .plain (fun _ _ _ => .eq) 6 reversalContract (ofPrim "list" [leaf "nat"])
        (ofPrim "list" [leaf "nat"]) storeReversal
        (.stack [ofPrim "pair" [ofPrim "list" [leaf "operation"], ofPrim "list" [leaf "nat"]]]) ∧
      call (fun _ _ _ => .eq) 6 storeReversal (.list [])
          (.list [.atom "nat" (.int (js "1")), .atom "nat" (.int (js "2"))]) =
        .ok (.list [], .list [.atom "nat" (.int (js "2")), .atom "nat" (.int (js "1"))]) := by
  have hparts : HasSections reversalContract (ofPrim "list" [leaf "nat"]) (ofPrim "list" [leaf "nat"])
      storeReversal := ⟨_, _, rfl, rfl, rfl, rfl, rfl⟩
  have hregular : IsRegularContract .plain {} reversalContract := ⟨_, rfl⟩
  exact ⟨assertContractValid_sound rfl hregular hparts ⟨_, rfl⟩ ⟨_, rfl⟩ _ 6, rfl⟩

end Typechecker
