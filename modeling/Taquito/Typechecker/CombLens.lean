import Taquito.Typechecker.Code
import Taquito.Typechecker.Combs

/-!
# `GET`, `UPDATE`, `PAIR` and `UNPAIR` as lenses

What `functionType` makes of the instructions on combs: what `UPDATE n` puts at an index, `GET n`
finds there; the other odd indices are not affected; `UNPAIR` takes apart what `PAIR` put together;
and the indices that are accepted are those of the comb. The types are compared without their own
annotations, which the instructions change.

The one exception is the index zero, the whole pair: `UPDATE 0` puts any type there, and `GET 0`
asks for a pair.
-/

open Js MichelCodec

namespace Typechecker

open StackType

/-! ## The instructions -/

section

variable {i : Instruction} {x p : StackType} {S : List StackType} {e : Expr} {n : ℕ}

theorem assertTypeID_pair (i : Instruction) (stack : List StackType) (m : ℕ)
    (hpair : p.isPairType = true) : assertTypeID i stack m ["pair"] p = .ok () := by
  have hid : p.typeID = some "pair" := by
    match p, hpair with
    | .seq items, _ => rfl
    | .prim q args annots ref, hpair => exact congrArg some (beq_iff_eq.mp hpair)
  rw [assertTypeID, hid]
  rfl

/-- `GET n`. -/
theorem typeGetNth_eq (hn : natOf e = .ok n) (hpair : p.isPairType = true) :
    typeGetNth i (p :: S) [e] =
      getNth i (p :: S) n p n >>= fun t => push (annotateVar i (p :: S) t none) S := by
  rw [typeGetNth]
  dsimp only
  rw [hn, Except.ok_bind, args1, assertTypeID_pair i _ 0 hpair]
  rfl

/-- `UPDATE n`. -/
theorem typeUpdateNth_eq (hn : natOf e = .ok n) (hpair : p.isPairType = true) :
    typeUpdateNth i (x :: p :: S) [e] =
      updateNth i (x :: p :: S) x n p n >>= fun q =>
        push (annotateVar i (x :: p :: S) q none) S := by
  rw [typeUpdateNth]
  dsimp only
  rw [hn, Except.ok_bind, args2, assertTypeID_pair i _ 1 hpair]
  rfl

/-- What an instruction without annotations leaves. -/
theorem push_eq (hnone : i.annots = none) (stack : List StackType) {t : StackType}
    (ht : OwnAnnotations t) :
    push (annotateVar i stack t none) S = .ok (.stack (t.withAnnots t.kept :: S)) := by
  rw [annotateVar_eq hnone stack ht]
  rfl

theorem pairFields_eq (i : Instruction) (stack : List StackType) :
    ∀ (k : ℕ) {types : List StackType}, (∀ t ∈ types, OwnAnnotations t) →
      pairFields i stack {} k types = .ok (types.map fun t => t.withAnnots t.kept)
  | _, [], _ => rfl
  | k, t :: types, h => by
    rw [List.forall_mem_cons] at h
    obtain ⟨a, ha, -⟩ := argAnn_eq i stack h.1
    rw [pairFields, ha, Except.ok_bind, show pairField {} a k = .undefined from rfl,
      annotate_eq i stack h.1, Except.ok_bind, pairFields_eq i stack (k + 1) h.2]
    rfl

theorem unpairFields_eq (i : Instruction) (stack : List StackType) {arg : StackType}
    (harg : OwnAnnotations arg) : ∀ (k : ℕ) {types : List StackType},
      (∀ t ∈ types, OwnAnnotations t) →
        unpairFields i stack arg {} k types = .ok (types.map fun t => t.withAnnots t.kept)
  | _, [], _ => rfl
  | k, t :: types, h => by
    rw [List.forall_mem_cons] at h
    rw [unpairFields, annotateField_eq i stack harg h.1, Except.ok_bind,
      unpairFields_eq i stack harg (k + 1) h.2]
    rfl

/-- `PAIR n`. -/
theorem typePAIR_eq {types : List StackType} (hcount : i.count 2 = .ok types.length)
    (hnone : i.annots = none) (htwo : 2 ≤ types.length) (hown : ∀ t ∈ types, OwnAnnotations t) :
    typePAIR i (types ++ S) =
      .ok (.stack (ofPrim "pair" (types.map fun t => t.withAnnots t.kept) :: S)) := by
  have hlen : ¬ (types ++ S).length < types.length := by
    rw [List.length_append]
    omega
  rw [typePAIR, hcount, Except.ok_bind, if_neg (by omega), if_neg hlen, instructionAnn_eq hnone,
    Except.ok_bind, List.take_left, List.drop_left, pairFields_eq i _ 0 hown]
  rfl

/-- `UNPAIR n`. -/
theorem typeUNPAIR_eq (hcount : i.count 2 = .ok n) (hnone : i.annots = none) (htwo : 2 ≤ n)
    (hpair : p.isPairType = true) (hp : OwnAnnotations p)
    (hown : ∀ types, getN i (p :: S) n p n = .ok types → ∀ t ∈ types, OwnAnnotations t) :
    typeUNPAIR i (p :: S) = getN i (p :: S) n p n >>= fun types =>
      .ok (.stack ((types.map fun t => t.withAnnots t.kept) ++ S)) := by
  rw [typeUNPAIR, hcount, Except.ok_bind, if_neg (by omega), args1, assertTypeID_pair i _ 0 hpair,
    Except.ok_bind, instructionAnn_eq hnone, Except.ok_bind]
  cases hfields : getN i (p :: S) n p n with
  | error e => rfl
  | ok types =>
    rw [Except.ok_bind, unpairFields_eq i _ hp 0 (hown types hfields)]
    rfl

end

/-! ## Whole runs -/

/-- An instruction with an argument. -/
def indexed (prim : String) (e : Expr) : Expr := .prim prim (some [e]) none

section

variable (host : Host) (ctx : Context)

/-- `functionType` accepts the types of the stack, and the context. -/
def Accepts (stack : List StackType) : Prop :=
  functionType host ctx (.seq []) stack = .ok (.stack stack)

/-- `functionType` gives the code a stack. -/
def Types (code : Expr) (stack : List StackType) : Prop :=
  ∃ out, functionType host ctx code stack = .ok (.stack out)

/-- What `UPDATE n` puts into a pair, `GET n` finds there. -/
def ReadsWritten (e : Expr) (x p : StackType) (S : List StackType) : Prop :=
  Types host ctx (indexed "UPDATE" e) (x :: p :: S) →
    ∃ y, functionType host ctx (.seq [indexed "UPDATE" e, indexed "GET" e]) (x :: p :: S) =
      .ok (.stack (y :: S)) ∧ y.withAnnots [] = x.withAnnots []

variable {host ctx} {stack : List StackType}

/-- The code comes last: what is checked before does not look at it. -/
theorem functionType_checks (host : Host) (ctx : Context) : ∃ context : Checked Unit, ∀ code stack,
    functionType host ctx code stack =
      forEachType (assertTypeAnnotationsValid · false) stack >>= fun _ => context >>= fun _ =>
        functionTypeTo host (size code) ctx code stack := by
  cases hcontract : ctx.contract with
  | none =>
    refine ⟨.ok (), fun code stack => ?_⟩
    rw [functionType, hcontract]
  | some contract =>
    refine ⟨forEachType (fun s => do
        let sec ← contractSection (← sectionsOf contract) (s.primOf.getD "")
        assertTypeAnnotationsValid (← argOf sec 0) false) [leaf "parameter", leaf "storage"],
      fun code stack => ?_⟩
    rw [functionType, hcontract]

/-- The code is typed as `functionTypeInternal` types it. -/
theorem functionType_eq (h : Accepts host ctx stack) (code : Expr) :
    functionType host ctx code stack = functionTypeTo host (size code) ctx code stack := by
  obtain ⟨context, heq⟩ := functionType_checks host ctx
  rw [Accepts, heq] at h
  obtain ⟨_, hstack, h⟩ := Except.bind_eq_ok.mp h
  obtain ⟨_, hcontext, -⟩ := Except.bind_eq_ok.mp h
  rw [heq, hstack, Except.ok_bind, hcontext, Except.ok_bind]

theorem Accepts.isAnnotated (h : Accepts host ctx stack) : ∀ t ∈ stack, IsAnnotated t := by
  obtain ⟨_, hstack, -⟩ := Except.bind_eq_ok.mp h
  exact fun t ht => ⟨t.weight, false, forEachType_eq_ok.mp hstack t ht⟩

theorem Accepts.tail {t : StackType} (h : Accepts host ctx (t :: stack)) :
    Accepts host ctx stack := by
  obtain ⟨context, heq⟩ := functionType_checks host ctx
  rw [Accepts, heq] at h ⊢
  obtain ⟨_, hstack, h⟩ := Except.bind_eq_ok.mp h
  obtain ⟨_, hcontext, -⟩ := Except.bind_eq_ok.mp h
  have hrest := fun u hu => forEachType_eq_ok.mp hstack u (List.mem_cons_of_mem t hu)
  rw [forEachType_eq_ok.mpr hrest, Except.ok_bind, hcontext]
  rfl

/-- Two instructions, one after the other. -/
theorem functionType_two {first second : Expr} {mid out : List StackType}
    (h : Accepts host ctx stack)
    (hfirst : ∀ fuel, functionTypeTo host (fuel + 1) ctx first stack = .ok (.stack mid))
    (hsecond : ∀ fuel, functionTypeTo host (fuel + 1) ctx second mid = .ok (.stack out)) :
    functionType host ctx (.seq [first, second]) stack = .ok (.stack out) := by
  rw [functionType_eq h]
  show instructionListType (functionTypeTo host (sizes [first, second] + 2 + 1)) ctx _ stack = _
  rw [instructionListType, typeFrom, hfirst, Except.ok_bind]
  dsimp only
  rw [typeFrom, hsecond]
  rfl

section

variable {x p : StackType} {S : List StackType} {e : Expr} {n : ℕ}

/-- The instruction that the checker sees. -/
abbrev indexedInstruction (prim : String) (e : Expr) : Instruction := ⟨prim, some [e], none⟩

theorem functionTypeTo_GET (hn : natOf e = .ok n) (hpair : p.isPairType = true) (fuel : ℕ) :
    functionTypeTo host (fuel + 1) ctx (indexed "GET" e) (p :: S) =
      getNth (indexedInstruction "GET" e) (p :: S) n p n >>= fun t =>
        push (annotateVar (indexedInstruction "GET" e) (p :: S) t none) S :=
  typeGetNth_eq (i := indexedInstruction "GET" e) hn hpair

theorem functionTypeTo_UPDATE (hn : natOf e = .ok n) (hpair : p.isPairType = true) (fuel : ℕ) :
    functionTypeTo host (fuel + 1) ctx (indexed "UPDATE" e) (x :: p :: S) =
      updateNth (indexedInstruction "UPDATE" e) (x :: p :: S) x n p n >>= fun q =>
        push (annotateVar (indexedInstruction "UPDATE" e) (x :: p :: S) q none) S :=
  typeUpdateNth_eq (i := indexedInstruction "UPDATE" e) hn hpair

/-- `GET n` takes the indices that `getNth` takes. -/
theorem types_GET_iff (h : Accepts host ctx (p :: S)) (hn : natOf e = .ok n)
    (hpair : p.isPairType = true) :
    Types host ctx (indexed "GET" e) (p :: S) ↔
      ∃ t, getNth (indexedInstruction "GET" e) (p :: S) n p n = .ok t := by
  have hp := h.isAnnotated p List.mem_cons_self
  rw [Types, functionType_eq h, show size (indexed "GET" e) = _ + 1 from rfl,
    functionTypeTo_GET hn hpair]
  constructor
  · rintro ⟨out, hout⟩
    obtain ⟨t, ht, -⟩ := Except.bind_eq_ok.mp hout
    exact ⟨t, ht⟩
  · rintro ⟨t, ht⟩
    have hown := (getNth_isAnnotated hp hpair ht).own
    exact ⟨_, by rw [ht, Except.ok_bind, push_eq rfl _ hown]⟩

/-- `UPDATE n` takes the indices that `updateNth` takes. -/
theorem types_UPDATE_iff (h : Accepts host ctx (x :: p :: S)) (hn : natOf e = .ok n)
    (hpair : p.isPairType = true) :
    Types host ctx (indexed "UPDATE" e) (x :: p :: S) ↔
      ∃ q, updateNth (indexedInstruction "UPDATE" e) (x :: p :: S) x n p n = .ok q := by
  have hx := h.isAnnotated x List.mem_cons_self
  have hp := h.isAnnotated p (List.mem_cons_of_mem x List.mem_cons_self)
  rw [Types, functionType_eq h, show size (indexed "UPDATE" e) = _ + 1 from rfl,
    functionTypeTo_UPDATE hn hpair]
  constructor
  · rintro ⟨out, hout⟩
    obtain ⟨q, hq, -⟩ := Except.bind_eq_ok.mp hout
    exact ⟨q, hq⟩
  · rintro ⟨q, hq⟩
    have hown := updateNth_ownAnnotations hp hpair hx.own hq
    exact ⟨_, by rw [hq, Except.ok_bind, push_eq rfl _ hown]⟩

/-- `UNPAIR n` takes the counts that `getN` takes. -/
theorem types_UNPAIR_iff (h : Accepts host ctx (p :: S)) (hn : natOf e = .ok n) (htwo : 2 ≤ n)
    (hpair : p.isPairType = true) :
    Types host ctx (indexed "UNPAIR" e) (p :: S) ↔
      ∃ types, getN (indexedInstruction "UNPAIR" e) (p :: S) n p n = .ok types := by
  have hp := h.isAnnotated p List.mem_cons_self
  have hUNPAIR := typeUNPAIR_eq (i := indexedInstruction "UNPAIR" e) (S := S) hn rfl htwo hpair
    hp.own fun _ htypes t ht => (getN_isAnnotated hp hpair htypes t ht).own
  rw [Types, functionType_eq h]
  show (∃ out, typeUNPAIR (indexedInstruction "UNPAIR" e) (p :: S) = _) ↔ _
  rw [hUNPAIR]
  constructor
  · rintro ⟨out, hout⟩
    obtain ⟨types, htypes, -⟩ := Except.bind_eq_ok.mp hout
    exact ⟨types, htypes⟩
  · rintro ⟨types, htypes⟩
    exact ⟨_, by rw [htypes, Except.ok_bind]⟩

end

/-! ## The laws -/

section

variable {x p : StackType} {S : List StackType} {d e : Expr} {m n : ℕ}

/-- What is written is read on the stack that `UPDATE` leaves, with fewer annotations if it is the
whole pair. -/
theorem getNth_written {i i' : Instruction} {stack stack' : List StackType} {q : StackType}
    (hx : OwnAnnotations x) (h : updateNth i stack x m p n = .ok q) :
    ∃ t, getNth i' stack' n (q.withAnnots q.kept) n = .ok t ∧ OwnAnnotations t ∧
      t.withAnnots [] = x.withAnnots [] := by
  cases n with
  | zero =>
    cases h
    exact ⟨_, rfl, hx.withAnnots_kept, withAnnots_withAnnots x x.kept []⟩
  | succ n =>
    obtain ⟨c, a, b, rfl⟩ := updateNth_eq_withArgs h
    rw [getNth_withAnnots, getNth_updateNth h]
    exact ⟨x, rfl, hx, rfl⟩

/-- The stack that `UPDATE n` leaves. -/
theorem functionTypeTo_UPDATE_ok {q : StackType} (h : Accepts host ctx (x :: p :: S))
    (hn : natOf e = .ok n) (hpair : p.isPairType = true)
    (hq : updateNth (indexedInstruction "UPDATE" e) (x :: p :: S) x n p n = .ok q) (fuel : ℕ) :
    functionTypeTo host (fuel + 1) ctx (indexed "UPDATE" e) (x :: p :: S) =
      .ok (.stack (q.withAnnots q.kept :: S)) := by
  have hx := h.isAnnotated x List.mem_cons_self
  have hp := h.isAnnotated p (List.mem_cons_of_mem x List.mem_cons_self)
  rw [functionTypeTo_UPDATE hn hpair, hq, Except.ok_bind,
    push_eq rfl _ (updateNth_ownAnnotations hp hpair hx.own hq)]

/-- **`UPDATE n`, then `GET n`.** -/
theorem readsWritten (h : Accepts host ctx (x :: p :: S)) (hn : natOf e = .ok n)
    (hpair : p.isPairType = true) (hzero : n = 0 → x.isPairType = true) :
    ReadsWritten host ctx e x p S := by
  intro htypes
  obtain ⟨q, hq⟩ := (types_UPDATE_iff h hn hpair).mp htypes
  have hx := (h.isAnnotated x List.mem_cons_self).own
  have hupdated : (q.withAnnots q.kept).isPairType = true := by
    rw [isPairType_withAnnots]
    cases n with
    | zero =>
      cases hq
      exact hzero rfl
    | succ n => exact updateNth_isPairType hq
  obtain ⟨t, ht, hown, hsame⟩ := getNth_written hx hq
  refine ⟨t.withAnnots t.kept,
    functionType_two h (functionTypeTo_UPDATE_ok h hn hpair hq) fun fuel => ?_, ?_⟩
  · rw [functionTypeTo_GET hn hupdated, ht, Except.ok_bind, push_eq rfl _ hown]
  · rw [withAnnots_withAnnots, hsame]

/-- **`UPDATE n`, then `GET m` at another odd index.** -/
theorem getOther (h : Accepts host ctx (x :: p :: S)) {j k : ℕ} (hd : natOf d = .ok (2 * j + 1))
    (he : natOf e = .ok (2 * k + 1)) (hpair : p.isPairType = true) (hne : j ≠ k)
    (hupdate : Types host ctx (indexed "UPDATE" e) (x :: p :: S))
    (hget : Types host ctx (indexed "GET" d) (p :: S)) :
    functionType host ctx (.seq [indexed "UPDATE" e, indexed "GET" d]) (x :: p :: S) =
      functionType host ctx (indexed "GET" d) (p :: S) := by
  obtain ⟨q, hq⟩ := (types_UPDATE_iff h he hpair).mp hupdate
  obtain ⟨t, ht⟩ := (types_GET_iff h.tail hd hpair).mp hget
  have hp := h.isAnnotated p (List.mem_cons_of_mem x List.mem_cons_self)
  have hown := (getNth_isAnnotated hp hpair ht).own
  have hget : functionType host ctx (indexed "GET" d) (p :: S) =
      .ok (.stack (t.withAnnots t.kept :: S)) := by
    rw [functionType_eq h.tail, show size (indexed "GET" d) = _ + 1 from rfl,
      functionTypeTo_GET hd hpair, ht, Except.ok_bind, push_eq rfl _ hown]
  rw [hget]
  refine functionType_two h (functionTypeTo_UPDATE_ok h he hpair hq) fun fuel => ?_
  have hupdated : (q.withAnnots q.kept).isPairType = true := by
    rw [isPairType_withAnnots]
    exact updateNth_isPairType hq
  have hread : getNth (indexedInstruction "GET" d) (q.withAnnots q.kept :: S) (2 * j + 1)
      (q.withAnnots q.kept) (2 * j + 1) = .ok t := by
    obtain ⟨c, a, b, hqc⟩ := updateNth_eq_withArgs hq
    rw [hqc, getNth_withAnnots, ← hqc, getNth_updateNth_of_ne hne hq]
    exact getNth_ok ht
  rw [functionTypeTo_GET hd hupdated, hread, Except.ok_bind, push_eq rfl _ hown]

/-- **`PAIR n`, then `UNPAIR n`.** -/
theorem unpairPair {types : List StackType} (h : Accepts host ctx (types ++ S))
    (hn : natOf e = .ok types.length) (htwo : 2 ≤ types.length) :
    ∃ out, functionType host ctx (.seq [indexed "PAIR" e, indexed "UNPAIR" e]) (types ++ S) =
        .ok (.stack (out ++ S)) ∧
      out.map (·.withAnnots []) = types.map (·.withAnnots []) := by
  have hown : ∀ t ∈ types, OwnAnnotations t := fun t ht =>
    (h.isAnnotated t (List.mem_append_left S ht)).own
  have hpair := typePAIR_eq (i := indexedInstruction "PAIR" e) (S := S) hn rfl htwo hown
  obtain ⟨kept, hkept⟩ : ∃ kept, kept = types.map fun t => t.withAnnots t.kept := ⟨_, rfl⟩
  have hlen : kept.length = types.length := by rw [hkept, List.length_map]
  have hownKept : ∀ t ∈ kept, OwnAnnotations t := by
    intro t ht
    rw [hkept] at ht
    obtain ⟨u, hu, rfl⟩ := List.mem_map.mp ht
    exact (hown u hu).withAnnots_kept
  have hfields : getN (indexedInstruction "UNPAIR" e) (ofPrim "pair" kept :: S) types.length
      (ofPrim "pair" kept) types.length = .ok kept := by
    conv_lhs => rw [← hlen]
    exact getN_pair (hlen ▸ htwo)
  have hunpair : typeUNPAIR (indexedInstruction "UNPAIR" e) (ofPrim "pair" kept :: S) =
      .ok (.stack ((kept.map fun t => t.withAnnots t.kept) ++ S)) := by
    have hnone : OwnAnnotations (ofPrim "pair" kept) := fun _ hv => absurd hv List.not_mem_nil
    rw [typeUNPAIR_eq (i := indexedInstruction "UNPAIR" e) (n := types.length) hn rfl htwo rfl hnone,
      hfields, Except.ok_bind]
    intro fields hread t ht
    rw [hfields] at hread
    cases hread
    exact hownKept t ht
  rw [← hkept] at hpair
  refine ⟨kept.map fun t => t.withAnnots t.kept,
    functionType_two h (fun _ => hpair) fun _ => ?_, ?_⟩
  · exact hunpair
  · rw [hkept, List.map_map, List.map_map]
    exact List.map_congr_left fun t _ => by
      rw [Function.comp_apply, Function.comp_apply, withAnnots_withAnnots, withAnnots_withAnnots]

end

end

/-- What the instructions on combs do, for a host and a context. -/
structure LensLaws (host : Host) (ctx : Context) : Prop where
  /-- `GET n` after `UPDATE n` yields the type that was put there. -/
  get_update : ∀ (e : Expr) (n : ℕ) (x p : StackType) (S : List StackType),
    natOf e = .ok n → p.isPairType = true → Accepts host ctx (x :: p :: S) →
      (n = 0 → x.isPairType = true) → ReadsWritten host ctx e x p S
  /-- `GET m` after `UPDATE n` yields what it does without, for distinct odd indices. -/
  get_update_other : ∀ (d e : Expr) (m n : ℕ) (x p : StackType) (S : List StackType),
    natOf d = .ok m → natOf e = .ok n → Odd m → Odd n → m ≠ n → p.isPairType = true →
      Accepts host ctx (x :: p :: S) → Types host ctx (indexed "UPDATE" e) (x :: p :: S) →
        Types host ctx (indexed "GET" d) (p :: S) →
          functionType host ctx (.seq [indexed "UPDATE" e, indexed "GET" d]) (x :: p :: S) =
            functionType host ctx (indexed "GET" d) (p :: S)
  /-- `UNPAIR n` after `PAIR n` gives back as many types. -/
  unpair_pair : ∀ (e : Expr) (types S : List StackType), natOf e = .ok types.length →
    2 ≤ types.length → Accepts host ctx (types ++ S) →
      ∃ out, functionType host ctx (.seq [indexed "PAIR" e, indexed "UNPAIR" e]) (types ++ S) =
          .ok (.stack (out ++ S)) ∧ out.map (·.withAnnots []) = types.map (·.withAnnots [])
  /-- The indices and counts that are accepted are those of the comb. -/
  accepted : ∀ (e : Expr) (n : ℕ) (x p : StackType) (S : List StackType), natOf e = .ok n →
    p.isPairType = true → RightComb p → Accepts host ctx (x :: p :: S) →
      (Types host ctx (indexed "GET" e) (p :: S) ↔ n ≤ 2 * ((combTypes p).length - 1)) ∧
      (Types host ctx (indexed "UPDATE" e) (x :: p :: S) ↔ n ≤ 2 * ((combTypes p).length - 1)) ∧
      (2 ≤ n → (Types host ctx (indexed "UNPAIR" e) (p :: S) ↔ n ≤ (combTypes p).length))

/-- **The instructions on combs obey the laws of lenses**, in every context. -/
theorem combs_obey_lens_laws (host : Host) (ctx : Context) : LensLaws host ctx where
  get_update e n x p S hn hpair h hzero := readsWritten h hn hpair hzero
  get_update_other d e m n x p S hd he hm hn hne hpair h hupdate hget := by
    obtain ⟨j, rfl⟩ := hm
    obtain ⟨k, rfl⟩ := hn
    exact getOther h hd he hpair (fun hjk => hne (by rw [hjk])) hupdate hget
  unpair_pair e types S hn htwo h := unpairPair h hn htwo
  accepted e n x p S hn hpair hp h := by
    refine ⟨?_, ?_, fun htwo => ?_⟩
    · rw [types_GET_iff h.tail hn hpair, getNth_ok_iff hp hpair]
    · rw [types_UPDATE_iff h hn hpair, updateNth_ok_iff_getNth_ok (m := n),
        getNth_ok_iff hp hpair]
    · obtain ⟨k, rfl⟩ := Nat.exists_eq_add_of_le' htwo
      rw [types_UNPAIR_iff h.tail hn htwo hpair, getN_ok_iff hp hpair]

/-- `UPDATE 0` puts an integer in the place of a pair, where `GET 0` does not find it. -/
theorem not_readsWritten_zero :
    Accepts Host.plain {} [leaf "int", ofPrim "pair" [leaf "int", leaf "nat"]] ∧
      natOf (.int (js "0")) = .ok 0 ∧
      ¬ ReadsWritten Host.plain {} (.int (js "0")) (leaf "int")
        (ofPrim "pair" [leaf "int", leaf "nat"]) [] := by
  refine ⟨rfl, rfl, fun h => ?_⟩
  obtain ⟨y, hy, -⟩ := h ⟨_, rfl⟩
  cases hy

end Typechecker
