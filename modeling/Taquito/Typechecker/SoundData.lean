import Taquito.Typechecker.FrameRule
import Taquito.Typechecker.ValueTypes

/-!
# Data that the checker accepts denotes values

`assertDataValid` accepts data against a type: if values of the type can be pushed, the data denotes
one of them. The literals of a base type are those that the checker accepts. The proof follows the
cases of the checker; the code of a `lambda` in data is accepted by the typing of code, of which one
hypothesis speaks.
-/

open Js MichelCodec Michelson

namespace Typechecker

open StackType

/-- The literals of a base type: those that the checker accepts. -/
def Literal (host : Host) (p : String) (d : Expr) : Prop :=
  ∃ t, literalValid host t d p = some (.ok ())

/-! ## Types by their parts -/

theorem combParts_eq_ok {id : String} {e a b : Expr} (h : combParts id e = .ok (a, b)) :
    ∃ items, (e = .seq items ∨ ∃ p annots, e = .prim p (some items) annots) ∧
      (items = [a, b] ∨ ∃ rest, items = a :: rest ∧ rest.length ≠ 1 ∧
        b = .prim id (some rest) none) := by
  have hcases {items : List Expr} (annots : Option (List JSString))
      (h : combParts id (.prim id (some items) annots) = .ok (a, b)) :
      items = [a, b] ∨ ∃ rest, items = a :: rest ∧ rest.length ≠ 1 ∧
        b = .prim id (some rest) none := by
    match items with
    | [] => cases h
    | [x] =>
      cases h
      exact .inr ⟨[], rfl, by decide, rfl⟩
    | [x, y] =>
      cases h
      exact .inl rfl
    | x :: y :: z :: rest =>
      cases h
      exact .inr ⟨y :: z :: rest, rfl, by simp, rfl⟩
  cases e with
  | seq items =>
    refine ⟨items, .inl rfl, hcases none ?_⟩
    match items with
    | [] => exact h
    | [x] => exact h
    | [x, y] => exact h
    | x :: y :: z :: rest => exact h
  | prim p args annots =>
    cases args with
    | none => cases h
    | some items =>
      refine ⟨items, .inr ⟨p, annots, rfl⟩, hcases annots ?_⟩
      match items with
      | [] => exact h
      | [x] => exact h
      | [x, y] => exact h
      | x :: y :: z :: rest => exact h
  | _ => cases h

theorem tysOf_cons {e : Expr} {es : List Expr} {Ts : List Ty} (h : tysOf (e :: es) = some Ts) :
    ∃ T Us, tyOf e = some T ∧ tysOf es = some Us ∧ Ts = T :: Us := by
  rw [tysOf] at h
  cases hT : tyOf e with
  | none =>
    rw [hT] at h
    cases h
  | some T =>
    cases hUs : tysOf es with
    | none =>
      rw [hT, hUs] at h
      cases h
    | some Us =>
      rw [hT, hUs] at h
      cases h
      exact ⟨T, Us, rfl, rfl, rfl⟩

/-- The components of a pair type denote the components of the type. -/
theorem tyOf_combParts {t a b : Expr} {T : Ty} (hT : tyOf t = some T)
    (ht : ∀ p args annots, t = .prim p args annots → p = "pair")
    (h : combParts "pair" t = .ok (a, b)) :
    ∃ A B, T = .pair A B ∧ tyOf a = some A ∧ tyOf b = some B := by
  obtain ⟨items, he, hitems⟩ := combParts_eq_ok h
  have hcomb : (do combTy (← tysOf items)) = some T := by
    obtain rfl | ⟨p, annots, rfl⟩ := he
    · rwa [tyOf] at hT
    · cases ht p _ _ rfl
      exact hT
  obtain ⟨Ts, hTs, hcomb⟩ := Option.bind_eq_some_iff.mp hcomb
  obtain rfl | ⟨rest, rfl, hone, rfl⟩ := hitems
  · obtain ⟨A, Us, hA, hUs, rfl⟩ := tysOf_cons hTs
    obtain ⟨B, Vs, hB, hVs, rfl⟩ := tysOf_cons hUs
    cases hVs
    cases hcomb
    exact ⟨A, B, rfl, hA, hB⟩
  · obtain ⟨A, Us, hA, hUs, rfl⟩ := tysOf_cons hTs
    cases rest with
    | nil =>
      cases hUs
      cases hcomb
    | cons x rest =>
      cases rest with
      | nil => exact absurd rfl hone
      | cons y rest =>
        obtain ⟨X, Vs, hX, hVs, rfl⟩ := tysOf_cons hUs
        obtain ⟨Y, Ws, hY, hWs, rfl⟩ := tysOf_cons hVs
        obtain ⟨B, hB, hT⟩ := Option.bind_eq_some_iff.mp hcomb
        cases hT
        refine ⟨A, B, rfl, hA, ?_⟩
        show (do typeOfArgs "pair" (← tysOf (x :: y :: rest))) = some B
        rw [hUs]
        exact hB

theorem exprArg_cons {args : Option (List Expr)} {k : ℕ} {e : Expr} (h : exprArg args k = .ok e) :
    (args.getD [])[k]? = some e := by
  unfold exprArg at h
  split at h
  · cases h
    assumption
  · cases h

theorem tyOf_unary_cases {p : String} {u : Unary} (hu : Unary.ofName p = some u)
    {args : Option (List Expr)} {annots : Option (List JSString)} {T : Ty}
    (hT : tyOf (.prim p args annots) = some T) :
    ∃ e A, exprArg args 0 = .ok e ∧ T = .unary u A ∧ tyOf e = some A := by
  have hatom : isAtom p = false := (kind_excludes.2.1 u hu).2
  have hbinary : Michelson.Binary.ofName p = none := (kind_excludes.2.1 u hu).1
  cases args with
  | none =>
    rw [tyOf, if_neg (by rw [hatom]; exact Bool.false_ne_true)] at hT
    cases hT
  | some args =>
    rw [tyOf, if_neg (by rw [hatom]; exact Bool.false_ne_true)] at hT
    obtain ⟨Ts, hTs, hT⟩ := Option.bind_eq_some_iff.mp hT
    unfold typeOfArgs at hT
    rw [if_neg (unary_mem hu).1] at hT
    simp only [hu, hbinary] at hT
    cases args with
    | nil =>
      cases hTs
      cases hT
    | cons e es =>
      obtain ⟨A, Us, hA, -, rfl⟩ := tysOf_cons hTs
      cases hT
      exact ⟨e, A, rfl, rfl, hA⟩

theorem tyOf_binary_cases {p : String} {u : Michelson.Binary}
    (hu : Michelson.Binary.ofName p = some u) {args : Option (List Expr)}
    {annots : Option (List JSString)} {T : Ty} (hT : tyOf (.prim p args annots) = some T) :
    ∃ e e' A B, exprArg args 0 = .ok e ∧ exprArg args 1 = .ok e' ∧ T = .binary u A B ∧
      tyOf e = some A ∧ tyOf e' = some B := by
  have hatom : isAtom p = false := kind_excludes.2.2 u hu
  have hpair : p ≠ "pair" := by
    rintro rfl
    cases hu
  have hunary : Unary.ofName p = none := by
    cases hv : Unary.ofName p with
    | none => rfl
    | some v =>
      rw [(kind_excludes.2.1 v hv).1] at hu
      cases hu
  cases args with
  | none =>
    rw [tyOf, if_neg (by rw [hatom]; exact Bool.false_ne_true)] at hT
    cases hT
  | some args =>
    rw [tyOf, if_neg (by rw [hatom]; exact Bool.false_ne_true)] at hT
    obtain ⟨Ts, hTs, hT⟩ := Option.bind_eq_some_iff.mp hT
    unfold typeOfArgs at hT
    rw [if_neg hpair] at hT
    simp only [hunary, hu] at hT
    cases args with
    | nil =>
      cases hTs
      cases hT
    | cons e es =>
      obtain ⟨A, Us, hA, hUs, rfl⟩ := tysOf_cons hTs
      cases es with
      | nil =>
        cases hUs
        cases hT
      | cons e' es =>
        obtain ⟨B, Vs, hB, -, rfl⟩ := tysOf_cons hUs
        cases hT
        exact ⟨e, e', A, B, rfl, rfl, rfl, hA, hB⟩

theorem isAtom_of_literalValid {host : Host} {t d : Expr} {p : String} {x : Checked Unit}
    (h : literalValid host t d p = some x) : isAtom p = true := by
  unfold literalValid at h
  split at h
  all_goals first | decide | cases h

/-! ## Values by the cases of the checker -/

theorem mapM_eq_some {α β : Type} {f : α → Option β} {P : β → Prop} {l : List α}
    (h : ∀ a ∈ l, ∃ b, f a = some b ∧ P b) : ∃ bs, l.mapM f = some bs ∧ ∀ b ∈ bs, P b := by
  induction l with
  | nil => exact ⟨[], rfl, fun b hb => absurd hb List.not_mem_nil⟩
  | cons a l ih =>
    obtain ⟨⟨b, hb, hP⟩, h⟩ := List.forall_mem_cons.mp h
    obtain ⟨bs, hbs, hPs⟩ := ih h
    refine ⟨b :: bs, ?_, List.forall_mem_cons.mpr ⟨hP, hPs⟩⟩
    rw [List.mapM_cons, hb, hbs]
    rfl

theorem forEachData_mem {check : Expr → Checked Unit} {items : List Expr}
    (h : forEachData check items = .ok ()) : ∀ d ∈ items, check d = .ok () := by
  induction items with
  | nil => exact fun d hd => absurd hd List.not_mem_nil
  | cons d items ih =>
    obtain ⟨_, hd, h⟩ := Except.bind_eq_ok.mp h
    exact List.forall_mem_cons.mpr ⟨hd, ih h⟩

theorem pairData_of_combParts {d a b : Expr} (h : combParts "Pair" d = .ok (a, b)) :
    pairData d = some (a, b) := by
  unfold combParts at h
  unfold pairData
  cases hcomb : MichelCodec.unpackComb "Pair" d with
  | error e =>
    rw [hcomb] at h
    cases h
  | ok comb =>
    rw [hcomb] at h
    obtain ⟨_, hlift, h⟩ := Except.bind_eq_ok.mp h
    cases hlift
    split at h
    · cases h
      obtain ⟨parts, annots⟩ := comb
      have hparts : parts = [some a, some b] := by assumption
      rw [hparts]
    · cases h

theorem exists_seq_of_isFunction {d : Expr} (h : isFunction d = true) : ∃ items, d = .seq items := by
  unfold isFunction at h
  cases hdepth : d.depth with
  | zero =>
    rw [hdepth] at h
    cases h
  | succ n =>
    rw [hdepth] at h
    cases d with
    | seq items => exact ⟨items, rfl⟩
    | _ => cases h

section

variable {host : Host} {typed : Expr → Ty → Ty → Prop}
  {functionType : List StackType → Expr → Checked ReturnType} {valid : Expr → Expr → Checked Unit}
  {d t : Expr} {T : Ty}

/-- The data denotes a value of the type. -/
def Denotes (host : Host) (typed : Expr → Ty → Ty → Prop) (T : Ty) (d : Expr) : Prop :=
  ∃ v, readValue T d = some v ∧ HasType (Literal host) typed v T

theorem literal_denotes {p : String} (h : literalValid host t d p = some (.ok ())) :
    Denotes host typed (.atom p) d := by
  by_cases hp : p = "bool"
  · subst hp
    cases d with
    | prim p args annots =>
      have hname : p = "True" ∨ p = "False" := by
        by_contra hno
        have h : some (if p = "True" ∨ p = "False" then .ok ()
          else unexpected t (.prim p args annots) "boolean value expected") = some (.ok ()) := h
        rw [if_neg hno] at h
        cases h
      obtain rfl | rfl := hname
      · exact ⟨.bool true, rfl, .bool true⟩
      · exact ⟨.bool false, rfl, .bool false⟩
    | _ => cases h
  · refine ⟨.atom p d, ?_, .atom hp ⟨t, h⟩⟩
    rw [readValue, if_neg hp]

variable
  (hvalid : ∀ {d t T}, valid d t = .ok () → tyOf t = some T → T.isPushable = true →
    Denotes host typed T d)

include hvalid

theorem pairValid_denotes (h : pairValid valid d t = .ok ()) (hT : tyOf t = some T)
    (ht : ∀ p args annots, t = .prim p args annots → p = "pair") (hpush : T.isPushable = true) :
    Denotes host typed T d := by
  unfold pairValid at h
  split at h
  · obtain ⟨_, -, h⟩ := Except.bind_eq_ok.mp h
    obtain ⟨⟨d₁, d₂⟩, hdc, h⟩ := Except.bind_eq_ok.mp h
    obtain ⟨⟨t₁, t₂⟩, htc, h⟩ := Except.bind_eq_ok.mp h
    obtain ⟨_, h₁, h₂⟩ := Except.bind_eq_ok.mp h
    obtain ⟨A, B, rfl, hA, hB⟩ := tyOf_combParts hT ht htc
    rw [Ty.isPushable, Bool.and_eq_true] at hpush
    obtain ⟨v, hv, hvA⟩ := hvalid h₁ hA hpush.1
    obtain ⟨w, hw, hwB⟩ := hvalid h₂ hB hpush.2
    refine ⟨.pair v w, ?_, .pair hvA hwB⟩
    rw [readValue, pairData_of_combParts hdc, Option.bind_eq_bind, Option.bind_some, hv, hw]
    rfl
  · cases h

/-- Every item is accepted against the type of the elements. -/
theorem items_denote {args : Option (List Expr)} {items : List Expr} {e : Expr} {A : Ty}
    (he : exprArg args 0 = .ok e) (hA : tyOf e = some A) (hpush : A.isPushable = true)
    (h : forEachData (fun v => do valid v (← exprArg args 0)) items = .ok ()) :
    ∃ vs, items.mapM (readValue A) = some vs ∧ ∀ v ∈ vs, HasType (Literal host) typed v A := by
  refine mapM_eq_some fun d hd => ?_
  have hd := forEachData_mem h d hd
  rw [he, Except.ok_bind] at hd
  exact hvalid hd hA hpush

/-- Every entry is accepted against the types of the keys and of the values. -/
theorem entries_denote {args : Option (List Expr)} {items : List Expr} {e e' : Expr} {A B : Ty}
    (he : exprArg args 0 = .ok e) (he' : exprArg args 1 = .ok e') (hA : tyOf e = some A)
    (hB : tyOf e' = some B) (hpush : A.isPushable = true) (hpush' : B.isPushable = true)
    (h : forEachData (eltValid valid t d args) items = .ok ()) :
    ∃ entries, (items.mapM fun e => do
        let parts ← eltData e
        return (← readValue A parts.1, ← readValue B parts.2)) = some entries ∧
      ∀ e ∈ entries, HasType (Literal host) typed e.1 A ∧ HasType (Literal host) typed e.2 B := by
  refine mapM_eq_some fun v hv => ?_
  have hv := forEachData_mem h v hv
  unfold eltValid at hv
  split at hv
  · rename_i vargs annots _
    obtain ⟨k, hk, hv⟩ := Except.bind_eq_ok.mp hv
    rw [he, Except.ok_bind] at hv
    obtain ⟨_, hkey, hv⟩ := Except.bind_eq_ok.mp hv
    obtain ⟨x, hx, hv⟩ := Except.bind_eq_ok.mp hv
    rw [he', Except.ok_bind] at hv
    obtain ⟨key, hkey, hkeyA⟩ := hvalid hkey hA hpush
    obtain ⟨value, hvalue, hvalueB⟩ := hvalid hv hB hpush'
    have helt : eltData (.prim "Elt" vargs annots) = some (k, x) := by
      have hk := exprArg_cons hk
      have hx := exprArg_cons hx
      match vargs with
      | none => cases hk
      | some [] => cases hk
      | some [_] => cases hx
      | some (k' :: x' :: rest) =>
        cases hk
        cases hx
        rfl
    refine ⟨(key, value), ?_, hkeyA, hvalueB⟩
    rw [helt, Option.bind_eq_bind, Option.bind_some, hkey, hvalue]
    rfl
  · cases hv

omit hvalid in
theorem constructed_of_exprArg {p : String} {args : Option (List Expr)}
    {annots : Option (List JSString)} {x : Expr} (h : exprArg args 0 = .ok x) :
    constructed (.prim p args annots) = some (p, some x) := by
  rw [constructed, List.head?_eq_getElem?, exprArg_cons h]

theorem option_denotes {args : Option (List Expr)} {annots : Option (List JSString)}
    (hT : tyOf (.prim "option" args annots) = some T) (hpush : T.isPushable = true)
    (h : structureValid functionType valid d t "option" args = .ok ()) : Denotes host typed T d := by
  obtain ⟨e, A, he, rfl, hA⟩ := tyOf_unary_cases (u := .option) rfl hT
  unfold structureValid at h
  rw [if_pos rfl] at h
  split at h
  · exact ⟨.nothing, rfl, .nothing⟩
  · obtain ⟨x, hx, h⟩ := Except.bind_eq_ok.mp h
    rw [he, Except.ok_bind] at h
    obtain ⟨v, hv, hvA⟩ := hvalid h hA hpush
    refine ⟨.just v, ?_, .just hvA⟩
    rw [readValue, constructed_of_exprArg hx]
    simp only [hv, Option.bind_eq_bind, Option.bind_some]
    rfl
  · cases h

theorem or_denotes {args : Option (List Expr)} {annots : Option (List JSString)}
    (hT : tyOf (.prim "or" args annots) = some T) (hpush : T.isPushable = true)
    (h : structureValid functionType valid d t "or" args = .ok ()) : Denotes host typed T d := by
  obtain ⟨e, e', A, B, he, he', rfl, hA, hB⟩ := tyOf_binary_cases (u := .or) rfl hT
  have hpush : A.isPushable = true ∧ B.isPushable = true := by simpa [Ty.isPushable] using hpush
  unfold structureValid at h
  rw [if_neg (by decide), if_neg (by decide), if_pos rfl] at h
  split at h
  · obtain ⟨x, hx, h⟩ := Except.bind_eq_ok.mp h
    rw [he, Except.ok_bind] at h
    obtain ⟨v, hv, hvA⟩ := hvalid h hA hpush.1
    refine ⟨.left v, ?_, .left hvA⟩
    rw [readValue, constructed_of_exprArg hx]
    simp only [hv, Option.bind_eq_bind, Option.bind_some]
    rfl
  · obtain ⟨x, hx, h⟩ := Except.bind_eq_ok.mp h
    rw [he', Except.ok_bind] at h
    obtain ⟨v, hv, hvB⟩ := hvalid h hB hpush.2
    refine ⟨.right v, ?_, .right hvB⟩
    rw [readValue, constructed_of_exprArg hx]
    simp only [hv, Option.bind_eq_bind, Option.bind_some]
    rfl
  · cases h

theorem sequence_denotes {p : String} (hp : p = "list" ∨ p = "set") {args : Option (List Expr)}
    {annots : Option (List JSString)} (hT : tyOf (.prim p args annots) = some T)
    (hpush : T.isPushable = true)
    (h : structureValid functionType valid d t p args = .ok ()) : Denotes host typed T d := by
  unfold structureValid at h
  rw [if_neg (by obtain rfl | rfl := hp <;> decide), if_pos hp] at h
  split at h
  · obtain ⟨_, -, h⟩ := Except.bind_eq_ok.mp h
    obtain rfl | rfl := hp
    · obtain ⟨e, A, he, rfl, hA⟩ := tyOf_unary_cases (u := .list) rfl hT
      obtain ⟨vs, hvs, hvsA⟩ := items_denote hvalid he hA hpush h
      refine ⟨.list vs, ?_, .list hvsA⟩
      rw [readValue, itemsOf, Option.bind_eq_bind, Option.bind_some, hvs]
      rfl
    · obtain ⟨e, A, he, rfl, hA⟩ := tyOf_unary_cases (u := .set) rfl hT
      obtain ⟨vs, hvs, hvsA⟩ := items_denote hvalid he hA hpush h
      refine ⟨.set vs, ?_, .set hvsA⟩
      rw [readValue, itemsOf, Option.bind_eq_bind, Option.bind_some, hvs]
      rfl
  · cases h

theorem map_denotes {args : Option (List Expr)} {annots : Option (List JSString)}
    (hT : tyOf (.prim "map" args annots) = some T) (hpush : T.isPushable = true)
    (h : structureValid functionType valid d t "map" args = .ok ()) : Denotes host typed T d := by
  obtain ⟨e, e', A, B, he, he', rfl, hA, hB⟩ := tyOf_binary_cases (u := .map) rfl hT
  have hpush : A.isPushable = true ∧ B.isPushable = true := by simpa [Ty.isPushable] using hpush
  unfold structureValid at h
  rw [if_neg (by decide), if_neg (by decide), if_neg (by decide), if_neg (by decide),
    if_pos (.inl rfl)] at h
  split at h
  · obtain ⟨entries, hentries, htypes⟩ := entries_denote hvalid he he' hA hB hpush.1 hpush.2 h
    refine ⟨.map entries, ?_, .map (.inl rfl) (fun e he => (htypes e he).1) fun e he => (htypes e he).2⟩
    rw [readValue, itemsOf, Option.bind_eq_bind, Option.bind_some, hentries]
    rfl
  · cases h

variable
  (hcode : ∀ {code s t A B}, functionType [s] code = .ok (.stack [t]) → Means s A → Means t B →
    typed code A B)

include hcode

omit hvalid in
theorem lambda_denotes {args : Option (List Expr)} {A B : Ty} {e e' : Expr}
    (he : exprArg args 0 = .ok e) (he' : exprArg args 1 = .ok e') (hA : tyOf e = some A)
    (hB : tyOf e' = some B) (h : lambdaValid functionType d t args = .ok ()) :
    Denotes host typed (.binary .lambda A B) d := by
  unfold lambdaValid at h
  split at h
  · rename_i hfun
    rw [he, Except.ok_bind] at h
    obtain ⟨out, hout, h⟩ := Except.bind_eq_ok.mp h
    split at h
    · cases h
    · rename_i ret
      rw [he', Except.ok_bind] at h
      have hret := (means_of_scalarTypesEqual h B).mp (means_of_tyOf hB)
      refine ⟨.lambda d, ?_, .lambda (hcode hout (means_of_tyOf hA) hret)⟩
      obtain ⟨items, rfl⟩ := exists_seq_of_isFunction hfun
      rfl
    · cases h
  · cases h

theorem structureValid_denotes {p : String} {args : Option (List Expr)}
    {annots : Option (List JSString)} (hT : tyOf (.prim p args annots) = some T)
    (hpush : T.isPushable = true)
    (h : structureValid functionType valid d t p args = .ok ()) : Denotes host typed T d := by
  by_cases hoption : p = "option"
  · exact option_denotes hvalid (hoption ▸ hT) hpush (hoption ▸ h)
  by_cases hlist : p = "list" ∨ p = "set"
  · exact sequence_denotes hvalid hlist hT hpush h
  by_cases hor : p = "or"
  · exact or_denotes hvalid (hor ▸ hT) hpush (hor ▸ h)
  by_cases hmap : p = "map"
  · exact map_denotes hvalid (hmap ▸ hT) hpush (hmap ▸ h)
  by_cases hlambda : p = "lambda"
  · subst hlambda
    obtain ⟨e, e', A, B, he, he', rfl, hA, hB⟩ := tyOf_binary_cases (u := .lambda) rfl hT
    exact lambda_denotes hcode he he' hA hB h
  by_cases hbig : p = "big_map"
  · subst hbig
    obtain ⟨e, e', A, B, he, he', rfl, hA, hB⟩ := tyOf_binary_cases (u := .bigMap) rfl hT
    cases hpush
  by_cases hticket : p = "ticket"
  · subst hticket
    obtain ⟨e, A, he, rfl, hA⟩ := tyOf_unary_cases (u := .ticket) rfl hT
    cases hpush
  unfold structureValid at h
  rw [if_neg hoption, if_neg hlist, if_neg hor, if_neg hlambda, if_neg (not_or.mpr ⟨hmap, hbig⟩),
    if_neg hticket] at h
  cases h

theorem dataValid_denotes (h : dataValid host functionType valid d t = .ok ())
    (hT : tyOf t = some T) (hpush : T.isPushable = true) : Denotes host typed T d := by
  cases t with
  | seq items => exact pairValid_denotes hvalid h hT (fun _ _ _ h => by cases h) hpush
  | prim p args annots =>
    unfold dataValid at h
    dsimp only at h
    split at h
    · exact pairValid_denotes hvalid h hT (fun _ _ _ h => by cases h; assumption) hpush
    · split at h
      · rename_i hliteral
        have hatom := isAtom_of_literalValid hliteral
        cases (means_atom_iff (t := ofExpr (.prim p args annots)) (by cases args <;> rfl) hatom).mp
          (means_of_tyOf hT)
        exact literal_denotes (h ▸ hliteral)
      · exact structureValid_denotes hvalid hcode hT hpush h
  | _ => cases h

end

/-- **Data that is accepted denotes a value of its type.** -/
theorem dataWhere_denotes {meets : Condition} {host : Host} {typed : Expr → Ty → Ty → Prop}
    (htyped : ∀ {fuel ctx code s t A B}, typeWhere meets host fuel ctx code [s] = .ok (.stack [t]) →
      Means s A → Means t B → typed code A B)
    {fuel : ℕ} {ctx : Context} {d t : Expr} {T : Ty} (h : dataWhere meets host fuel ctx d t = .ok ())
    (hT : tyOf t = some T) (hpush : T.isPushable = true) : Denotes host typed T d := by
  induction fuel generalizing d t T with
  | zero => cases h
  | succ fuel ih => exact dataValid_denotes ih htyped h hT hpush

end Typechecker
