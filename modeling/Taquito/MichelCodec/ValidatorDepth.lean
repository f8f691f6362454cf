import Taquito.Lib.Reader
import Taquito.MichelCodec.Validator

/-!
# The bound of the validator

The checks recurse on a bound on the nesting of what they are given. The depth of an expression is
enough: with any bound that is no less they say the same (`assertData_of_depth`).
-/

open Js

namespace MichelCodec

section

variable {f g : Expr → Guard} {ex : Expr} {args : Option (List Expr)}

theorem oneArg_congr (h : ∀ a ∈ args.getD [], f a = g a) : oneArg ex args f = oneArg ex args g := by
  match args with
  | none | some [] | some (_ :: _ :: _) => rfl
  | some [a] => exact h a List.mem_cons_self

theorem twoArgs_congr {f g : Expr → Expr → Guard}
    (h : ∀ a ∈ args.getD [], ∀ b ∈ args.getD [], f a b = g a b) :
    twoArgs ex args f = twoArgs ex args g := by
  match args with
  | none | some [] | some [_] | some (_ :: _ :: _ :: _) => rfl
  | some [a, b] => exact h a List.mem_cons_self b (List.mem_cons_of_mem _ List.mem_cons_self)

theorem forEach_congr {es : List Expr} (h : ∀ e ∈ es, f e = g e) : forEach f es = forEach g es := by
  induction es with
  | nil => rfl
  | cons e es ih =>
    rw [forEach, forEach, h e List.mem_cons_self, ih fun x hx => h x (List.mem_cons_of_mem _ hx)]

theorem bind_eq_ok_unit {x y : Guard} : (do x; y) = .ok () ↔ x = .ok () ∧ y = .ok () := by
  constructor
  · intro h
    obtain ⟨⟨⟩, hx, hy⟩ := Except.bind_eq_ok.mp h
    exact ⟨hx, hy⟩
  · rintro ⟨hx, hy⟩
    rw [hx]
    exact hy

theorem forEach_eq_ok {es : List Expr} :
    forEach f es = .ok () ↔ ∀ e ∈ es, f e = .ok () := by
  induction es with
  | nil => exact iff_of_true rfl fun e he => absurd he List.not_mem_nil
  | cons e es ih => rw [forEach, bind_eq_ok_unit, ih, List.forall_mem_cons]

theorem traversePair_congr (h : ∀ a ∈ args.getD [], f a = g a) :
    traversePair f ex args = traversePair g ex args := by
  rw [traversePair, traversePair]
  congr 1
  apply forEach_congr
  intro a ha
  rw [h a ha]

end

/-! ## Types -/

theorem traverseType_congr {check check' : TypeCheck → Expr → Guard} {ex : Expr}
    (h : ∀ a ∈ ex.children, ∀ k, check k a = check' k a) (k : TypeCheck) :
    traverseType check k ex = traverseType check' k ex := by
  cases ex with
  | seq items => exact traversePair_congr fun a ha => h a ha k
  | prim p args annots =>
    have h : ∀ a ∈ args.getD [], ∀ k, check k a = check' k a := h
    unfold traverseType
    refine ite_congr rfl (fun _ => traversePair_congr fun a ha => h a ha k) fun _ => ?_
    refine ite_congr rfl (fun _ => oneArg_congr fun a ha => by rw [h a ha]) fun _ => ?_
    refine ite_congr rfl (fun _ => oneArg_congr fun a ha => by rw [h a ha]) fun _ => ?_
    refine ite_congr rfl (fun _ => twoArgs_congr fun a ha b hb => by rw [h a ha, h b hb]) fun _ => ?_
    refine ite_congr rfl (fun _ => twoArgs_congr fun a ha b hb => by rw [h a ha, h b hb]) fun _ => ?_
    refine ite_congr rfl (fun _ => oneArg_congr fun a ha => by rw [h a ha]) fun _ => ?_
    refine ite_congr rfl (fun _ => twoArgs_congr fun a ha b hb => by rw [h a ha, h b hb]) fun _ => ?_
    refine ite_congr rfl (fun _ => twoArgs_congr fun a ha b hb => by
      rw [h a ha, h b hb, h b hb]) fun _ => ?_
    exact ite_congr rfl (fun _ => oneArg_congr fun a ha => by rw [h a ha]) fun _ => rfl
  | _ => rfl

theorem assertTypeCheck_of_depth : ∀ {fuel fuel' : ℕ} {k : TypeCheck} {ex : Expr},
    ex.depth ≤ fuel → ex.depth ≤ fuel' → assertTypeCheck fuel k ex = assertTypeCheck fuel' k ex := by
  intro fuel
  induction fuel with
  | zero =>
    intro fuel' k ex h
    have := ex.depth_pos
    omega
  | succ fuel ih =>
    intro fuel' k ex h h'
    obtain ⟨fuel', rfl⟩ := Nat.exists_eq_add_of_le' (ex.depth_pos.trans_le h')
    have htraverse : traverseType (assertTypeCheck fuel) k ex =
        traverseType (assertTypeCheck fuel') k ex :=
      traverseType_congr (fun a ha k => by
        have := Expr.depth_lt_of_mem_children ha
        exact ih (by omega) (by omega)) k
    unfold assertTypeCheck
    rw [htraverse]

/-! ## Instructions, data and contracts -/

/-- Checks that say the same of an expression. -/
structure SameChecks (i i' d d' c c' : Expr → Guard) (t t' : TypeCheck → Expr → Guard) (e : Expr) :
    Prop where
  instruction : i e = i' e
  data : d e = d' e
  contract : c e = c' e
  type : ∀ k, t k e = t' k e

section

variable {i i' d d' c c' : Expr → Guard} {t t' : TypeCheck → Expr → Guard}

theorem instructionSequence_congr {ex : Expr} {items : List Expr} (h : ∀ e ∈ items, i e = i' e) :
    instructionSequence i ex items = instructionSequence i' ex items := by
  apply forEach_congr
  intro e he
  cases e with
  | seq items => exact h _ he
  | prim p args annots => exact h _ he
  | _ => rfl

theorem codeBlock_congr {ex : Expr} (h : ∀ e ∈ ex.children, i e = i' e) :
    codeBlock i ex = codeBlock i' ex := by
  cases ex with
  | seq items => exact instructionSequence_congr h
  | _ => rfl

/-- Checks that say the same of whatever stands in an expression. -/
def SameBelow (i i' d d' c c' : Expr → Guard) (t t' : TypeCheck → Expr → Guard) (k : ℕ) : Prop :=
  ∀ e : Expr, e.depth < k → SameChecks i i' d d' c c' t t' e

theorem SameBelow.codeBlock {k : ℕ} (h : SameBelow i i' d d' c c' t t' k) {e : Expr}
    (he : e.depth < k) : codeBlock i e = codeBlock i' e :=
  codeBlock_congr fun a ha =>
    (h a ((Expr.depth_lt_of_mem_children ha).trans he)).instruction

theorem instructionArgs_congr {ex : Expr} {p : String} {args : Option (List Expr)} {k : ℕ}
    (hall : SameBelow i i' d d' c c' t t' k) (hargs : ∀ a ∈ args.getD [], a.depth < k) :
    instructionArgs i d c t ex p args = instructionArgs i' d' c' t' ex p args := by
  have h (a : Expr) (ha : a ∈ args.getD []) := hall a (hargs a ha)
  have hblock (a : Expr) (ha : a ∈ args.getD []) := hall.codeBlock (hargs a ha)
  unfold instructionArgs
  refine ite_congr rfl (fun _ => rfl) fun _ => ite_congr rfl (fun _ => rfl) fun _ => ?_
  refine ite_congr rfl (fun _ => oneArg_congr fun a ha => (h a ha).type _) fun _ => ?_
  refine ite_congr rfl (fun _ => oneArg_congr fun a ha => (h a ha).type _) fun _ => ?_
  refine ite_congr rfl (fun _ => oneArg_congr fun a ha => (h a ha).type _) fun _ => ?_
  refine ite_congr rfl (fun _ => twoArgs_congr fun a ha b hb => by
    rw [hblock a ha, hblock b hb]) fun _ => ?_
  refine ite_congr rfl (fun _ => oneArg_congr fun a ha => (h a ha).instruction) fun _ => ?_
  refine ite_congr rfl (fun _ => oneArg_congr fun a ha => (h a ha).contract) fun _ => ?_
  refine ite_congr rfl (fun _ => ?_) fun _ => ?_
  · match args with
    | none | some [] | some (_ :: _ :: _ :: _) => rfl
    | some [body] => exact hblock body List.mem_cons_self
    | some [n, body] =>
      show (do assertNatural n; codeBlock i body) = (do assertNatural n; codeBlock i' body)
      rw [hblock body (List.mem_cons_of_mem _ List.mem_cons_self)]
  refine ite_congr rfl (fun _ => twoArgs_congr fun a ha b hb => by
    rw [(h a ha).type, (h b hb).data]) fun _ => ?_
  refine ite_congr rfl (fun _ => oneArg_congr fun a ha => (h a ha).type _) fun _ => ?_
  refine ite_congr rfl (fun _ => twoArgs_congr fun a ha b hb => by
    rw [(h a ha).type, (h b hb).type]) fun _ => ?_
  refine ite_congr rfl (fun _ => twoArgs_congr fun a ha b hb => by
    rw [(h a ha).type, (h b hb).type]) fun _ => ?_
  refine ite_congr rfl (fun _ => ?_) fun _ => ?_
  · match args with
    | none | some [] | some [_] | some [_, _] | some (_ :: _ :: _ :: _ :: _) => rfl
    | some [a, b, body] =>
      show (do t .type a; t .type b; codeBlock i body) = (do t' .type a; t' .type b; codeBlock i' body)
      rw [hblock body (by simp), (h a (by simp)).type, (h b (by simp)).type]
  refine ite_congr rfl (fun _ => twoArgs_congr fun a ha b hb => by
    rw [(h b hb).type, (h b hb).type]) fun _ => rfl

theorem instructionPrim_congr {ex : Expr} {p : String} {args : Option (List Expr)} {k : ℕ}
    (hall : SameBelow i i' d d' c c' t t' k) (hargs : ∀ a ∈ args.getD [], a.depth < k) :
    instructionPrim i d c t ex p args = instructionPrim i' d' c' t' ex p args := by
  rw [instructionPrim, instructionPrim, instructionArgs_congr hall hargs]

theorem dataEntry_congr {n : Expr} {k : ℕ} (hall : SameBelow i i' d d' c c' t t' k)
    (hn : n.depth < k) : dataEntry d n = dataEntry d' n := by
  have hdata := (hall n hn).data
  cases n with
  | prim p args annots =>
    have hargs (a : Expr) (ha : a ∈ args.getD []) := (hall a ((Expr.depth_lt_of_mem_children
      (e := .prim p args annots) ha).trans hn)).data
    exact ite_congr rfl (fun _ => twoArgs_congr fun a ha b hb => by rw [hargs a ha, hargs b hb])
      fun _ => hdata
  | _ => exact hdata

theorem dataPrim_congr {ex : Expr} {p : String} {args : Option (List Expr)} {k : ℕ}
    (hall : SameBelow i i' d d' c c' t t' k) (hargs : ∀ a ∈ args.getD [], a.depth < k) :
    dataPrim i d c t ex p args = dataPrim i' d' c' t' ex p args := by
  have h (a : Expr) (ha : a ∈ args.getD []) := hall a (hargs a ha)
  unfold dataPrim
  refine ite_congr rfl (fun _ => rfl) fun _ => ?_
  refine ite_congr rfl (fun _ => ite_congr rfl (fun _ => rfl) fun _ =>
    forEach_congr fun a ha => (h a ha).data) fun _ => ?_
  refine ite_congr rfl (fun _ => oneArg_congr fun a ha => (h a ha).data) fun _ => ?_
  refine ite_congr rfl (fun _ => ?_) fun _ => ?_
  · cases args with
    | none => rfl
    | some items => exact instructionSequence_congr fun a ha => (h a ha).instruction
  exact ite_congr rfl (fun _ => instructionPrim_congr hall hargs) fun _ => rfl

theorem contractSection_congr {ex sec : Expr} {views : List JSString} {p : String}
    {args : Option (List Expr)} {annots : Option (List JSString)} {k : ℕ}
    (hall : SameBelow i i' d d' c c' t t' k) (hargs : ∀ a ∈ args.getD [], a.depth < k) :
    contractSection i t ex sec views p args annots =
      contractSection i' t' ex sec views p args annots := by
  have h (a : Expr) (ha : a ∈ args.getD []) := hall a (hargs a ha)
  have hblock (a : Expr) (ha : a ∈ args.getD []) := hall.codeBlock (hargs a ha)
  have hcode : oneArg sec args (codeBlock i) = oneArg sec args (codeBlock i') := oneArg_congr hblock
  have htype (k : TypeCheck) : oneArg sec args (t k) = oneArg sec args (t' k) :=
    oneArg_congr fun a ha => (h a ha).type k
  unfold contractSection
  rw [hcode, htype, htype]
  refine ite_congr rfl (fun _ => rfl) fun _ => ite_congr rfl (fun _ => rfl) fun _ =>
    ite_congr rfl (fun _ => rfl) fun _ => ite_congr rfl (fun _ => ?_) fun _ => rfl
  split
  · next name param ret body =>
    rw [hblock body (by simp), (h param (by simp)).type, (h ret (by simp)).type]
  · rfl
  · rfl

theorem contractSections_congr {ex : Expr} {sections : List String} {views : List JSString}
    {secs : List Expr} {k : ℕ} (hall : SameBelow i i' d d' c c' t t' k)
    (hsecs : ∀ a ∈ secs, a.depth < k) :
    contractSections i t ex sections views secs = contractSections i' t' ex sections views secs := by
  induction secs generalizing sections views with
  | nil => rfl
  | cons sec secs ih =>
    have hrest (sections : List String) (views : List JSString) := @ih sections views
      fun a ha => hsecs a (List.mem_cons_of_mem _ ha)
    cases sec with
    | prim p args annots =>
      have hsec := hsecs _ List.mem_cons_self
      have hargs : ∀ a ∈ args.getD [], a.depth < k := fun a ha =>
        (Expr.depth_lt_of_mem_children (e := .prim p args annots) ha).trans hsec
      rw [contractSections, contractSections, contractSection_congr hall hargs]
      refine ite_congr rfl (fun _ => rfl) fun _ => ?_
      simp only [hrest]
    | _ => rfl

end

/-- A bound on the nesting that is no less than the depth is enough for each of the four checks. -/
theorem sameChecks_of_depth : ∀ {fuel fuel' : ℕ} {ex : Expr}, ex.depth ≤ fuel → ex.depth ≤ fuel' →
    SameChecks (assertInstruction fuel) (assertInstruction fuel') (assertData fuel)
      (assertData fuel') (assertContract fuel) (assertContract fuel') (assertTypeCheck fuel)
      (assertTypeCheck fuel') ex := by
  intro fuel
  induction fuel with
  | zero =>
    intro fuel' ex h
    have := ex.depth_pos
    omega
  | succ fuel ih =>
    intro fuel' ex h h'
    obtain ⟨fuel', rfl⟩ := Nat.exists_eq_add_of_le' (ex.depth_pos.trans_le h')
    have hall : SameBelow (assertInstruction fuel) (assertInstruction fuel') (assertData fuel)
        (assertData fuel') (assertContract fuel) (assertContract fuel') (assertTypeCheck fuel)
        (assertTypeCheck fuel') ex.depth := fun e he => ih (by omega) (by omega)
    have hbelow (a : Expr) (ha : a ∈ ex.children) := Expr.depth_lt_of_mem_children ha
    refine ⟨?_, ?_, ?_, fun k => assertTypeCheck_of_depth h h'⟩
    · cases ex with
      | seq items =>
        rw [assertInstruction, assertInstruction]
        exact instructionSequence_congr fun a ha => (hall a (hbelow a ha)).instruction
      | prim p args annots =>
        rw [assertInstruction, assertInstruction]
        exact instructionPrim_congr hall hbelow
      | _ => rfl
    · cases ex with
      | seq items =>
        have hentries : forEach (dataEntry (assertData fuel)) items =
            forEach (dataEntry (assertData fuel')) items :=
          forEach_congr fun a ha => dataEntry_congr hall (hbelow a ha)
        rw [assertData, assertData, hentries]
      | prim p args annots =>
        rw [assertData, assertData]
        exact dataPrim_congr hall hbelow
      | _ => rfl
    · cases ex with
      | seq items =>
        rw [assertContract, assertContract]
        exact contractSections_congr hall hbelow
      | _ => rfl

theorem assertData_of_depth {fuel : ℕ} {ex : Expr} (h : ex.depth ≤ fuel) :
    assertData fuel ex = assertMichelsonData ex :=
  (sameChecks_of_depth h le_rfl).data

theorem assertInstruction_of_depth {fuel : ℕ} {ex : Expr} (h : ex.depth ≤ fuel) :
    assertInstruction fuel ex = assertMichelsonInstruction ex :=
  (sameChecks_of_depth h le_rfl).instruction

end MichelCodec
