import Taquito.Lib.Reader
import Taquito.MichelCodec.ValidatorDepth

/-!
# The checks of a type and the forms of its pairs

A pair of more than two components is written as pairs in pairs, as one `pair` of them all or as an
array. The checks look at the components of a `pair`, whatever their number, but, except for that of
comparable types, take any array as it is. What a check asks of a type is `Admits`, with the forms
of pairs that it looks into as parameters: the check itself looks into primitives only
(`passes_iff_admits`). It says the same of all forms of a type exactly when looking into every pair
or into none makes no difference (`assert_sameForms_iff`).
-/

open Js

namespace MichelCodec

/-! ## Forms -/

/-- One type in two forms: pairs anywhere in it are written differently. -/
inductive SameForms : Expr → Expr → Prop where
  | refl (t : Expr) : SameForms t t
  | symm {t u : Expr} : SameForms t u → SameForms u t
  | trans {t u v : Expr} : SameForms t u → SameForms u v → SameForms t v
  /-- `pair a b c` and `pair a (pair b c)`. -/
  | nest (a : Expr) {rest : List Expr} (annots : Option (List JSString)) (long : 2 ≤ rest.length) :
    SameForms (.prim "pair" (some (a :: rest)) annots)
      (.prim "pair" (some [a, .prim "pair" (some rest) none]) annots)
  /-- `pair a b c` and `[a, b, c]`. -/
  | array {items : List Expr} (annots : Option (List JSString)) (long : 2 ≤ items.length) :
    SameForms (.prim "pair" (some items) annots) (.seq items)
  /-- A type inside an array. -/
  | inSeq (before after : List Expr) {t u : Expr} : SameForms t u →
    SameForms (.seq (before ++ t :: after)) (.seq (before ++ u :: after))
  /-- A type inside a primitive. -/
  | inPrim (p : String) (before after : List Expr) (annots : Option (List JSString)) {t u : Expr} :
    SameForms t u → SameForms (.prim p (some (before ++ t :: after)) annots)
      (.prim p (some (before ++ u :: after)) annots)

/-! ## What a check asks -/

/-- The checks of the arguments of a type, if there are as many as it takes. -/
def demand (n count : ℕ) (checks : List (TypeCheck × ℕ)) : Option (List (TypeCheck × ℕ)) :=
  if n = count then some checks else none

/-- The checks that are made of the `n` arguments of a type other than a pair, by their places. -/
def typeArguments (k : TypeCheck) (p : String) (n : ℕ) : Option (List (TypeCheck × ℕ)) :=
  if p = "option" ∨ p = "list" then demand n 1 [(k, 0)]
  else if p = "contract" then demand n 1 [(.passable, 0)]
  else if p = "or" then demand n 2 [(k, 0), (k, 1)]
  else if p = "lambda" then demand n 2 [(.type, 0), (.type, 1)]
  else if p = "set" then demand n 1 [(.comparable, 0)]
  else if p = "map" then demand n 2 [(.comparable, 0), (k, 1)]
  else if p = "big_map" then demand n 2 [(.comparable, 0), (.bigMapStorable, 1), (k, 1)]
  else if p = "ticket" then demand n 1 [(.comparable, 0)]
  else if p = "sapling_state" ∨ p = "sapling_transaction" then demand n 1 []
  else demand n 0 []

/-- The checks that a check makes of the `n` arguments of a primitive; `none` where it refuses. -/
def argumentChecks (pairs : Bool) (k : TypeCheck) (p : String) (n : ℕ) :
    Option (List (TypeCheck × ℕ)) :=
  if p = "pair" then
    if n < 2 then none
    else if k = .comparable ∨ pairs = true then some ((List.range n).map (k, ·))
    else some []
  else if k = .comparable then
    if p = "or" ∨ p = "option" then typeArguments k p n
    else if simpleComparableTypeIDs.contains p then some []
    else none
  else if !typeIDs.contains p || k.refused.contains p then none
  else typeArguments k p n

/-- The types whose argument is a number. -/
def takesNumber (p : String) : Prop := p = "sapling_state" ∨ p = "sapling_transaction"

/-- What a check asks of a type, where it looks into `pair`s or not, and into arrays or not. -/
inductive Admits (pairs arrays : Bool) : TypeCheck → Expr → Prop where
  | closed {k : TypeCheck} {items : List Expr} (notComparable : k ≠ .comparable)
      (passed : arrays = false ∨ items.length < 2) : Admits pairs arrays k (.seq items)
  | array {k : TypeCheck} {items : List Expr} (looks : k = .comparable ∨ arrays = true)
      (long : 2 ≤ items.length) (members : ∀ a ∈ items, Admits pairs arrays k a) :
      Admits pairs arrays k (.seq items)
  | prim {k : TypeCheck} {p : String} {args : Option (List Expr)} {annots : Option (List JSString)}
      {checks : List (TypeCheck × ℕ)}
      (asked : argumentChecks pairs k p (args.getD []).length = some checks)
      (number : takesNumber p → ∃ text, (args.getD [])[0]? = some (.int text))
      (arguments : ∀ c ∈ checks, ∀ a, (args.getD [])[c.2]? = some a → Admits pairs arrays c.1 a) :
      Admits pairs arrays k (.prim p args annots)

/-- A check accepts a type. -/
def Passes (k : TypeCheck) (t : Expr) : Prop := k.assert t = .ok ()

theorem assert_eq (k : TypeCheck) (t : Expr) : k.assert t = assertTypeCheck t.depth k t := by
  cases k <;> rfl

/-! ## The guards -/

section

variable {ex : Expr} {args : Option (List Expr)} {check check' : Expr → Guard}

theorem oneArg_eq_ok : oneArg ex args check = .ok () ↔ ∃ a, args = some [a] ∧ check a = .ok () := by
  constructor
  · intro h
    match args, h with
    | some [a], h => exact ⟨a, rfl, h⟩
  · rintro ⟨a, rfl, h⟩
    exact h

theorem twoArgs_eq_ok {check : Expr → Expr → Guard} :
    twoArgs ex args check = .ok () ↔ ∃ a b, args = some [a, b] ∧ check a b = .ok () := by
  constructor
  · intro h
    match args, h with
    | some [a, b], h => exact ⟨a, b, rfl, h⟩
  · rintro ⟨a, b, rfl, h⟩
    exact h

theorem assertArgs_zero_eq_ok : assertArgs ex args 0 = .ok () ↔ (args.getD []).length = 0 := by
  cases args with
  | none => exact iff_of_true rfl rfl
  | some args => simp [assertArgs, invalid]

theorem assertIntLiteral_eq_ok {a : Expr} :
    assertIntLiteral a = .ok () ↔ ∃ text, a = .int text := by
  cases a with
  | int text => exact iff_of_true rfl ⟨text, rfl⟩
  | _ => exact iff_of_false (by rintro ⟨⟩) (by rintro ⟨_, ⟨⟩⟩)

end

/-! ## One step of a check -/

section

variable {check : TypeCheck → Expr → Guard}

/-- The checks of arguments succeed. -/
def AllChecked (check : TypeCheck → Expr → Guard) (args : List Expr)
    (checks : List (TypeCheck × ℕ)) : Prop :=
  ∀ c ∈ checks, ∀ a, args[c.2]? = some a → check c.1 a = .ok ()

theorem allChecked_one {args : Option (List Expr)} {k : TypeCheck} :
    (∃ a, args = some [a] ∧ check k a = .ok ()) ↔
      ∃ checks, demand (args.getD []).length 1 [(k, 0)] = some checks ∧
        AllChecked check (args.getD []) checks := by
  constructor
  · rintro ⟨a, rfl, h⟩
    exact ⟨_, rfl, by simpa [AllChecked] using h⟩
  · rintro ⟨checks, hdemand, h⟩
    match args, hdemand with
    | some [a], hdemand =>
      cases hdemand
      exact ⟨a, rfl, h (k, 0) List.mem_cons_self a rfl⟩

theorem allChecked_two {args : Option (List Expr)} {checks : List (TypeCheck × ℕ)}
    {P : Expr → Expr → Prop} (hP : ∀ a b, P a b ↔ AllChecked check [a, b] checks) :
    (∃ a b, args = some [a, b] ∧ P a b) ↔
      ∃ checks', demand (args.getD []).length 2 checks = some checks' ∧
        AllChecked check (args.getD []) checks' := by
  constructor
  · rintro ⟨a, b, rfl, h⟩
    exact ⟨_, rfl, (hP a b).mp h⟩
  · rintro ⟨checks', hdemand, h⟩
    match args, hdemand with
    | some [a, b], hdemand =>
      cases hdemand
      exact ⟨a, b, rfl, (hP a b).mpr h⟩

theorem allChecked_pair {a b : Expr} {k k' : TypeCheck} :
    AllChecked check [a, b] [(k, 0), (k', 1)] ↔ check k a = .ok () ∧ check k' b = .ok () := by
  simp [AllChecked]

/-- What a check accepts is a primitive or a sequence. -/
def NeedsNode (check : TypeCheck → Expr → Guard) : Prop :=
  ∀ k a, check k a = .ok () → assertPrimOrSeq a = .ok ()

theorem NeedsNode.and_iff (hnode : NeedsNode check) {k : TypeCheck} {a : Expr} :
    assertPrimOrSeq a = .ok () ∧ check k a = .ok () ↔ check k a = .ok () :=
  and_iff_right_of_imp (hnode k a)

theorem traversePair_eq_ok (hnode : NeedsNode check) {k : TypeCheck} {ex : Expr}
    {args : Option (List Expr)} : traversePair (check k) ex args = .ok () ↔
      2 ≤ (args.getD []).length ∧ ∀ a ∈ args.getD [], check k a = .ok () := by
  rw [traversePair]
  by_cases hlen : (args.getD []).length < 2
  · rw [if_pos hlen]
    exact iff_of_false (by rintro ⟨⟩) fun h => absurd h.1 (Nat.not_le_of_lt hlen)
  · rw [if_neg hlen, forEach_eq_ok, and_iff_right (Nat.le_of_not_lt hlen)]
    simp only [bind_eq_ok_unit, hnode.and_iff]

/-- The traversal of a type other than a pair. -/
theorem traverseType_eq_ok (hnode : NeedsNode check) {k : TypeCheck} {p : String}
    {args : Option (List Expr)} {annots : Option (List JSString)} (hpair : p ≠ "pair") :
    traverseType check k (.prim p args annots) = .ok () ↔
      (takesNumber p → ∃ text, (args.getD [])[0]? = some (.int text)) ∧
        ∃ checks, typeArguments k p (args.getD []).length = some checks ∧
          AllChecked check (args.getD []) checks := by
  have hother (h : ¬ takesNumber p) (P : Prop) :
      P ↔ (takesNumber p → ∃ text, (args.getD [])[0]? = some (.int text)) ∧ P :=
    (and_iff_right fun h' => absurd h' h).symm
  rw [traverseType, typeArguments, if_neg hpair]
  by_cases hcontent : p = "option" ∨ p = "list"
  · rw [if_pos hcontent, if_pos hcontent, ← allChecked_one, oneArg_eq_ok,
      ← hother (by rcases hcontent with rfl | rfl <;> simp [takesNumber])]
    simp only [bind_eq_ok_unit, hnode.and_iff]
  rw [if_neg hcontent, if_neg hcontent]
  by_cases hcontract : p = "contract"
  · rw [if_pos hcontract, if_pos hcontract, ← allChecked_one, oneArg_eq_ok,
      ← hother (by simp [takesNumber, hcontract])]
  rw [if_neg hcontract, if_neg hcontract]
  by_cases hor : p = "or"
  · rw [if_pos hor, if_pos hor, twoArgs_eq_ok, ← hother (by simp [takesNumber, hor])]
    refine allChecked_two fun a b => ?_
    simp only [bind_eq_ok_unit, allChecked_pair]
    have ha := @hnode k a
    have hb := @hnode k b
    tauto
  rw [if_neg hor, if_neg hor]
  by_cases hlambda : p = "lambda"
  · rw [if_pos hlambda, if_pos hlambda, twoArgs_eq_ok, ← hother (by simp [takesNumber, hlambda])]
    refine allChecked_two fun a b => ?_
    rw [bind_eq_ok_unit, allChecked_pair]
  rw [if_neg hlambda, if_neg hlambda]
  by_cases hset : p = "set"
  · rw [if_pos hset, if_pos hset, ← allChecked_one, oneArg_eq_ok,
      ← hother (by simp [takesNumber, hset])]
  rw [if_neg hset, if_neg hset]
  by_cases hmap : p = "map"
  · rw [if_pos hmap, if_pos hmap, twoArgs_eq_ok, ← hother (by simp [takesNumber, hmap])]
    refine allChecked_two fun a b => ?_
    simp only [bind_eq_ok_unit, allChecked_pair]
    have ha := @hnode .comparable a
    have hb := @hnode k b
    tauto
  rw [if_neg hmap, if_neg hmap]
  by_cases hbigMap : p = "big_map"
  · rw [if_pos hbigMap, if_pos hbigMap, twoArgs_eq_ok, ← hother (by simp [takesNumber, hbigMap])]
    refine allChecked_two fun a b => ?_
    have hthree : AllChecked check [a, b] [(.comparable, 0), (.bigMapStorable, 1), (k, 1)] ↔
        check .comparable a = .ok () ∧ check .bigMapStorable b = .ok () ∧ check k b = .ok () := by
      simp [AllChecked]
    simp only [bind_eq_ok_unit, hthree]
    have ha := @hnode .comparable a
    have hb := @hnode k b
    tauto
  rw [if_neg hbigMap, if_neg hbigMap]
  by_cases hticket : p = "ticket"
  · rw [if_pos hticket, if_pos hticket, ← allChecked_one, oneArg_eq_ok,
      ← hother (by simp [takesNumber, hticket])]
    simp only [bind_eq_ok_unit, hnode.and_iff]
  rw [if_neg hticket, if_neg hticket]
  by_cases hsapling : p = "sapling_state" ∨ p = "sapling_transaction"
  · rw [if_pos hsapling, if_pos hsapling, oneArg_eq_ok]
    constructor
    · rintro ⟨a, rfl, ha⟩
      obtain ⟨text, rfl⟩ := assertIntLiteral_eq_ok.mp ha
      exact ⟨fun _ => ⟨text, rfl⟩, _, rfl, fun c hc => absurd hc List.not_mem_nil⟩
    · rintro ⟨hnumber, checks, hdemand, -⟩
      obtain ⟨text, htext⟩ := hnumber hsapling
      match args, hdemand, htext with
      | some [a], hdemand, htext =>
        cases htext
        exact ⟨_, rfl, rfl⟩
  · rw [if_neg hsapling, if_neg hsapling, assertArgs_zero_eq_ok, ← hother hsapling]
    simp [demand, AllChecked]

end

theorem needsNode_assertTypeCheck (fuel : ℕ) : NeedsNode (assertTypeCheck fuel) := by
  intro k a h
  cases fuel with
  | zero => cases h
  | succ fuel =>
    obtain ⟨⟨⟩, hnode, -⟩ := Except.bind_eq_ok.mp h
    exact hnode

/-- One step of a check, of a primitive. -/
theorem assertTypeCheck_prim {fuel : ℕ} {k : TypeCheck} {p : String} {args : Option (List Expr)}
    {annots : Option (List JSString)} :
    assertTypeCheck (fuel + 1) k (.prim p args annots) = .ok () ↔
      (takesNumber p → ∃ text, (args.getD [])[0]? = some (.int text)) ∧
        ∃ checks, argumentChecks true k p (args.getD []).length = some checks ∧
          AllChecked (assertTypeCheck fuel) (args.getD []) checks := by
  have hnode := needsNode_assertTypeCheck fuel
  have hstep : assertTypeCheck (fuel + 1) k (.prim p args annots) =
      if k = .comparable then
        if p = "pair" ∨ p = "or" ∨ p = "option" then
          traverseType (assertTypeCheck fuel) k (.prim p args annots)
        else if simpleComparableTypeIDs.contains p then .ok ()
        else invalid (.prim p args annots) (k.message p)
      else if !typeIDs.contains p || k.refused.contains p then
        invalid (.prim p args annots) (k.message p)
      else traverseType (assertTypeCheck fuel) k (.prim p args annots) := rfl
  rw [hstep, argumentChecks]
  by_cases hpair : p = "pair"
  · have htraverse : (if k = .comparable then
        if p = "pair" ∨ p = "or" ∨ p = "option" then
          traverseType (assertTypeCheck fuel) k (.prim p args annots)
        else if simpleComparableTypeIDs.contains p then .ok ()
        else invalid (.prim p args annots) (k.message p)
      else if !typeIDs.contains p || k.refused.contains p then
        invalid (.prim p args annots) (k.message p)
      else traverseType (assertTypeCheck fuel) k (.prim p args annots)) =
        traversePair (assertTypeCheck fuel k) (.prim p args annots) args := by
      subst hpair
      cases k <;> rfl
    rw [htraverse, traversePair_eq_ok hnode, if_pos hpair]
    have hnumber : ¬ takesNumber p := by simp [takesNumber, hpair]
    by_cases hlen : (args.getD []).length < 2
    · rw [if_pos hlen]
      refine iff_of_false (fun h => absurd h.1 (Nat.not_le_of_lt hlen)) ?_
      rintro ⟨-, checks, ⟨⟩, -⟩
    · rw [if_neg hlen, if_pos (.inr rfl), and_iff_right (Nat.le_of_not_lt hlen),
        and_iff_right fun h => absurd h hnumber]
      constructor
      · intro h
        refine ⟨_, rfl, fun c hc a ha => ?_⟩
        obtain ⟨i, -, rfl⟩ := List.mem_map.mp hc
        exact h a (List.mem_of_getElem? ha)
      · rintro ⟨checks, hchecks, h⟩ a ha
        cases hchecks
        obtain ⟨i, hi⟩ := List.mem_iff_getElem?.mp ha
        have hlt : i < (args.getD []).length := (List.getElem?_eq_some_iff.mp hi).1
        exact h (k, i) (List.mem_map.mpr ⟨i, List.mem_range.mpr hlt, rfl⟩) a hi
  rw [if_neg hpair]
  by_cases hk : k = .comparable
  · rw [if_pos hk, if_pos hk]
    by_cases hp : p = "or" ∨ p = "option"
    · rw [if_pos (.inr hp), if_pos hp, traverseType_eq_ok hnode hpair]
    · rw [if_neg (by tauto), if_neg hp]
      by_cases hsimple : simpleComparableTypeIDs.contains p = true
      · rw [if_pos hsimple, if_pos hsimple]
        refine iff_of_true rfl ⟨?_, _, rfl, fun c hc => absurd hc List.not_mem_nil⟩
        rintro (rfl | rfl) <;> exact absurd hsimple (by decide)
      · rw [if_neg hsimple, if_neg hsimple]
        exact iff_of_false (by rintro ⟨⟩) (by rintro ⟨-, _, ⟨⟩, -⟩)
  rw [if_neg hk, if_neg hk]
  by_cases hrefused : (!typeIDs.contains p || k.refused.contains p) = true
  · rw [if_pos hrefused, if_pos hrefused]
    exact iff_of_false (by rintro ⟨⟩) (by rintro ⟨-, _, ⟨⟩, -⟩)
  · rw [if_neg hrefused, if_neg hrefused, traverseType_eq_ok hnode hpair]

/-- One step of a check, of an array. -/
theorem assertTypeCheck_seq {fuel : ℕ} {k : TypeCheck} {items : List Expr} :
    assertTypeCheck (fuel + 1) k (.seq items) = .ok () ↔ k ≠ .comparable ∨
      2 ≤ items.length ∧ ∀ a ∈ items, assertTypeCheck fuel k a = .ok () := by
  have hstep : assertTypeCheck (fuel + 1) k (.seq items) =
      if k = .comparable then
        traversePair (assertTypeCheck fuel k) (.seq items) (some items) else .ok () := rfl
  rw [hstep]
  by_cases hk : k = .comparable
  · rw [if_pos hk, traversePair_eq_ok (needsNode_assertTypeCheck fuel)]
    simp [hk]
  · rw [if_neg hk]
    exact iff_of_true rfl (.inl hk)

/-! ## What the checks admit -/

section

variable {pairs arrays : Bool} {k : TypeCheck}

theorem admits_prim_iff {p : String} {args : Option (List Expr)} {annots : Option (List JSString)} :
    Admits pairs arrays k (.prim p args annots) ↔
      (takesNumber p → ∃ text, (args.getD [])[0]? = some (.int text)) ∧
        ∃ checks, argumentChecks pairs k p (args.getD []).length = some checks ∧
          ∀ c ∈ checks, ∀ a, (args.getD [])[c.2]? = some a → Admits pairs arrays c.1 a := by
  constructor
  · intro h
    cases h with
    | prim asked number arguments => exact ⟨number, _, asked, arguments⟩
  · rintro ⟨number, checks, asked, arguments⟩
    exact .prim asked number arguments

theorem admits_seq_iff {items : List Expr} :
    Admits pairs arrays k (.seq items) ↔
      (k ≠ .comparable ∧ (arrays = false ∨ items.length < 2)) ∨
        (k = .comparable ∨ arrays = true) ∧ 2 ≤ items.length ∧
          ∀ a ∈ items, Admits pairs arrays k a := by
  constructor
  · intro h
    cases h with
    | closed notComparable passed => exact .inl ⟨notComparable, passed⟩
    | array looks long members => exact .inr ⟨looks, long, members⟩
  · rintro (⟨notComparable, passed⟩ | ⟨looks, long, members⟩)
    · exact .closed notComparable passed
    · exact .array looks long members

theorem admits_literal {e : Expr} (h : assertPrimOrSeq e ≠ .ok ()) :
    ¬ Admits pairs arrays k e := by
  intro h'
  cases h' with
  | _ => exact h rfl

end

/-- **A check accepts what it asks for**: it looks into primitives, and not into arrays. -/
theorem passes_iff_admits (k : TypeCheck) (t : Expr) : Passes k t ↔ Admits true false k t := by
  have hfuel : ∀ (fuel : ℕ) (k : TypeCheck) (t : Expr), t.depth ≤ fuel →
      (assertTypeCheck fuel k t = .ok () ↔ Admits true false k t) := by
    intro fuel
    induction fuel with
    | zero =>
      intro k t ht
      have := t.depth_pos
      omega
    | succ fuel ih =>
      intro k t ht
      cases t with
      | seq items =>
        have hbelow (a : Expr) (ha : a ∈ items) : a.depth ≤ fuel := by
          have := Expr.depth_lt_of_mem_children (e := .seq items) ha
          omega
        rw [assertTypeCheck_seq, admits_seq_iff]
        by_cases hk : k = .comparable
        · subst hk
          simp only [ne_eq, not_true_eq_false, false_or, false_and, true_or, true_and]
          exact and_congr_right fun _ => forall₂_congr fun a ha => ih _ a (hbelow a ha)
        · exact iff_of_true (.inl hk) (.inl ⟨hk, .inl rfl⟩)
      | prim p args annots =>
        have hbelow (a : Expr) (ha : a ∈ args.getD []) : a.depth ≤ fuel := by
          have := Expr.depth_lt_of_mem_children (e := .prim p args annots) ha
          omega
        rw [assertTypeCheck_prim, admits_prim_iff]
        refine and_congr_right fun _ => exists_congr fun checks => and_congr_right fun _ => ?_
        exact forall₂_congr fun c _ => forall₂_congr fun a ha =>
          ih c.1 a (hbelow a (List.mem_of_getElem? ha))
      | _ => exact iff_of_false (by rintro ⟨⟩) (by rintro ⟨⟩)
  rw [Passes, assert_eq]
  exact hfuel t.depth k t (Nat.le_refl _)

/-! ## Looking into less -/

theorem argumentChecks_mono {pairs pairs' : Bool} (hpairs : pairs' = true → pairs = true)
    {k : TypeCheck} {p : String} {n : ℕ} {checks : List (TypeCheck × ℕ)}
    (h : argumentChecks pairs k p n = some checks) :
    ∃ checks', argumentChecks pairs' k p n = some checks' ∧ ∀ c ∈ checks', c ∈ checks := by
  rw [argumentChecks] at h ⊢
  by_cases hp : p = "pair"
  · rw [if_pos hp] at h ⊢
    by_cases hn : n < 2
    · rw [if_pos hn] at h
      cases h
    · rw [if_neg hn] at h ⊢
      by_cases hlooks : k = .comparable ∨ pairs' = true
      · rw [if_pos (hlooks.imp_right hpairs)] at h
        rw [if_pos hlooks]
        exact ⟨checks, h, fun c hc => hc⟩
      · rw [if_neg hlooks]
        exact ⟨[], rfl, fun c hc => absurd hc List.not_mem_nil⟩
  · rw [if_neg hp] at h ⊢
    exact ⟨checks, h, fun c hc => hc⟩

/-- A check that looks into less asks for less. -/
theorem Admits.mono {pairs arrays pairs' arrays' : Bool} (hpairs : pairs' = true → pairs = true)
    (harrays : arrays' = true → arrays = true) {k : TypeCheck} {t : Expr}
    (h : Admits pairs arrays k t) : Admits pairs' arrays' k t := by
  induction h with
  | closed notComparable passed =>
    refine .closed notComparable (passed.imp_left fun hno => ?_)
    rw [← Bool.not_eq_true] at hno ⊢
    exact mt harrays hno
  | @array k items looks long _ ih =>
    by_cases hlooks : k = .comparable ∨ arrays' = true
    · exact .array hlooks long ih
    · rw [not_or, Bool.not_eq_true] at hlooks
      exact .closed hlooks.1 (.inl hlooks.2)
  | prim asked number _ ih =>
    obtain ⟨checks', hasked, hsub⟩ := argumentChecks_mono hpairs asked
    exact .prim hasked number fun c hc => ih c (hsub c hc)

/-! ## All forms are admitted alike -/

theorem SameForms.seq {ts us : List Expr} (h : List.Forall₂ SameForms ts us) :
    SameForms (.seq ts) (.seq us) := by
  have hprefix (before : List Expr) : SameForms (.seq (before ++ ts)) (.seq (before ++ us)) := by
    induction h generalizing before with
    | nil => exact .refl _
    | @cons t u ts us htu _ ih =>
      refine (SameForms.inSeq before ts htu).trans ?_
      have hrest := ih (before ++ [u])
      rw [List.append_assoc, List.append_assoc] at hrest
      exact hrest
  exact hprefix []

theorem SameForms.prim {ts us : List Expr} (h : List.Forall₂ SameForms ts us) (p : String)
    (annots : Option (List JSString)) :
    SameForms (.prim p (some ts) annots) (.prim p (some us) annots) := by
  have hprefix (before : List Expr) : SameForms (.prim p (some (before ++ ts)) annots)
      (.prim p (some (before ++ us)) annots) := by
    induction h generalizing before with
    | nil => exact .refl _
    | @cons t u ts us htu _ ih =>
      refine (SameForms.inPrim p before ts annots htu).trans ?_
      have hrest := ih (before ++ [u])
      rw [List.append_assoc, List.append_assoc] at hrest
      exact hrest
  exact hprefix []

/-- A number has one form. -/
theorem SameForms.int_iff {t u : Expr} (h : SameForms t u) (text : JSString) :
    t = .int text ↔ u = .int text := by
  induction h with
  | refl => exact Iff.rfl
  | symm _ ih => exact ih.symm
  | trans _ _ ih ih' => exact ih.trans ih'
  | nest | array | inSeq | inPrim => exact iff_of_false (by rintro ⟨⟩) (by rintro ⟨⟩)

section

variable {looks : Bool} {k : TypeCheck}

/-- What is asked of a pair. -/
theorem admits_pair_iff {args : Option (List Expr)} {annots : Option (List JSString)} :
    Admits looks looks k (.prim "pair" args annots) ↔ 2 ≤ (args.getD []).length ∧
      (k = .comparable ∨ looks = true → ∀ a ∈ args.getD [], Admits looks looks k a) := by
  have hnumber : ¬ takesNumber "pair" := by
    rintro (h | h) <;> exact absurd h (by decide)
  rw [admits_prim_iff, and_iff_right fun h => absurd h hnumber, argumentChecks, if_pos rfl]
  by_cases hlen : (args.getD []).length < 2
  · rw [if_pos hlen]
    refine iff_of_false ?_ fun h => absurd h.1 (Nat.not_le_of_lt hlen)
    rintro ⟨checks, ⟨⟩, -⟩
  rw [if_neg hlen, and_iff_right (Nat.le_of_not_lt hlen)]
  by_cases hlooks : k = .comparable ∨ looks = true
  · rw [if_pos hlooks]
    constructor
    · rintro ⟨checks, hchecks, h⟩ - a ha
      cases hchecks
      obtain ⟨i, hi⟩ := List.mem_iff_getElem?.mp ha
      have hlt : i < (args.getD []).length := (List.getElem?_eq_some_iff.mp hi).1
      exact h (k, i) (List.mem_map.mpr ⟨i, List.mem_range.mpr hlt, rfl⟩) a hi
    · intro h
      refine ⟨_, rfl, fun c hc a ha => ?_⟩
      obtain ⟨i, -, rfl⟩ := List.mem_map.mp hc
      exact h hlooks a (List.mem_of_getElem? ha)
  · rw [if_neg hlooks]
    exact iff_of_true ⟨[], rfl, fun c hc => absurd hc List.not_mem_nil⟩ fun h => absurd h hlooks

/-- What is asked of an array of two or more. -/
theorem admits_array_iff {items : List Expr} (long : 2 ≤ items.length) :
    Admits looks looks k (.seq items) ↔
      (k = .comparable ∨ looks = true → ∀ a ∈ items, Admits looks looks k a) := by
  rw [admits_seq_iff]
  constructor
  · rintro (⟨hk, hno⟩ | ⟨-, -, h⟩) hlooks
    · rw [hlooks.resolve_left hk] at hno
      exact absurd long (Nat.not_le_of_lt (hno.resolve_left Bool.noConfusion))
    · exact h
  · intro h
    by_cases hlooks : k = .comparable ∨ looks = true
    · exact .inr ⟨hlooks, long, h hlooks⟩
    · rw [not_or, Bool.not_eq_true] at hlooks
      exact .inl ⟨hlooks.1, .inl hlooks.2⟩

end

/-- An argument in another form, and the others as they were. -/
theorem getElem?_hole {before after : List Expr} {t a : Expr} (u : Expr) {i : ℕ}
    (h : (before ++ t :: after)[i]? = some a) :
    (a = t ∧ (before ++ u :: after)[i]? = some u) ∨ (before ++ u :: after)[i]? = some a := by
  rw [List.getElem?_append] at h ⊢
  by_cases hi : i < before.length
  · rw [if_pos hi] at h ⊢
    exact .inr h
  · rw [if_neg hi] at h ⊢
    cases hj : i - before.length with
    | zero =>
      rw [hj, List.getElem?_cons_zero, Option.some.injEq] at h
      exact .inl ⟨h.symm, rfl⟩
    | succ j =>
      rw [hj, List.getElem?_cons_succ] at h
      exact .inr h

theorem Admits.hole {pairs arrays : Bool} {k : TypeCheck} {p : String} {before after : List Expr}
    {annots : Option (List JSString)} {t u : Expr} (hforms : SameForms t u)
    (htu : ∀ k, Admits pairs arrays k t → Admits pairs arrays k u)
    (h : Admits pairs arrays k (.prim p (some (before ++ t :: after)) annots)) :
    Admits pairs arrays k (.prim p (some (before ++ u :: after)) annots) := by
  obtain ⟨number, checks, asked, arguments⟩ := admits_prim_iff.mp h
  have hlen : (before ++ t :: after).length = (before ++ u :: after).length := by
    rw [List.length_append, List.length_append, List.length_cons, List.length_cons]
  refine admits_prim_iff.mpr ⟨fun hp => ?_, checks, ?_, fun c hc a ha => ?_⟩
  · obtain ⟨text, htext⟩ := number hp
    refine ⟨text, ?_⟩
    obtain ⟨hint, hat⟩ | hat := getElem?_hole u htext
    · rw [(hforms.int_iff text).mp hint.symm] at hat ⊢
      exact hat
    · exact hat
  · rw [Option.getD_some, ← hlen]
    exact asked
  · obtain ⟨rfl, hat⟩ | hat := getElem?_hole t ha
    · exact htu c.1 (arguments c hc t hat)
    · exact arguments c hc a hat

/-- A check that looks into all pairs, or into none, asks the same of all forms. -/
theorem SameForms.admits_iff {looks : Bool} {t u : Expr} (h : SameForms t u) (k : TypeCheck) :
    Admits looks looks k t ↔ Admits looks looks k u := by
  induction h generalizing k with
  | refl => exact Iff.rfl
  | symm _ ih => exact (ih k).symm
  | trans _ _ ih ih' => exact (ih k).trans (ih' k)
  | nest a annots long =>
    rw [admits_pair_iff, admits_pair_iff]
    simp only [Option.getD_some, List.length_cons, List.length_nil, List.forall_mem_cons,
      admits_pair_iff]
    by_cases hlooks : k = .comparable ∨ looks = true
    · simp only [hlooks, true_implies]
      constructor
      · rintro ⟨-, ha, hrest⟩
        exact ⟨by omega, ha, ⟨long, hrest⟩, fun x hx => absurd hx List.not_mem_nil⟩
      · rintro ⟨-, ha, ⟨-, hrest⟩, -⟩
        exact ⟨by omega, ha, hrest⟩
    · exact iff_of_true ⟨by omega, fun h => absurd h hlooks⟩ ⟨by omega, fun h => absurd h hlooks⟩
  | array annots long =>
    rw [admits_pair_iff, admits_array_iff long, Option.getD_some, and_iff_right long]
  | @inSeq before after t u _ ih =>
    have hlen : (before ++ t :: after).length = (before ++ u :: after).length := by
      rw [List.length_append, List.length_append, List.length_cons, List.length_cons]
    rw [admits_seq_iff, admits_seq_iff, hlen]
    simp only [List.mem_append, List.mem_cons, or_imp, forall_and, forall_eq, ih]
  | inPrim p before after annots h ih =>
    exact ⟨.hole h fun k => (ih k).mp, .hole h.symm fun k => (ih k).mpr⟩

/-! ## Forms with one kind of pair -/

/-- No array of two or more. -/
def NotArray : Expr → Prop
  | .seq items => items.length < 2
  | _ => True

/-- No `pair` of two or more. -/
def NotPair : Expr → Prop
  | .prim p args _ => p = "pair" → (args.getD []).length < 2
  | _ => True

theorem exists_forall₂ {P : Expr → Prop} {es : List Expr}
    (h : ∀ e ∈ es, ∃ u, SameForms e u ∧ P u) :
    ∃ us, List.Forall₂ SameForms es us ∧ ∀ u ∈ us, P u := by
  induction es with
  | nil => exact ⟨[], .nil, fun u hu => absurd hu List.not_mem_nil⟩
  | cons e es ih =>
    obtain ⟨u, hu, hP⟩ := h e List.mem_cons_self
    obtain ⟨us, hus, hPs⟩ := ih fun x hx => h x (List.mem_cons_of_mem _ hx)
    exact ⟨u :: us, .cons hu hus, List.forall_mem_cons.mpr ⟨hP, hPs⟩⟩

/-- Every type has a form without arrays. -/
theorem exists_pairs (t : Expr) : ∃ u, SameForms t u ∧ u.Everywhere NotArray := by
  induction t with
  | int text => exact ⟨_, .refl _, .node trivial fun a ha => absurd ha List.not_mem_nil⟩
  | string text => exact ⟨_, .refl _, .node trivial fun a ha => absurd ha List.not_mem_nil⟩
  | bytes hex => exact ⟨_, .refl _, .node trivial fun a ha => absurd ha List.not_mem_nil⟩
  | seq items ih =>
    obtain ⟨us, hus, hall⟩ := exists_forall₂ ih
    by_cases hlen : us.length < 2
    · exact ⟨_, .seq hus, .node hlen hall⟩
    · exact ⟨_, (SameForms.seq hus).trans (.symm (.array none (Nat.le_of_not_lt hlen))),
        .node trivial hall⟩
  | prim p args annots ih =>
    cases args with
    | none => exact ⟨_, .refl _, .node trivial fun a ha => absurd ha List.not_mem_nil⟩
    | some args =>
      obtain ⟨us, hus, hall⟩ := exists_forall₂ ih
      exact ⟨_, .prim hus p annots, .node trivial hall⟩

/-- Every type has a form whose pairs are arrays. -/
theorem exists_arrays (t : Expr) : ∃ u, SameForms t u ∧ u.Everywhere NotPair := by
  induction t with
  | int text => exact ⟨_, .refl _, .node trivial fun a ha => absurd ha List.not_mem_nil⟩
  | string text => exact ⟨_, .refl _, .node trivial fun a ha => absurd ha List.not_mem_nil⟩
  | bytes hex => exact ⟨_, .refl _, .node trivial fun a ha => absurd ha List.not_mem_nil⟩
  | seq items ih =>
    obtain ⟨us, hus, hall⟩ := exists_forall₂ ih
    exact ⟨_, .seq hus, .node trivial hall⟩
  | prim p args annots ih =>
    cases args with
    | none =>
      refine ⟨_, .refl _, .node (fun _ => ?_) fun a ha => absurd ha List.not_mem_nil⟩
      exact Nat.zero_lt_two
    | some args =>
      obtain ⟨us, hus, hall⟩ := exists_forall₂ ih
      by_cases hpair : p = "pair" ∧ ¬ us.length < 2
      · obtain ⟨rfl, hlen⟩ := hpair
        exact ⟨_, (SameForms.prim hus "pair" annots).trans (.array annots (Nat.le_of_not_lt hlen)),
          .node trivial hall⟩
      · exact ⟨_, .prim hus p annots, .node (fun hp => not_not.mp fun h => hpair ⟨hp, h⟩) hall⟩

/-- Without arrays a check looks into all pairs. -/
theorem Admits.of_notArray {k : TypeCheck} {t : Expr} (h : Admits true false k t)
    (ht : t.Everywhere NotArray) : Admits true true k t := by
  induction h with
  | closed notComparable _ =>
    exact .closed notComparable (.inr (Expr.everywhere_iff.mp ht).1)
  | array _ long _ => exact absurd long (Nat.not_le_of_lt (Expr.everywhere_iff.mp ht).1)
  | prim asked number _ ih =>
    refine .prim asked number fun c hc a ha => ih c hc a ha ?_
    exact (Expr.everywhere_iff.mp ht).2 a (List.mem_of_getElem? ha)

/-- Where all pairs are arrays a check looks into none. -/
theorem Admits.of_notPair {k : TypeCheck} {t : Expr} (h : Admits false false k t)
    (ht : t.Everywhere NotPair) : Admits true false k t := by
  induction h with
  | closed notComparable passed => exact .closed notComparable passed
  | array looks long _ ih =>
    exact .array looks long fun a ha => ih a ha ((Expr.everywhere_iff.mp ht).2 a ha)
  | @prim k p args annots checks asked number _ ih =>
    obtain ⟨hhere, hbelow⟩ := Expr.everywhere_iff.mp ht
    refine .prim ?_ number fun c hc a ha => ih c hc a ha (hbelow a (List.mem_of_getElem? ha))
    rw [argumentChecks] at asked ⊢
    by_cases hp : p = "pair"
    · rw [if_pos hp, if_pos (hhere hp)] at asked
      cases asked
    · rw [if_neg hp] at asked ⊢
      exact asked

/-- **A check says the same of all forms of a type exactly when it would admit what stands in its
pairs too, or refuses what stands outside them.** -/
theorem assert_sameForms_iff (k : TypeCheck) (t : Expr) :
    (∀ u, SameForms t u → (k.assert u = .ok () ↔ k.assert t = .ok ())) ↔
      Admits true true k t ∨ ¬ Admits false false k t := by
  have hpasses (u : Expr) : k.assert u = .ok () ↔ Admits true false k u := passes_iff_admits k u
  simp only [hpasses]
  constructor
  · intro h
    by_cases houter : Admits false false k t
    · -- the form whose pairs are arrays passes, so the one without arrays does
      obtain ⟨u, hu, hpairs⟩ := exists_pairs t
      obtain ⟨v, hv, harrays⟩ := exists_arrays t
      have hpass : Admits true false k v := ((hv.admits_iff k).mp houter).of_notPair harrays
      have hall : Admits true true k u := ((h u hu).mpr ((h v hv).mp hpass)).of_notArray hpairs
      exact .inl ((hu.admits_iff k).mpr hall)
    · exact .inr houter
  · rintro (hall | houter) u hu
    · have hallu : Admits true true k u := (hu.admits_iff k).mp hall
      exact iff_of_true (hallu.mono (fun h => h) Bool.noConfusion)
        (hall.mono (fun h => h) Bool.noConfusion)
    · have houteru : ¬ Admits false false k u := mt (hu.admits_iff k).mpr houter
      exact iff_of_false (mt (Admits.mono Bool.noConfusion fun h => h) houteru)
        (mt (Admits.mono Bool.noConfusion fun h => h) houter)

/-- What a comparable type is made of is comparable, whatever is looked into. -/
theorem argumentChecks_comparable {pairs : Bool} {p : String} {n : ℕ}
    {checks : List (TypeCheck × ℕ)} (h : argumentChecks pairs .comparable p n = some checks) :
    (∀ pairs', argumentChecks pairs' .comparable p n = some checks) ∧
      ∀ c ∈ checks, c.1 = .comparable := by
  have hsame (pairs' : Bool) : argumentChecks pairs' .comparable p n =
      argumentChecks pairs .comparable p n := by
    simp only [argumentChecks, true_or, if_true]
  refine ⟨fun pairs' => (hsame pairs').trans h, fun c hc => ?_⟩
  simp only [argumentChecks, true_or, if_true] at h
  by_cases hp : p = "pair"
  · rw [if_pos hp] at h
    by_cases hn : n < 2
    · rw [if_pos hn] at h
      cases h
    · rw [if_neg hn] at h
      cases h
      obtain ⟨i, -, rfl⟩ := List.mem_map.mp hc
      rfl
  rw [if_neg hp] at h
  by_cases hcontent : p = "or" ∨ p = "option"
  · rw [if_pos hcontent] at h
    obtain rfl | rfl := hcontent
    · by_cases hn : n = 2
      · subst hn
        cases h
        rcases hc with _ | ⟨_, _ | ⟨_, ⟨⟩⟩⟩ <;> rfl
      · simp [typeArguments, demand, hn] at h
    · by_cases hn : n = 1
      · subst hn
        cases h
        rcases hc with _ | ⟨_, ⟨⟩⟩
        rfl
      · simp [typeArguments, demand, hn] at h
  rw [if_neg hcontent] at h
  by_cases hsimple : simpleComparableTypeIDs.contains p = true
  · rw [if_pos hsimple] at h
    cases h
    cases hc
  · rw [if_neg hsimple] at h
    cases h

theorem Admits.comparable {pairs arrays : Bool} {t : Expr} (h : Admits pairs arrays .comparable t)
    (pairs' arrays' : Bool) : Admits pairs' arrays' .comparable t := by
  generalize hk : TypeCheck.comparable = k at h
  induction h with
  | closed notComparable _ => exact absurd hk.symm notComparable
  | array _ long _ ih =>
    subst hk
    exact .array (.inl rfl) long fun a ha => ih a ha rfl
  | prim asked number _ ih =>
    subst hk
    obtain ⟨hasked, hcomparable⟩ := argumentChecks_comparable asked
    exact .prim (hasked pairs') number fun c hc a ha => ih c hc a ha (hcomparable c hc).symm

/-- The check of comparable types says the same of all forms. -/
theorem assertMichelsonComparableType_sameForms {t u : Expr} (h : SameForms t u) :
    assertMichelsonComparableType u = .ok () ↔ assertMichelsonComparableType t = .ok () := by
  have hpasses (t : Expr) : assertMichelsonComparableType t = .ok () ↔
      Admits true true .comparable t :=
    (passes_iff_admits .comparable t).trans ⟨fun h => h.comparable true true,
      fun h => h.comparable true false⟩
  rw [hpasses, hpasses, h.admits_iff]

/-- Operations can't be packed in a pair of three, and can in an array. -/
theorem assertMichelsonPackableType_array :
    ¬ ∀ u, SameForms (.prim "pair" (some [.prim "operation" none none, .prim "nat" none none,
        .prim "nat" none none]) none) u →
      (assertMichelsonPackableType u = .ok () ↔
        assertMichelsonPackableType (.prim "pair" (some [.prim "operation" none none,
          .prim "nat" none none, .prim "nat" none none]) none) = .ok ()) := by
  intro h
  have harray := (h _ (.array none (by decide))).mp rfl
  cases harray

end MichelCodec
