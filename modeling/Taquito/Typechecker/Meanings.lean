import Taquito.MichelCodec.TypeForms
import Taquito.Michelson.Values
import Taquito.Typechecker.Operations

/-!
# What the types on the stack mean

`Means t T`: the expression `t`, which the checker holds for a type, stands for the type `T`. Names,
references to contracts and the form of a comb do not matter for it, and a type has one meaning only.
What the checker does with types keeps their meanings: it annotates them, compares them, and takes
combs apart.
-/

open Js MichelCodec Michelson

namespace Typechecker

open StackType

/-- The meaning of a type of the checker. -/
inductive Means : StackType → Ty → Prop
  | pair {t : StackType} {p : Comb} {a b : Ty} (ht : t.isPairType = true) (hp : unpackComb t = .ok p)
    (ha : Means p.first a) (hb : Means p.second b) : Means t (.pair a b)
  | unary {t x : StackType} {p : String} {u : Unary} {a : Ty} (ht : t.primOf = some p)
    (hu : Unary.ofName p = some u) (hx : argOf t 0 = .ok x) (ha : Means x a) : Means t (.unary u a)
  | binary {t x y : StackType} {p : String} {u : Michelson.Binary} {a b : Ty}
    (ht : t.primOf = some p) (hu : Michelson.Binary.ofName p = some u) (hx : argOf t 0 = .ok x)
    (hy : argOf t 1 = .ok y) (ha : Means x a) (hb : Means y b) : Means t (.binary u a b)
  | atom {t : StackType} {p : String} (ht : t.primOf = some p) (hp : isAtom p = true) :
    Means t (.atom p)

/-! ## Inversion -/

theorem unary_name {p : String} {u : Unary} (h : Unary.ofName p = some u) :
    p = "option" ∧ u = .option ∨ p = "list" ∧ u = .list ∨ p = "set" ∧ u = .set ∨
      p = "contract" ∧ u = .contract ∨ p = "ticket" ∧ u = .ticket := by
  unfold Unary.ofName at h
  split at h <;> simp_all

theorem binary_name {p : String} {u : Michelson.Binary} (h : Michelson.Binary.ofName p = some u) :
    p = "or" ∧ u = .or ∨ p = "map" ∧ u = .map ∨ p = "big_map" ∧ u = .bigMap ∨
      p = "lambda" ∧ u = .lambda := by
  unfold Michelson.Binary.ofName at h
  split at h <;> simp_all

/-- The kinds of types exclude each other. -/
theorem kind_excludes {p : String} :
    (p = "pair" → Unary.ofName p = none ∧ Michelson.Binary.ofName p = none ∧ isAtom p = false) ∧
      (∀ u, Unary.ofName p = some u → Michelson.Binary.ofName p = none ∧ isAtom p = false) ∧
      ∀ u, Michelson.Binary.ofName p = some u → isAtom p = false := by
  refine ⟨?_, ?_, ?_⟩
  · rintro rfl
    decide
  · intro u hu
    obtain h | h | h | h | h := unary_name hu <;> rw [h.1] <;> decide
  · intro u hu
    obtain h | h | h | h := binary_name hu <;> rw [h.1] <;> decide

theorem primOf_of_isPairType {t : StackType} {p : String} (ht : t.isPairType = true)
    (hp : t.primOf = some p) : p = "pair" := by
  cases t with
  | prim q args annots r =>
    simp only [StackType.isPairType, beq_iff_eq] at ht
    rw [primOf, Option.some.injEq] at hp
    rw [← hp, ht]
  | _ => cases hp

theorem isPairType_of_primOf {t : StackType} (hp : t.primOf = some "pair") : t.isPairType = true := by
  cases t with
  | prim q args annots r =>
    rw [primOf, Option.some.injEq] at hp
    rw [hp]
    rfl
  | _ => cases hp

theorem means_pair_iff {t : StackType} {p : Comb} (ht : t.isPairType = true)
    (hp : unpackComb t = .ok p) {T : Ty} :
    Means t T ↔ ∃ a b, T = .pair a b ∧ Means p.first a ∧ Means p.second b := by
  constructor
  · intro h
    cases h with
    | pair _ hp' ha hb =>
      rw [hp] at hp'
      cases hp'
      exact ⟨_, _, rfl, ha, hb⟩
    | unary hq hu =>
      cases (kind_excludes.1 (primOf_of_isPairType ht hq)).1.symm.trans hu
    | binary hq hu =>
      cases (kind_excludes.1 (primOf_of_isPairType ht hq)).2.1.symm.trans hu
    | atom hq hu =>
      cases (kind_excludes.1 (primOf_of_isPairType ht hq)).2.2.symm.trans hu
  · rintro ⟨a, b, rfl, ha, hb⟩
    exact .pair ht hp ha hb

theorem means_unary_iff {t x : StackType} {p : String} {u : Unary} (ht : t.primOf = some p)
    (hu : Unary.ofName p = some u) (hx : argOf t 0 = .ok x) {T : Ty} :
    Means t T ↔ ∃ a, T = .unary u a ∧ Means x a := by
  constructor
  · intro h
    cases h with
    | pair hpair =>
      cases (kind_excludes.1 (primOf_of_isPairType hpair ht)).1.symm.trans hu
    | unary hq hv hy ha =>
      cases ht.symm.trans hq
      cases hu.symm.trans hv
      cases hx.symm.trans hy
      exact ⟨_, rfl, ha⟩
    | binary hq hv =>
      cases ht.symm.trans hq
      cases (kind_excludes.2.1 u hu).1.symm.trans hv
    | atom hq hv =>
      cases ht.symm.trans hq
      cases (kind_excludes.2.1 u hu).2.symm.trans hv
  · rintro ⟨a, rfl, ha⟩
    exact .unary ht hu hx ha

theorem means_binary_iff {t x y : StackType} {p : String} {u : Michelson.Binary}
    (ht : t.primOf = some p) (hu : Michelson.Binary.ofName p = some u) (hx : argOf t 0 = .ok x)
    (hy : argOf t 1 = .ok y) {T : Ty} :
    Means t T ↔ ∃ a b, T = .binary u a b ∧ Means x a ∧ Means y b := by
  constructor
  · intro h
    cases h with
    | pair hpair =>
      cases (kind_excludes.1 (primOf_of_isPairType hpair ht)).2.1.symm.trans hu
    | unary hq hv =>
      cases ht.symm.trans hq
      cases (kind_excludes.2.1 _ hv).1.symm.trans hu
    | binary hq hv hx' hy' ha hb =>
      cases ht.symm.trans hq
      cases hu.symm.trans hv
      cases hx.symm.trans hx'
      cases hy.symm.trans hy'
      exact ⟨_, _, rfl, ha, hb⟩
    | atom hq hv =>
      cases ht.symm.trans hq
      cases (kind_excludes.2.2 u hu).symm.trans hv
  · rintro ⟨a, b, rfl, ha, hb⟩
    exact .binary ht hu hx hy ha hb

theorem means_atom_iff {t : StackType} {p : String} (ht : t.primOf = some p) (hp : isAtom p = true)
    {T : Ty} : Means t T ↔ T = .atom p := by
  constructor
  · intro h
    cases h with
    | pair hpair =>
      cases (kind_excludes.1 (primOf_of_isPairType hpair ht)).2.2.symm.trans hp
    | unary hq hu =>
      cases ht.symm.trans hq
      cases (kind_excludes.2.1 _ hu).2.symm.trans hp
    | binary hq hu =>
      cases ht.symm.trans hq
      cases (kind_excludes.2.2 _ hu).symm.trans hp
    | atom hq => cases ht.symm.trans hq; rfl
  · rintro rfl
    exact .atom ht hp

/-- A type has one meaning. -/
theorem Means.unique {t : StackType} {T U : Ty} (hT : Means t T) (hU : Means t U) : T = U := by
  induction hT generalizing U with
  | pair ht hp _ _ iha ihb =>
    obtain ⟨a, b, rfl, ha, hb⟩ := (means_pair_iff ht hp).mp hU
    rw [iha ha, ihb hb]
  | unary ht hu hx _ iha =>
    obtain ⟨a, rfl, ha⟩ := (means_unary_iff ht hu hx).mp hU
    rw [iha ha]
  | binary ht hu hx hy _ _ iha ihb =>
    obtain ⟨a, b, rfl, ha, hb⟩ := (means_binary_iff ht hu hx hy).mp hU
    rw [iha ha, ihb hb]
  | atom ht hp => exact ((means_atom_iff ht hp).mp hU).symm

/-! ## Annotations -/

theorem unpackArgs_eq_ok {args : List StackType} {annots : Option (List JSString)}
    {r : Option StackType} {p : Comb} (h : unpackArgs args annots r = .ok p)
    (annots' : Option (List JSString)) (r' : Option StackType) :
    ∃ p', unpackArgs args annots' r' = .ok p' ∧ p'.first = p.first ∧ p'.second = p.second := by
  match args with
  | [] => cases h
  | [a] =>
    cases h
    exact ⟨_, rfl, rfl, rfl⟩
  | [a, b] =>
    cases h
    exact ⟨_, rfl, rfl, rfl⟩
  | a :: b :: c :: rest =>
    cases h
    exact ⟨_, rfl, rfl, rfl⟩

/-- What a type is made of: other annotations and another contract do not change its meaning. -/
theorem Means.of_prim {p : String} {args : Option (List StackType)}
    {annots annots' : Option (List JSString)} {r r' : Option StackType} {T : Ty}
    (h : Means (.prim p args annots r) T) : Means (.prim p args annots' r') T := by
  have harg (k : ℕ) : argOf (.prim p args annots' r') k = argOf (.prim p args annots r) k := by
    cases args <;> rfl
  cases h with
  | pair ht hp ha hb =>
    cases args with
    | none => cases hp
    | some args =>
      obtain ⟨q, hq, h₁, h₂⟩ := unpackArgs_eq_ok hp annots' r'
      exact .pair ht hq (h₁ ▸ ha) (h₂ ▸ hb)
  | unary ht hu hx ha => exact .unary ht hu ((harg 0).trans hx) ha
  | binary ht hu hx hy ha hb => exact .binary ht hu ((harg 0).trans hx) ((harg 1).trans hy) ha hb
  | atom ht hp => exact .atom ht hp

theorem Means.withAnnots {t : StackType} {T : Ty} (h : Means t T) (ann : List JSString) :
    Means (t.withAnnots ann) T := by
  cases t with
  | seq items =>
    cases h with
    | pair _ hp ha hb =>
      obtain ⟨q, hq, h₁, h₂⟩ := unpackArgs_eq_ok hp (if ann.isEmpty then none else some ann) none
      exact .pair (t := .prim "pair" (some items) (if ann.isEmpty then none else some ann) none)
        rfl hq (h₁ ▸ ha) (h₂ ▸ hb)
    | unary ht => cases ht
    | binary ht => cases ht
    | atom ht => cases ht
  | prim p args annots r => exact h.of_prim
  | spread items annots =>
    cases h with
    | pair ht => cases ht
    | unary ht => cases ht
    | binary ht => cases ht
    | atom ht => cases ht
  | int text => exact h
  | string text => exact h
  | bytes hex => exact h

section

variable {i : Instruction} {stack : List StackType}

theorem Means.annotate {t t' : StackType} {T : Ty} {a : NullableAnnotations} (h : Means t T)
    (ht : annotate i stack t a = .ok t') : Means t' T := by
  obtain ⟨src, -, ht⟩ := Except.bind_eq_ok.mp ht
  split at ht <;> cases ht <;> exact h.withAnnots _

theorem Means.annotateVar {t t' : StackType} {T : Ty} {default : Option JSString} (h : Means t T)
    (ht : annotateVar i stack t default = .ok t') : Means t' T := by
  obtain ⟨ia, -, ht⟩ := Except.bind_eq_ok.mp ht
  exact h.annotate ht

theorem Means.annotateResult {t t' : StackType} {T : Ty} (h : Means t T)
    (ht : annotateResult i stack t = .ok t') : Means t' T := by
  obtain ⟨ia, -, ht⟩ := Except.bind_eq_ok.mp ht
  exact h.annotate ht

theorem Means.annotateField {arg field t : StackType} {T : Ty} {ia : UnpackedAnnotations} {n : ℕ}
    {default : JSString} (h : Means field T)
    (ht : annotateField i stack arg field ia n default = .ok t) : Means t T := by
  obtain ⟨fieldAnn, -, ht⟩ := Except.bind_eq_ok.mp ht
  dsimp only at ht
  split at ht
  · split at ht
    · cases ht
    · obtain ⟨varAnn, -, ht⟩ := Except.bind_eq_ok.mp ht
      exact h.annotate ht
  · obtain ⟨_, -, ht⟩ := Except.bind_eq_ok.mp ht
    obtain ⟨varAnn, -, ht⟩ := Except.bind_eq_ok.mp ht
    exact h.annotate ht

end

/-! ## Equality -/

/-- The kind of a type, as `assertScalarTypesEqual` and the reading of a type both see it. -/
theorem unary_mem {p : String} {u : Unary} (h : Unary.ofName p = some u) :
    p ≠ "pair" ∧ ["option", "list", "contract", "set", "ticket"].contains p = true := by
  obtain h | h | h | h | h := unary_name h <;> rw [h.1] <;> decide

theorem binary_mem {p : String} {u : Michelson.Binary} (h : Michelson.Binary.ofName p = some u) :
    ["option", "list", "contract", "set", "ticket"].contains p = false ∧
      (p = "or" ∨ p ≠ "or" ∧ ["lambda", "map", "big_map"].contains p = true) := by
  obtain h | h | h | h := binary_name h <;> rw [h.1] <;> decide

theorem kind_cases (t : StackType) : t.isPairType = true ∨ t.isPairType = false ∧
    (t.primOf = none ∨ (∃ p u, t.primOf = some p ∧ Unary.ofName p = some u) ∨
      (∃ p u, t.primOf = some p ∧ Michelson.Binary.ofName p = some u) ∨
      ∃ p, t.primOf = some p ∧ isAtom p = true) := by
  cases hpair : t.isPairType with
  | true => exact .inl rfl
  | false =>
    refine .inr ⟨rfl, ?_⟩
    cases hp : t.primOf with
    | none => exact .inl rfl
    | some p =>
      right
      cases hu : Unary.ofName p with
      | some u => exact .inl ⟨p, u, rfl, hu⟩
      | none =>
        right
        cases hb : Michelson.Binary.ofName p with
        | some u => exact .inl ⟨p, u, rfl, hb⟩
        | none =>
          refine .inr ⟨p, rfl, ?_⟩
          have hne : p ≠ "pair" := by
            rintro rfl
            rw [isPairType_of_primOf hp] at hpair
            cases hpair
          rw [isAtom, hu, hb, Bool.and_eq_true, Bool.and_eq_true, bne_iff_ne]
          exact ⟨⟨hne, rfl⟩, rfl⟩

theorem not_means_of_primOf {t : StackType} (hpair : t.isPairType = false) (hp : t.primOf = none)
    (T : Ty) : ¬ Means t T := by
  intro h
  cases h with
  | pair ht => cases ht.symm.trans hpair
  | unary ht => cases ht.symm.trans hp
  | binary ht => cases ht.symm.trans hp
  | atom ht => cases ht.symm.trans hp

theorem typeID_of_isPairType {t : StackType} : t.isPairType = true ↔ t.typeID = some "pair" := by
  cases t with
  | prim p args annots r =>
    rw [StackType.isPairType, beq_iff_eq]
    exact ⟨fun h => congrArg some h, fun h => Option.some.inj h⟩
  | seq items => exact ⟨fun _ => rfl, fun _ => rfl⟩
  | _ => constructor <;> intro h <;> cases h

theorem typeID_of_not_pair {t : StackType} (h : t.isPairType = false) : t.typeID = t.primOf := by
  cases t with
  | seq items => cases h
  | _ => rfl

/-- `assertScalarTypesEqual` compares the kinds of two types, then their arguments. -/
theorem typesEqual_eq_ok {equal : StackType → StackType → Bool → Checked Unit} {a b : StackType}
    {field : Bool} (h : typesEqual equal a b field = .ok ()) :
    a.typeID = b.typeID ∧ argumentsEqual equal a b = .ok () := by
  unfold typesEqual at h
  dsimp only at h
  split at h
  · cases h
  · rename_i hid
    refine ⟨not_not.mp hid, ?_⟩
    obtain ⟨x, -, h⟩ := Except.bind_eq_ok.mp h
    obtain ⟨y, -, h⟩ := Except.bind_eq_ok.mp h
    split at h
    · cases h
    · split at h
      · cases h
      · exact h

section

variable {equal : StackType → StackType → Bool → Checked Unit} {a b : StackType}

theorem argumentsEqual_pair (hpair : a.isPairType = true) (h : argumentsEqual equal a b = .ok ()) :
    ∃ p q, unpackComb a = .ok p ∧ unpackComb b = .ok q ∧ equal p.first q.first true = .ok () ∧
      equal p.second q.second true = .ok () := by
  rw [argumentsEqual, if_pos hpair] at h
  obtain ⟨p, hp, h⟩ := Except.bind_eq_ok.mp h
  obtain ⟨q, hq, h⟩ := Except.bind_eq_ok.mp h
  obtain ⟨_, h₁, h₂⟩ := Except.bind_eq_ok.mp h
  exact ⟨p, q, hp, hq, h₁, h₂⟩

theorem argumentsEqual_unary {p : String} {u : Unary} (hpair : a.isPairType = false)
    (hp : a.primOf = some p) (hu : Unary.ofName p = some u)
    (h : argumentsEqual equal a b = .ok ()) :
    ∃ x y, argOf a 0 = .ok x ∧ argOf b 0 = .ok y ∧ equal x y false = .ok () := by
  rw [argumentsEqual, if_neg (by rw [hpair]; decide), hp] at h
  dsimp only [Option.getD_some] at h
  rw [if_pos (unary_mem hu).2] at h
  obtain ⟨x, hx, h⟩ := Except.bind_eq_ok.mp h
  obtain ⟨y, hy, h⟩ := Except.bind_eq_ok.mp h
  exact ⟨x, y, hx, hy, h⟩

theorem argumentsEqual_binary {p : String} {u : Michelson.Binary} (hpair : a.isPairType = false)
    (hp : a.primOf = some p) (hu : Michelson.Binary.ofName p = some u)
    (h : argumentsEqual equal a b = .ok ()) :
    ∃ x y x' y', argOf a 0 = .ok x ∧ argOf b 0 = .ok y ∧ argOf a 1 = .ok x' ∧ argOf b 1 = .ok y' ∧
      (∃ f, equal x y f = .ok ()) ∧ ∃ f, equal x' y' f = .ok () := by
  rw [argumentsEqual, if_neg (by rw [hpair]; decide), hp] at h
  dsimp only [Option.getD_some] at h
  rw [if_neg (by rw [(binary_mem hu).1]; decide)] at h
  obtain hor | ⟨hor, hmem⟩ := (binary_mem hu).2
  · rw [if_pos hor] at h
    obtain ⟨x, hx, h⟩ := Except.bind_eq_ok.mp h
    obtain ⟨y, hy, h⟩ := Except.bind_eq_ok.mp h
    obtain ⟨_, h₁, h⟩ := Except.bind_eq_ok.mp h
    obtain ⟨x', hx', h⟩ := Except.bind_eq_ok.mp h
    obtain ⟨y', hy', h₂⟩ := Except.bind_eq_ok.mp h
    exact ⟨x, y, x', y', hx, hy, hx', hy', ⟨true, h₁⟩, ⟨true, h₂⟩⟩
  · rw [if_neg hor, if_pos hmem] at h
    obtain ⟨x, hx, h⟩ := Except.bind_eq_ok.mp h
    obtain ⟨y, hy, h⟩ := Except.bind_eq_ok.mp h
    obtain ⟨_, h₁, h⟩ := Except.bind_eq_ok.mp h
    obtain ⟨x', hx', h⟩ := Except.bind_eq_ok.mp h
    obtain ⟨y', hy', h₂⟩ := Except.bind_eq_ok.mp h
    exact ⟨x, y, x', y', hx, hy, hx', hy', ⟨false, h₁⟩, ⟨false, h₂⟩⟩

end

/-- Types that are equal for the checker have the same meaning. -/
theorem means_of_scalarTypesEqual {fuel : ℕ} {a b : StackType} {field : Bool}
    (h : scalarTypesEqual fuel a b field = .ok ()) (T : Ty) : Means a T ↔ Means b T := by
  induction fuel generalizing a b field T with
  | zero => cases h
  | succ fuel ih =>
    obtain ⟨hid, h⟩ := typesEqual_eq_ok h
    have hside : b.isPairType = a.isPairType := by
      rw [Bool.eq_iff_iff, typeID_of_isPairType, typeID_of_isPairType, hid]
    obtain hpair | ⟨hpair, hkind⟩ := kind_cases a
    · obtain ⟨p, q, hp, hq, h₁, h₂⟩ := argumentsEqual_pair hpair h
      rw [means_pair_iff hpair hp, means_pair_iff (hside.trans hpair) hq]
      simp only [ih h₁, ih h₂]
    · have hprim : a.primOf = b.primOf := by
        rw [← typeID_of_not_pair hpair, ← typeID_of_not_pair (hside.trans hpair), hid]
      obtain hnone | ⟨p, u, hp, hu⟩ | ⟨p, u, hp, hu⟩ | ⟨p, hp, hatom⟩ := hkind
      · have hb := not_means_of_primOf (hside.trans hpair) (hprim ▸ hnone) T
        exact ⟨fun ha => (not_means_of_primOf hpair hnone T ha).elim, fun h => (hb h).elim⟩
      · obtain ⟨x, y, hx, hy, hxy⟩ := argumentsEqual_unary hpair hp hu h
        rw [means_unary_iff hp hu hx, means_unary_iff (hprim ▸ hp) hu hy]
        simp only [ih hxy]
      · obtain ⟨x, y, x', y', hx, hy, hx', hy', ⟨_, h₁⟩, ⟨_, h₂⟩⟩ :=
          argumentsEqual_binary hpair hp hu h
        rw [means_binary_iff hp hu hx hx', means_binary_iff (hprim ▸ hp) hu hy hy']
        simp only [ih h₁, ih h₂]
      · rw [means_atom_iff hp hatom, means_atom_iff (hprim ▸ hp) hatom]

/-! ## Types in expressions -/

theorem erases_eq_map (ts : List StackType) : erases ts = ts.map erase := by
  induction ts with
  | nil => rfl
  | cons t ts ih => rw [erases, ih, List.map_cons]

theorem StackType.ofExprs_eq_map (es : List Expr) : StackType.ofExprs es = es.map ofExpr := by
  induction es with
  | nil => rfl
  | cons e es ih => rw [StackType.ofExprs, ih, List.map_cons]

/-- A comb of types, in an array or under `pair`. -/
theorem means_of_combTy {Ts : List Ty} {args : List StackType} (hargs : List.Forall₂ Means args Ts)
    {T : Ty} (h : combTy Ts = some T) (annots : Option (List JSString)) (r : Option StackType) :
    ∃ p a b, unpackArgs args annots r = .ok p ∧ T = .pair a b ∧ Means p.first a ∧
      Means p.second b := by
  induction hargs generalizing T annots r with
  | nil => cases h
  | @cons x A args Ts hx hargs ih =>
    cases hargs with
    | nil => cases h
    | @cons y B args Ts hy hargs =>
      cases hargs with
      | nil =>
        cases h
        exact ⟨_, _, _, rfl, rfl, hx, hy⟩
      | @cons z C args Ts hz hargs =>
        obtain ⟨U, hU, hT⟩ := Option.bind_eq_some_iff.mp (show
          (combTy (B :: C :: Ts)).bind (fun U => some (Ty.pair A U)) = some T from h)
        cases hT
        obtain ⟨q, a, b, hq, rfl, ha, hb⟩ := ih hU none none
        refine ⟨_, A, .pair a b, rfl, rfl, hx, ?_⟩
        exact .pair (t := ofPrim "pair" (y :: z :: args)) rfl hq ha hb

/-- What is read from the arguments of a type is what it means. -/
theorem means_of_typeOfArgs {p : String} {Ts : List Ty} {args : List StackType}
    (hargs : List.Forall₂ Means args Ts) {T : Ty} (h : typeOfArgs p Ts = some T)
    (annots : Option (List JSString)) (r : Option StackType) :
    Means (.prim p (some args) annots r) T := by
  unfold typeOfArgs at h
  by_cases hp : p = "pair"
  · rw [if_pos hp] at h
    subst hp
    obtain ⟨q, a, b, hq, rfl, ha, hb⟩ := means_of_combTy hargs h annots r
    exact .pair (t := .prim "pair" (some args) annots r) rfl hq ha hb
  · rw [if_neg hp] at h
    split at h
    · rename_i u A As hu
      cases h
      cases hargs with
      | @cons x _ args _ hx hargs =>
        exact .unary (t := .prim p (some (x :: args)) annots r) rfl hu rfl hx
    · split at h
      · rename_i u A B Bs hu _
        cases h
        cases hargs with
        | @cons x _ args _ hx hargs =>
          cases hargs with
          | @cons y _ args _ hy hargs =>
            exact .binary (t := .prim p (some (x :: y :: args)) annots r) rfl hu rfl rfl hx hy
      · cases h

theorem means_of_tysOf {es : List Expr} (ih : ∀ e ∈ es, ∀ T, tyOf e = some T → Means (ofExpr e) T)
    {Ts : List Ty} (h : tysOf es = some Ts) : List.Forall₂ Means (StackType.ofExprs es) Ts := by
  induction es generalizing Ts with
  | nil =>
    cases h
    exact .nil
  | cons e es ih' =>
    obtain ⟨T, hT, h⟩ := Option.bind_eq_some_iff.mp h
    obtain ⟨Us, hUs, h⟩ := Option.bind_eq_some_iff.mp h
    cases h
    obtain ⟨he, hes⟩ := List.forall_mem_cons.mp ih
    exact .cons (he T hT) (ih' hes hUs)

/-- The type that is read from an expression is what the expression means. -/
theorem means_of_tyOf {e : Expr} {T : Ty} (h : tyOf e = some T) : Means (ofExpr e) T := by
  induction e generalizing T with
  | seq items ih =>
    obtain ⟨Ts, hTs, h⟩ := Option.bind_eq_some_iff.mp (show
      (tysOf items).bind combTy = some T by rw [← h, tyOf]; rfl)
    obtain ⟨q, a, b, hq, rfl, ha, hb⟩ :=
      means_of_combTy (means_of_tysOf (fun e he T => ih e he) hTs) h none none
    exact .pair (t := .seq (StackType.ofExprs items)) rfl hq ha hb
  | prim p args annots ih =>
    cases args with
    | none =>
      rw [tyOf] at h
      split at h
      · rename_i hp
        cases h
        exact .atom (t := .prim p none annots none) rfl hp
      · cases h
    | some args =>
      rw [tyOf] at h
      split at h
      · rename_i hp
        cases h
        exact .atom (t := .prim p (some (StackType.ofExprs args)) annots none) rfl hp
      · obtain ⟨Ts, hTs, h⟩ := Option.bind_eq_some_iff.mp h
        exact means_of_typeOfArgs (means_of_tysOf (fun e he T => ih e he) hTs) h annots none
  | int text => cases h
  | string text => cases h
  | bytes hex => cases h

/-! ## Comparable types -/

theorem getElem?_erases {args : List StackType} {k : ℕ} {x : StackType} (h : args[k]? = some x) :
    (erases args)[k]? = some x.erase := by
  rw [erases_eq_map, List.getElem?_map, h]
  rfl

/-- The components of a comb of comparable types are comparable. -/
theorem admits_unpackArgs {args : List StackType} {annots : Option (List JSString)}
    {r : Option StackType} {p : Comb} (hp : unpackArgs args annots r = .ok p)
    (long : 2 ≤ args.length) (h : ∀ t ∈ args, Admits true true .comparable t.erase) :
    Admits true true .comparable p.first.erase ∧ Admits true true .comparable p.second.erase := by
  match args with
  | [] => cases hp
  | [_] => simp only [List.length_singleton] at long; omega
  | [a, b] =>
    cases hp
    exact ⟨h a List.mem_cons_self, h b (List.mem_cons_of_mem a List.mem_cons_self)⟩
  | a :: b :: c :: rest =>
    cases hp
    refine ⟨h a List.mem_cons_self, admits_pair_iff.mpr ⟨?_, fun _ e he => ?_⟩⟩
    · show 2 ≤ (erases (b :: c :: rest)).length
      simp only [erases_eq_map, List.length_map, List.length_cons]
      omega
    · rw [show erases (b :: c :: rest) = (b :: c :: rest).map erase from erases_eq_map _] at he
      obtain ⟨t, ht, rfl⟩ := List.mem_map.mp he
      exact h t (List.mem_cons_of_mem a ht)

theorem argOf_prim {q : String} {args : List StackType} {annots : Option (List JSString)}
    {r : Option StackType} {k : ℕ} {x : StackType}
    (h : argOf (.prim q (some args) annots r) k = .ok x) : args[k]? = some x := by
  unfold argOf at h
  dsimp only at h
  split at h
  · cases h
    assumption
  · cases h

theorem demand_eq_some {n count : ℕ} {checks checks' : List (TypeCheck × ℕ)}
    (h : demand n count checks = some checks') : checks' = checks := by
  unfold demand at h
  split at h <;> cases h
  rfl

/-- A type that the check of comparable types accepts means a comparable type. -/
theorem comparable_of_admits {t : StackType} {T : Ty} (h : Means t T)
    (hc : Admits true true .comparable t.erase) : T.isComparable = true := by
  induction h with
  | @pair t p a b ht hp ha hb iha ihb =>
    have hparts : Admits true true .comparable p.first.erase ∧
        Admits true true .comparable p.second.erase := by
      cases t with
      | seq items =>
        cases hc with
        | closed notComparable => exact absurd rfl notComparable
        | array _ long members =>
          rw [erases_eq_map, List.length_map] at long
          refine admits_unpackArgs hp long fun x hx => members _ ?_
          rw [erases_eq_map]
          exact List.mem_map_of_mem hx
      | prim q args annots r =>
        obtain rfl : q = "pair" := primOf_of_isPairType ht rfl
        cases args with
        | none => cases hp
        | some args =>
          obtain ⟨long, members⟩ := admits_pair_iff.mp hc
          rw [Option.getD_some, erases_eq_map] at long members
          rw [List.length_map] at long
          exact admits_unpackArgs hp long fun x hx =>
            members (.inl rfl) _ (List.mem_map_of_mem hx)
      | spread items annots => cases ht
      | int text => cases ht
      | string text => cases ht
      | bytes hex => cases ht
    rw [Ty.isComparable, iha hparts.1, ihb hparts.2]
    rfl
  | @unary t x p u a ht hu hx ha iha =>
    cases t with
    | prim q args annots r =>
      cases ht
      cases args with
      | none => cases hx
      | some args =>
        obtain ⟨-, checks, hasked, hargs⟩ := admits_prim_iff.mp hc
        obtain ⟨rfl, rfl⟩ | ⟨rfl, rfl⟩ | ⟨rfl, rfl⟩ | ⟨rfl, rfl⟩ | ⟨rfl, rfl⟩ := unary_name hu
        · obtain rfl := demand_eq_some (show demand _ 1 [(.comparable, 0)] = some checks from hasked)
          exact iha (hargs (.comparable, 0) List.mem_cons_self _ (getElem?_erases (argOf_prim hx)))
        all_goals cases hasked
    | _ => cases ht
  | @binary t x y p u a b ht hu hx hy ha hb iha ihb =>
    cases t with
    | prim q args annots r =>
      cases ht
      cases args with
      | none => cases hx
      | some args =>
        obtain ⟨-, checks, hasked, hargs⟩ := admits_prim_iff.mp hc
        obtain ⟨rfl, rfl⟩ | ⟨rfl, rfl⟩ | ⟨rfl, rfl⟩ | ⟨rfl, rfl⟩ := binary_name hu
        · obtain rfl := demand_eq_some
            (show demand _ 2 [(.comparable, 0), (.comparable, 1)] = some checks from hasked)
          have h₀ := hargs (.comparable, 0) List.mem_cons_self _ (getElem?_erases (argOf_prim hx))
          have h₁ := hargs (.comparable, 1) (List.mem_cons_of_mem _ List.mem_cons_self) _
            (getElem?_erases (argOf_prim hy))
          rw [Ty.isComparable, iha h₀, ihb h₁]
          rfl
        all_goals cases hasked
    | _ => cases ht
  | @atom t p ht hp =>
    have hprim : ∃ args annots, t.erase = .prim p args annots := by
      cases t with
      | prim q args annots r => cases ht; cases args <;> exact ⟨_, _, rfl⟩
      | _ => cases ht
    obtain ⟨args, annots, heq⟩ := hprim
    rw [heq] at hc
    obtain ⟨-, checks, hasked, -⟩ := admits_prim_iff.mp hc
    have hne : p ≠ "pair" ∧ ¬ (p = "or" ∨ p = "option") := by
      refine ⟨?_, ?_⟩
      · rintro rfl
        exact absurd hp (by decide)
      · rintro (rfl | rfl) <;> exact absurd hp (by decide)
    rw [argumentChecks, if_neg hne.1, if_pos rfl, if_neg hne.2] at hasked
    split at hasked
    · assumption
    · cases hasked

end Typechecker
