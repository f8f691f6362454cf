import Taquito.Typechecker.TypeAnnotations

/-!
# The combs of the typechecker

`getN`, `getNth` and `updateNth` walk along the right comb of a pair, which may be written with
nested pairs, with pairs of many components or with arrays. `combTypes` is the comb as a list, and
`RightComb` says that every pair on it has at least two components.

What `updateNth` writes, `getNth` reads at the same index; the other odd indices are not affected.
The indices that both take, and the counts that `getN` takes, are those of the list.
-/

open Js MichelCodec

namespace Typechecker

open StackType

/-! ## Right combs -/

namespace StackType

mutual

/-- The components of the right comb of a type; a type that is not a pair is its only one. -/
def combTypes : StackType → List StackType
  | .seq items => combTypesOf items
  | .prim p (some args) annots ref =>
    if p = "pair" then combTypesOf args else [.prim p (some args) annots ref]
  | t => [t]

/-- The components of the right comb of a pair, from its arguments. -/
def combTypesOf : List StackType → List StackType
  | [] => []
  | [t] => combTypes t
  | t :: u :: ts => t :: combTypesOf (u :: ts)

end

mutual

/-- Every pair on the right comb of the type has at least two components. -/
def RightComb : StackType → Prop
  | .seq items => 2 ≤ items.length ∧ LastRightComb items
  | .prim p (some args) _ _ => p = "pair" → 2 ≤ args.length ∧ LastRightComb args
  | .prim p none _ _ => p ≠ "pair"
  | _ => True

/-- The last of some types is a right comb. -/
def LastRightComb : List StackType → Prop
  | [] => True
  | [t] => RightComb t
  | _ :: u :: ts => LastRightComb (u :: ts)

end

end StackType

theorem combTypes_pair (args : List StackType) :
    combTypes (ofPrim "pair" args) = combTypesOf args := by
  rw [ofPrim, combTypes, if_pos rfl]

/-- The arguments of a pair on a right comb. -/
theorem StackType.RightComb.args {p : StackType} (hp : RightComb p) (hpair : p.isPairType = true) :
    ∃ args, typeArgs p = .ok args ∧ 2 ≤ args.length ∧ LastRightComb args ∧
      combTypes p = combTypesOf args := by
  match p, hp, hpair with
  | .seq items, hp, _ => exact ⟨items, rfl, hp.1, hp.2, rfl⟩
  | .prim q (some args) annots ref, hp, hpair =>
    have hq : q = "pair" := beq_iff_eq.mp hpair
    exact ⟨args, rfl, (hp hq).1, (hp hq).2, if_pos hq⟩
  | .prim q none annots ref, hp, hpair => exact absurd (beq_iff_eq.mp hpair) hp

/-- A pair on a right comb is its first component and the rest of the comb. -/
theorem unpackComb_of_rightComb {p : StackType} (hp : RightComb p) (hpair : p.isPairType = true) :
    ∃ c, unpackComb p = .ok c ∧ RightComb c.second ∧
      combTypes p = c.first :: combTypes c.second := by
  obtain ⟨args, hargs, hlen, hlast, hcombTypes⟩ := hp.args hpair
  have hunpack : ∃ annots ref, unpackComb p = unpackArgs args annots ref := by
    match p, hargs with
    | .seq items, hargs =>
      cases hargs
      exact ⟨none, none, rfl⟩
    | .prim q (some args') annots ref, hargs =>
      cases hargs
      exact ⟨annots, ref, rfl⟩
  obtain ⟨annots, ref, hunpack⟩ := hunpack
  rw [hunpack, hcombTypes]
  match args, hlen, hlast with
  | [a, b], _, hlast => exact ⟨_, rfl, hlast, rfl⟩
  | a :: b :: d :: rest, _, hlast =>
    refine ⟨_, rfl, fun _ => ⟨?_, hlast⟩, ?_⟩
    · rw [List.length_cons, List.length_cons]
      omega
    · exact congrArg (a :: ·) (combTypes_pair _).symm

theorem combTypes_of_not_pair {t : StackType} (hpair : ¬ t.isPairType = true) :
    combTypes t = [t] := by
  match t, hpair with
  | .seq items, hpair => exact absurd rfl hpair
  | .prim q (some args) annots ref, hpair => exact if_neg fun hq => hpair (beq_iff_eq.mpr hq)
  | .prim q none annots ref, _ => rfl
  | .int text, _ => rfl
  | .string text, _ => rfl
  | .bytes hex, _ => rfl
  | .spread items annots, _ => rfl

theorem combTypes_length_pos {p : StackType} (hp : RightComb p) : 1 ≤ (combTypes p).length := by
  by_cases hpair : p.isPairType = true
  · obtain ⟨c, -, -, hcombTypes⟩ := unpackComb_of_rightComb hp hpair
    rw [hcombTypes, List.length_cons]
    omega
  · rw [combTypes_of_not_pair hpair]
    exact le_rfl

/-! ## Reading and writing -/

theorem unpackComb_withArgs (c : Comb) (a b : StackType) :
    unpackComb (c.withArgs a b) = .ok ⟨a, b, none, none⟩ := rfl

section

variable {i : Instruction} {stack : List StackType} {x : StackType}

/-- Two steps down the comb, where there is a pair to step into. -/
theorem getNth_pair {n k : ℕ} {p : StackType} {c : Comb} (hc : unpackComb p = .ok c)
    (hpair : c.second.isPairType = true) :
    getNth i stack n p (k + 2) = getNth i stack n c.second k := by
  rw [getNth, hc, Except.ok_bind, if_pos hpair]

theorem updateNth_pair {n k : ℕ} {p : StackType} {c : Comb} (hc : unpackComb p = .ok c)
    (hpair : c.second.isPairType = true) :
    updateNth i stack x n p (k + 2) = do
      return c.withArgs c.first (← updateNth i stack x n c.second k) := by
  rw [updateNth, hc, Except.ok_bind, if_pos hpair]

/-- Two steps down the comb, at its end. -/
theorem getNth_end {n k : ℕ} {p : StackType} {c : Comb} (hc : unpackComb p = .ok c)
    (hpair : ¬ c.second.isPairType = true) :
    getNth i stack n p (k + 2) =
      if k = 0 then .ok c.second else tooFewFields i stack (n + 1) := by
  rw [getNth, hc, Except.ok_bind, if_neg hpair]
  rfl

theorem updateNth_end {n k : ℕ} {p : StackType} {c : Comb} (hc : unpackComb p = .ok c)
    (hpair : ¬ c.second.isPairType = true) :
    updateNth i stack x n p (k + 2) =
      if k = 0 then .ok (c.withArgs c.first x) else tooFewFields i stack (n + 1) := by
  rw [updateNth, hc, Except.ok_bind, if_neg hpair]
  rfl

/-- A pair updated under its root is a pair. -/
theorem updateNth_eq_withArgs {n k : ℕ} {p q : StackType}
    (h : updateNth i stack x n p (k + 1) = .ok q) : ∃ c a b, q = Comb.withArgs c a b := by
  cases k with
  | zero =>
    obtain ⟨c, -, h⟩ := Except.bind_eq_ok.mp h
    cases h
    exact ⟨c, _, _, rfl⟩
  | succ k =>
    obtain ⟨c, hc, -⟩ := Except.bind_eq_ok.mp h
    by_cases hpair : c.second.isPairType = true
    · rw [updateNth_pair hc hpair] at h
      obtain ⟨_, -, h⟩ := Except.bind_eq_ok.mp h
      cases h
      exact ⟨c, _, _, rfl⟩
    · rw [updateNth_end hc hpair] at h
      by_cases hk : k = 0
      · rw [if_pos hk] at h
        cases h
        exact ⟨c, _, _, rfl⟩
      · rw [if_neg hk] at h
        cases h

theorem updateNth_isPairType {n k : ℕ} {p q : StackType}
    (h : updateNth i stack x n p (k + 1) = .ok q) : q.isPairType = true := by
  obtain ⟨c, a, b, rfl⟩ := updateNth_eq_withArgs h
  rfl

/-- The second component is at index two, whether it is a pair or not. -/
theorem getNth_two {n : ℕ} (c : Comb) (a : StackType) :
    getNth i stack n (c.withArgs a x) 2 = .ok x := by
  by_cases hx : x.isPairType = true
  · exact getNth_pair (unpackComb_withArgs c a x) hx
  · exact getNth_end (unpackComb_withArgs c a x) hx

/-- **What was written is read.** -/
theorem getNth_updateNth {i' : Instruction} {stack' : List StackType} {n m : ℕ} :
    ∀ {k : ℕ} {p q : StackType}, updateNth i stack x n p k = .ok q → getNth i' stack' m q k = .ok x
  | 0, p, q, h => by
    cases h
    rfl
  | 1, p, q, h => by
    obtain ⟨c, -, h⟩ := Except.bind_eq_ok.mp h
    cases h
    rfl
  | k + 2, p, q, h => by
    obtain ⟨c, hc, -⟩ := Except.bind_eq_ok.mp h
    by_cases hpair : c.second.isPairType = true
    · rw [updateNth_pair hc hpair] at h
      obtain ⟨r, hr, h⟩ := Except.bind_eq_ok.mp h
      cases h
      have hread : getNth i' stack' m r k = .ok x := getNth_updateNth hr
      cases k with
      | zero =>
        cases hr
        exact getNth_two c c.first
      | succ k =>
        rw [getNth_pair (unpackComb_withArgs c c.first r) (updateNth_isPairType hr)]
        exact hread
    · rw [updateNth_end hc hpair] at h
      by_cases hk : k = 0
      · rw [if_pos hk] at h
        cases h
        subst hk
        exact getNth_two c c.first
      · rw [if_neg hk] at h
        cases h

/-- **Writing at an odd index does not affect what is read at another one.** -/
theorem getNth_updateNth_of_ne {i' : Instruction} {stack' : List StackType} {n m : ℕ} :
    ∀ {j k : ℕ} {p q : StackType}, j ≠ k → updateNth i stack x n p (2 * k + 1) = .ok q →
      getNth i' stack' m q (2 * j + 1) = getNth i' stack' m p (2 * j + 1)
  | 0, 0, p, q, hne, _ => absurd rfl hne
  | j + 1, 0, p, q, _, h => by
    obtain ⟨c, hc, h⟩ := Except.bind_eq_ok.mp h
    cases h
    show getNth i' stack' m _ (2 * j + 1 + 2) = getNth i' stack' m p (2 * j + 1 + 2)
    rw [getNth, getNth, hc, unpackComb_withArgs]
    rfl
  | 0, k + 1, p, q, _, h => by
    replace h : updateNth i stack x n p (2 * k + 1 + 2) = .ok q := h
    obtain ⟨c, hc, -⟩ := Except.bind_eq_ok.mp h
    have hfirst : ∃ r, q = c.withArgs c.first r := by
      by_cases hpair : c.second.isPairType = true
      · rw [updateNth_pair hc hpair] at h
        obtain ⟨r, -, h⟩ := Except.bind_eq_ok.mp h
        cases h
        exact ⟨r, rfl⟩
      · rw [updateNth_end hc hpair, if_neg (Nat.succ_ne_zero _)] at h
        cases h
    obtain ⟨r, rfl⟩ := hfirst
    show getNth i' stack' m _ 1 = getNth i' stack' m p 1
    rw [getNth, getNth, hc, unpackComb_withArgs]
    rfl
  | j + 1, k + 1, p, q, hne, h => by
    replace h : updateNth i stack x n p (2 * k + 1 + 2) = .ok q := h
    obtain ⟨c, hc, -⟩ := Except.bind_eq_ok.mp h
    show getNth i' stack' m _ (2 * j + 1 + 2) = getNth i' stack' m p (2 * j + 1 + 2)
    by_cases hpair : c.second.isPairType = true
    · rw [updateNth_pair hc hpair] at h
      obtain ⟨r, hr, h⟩ := Except.bind_eq_ok.mp h
      cases h
      rw [getNth_pair hc hpair,
        getNth_pair (unpackComb_withArgs c c.first r) (updateNth_isPairType hr)]
      exact getNth_updateNth_of_ne (fun hjk => hne (congrArg (· + 1) hjk)) hr
    · rw [updateNth_end hc hpair, if_neg (Nat.succ_ne_zero _)] at h
      cases h

/-- The instruction and its stack are only in messages. -/
theorem getNth_ok {i' : Instruction} {stack' : List StackType} {n m : ℕ} :
    ∀ {k : ℕ} {p t : StackType}, getNth i stack n p k = .ok t → getNth i' stack' m p k = .ok t
  | 0, p, t, h => h
  | 1, p, t, h => h
  | k + 2, p, t, h => by
    obtain ⟨c, hc, -⟩ := Except.bind_eq_ok.mp h
    by_cases hpair : c.second.isPairType = true
    · rw [getNth_pair hc hpair] at h ⊢
      exact getNth_ok h
    · rw [getNth_end hc hpair] at h ⊢
      by_cases hk : k = 0
      · rw [if_pos hk] at h ⊢
        exact h
      · rw [if_neg hk] at h
        cases h

/-! ## Indices -/

/-- What is thrown is no result. -/
theorem not_ok_of_error {α : Type} (e : CheckError) : ¬ ∃ a : α, (.error e : Checked α) = .ok a := by
  rintro ⟨_, h⟩
  cases h

/-- **An index is read exactly when it is one of the comb.** -/
theorem getNth_ok_iff {n : ℕ} : ∀ {k : ℕ} {p : StackType}, RightComb p → p.isPairType = true →
    ((∃ t, getNth i stack n p k = .ok t) ↔ k ≤ 2 * ((combTypes p).length - 1))
  | 0, p, _, _ => iff_of_true ⟨p, rfl⟩ (Nat.zero_le _)
  | 1, p, hp, hpair => by
    obtain ⟨c, hc, hsecond, hcombTypes⟩ := unpackComb_of_rightComb hp hpair
    have hlen := combTypes_length_pos hsecond
    rw [hcombTypes, List.length_cons, getNth, hc]
    exact iff_of_true ⟨c.first, rfl⟩ (by omega)
  | k + 2, p, hp, hpair => by
    obtain ⟨c, hc, hsecond, hcombTypes⟩ := unpackComb_of_rightComb hp hpair
    have hlen := combTypes_length_pos hsecond
    rw [hcombTypes, List.length_cons]
    by_cases hnext : c.second.isPairType = true
    · rw [getNth_pair hc hnext, getNth_ok_iff hsecond hnext]
      omega
    · rw [getNth_end hc hnext, combTypes_of_not_pair hnext, List.length_singleton]
      by_cases hk : k = 0
      · rw [if_pos hk]
        exact iff_of_true ⟨c.second, rfl⟩ (by omega)
      · rw [if_neg hk]
        exact iff_of_false (not_ok_of_error _) (by omega)

/-- The same indices can be written. -/
theorem updateNth_ok_iff_getNth_ok {n m : ℕ} : ∀ {k : ℕ} {p : StackType},
    (∃ q, updateNth i stack x n p k = .ok q) ↔ ∃ t, getNth i stack m p k = .ok t
  | 0, p => iff_of_true ⟨x, rfl⟩ ⟨p, rfl⟩
  | 1, p => by
    rw [updateNth, getNth]
    cases unpackComb p with
    | ok c => exact iff_of_true ⟨_, rfl⟩ ⟨_, rfl⟩
    | error e => exact iff_of_false (not_ok_of_error e) (not_ok_of_error e)
  | k + 2, p => by
    cases hc : unpackComb p with
    | error e =>
      rw [updateNth, getNth, hc]
      exact iff_of_false (not_ok_of_error e) (not_ok_of_error e)
    | ok c =>
      by_cases hpair : c.second.isPairType = true
      · rw [updateNth_pair hc hpair, getNth_pair hc hpair, ← updateNth_ok_iff_getNth_ok]
        constructor
        · rintro ⟨q, hq⟩
          obtain ⟨r, hr, -⟩ := Except.bind_eq_ok.mp hq
          exact ⟨r, hr⟩
        · rintro ⟨r, hr⟩
          exact ⟨c.withArgs c.first r, Except.bind_eq_ok.mpr ⟨r, hr, rfl⟩⟩
      · rw [updateNth_end hc hpair, getNth_end hc hpair]
        by_cases hk : k = 0
        · rw [if_pos hk, if_pos hk]
          exact iff_of_true ⟨_, rfl⟩ ⟨_, rfl⟩
        · rw [if_neg hk, if_neg hk]
          exact iff_of_false (not_ok_of_error _) (not_ok_of_error _)

/-- **As many components are taken as the comb has, at most.** -/
theorem getN_ok_iff {n : ℕ} : ∀ {k : ℕ} {p : StackType}, RightComb p → p.isPairType = true →
    ((∃ ts, getN i stack n p (k + 2) = .ok ts) ↔ k + 2 ≤ (combTypes p).length)
  | 0, p, hp, hpair => by
    obtain ⟨c, hc, hsecond, hcombTypes⟩ := unpackComb_of_rightComb hp hpair
    have hlen := combTypes_length_pos hsecond
    rw [hcombTypes, List.length_cons, getN, hc]
    exact iff_of_true ⟨_, rfl⟩ (by omega)
  | k + 1, p, hp, hpair => by
    obtain ⟨c, hc, hsecond, hcombTypes⟩ := unpackComb_of_rightComb hp hpair
    rw [hcombTypes, List.length_cons, getN, hc, Except.ok_bind, if_neg (by omega),
      if_neg (by omega)]
    by_cases hnext : c.second.isPairType = true
    · rw [if_pos hnext, show k + 1 + 2 = k + 2 + 1 from rfl, Nat.add_le_add_iff_right,
        ← getN_ok_iff hsecond hnext]
      constructor
      · rintro ⟨ts, hts⟩
        obtain ⟨rest, hrest, -⟩ := Except.bind_eq_ok.mp hts
        exact ⟨rest, hrest⟩
      · rintro ⟨rest, hrest⟩
        exact ⟨c.first :: rest, Except.bind_eq_ok.mpr ⟨rest, hrest, rfl⟩⟩
    · rw [if_neg hnext, combTypes_of_not_pair hnext, List.length_singleton]
      exact iff_of_false (not_ok_of_error _) (by omega)

/-- `UNPAIR` takes the arguments of a pair that has as many. -/
theorem getN_pair {n : ℕ} : ∀ {types : List StackType} {annots : Option (List JSString)}
    {ref : Option StackType}, 2 ≤ types.length →
      getN i stack n (.prim "pair" (some types) annots ref) types.length = .ok types
  | [a, b], _, _, _ => rfl
  | a :: b :: d :: types, annots, ref, _ => by
    have hrest : getN i stack n (ofPrim "pair" (b :: d :: types)) (types.length + 2) =
        .ok (b :: d :: types) := getN_pair (Nat.le_add_left 2 types.length)
    have hunpack : unpackComb (.prim "pair" (some (a :: b :: d :: types)) annots ref) =
        .ok ⟨a, ofPrim "pair" (b :: d :: types), annots, ref⟩ := rfl
    show getN i stack n _ (types.length + 2 + 1) = _
    rw [getN, hunpack, Except.ok_bind, if_neg (by omega), if_neg (by omega)]
    show (do return a :: (← getN i stack n _ (types.length + 2))) = _
    rw [hrest]
    rfl

/-! ## Annotations of what is read and written -/

theorem getNth_isAnnotated {n : ℕ} : ∀ {k : ℕ} {p t : StackType}, IsAnnotated p →
    p.isPairType = true → getNth i stack n p k = .ok t → IsAnnotated t
  | 0, p, t, hp, _, h => by
    cases h
    exact hp
  | 1, p, t, hp, hpair, h => by
    obtain ⟨c, hc, h⟩ := Except.bind_eq_ok.mp h
    cases h
    exact (hp.comb hpair hc).1
  | k + 2, p, t, hp, hpair, h => by
    obtain ⟨c, hc, -⟩ := Except.bind_eq_ok.mp h
    have hsecond := (hp.comb hpair hc).2.1
    by_cases hnext : c.second.isPairType = true
    · rw [getNth_pair hc hnext] at h
      exact getNth_isAnnotated hsecond hnext h
    · rw [getNth_end hc hnext] at h
      by_cases hk : k = 0
      · rw [if_pos hk] at h
        cases h
        exact hsecond
      · rw [if_neg hk] at h
        cases h

theorem getN_isAnnotated {n : ℕ} : ∀ {k : ℕ} {p : StackType} {types : List StackType},
    IsAnnotated p → p.isPairType = true → getN i stack n p k = .ok types →
      ∀ t ∈ types, IsAnnotated t
  | k + 1, p, types, hp, hpair, h => by
    obtain ⟨c, hc, h⟩ := Except.bind_eq_ok.mp h
    obtain ⟨hfirst, hsecond, -⟩ := hp.comb hpair hc
    by_cases hone : k = 0
    · rw [if_pos hone] at h
      cases h
      exact List.forall_mem_singleton.mpr hfirst
    · rw [if_neg hone] at h
      by_cases htwo : k = 1
      · rw [if_pos htwo] at h
        cases h
        exact List.forall_mem_cons.mpr ⟨hfirst, List.forall_mem_singleton.mpr hsecond⟩
      · rw [if_neg htwo] at h
        by_cases hnext : c.second.isPairType = true
        · rw [if_pos hnext] at h
          obtain ⟨rest, hrest, h⟩ := Except.bind_eq_ok.mp h
          cases h
          exact List.forall_mem_cons.mpr ⟨hfirst, getN_isAnnotated hsecond hnext hrest⟩
        · rw [if_neg hnext] at h
          cases h

theorem updateNth_ownAnnotations {n k : ℕ} {p q : StackType} (hp : IsAnnotated p)
    (hpair : p.isPairType = true) (hx : OwnAnnotations x)
    (h : updateNth i stack x n p k = .ok q) : OwnAnnotations q := by
  match k, h with
  | 0, h =>
    cases h
    exact hx
  | 1, h =>
    obtain ⟨c, hc, h⟩ := Except.bind_eq_ok.mp h
    cases h
    exact (hp.comb hpair hc).2.2 _ _
  | k + 2, h =>
    obtain ⟨c, hc, -⟩ := Except.bind_eq_ok.mp h
    by_cases hnext : c.second.isPairType = true
    · rw [updateNth_pair hc hnext] at h
      obtain ⟨r, -, h⟩ := Except.bind_eq_ok.mp h
      cases h
      exact (hp.comb hpair hc).2.2 _ _
    · rw [updateNth_end hc hnext] at h
      by_cases hk : k = 0
      · rw [if_pos hk] at h
        cases h
        exact (hp.comb hpair hc).2.2 _ _
      · rw [if_neg hk] at h
        cases h

/-- The annotations of a pair do not matter to what is read under its root. -/
theorem getNth_withAnnots {n k : ℕ} (c : Comb) (a b : StackType) (ann : List JSString) :
    getNth i stack n ((c.withArgs a b).withAnnots ann) (k + 1) =
      getNth i stack n (c.withArgs a b) (k + 1) := by
  have hcomb : unpackComb ((c.withArgs a b).withAnnots ann) = .ok ⟨a, b, none, none⟩ := rfl
  cases k with
  | zero => rw [getNth, getNth, hcomb, unpackComb_withArgs]
  | succ k => rw [getNth, getNth, hcomb, unpackComb_withArgs]

end

end Typechecker
