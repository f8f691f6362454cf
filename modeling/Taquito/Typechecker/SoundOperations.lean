import Taquito.Lib.Loops
import Taquito.Typechecker.ValueTypes

/-!
# Operations that do what the checker says

For every instruction that runs no code: if the checker accepts it on a stack of types, then the
machine executes it on every stack of values of these types, and leaves values of the types that the
checker gives. Where the checker omits a test that the machine depends on, the lemma has it as a
hypothesis: `COMPARE` of two types, `UPDATE` with a value of another type, `DUG` under more elements
than there are, and `APPLY` to a comb of more than two.
-/

open Js MichelCodec Michelson

namespace Typechecker

open StackType

section

variable {isLiteral : String → Expr → Prop} {typed : Expr → Ty → Ty → Prop}

/-! ## Values by the name of their type -/

theorem FitsStack.cons_iff {vs : List Value} {t : StackType} {types : List StackType} :
    FitsStack isLiteral typed vs (t :: types) ↔
      ∃ v vs', Fits isLiteral typed v t ∧ FitsStack isLiteral typed vs' types ∧ vs = v :: vs' :=
  List.forall₂_cons_right_iff

theorem FitsStack.length {vs : List Value} {types : List StackType}
    (h : FitsStack isLiteral typed vs types) : vs.length = types.length := List.Forall₂.length_eq h

theorem FitsStack.take {vs : List Value} {types : List StackType}
    (h : FitsStack isLiteral typed vs types) (n : ℕ) :
    FitsStack isLiteral typed (vs.take n) (types.take n) := List.forall₂_take n h

theorem FitsStack.drop {vs : List Value} {types : List StackType}
    (h : FitsStack isLiteral typed vs types) (n : ℕ) :
    FitsStack isLiteral typed (vs.drop n) (types.drop n) := List.forall₂_drop n h

theorem FitsStack.append {vs vs' : List Value} {types types' : List StackType}
    (h : FitsStack isLiteral typed vs types) (h' : FitsStack isLiteral typed vs' types') :
    FitsStack isLiteral typed (vs ++ vs') (types ++ types') := List.rel_append h h'

theorem FitsStack.getElem? {vs : List Value} {types : List StackType}
    (h : FitsStack isLiteral typed vs types) {n : ℕ} {t : StackType} (ht : types[n]? = some t) :
    ∃ v, vs[n]? = some v ∧ Fits isLiteral typed v t := by
  induction h generalizing n with
  | nil => cases ht
  | @cons v u vs types hv _ ih =>
    cases n with
    | zero =>
      cases ht
      exact ⟨v, rfl, hv⟩
    | succ n => exact ih ht

theorem Fits.of_means {v : Value} {t t' : StackType} (h : Fits isLiteral typed v t)
    (ht : ∀ T, Means t T → Means t' T) : Fits isLiteral typed v t' := by
  obtain ⟨T, hT, hv⟩ := h
  exact ⟨T, ht T hT, hv⟩

theorem Fits.pair {v : Value} {t : StackType} (h : Fits isLiteral typed v t)
    (ht : t.typeID = some "pair") :
    ∃ a b p, v = .pair a b ∧ unpackComb t = .ok p ∧ Fits isLiteral typed a p.first ∧
      Fits isLiteral typed b p.second := by
  obtain ⟨T, hT, hv⟩ := h
  obtain ⟨p, A, B, rfl, hp, hA, hB⟩ := hT.pairID ht
  cases hv with
  | pair ha hb => exact ⟨_, _, p, rfl, hp, ⟨A, hA, ha⟩, ⟨B, hB, hb⟩⟩

theorem Fits.bool {v : Value} {t : StackType} (h : Fits isLiteral typed v t)
    (ht : t.typeID = some "bool") : ∃ b, v = .bool b := by
  obtain ⟨T, hT, hv⟩ := h
  obtain rfl := hT.atomID ht (by decide)
  cases hv with
  | bool b => exact ⟨b, rfl⟩
  | atom other => exact absurd rfl other

theorem Fits.list {v : Value} {t : StackType} (h : Fits isLiteral typed v t)
    (ht : t.typeID = some "list") :
    ∃ items x A, v = .list items ∧ argOf t 0 = .ok x ∧ Means x A ∧
      ∀ a ∈ items, HasType isLiteral typed a A := by
  obtain ⟨T, hT, hv⟩ := h
  obtain ⟨x, A, rfl, hx, hA⟩ := hT.unaryID ht (u := .list) rfl
  cases hv with
  | list hitems => exact ⟨_, x, A, rfl, hx, hA, hitems⟩
  | handle hu => cases hu <;> contradiction

theorem Fits.set {v : Value} {t : StackType} (h : Fits isLiteral typed v t)
    (ht : t.typeID = some "set") :
    ∃ items x A, v = .set items ∧ argOf t 0 = .ok x ∧ Means x A ∧
      ∀ a ∈ items, HasType isLiteral typed a A := by
  obtain ⟨T, hT, hv⟩ := h
  obtain ⟨x, A, rfl, hx, hA⟩ := hT.unaryID ht (u := .set) rfl
  cases hv with
  | set hitems => exact ⟨_, x, A, rfl, hx, hA, hitems⟩
  | handle hu => cases hu <;> contradiction

theorem Fits.option {v : Value} {t : StackType} (h : Fits isLiteral typed v t)
    (ht : t.typeID = some "option") :
    ∃ x A, argOf t 0 = .ok x ∧ Means x A ∧
      (v = .nothing ∨ ∃ a, v = .just a ∧ HasType isLiteral typed a A) := by
  obtain ⟨T, hT, hv⟩ := h
  obtain ⟨x, A, rfl, hx, hA⟩ := hT.unaryID ht (u := .option) rfl
  cases hv with
  | nothing => exact ⟨x, A, hx, hA, .inl rfl⟩
  | just ha => exact ⟨x, A, hx, hA, .inr ⟨_, rfl, ha⟩⟩
  | handle hu => cases hu <;> contradiction

theorem Fits.or {v : Value} {t : StackType} (h : Fits isLiteral typed v t)
    (ht : t.typeID = some "or") :
    ∃ x y, argOf t 0 = .ok x ∧ argOf t 1 = .ok y ∧
      ((∃ a, v = .left a ∧ Fits isLiteral typed a x) ∨
        ∃ b, v = .right b ∧ Fits isLiteral typed b y) := by
  obtain ⟨T, hT, hv⟩ := h
  obtain ⟨x, y, A, B, rfl, hx, hy, hA, hB⟩ := hT.binaryID ht (u := .or) rfl
  cases hv with
  | left ha => exact ⟨x, y, hx, hy, .inl ⟨_, rfl, A, hA, ha⟩⟩
  | right hb => exact ⟨x, y, hx, hy, .inr ⟨_, rfl, B, hB, hb⟩⟩
  | map hu => cases hu <;> contradiction

theorem Fits.map {v : Value} {t : StackType} (h : Fits isLiteral typed v t)
    (ht : t.typeID = some "map" ∨ t.typeID = some "big_map") :
    ∃ entries x y A B, v = .map entries ∧ argOf t 0 = .ok x ∧ argOf t 1 = .ok y ∧ Means x A ∧
      Means y B ∧ (∀ e ∈ entries, HasType isLiteral typed e.1 A) ∧
      ∀ e ∈ entries, HasType isLiteral typed e.2 B := by
  obtain ⟨T, hT, hv⟩ := h
  obtain ht | ht := ht
  · obtain ⟨x, y, A, B, rfl, hx, hy, hA, hB⟩ := hT.binaryID ht (u := .map) rfl
    cases hv with
    | map _ hk hv => exact ⟨_, x, y, A, B, rfl, hx, hy, hA, hB, hk, hv⟩
  · obtain ⟨x, y, A, B, rfl, hx, hy, hA, hB⟩ := hT.binaryID ht (u := .bigMap) rfl
    cases hv with
    | map _ hk hv => exact ⟨_, x, y, A, B, rfl, hx, hy, hA, hB, hk, hv⟩

theorem Fits.lambda {v : Value} {t : StackType} (h : Fits isLiteral typed v t)
    (ht : t.typeID = some "lambda") :
    ∃ x y A B, argOf t 0 = .ok x ∧ argOf t 1 = .ok y ∧ Means x A ∧ Means y B ∧
      HasType isLiteral typed v (.binary .lambda A B) := by
  obtain ⟨T, hT, hv⟩ := h
  obtain ⟨x, y, A, B, rfl, hx, hy, hA, hB⟩ := hT.binaryID ht (u := .lambda) rfl
  exact ⟨x, y, A, B, hx, hy, hA, hB, hv⟩

/-! ## Results -/

variable {i : Instruction} {stack : List StackType} {vs : List Value} {r : ReturnType}
  {E : Halt → Prop}

theorem Sound.push {v : Value} {vs' : List Value} {t : StackType} {tail : List StackType}
    (hv : Fits isLiteral typed v t) (hvs : FitsStack isLiteral typed vs' tail) :
    Sound isLiteral typed E (.stack (t :: tail)) (.ok (v :: vs')) := List.Forall₂.cons hv hvs

/-- A result that is annotated. -/
theorem Sound.pushVar {v : Value} {vs' : List Value} {t : StackType} {tail : List StackType}
    {d : Option JSString} (h : Typechecker.push (annotateVar i stack t d) tail = .ok r)
    (hv : Fits isLiteral typed v t) (hvs : FitsStack isLiteral typed vs' tail) :
    Sound isLiteral typed E r (.ok (v :: vs')) := by
  obtain ⟨t', ht', rfl⟩ := push_eq_ok h
  exact Sound.push (hv.of_means fun T hT => hT.annotateVar ht') hvs

theorem Sound.pushResult {v : Value} {vs' : List Value} {t : StackType} {tail : List StackType}
    (h : Typechecker.push (annotateResult i stack t) tail = .ok r)
    (hv : Fits isLiteral typed v t) (hvs : FitsStack isLiteral typed vs' tail) :
    Sound isLiteral typed E r (.ok (v :: vs')) := by
  obtain ⟨t', ht', rfl⟩ := push_eq_ok h
  exact Sound.push (hv.of_means fun T hT => hT.annotateResult ht') hvs

variable (hvs : FitsStack isLiteral typed vs stack)

/-! ## The stack -/

include hvs

theorem DUP_sound (h : typeDUP i stack = .ok r) :
    Sound isLiteral typed E r (stepDUP i.args vs) := by
  obtain ⟨n, hn, h⟩ := Except.bind_eq_ok.mp h
  split at h
  · cases h
  · rename_i hpos
    obtain ⟨t, ht, -, h⟩ := argAt_eq_ok h
    split at h
    · cases h
    · cases h
      obtain ⟨v, hv, hfits⟩ := hvs.getElem? ht
      rw [stepDUP, countOf_of_count hn, Except.ok_bind, if_neg hpos, hv]
      exact Sound.push hfits hvs

theorem SWAP_sound (h : typeSWAP i stack = .ok r) :
    Sound isLiteral typed E r (stepSWAP vs) := by
  obtain ⟨a, b, tail, rfl, -, -, h⟩ := args2_eq_ok h
  obtain ⟨_, -, h⟩ := Except.bind_eq_ok.mp h
  cases h
  obtain ⟨v, vs', hv, hvs', rfl⟩ := FitsStack.cons_iff.mp hvs
  obtain ⟨w, ws, hw, hws, rfl⟩ := FitsStack.cons_iff.mp hvs'
  exact Sound.push hw (List.Forall₂.cons hv hws)

theorem DROP_sound (h : typeDROP i stack = .ok r) :
    Sound isLiteral typed E r (stepDROP i.args vs) := by
  obtain ⟨_, -, h⟩ := Except.bind_eq_ok.mp h
  obtain ⟨n, hn, h⟩ := Except.bind_eq_ok.mp h
  obtain ⟨_, hdepth, h⟩ := Except.bind_eq_ok.mp h
  cases h
  rw [stepDROP, countOf_of_count hn, Except.ok_bind, hvs.length]
  unfold assertDepth at hdepth
  split at hdepth
  · cases hdepth
  · rename_i hlen
    rw [if_neg hlen]
    exact hvs.drop n

theorem DIG_sound (h : typeDIG i stack = .ok r) :
    Sound isLiteral typed E r (stepDIG i.args vs) := by
  obtain ⟨_, -, h⟩ := Except.bind_eq_ok.mp h
  obtain ⟨e, he, h⟩ := Except.bind_eq_ok.mp h
  obtain ⟨n, hn, h⟩ := Except.bind_eq_ok.mp h
  obtain ⟨t, ht, -, h⟩ := argAt_eq_ok h
  cases h
  obtain ⟨v, hv, hfits⟩ := hvs.getElem? ht
  rw [stepDIG, argument_of_arg he, Except.ok_bind, numeral_of_natOf hn, orStuck, Except.ok_bind, hv]
  exact Sound.push hfits ((hvs.take n).append (hvs.drop (n + 1)))

theorem DUG_sound (h : typeDUG i stack = .ok r)
    (hlen : ∀ e n, i.arg 0 = .ok e → natOf e = .ok n → n < stack.length) :
    Sound isLiteral typed E r (stepDUG i.args vs) := by
  obtain ⟨_, -, h⟩ := Except.bind_eq_ok.mp h
  obtain ⟨e, he, h⟩ := Except.bind_eq_ok.mp h
  obtain ⟨n, hn, h⟩ := Except.bind_eq_ok.mp h
  obtain ⟨t, ht, -, h⟩ := argAt_eq_ok h
  cases h
  have hlen := hlen e n he hn
  rw [stepDUG, argument_of_arg he, Except.ok_bind, numeral_of_natOf hn, orStuck, Except.ok_bind]
  cases stack with
  | nil => cases ht
  | cons a tail =>
    cases ht
    obtain ⟨v, vs', hv, hvs', rfl⟩ := FitsStack.cons_iff.mp hvs
    dsimp only
    rw [hvs'.length, if_neg (by rw [List.length_cons] at hlen; omega)]
    exact (hvs'.take n).append (List.Forall₂.cons hv (hvs'.drop n))

theorem RENAME_sound (h : typeRENAME i stack = .ok r) : Sound isLiteral typed E r (.ok vs) := by
  obtain ⟨s, tail, rfl, -, h⟩ := args1_eq_ok h
  obtain ⟨v, vs', hv, hvs', rfl⟩ := FitsStack.cons_iff.mp hvs
  exact Sound.pushVar h hv hvs'

theorem CAST_sound (h : typeCAST i stack = .ok r) : Sound isLiteral typed E r (.ok vs) := by
  obtain ⟨_, -, h⟩ := Except.bind_eq_ok.mp h
  obtain ⟨s, tail, rfl, -, h⟩ := args1_eq_ok h
  obtain ⟨t, -, h⟩ := Except.bind_eq_ok.mp h
  obtain ⟨_, -, h⟩ := Except.bind_eq_ok.mp h
  obtain ⟨_, heq, h⟩ := Except.bind_eq_ok.mp h
  cases h
  obtain ⟨v, vs', hv, hvs', rfl⟩ := FitsStack.cons_iff.mp hvs
  exact Sound.push (hv.of_means fun T => (means_of_ensureTypesEqual heq T).mpr) hvs'

/-! ## Pairs -/

omit hvs in
/-- The components of a comb keep their meanings. -/
theorem pairFields_means {ia : UnpackedAnnotations} {k : ℕ} {s l : List StackType}
    (h : pairFields i stack ia k s = .ok l) :
    List.Forall₂ (fun t t' => ∀ T, Means t T → Means t' T) s l := by
  induction s generalizing k l with
  | nil =>
    cases h
    exact .nil
  | cons t s ih =>
    obtain ⟨va, -, h⟩ := Except.bind_eq_ok.mp h
    obtain ⟨field, hfield, h⟩ := Except.bind_eq_ok.mp h
    obtain ⟨fields, hfields, h⟩ := Except.bind_eq_ok.mp h
    cases h
    exact .cons (fun T hT => hT.annotate hfield) (ih hfields)

omit hvs in
theorem unpairFields_means {arg : StackType} {ia : UnpackedAnnotations} {k : ℕ}
    {s l : List StackType} (h : unpairFields i stack arg ia k s = .ok l) :
    List.Forall₂ (fun t t' => ∀ T, Means t T → Means t' T) s l := by
  induction s generalizing k l with
  | nil =>
    cases h
    exact .nil
  | cons t s ih =>
    obtain ⟨field, hfield, h⟩ := Except.bind_eq_ok.mp h
    obtain ⟨fields, hfields, h⟩ := Except.bind_eq_ok.mp h
    cases h
    exact .cons (fun T hT => hT.annotateField hfield) (ih hfields)

omit hvs in
theorem FitsStack.of_means {types types' : List StackType}
    (h : List.Forall₂ (fun t t' => ∀ T, Means t T → Means t' T) types types') {vs : List Value}
    (hvs : FitsStack isLiteral typed vs types) : FitsStack isLiteral typed vs types' := by
  induction h generalizing vs with
  | nil => exact hvs
  | cons ht _ ih =>
    obtain ⟨v, vs', hv, hvs', rfl⟩ := FitsStack.cons_iff.mp hvs
    exact List.Forall₂.cons (hv.of_means ht) (ih hvs')

omit hvs in
/-- Two or more values make a comb of the type that their types make. -/
theorem combValue_fits {types : List StackType} {vs : List Value}
    (hvs : FitsStack isLiteral typed vs types) (htwo : 2 ≤ types.length) :
    ∃ v, combValue vs = some v ∧ Fits isLiteral typed v (ofPrim "pair" types) := by
  induction types generalizing vs with
  | nil => simp only [List.length_nil] at htwo; omega
  | cons t types ih =>
    obtain ⟨v, vs', ⟨T, hT, hv⟩, hvs', rfl⟩ := FitsStack.cons_iff.mp hvs
    cases types with
    | nil => simp only [List.length_singleton] at htwo; omega
    | cons u types =>
      obtain ⟨w, ws, ⟨U, hU, hw⟩, hws, rfl⟩ := FitsStack.cons_iff.mp hvs'
      cases types with
      | nil =>
        cases hws
        exact ⟨.pair v w, rfl, .pair T U, .ofPair hT hU, .pair hv hw⟩
      | cons x types =>
        obtain ⟨c, hc, W, hW, hcW⟩ := ih hvs' (by simp only [List.length_cons]; omega)
        obtain ⟨y, ys, -, -, rfl⟩ := FitsStack.cons_iff.mp hws
        refine ⟨.pair v c, ?_, .pair T W, ?_, .pair hv hcW⟩
        · show (combValue (w :: y :: ys)).bind (fun c => some (Value.pair v c)) = _
          rw [hc, Option.bind_some]
        · exact .pair (t := ofPrim "pair" (t :: u :: x :: types)) rfl rfl hT hW

theorem PAIR_sound (h : typePAIR i stack = .ok r) :
    Sound isLiteral typed E r (stepPAIR i.args vs) := by
  obtain ⟨n, hn, h⟩ := Except.bind_eq_ok.mp h
  split at h
  · cases h
  · rename_i htwo
    split at h
    · cases h
    · rename_i hlen
      obtain ⟨ia, -, h⟩ := Except.bind_eq_ok.mp h
      obtain ⟨fields, hfields, h⟩ := Except.bind_eq_ok.mp h
      obtain ⟨t, ht, rfl⟩ := push_eq_ok h
      have hmeans := pairFields_means hfields
      have hcount : fields.length = n := by
        rw [← hmeans.length_eq, List.length_take]
        omega
      obtain ⟨v, hv, hfits⟩ := combValue_fits (FitsStack.of_means hmeans (hvs.take n)) (by omega)
      rw [stepPAIR, countOf_of_count hn, Except.ok_bind, hvs.length, if_neg hlen, hv]
      exact Sound.push (hfits.of_means fun T hT => hT.annotate ht) (hvs.drop n)

omit hvs in
/-- What `UNPAIR` takes off a comb type, the machine takes off its values. -/
theorem parts_fits {v : Value} {t : StackType} (hv : Fits isLiteral typed v t)
    (ht : t.typeID = some "pair") {n m : ℕ} (htwo : 2 ≤ m) {fields : List StackType}
    (h : getN i stack n t m = .ok fields) :
    ∃ parts, v.parts m = some parts ∧ FitsStack isLiteral typed parts fields := by
  induction m generalizing v t fields with
  | zero => omega
  | succ m ih =>
    obtain ⟨a, b, p, rfl, hp, ha, hb⟩ := hv.pair ht
    rw [getN, hp, Except.ok_bind] at h
    obtain rfl | ⟨k, rfl⟩ : m = 1 ∨ ∃ k, m = k + 2 := by
      obtain _ | _ | k := m
      · omega
      · exact .inl rfl
      · exact .inr ⟨k, rfl⟩
    · rw [if_neg (by omega), if_pos rfl] at h
      cases h
      exact ⟨[a, b], rfl, .cons ha (.cons hb .nil)⟩
    · rw [if_neg (by omega), if_neg (by omega)] at h
      split at h
      · rename_i hpair
        obtain ⟨fields', hfields', h⟩ := Except.bind_eq_ok.mp h
        cases h
        obtain ⟨parts, hparts, hfits⟩ := ih hb (typeID_of_isPairType.mp hpair) (by omega) hfields'
        refine ⟨a :: parts, ?_, .cons ha hfits⟩
        rw [Value.parts, hparts]
        · rfl
        · omega
      · cases h

theorem UNPAIR_sound (h : typeUNPAIR i stack = .ok r) :
    Sound isLiteral typed E r (stepUNPAIR i.args vs) := by
  obtain ⟨n, hn, h⟩ := Except.bind_eq_ok.mp h
  split at h
  · cases h
  · rename_i htwo
    obtain ⟨s, tail, rfl, hid, h⟩ := args1_eq_ok h
    obtain ⟨ia, -, h⟩ := Except.bind_eq_ok.mp h
    obtain ⟨fields, hfields, h⟩ := Except.bind_eq_ok.mp h
    obtain ⟨fields', hfields', h⟩ := Except.bind_eq_ok.mp h
    cases h
    obtain ⟨v, vs', hv, hvs', rfl⟩ := FitsStack.cons_iff.mp hvs
    obtain ⟨parts, hparts, hfits⟩ := parts_fits hv (typeID_eq hid) (by omega) hfields
    rw [stepUNPAIR, countOf_of_count hn, Except.ok_bind]
    dsimp only
    rw [hparts]
    exact (FitsStack.of_means (unpairFields_means hfields') hfits).append hvs'

theorem field_sound (second : Bool) (h : typeField i stack second = .ok r) :
    Sound isLiteral typed E r (stepField second vs) := by
  obtain ⟨s, tail, rfl, hid, h⟩ := args1_eq_ok h
  obtain ⟨p, hp, h⟩ := Except.bind_eq_ok.mp h
  obtain ⟨ia, -, h⟩ := Except.bind_eq_ok.mp h
  obtain ⟨t, ht, rfl⟩ := push_eq_ok h
  obtain ⟨v, vs', hv, hvs', rfl⟩ := FitsStack.cons_iff.mp hvs
  obtain ⟨a, b, q, rfl, hq, ha, hb⟩ := hv.pair (typeID_eq hid)
  cases hp.symm.trans hq
  cases second with
  | true => exact Sound.push (hb.of_means fun T hT => hT.annotateField ht) hvs'
  | false => exact Sound.push (ha.of_means fun T hT => hT.annotateField ht) hvs'

omit hvs in
theorem nth_fits {n m : ℕ} {v : Value} {t : StackType} (hv : Fits isLiteral typed v t)
    (ht : t.typeID = some "pair" ∨ m = 0) {field : StackType}
    (h : getNth i stack n t m = .ok field) :
    ∃ w, v.nth m = some w ∧ Fits isLiteral typed w field := by
  induction m using Nat.twoStepInduction generalizing v t with
  | zero =>
    cases h
    exact ⟨v, by rw [Value.nth], hv⟩
  | one =>
    obtain ⟨a, b, p, rfl, hp, ha, -⟩ := hv.pair (ht.resolve_right (by omega))
    rw [getNth, hp] at h
    cases h
    exact ⟨a, rfl, ha⟩
  | more k ih =>
    obtain ⟨a, b, p, rfl, hp, -, hb⟩ := hv.pair (ht.resolve_right (by omega))
    rw [getNth, hp, Except.ok_bind] at h
    split at h
    · rename_i hpair
      exact ih hb (.inl (typeID_of_isPairType.mp hpair)) h
    · split at h
      · rename_i hk
        cases h
        exact ⟨b, by rw [Value.nth, hk, Value.nth], hb⟩
      · cases h

omit hvs in
theorem setNth_fits {n m : ℕ} {x v : Value} {u t : StackType} (hx : Fits isLiteral typed x u)
    (hv : Fits isLiteral typed v t) (ht : t.typeID = some "pair" ∨ m = 0) {out : StackType}
    (h : updateNth i stack u n t m = .ok out) :
    ∃ w, x.setNth v m = some w ∧ Fits isLiteral typed w out := by
  have hwith {p : Comb} {a b : StackType} {c d : Value} (hc : Fits isLiteral typed c a)
      (hd : Fits isLiteral typed d b) : Fits isLiteral typed (.pair c d) (p.withArgs a b) := by
    obtain ⟨A, hA, hc⟩ := hc
    obtain ⟨B, hB, hd⟩ := hd
    exact ⟨.pair A B, .pair (t := p.withArgs a b) rfl rfl hA hB, .pair hc hd⟩
  induction m using Nat.twoStepInduction generalizing v t out with
  | zero =>
    cases h
    exact ⟨x, by rw [Value.setNth], hx⟩
  | one =>
    obtain ⟨a, b, p, rfl, hp, -, hb⟩ := hv.pair (ht.resolve_right (by omega))
    rw [updateNth, hp] at h
    cases h
    exact ⟨.pair x b, rfl, hwith hx hb⟩
  | more k ih =>
    obtain ⟨a, b, p, rfl, hp, ha, hb⟩ := hv.pair (ht.resolve_right (by omega))
    rw [updateNth, hp, Except.ok_bind] at h
    split at h
    · rename_i hpair
      obtain ⟨inner, hinner, h⟩ := Except.bind_eq_ok.mp h
      cases h
      obtain ⟨w, hw, hfits⟩ := ih hb (.inl (typeID_of_isPairType.mp hpair)) hinner
      exact ⟨.pair a w, by rw [Value.setNth, hw]; rfl, hwith ha hfits⟩
    · split at h
      · rename_i hk
        cases h
        exact ⟨.pair a x, by rw [Value.setNth, hk, Value.setNth]; rfl, hwith ha hx⟩
      · cases h

/-! ## Constructors -/

theorem SOME_sound (h : typeSOME i stack = .ok r) :
    Sound isLiteral typed E r (stepWrap .just vs) := by
  obtain ⟨s, tail, rfl, -, h⟩ := args1_eq_ok h
  obtain ⟨v, vs', ⟨T, hT, hv⟩, hvs', rfl⟩ := FitsStack.cons_iff.mp hvs
  exact Sound.pushResult h ⟨.unary .option T, .ofUnary rfl hT, .just hv⟩ hvs'

omit hvs in
/-- The type that an instruction names. -/
theorem means_typeArg {k : ℕ} {t : StackType}
    (hargs : ∀ e, i.arg k = .ok e → ∃ T, tyOf e = some T) (h : i.typeArg k = .ok t) :
    ∃ T, Means t T := by
  obtain ⟨e, he, h⟩ := Except.bind_eq_ok.mp h
  cases h
  obtain ⟨T, hT⟩ := hargs e he
  exact ⟨T, means_of_tyOf hT⟩

theorem side_sound (left : Bool) (hargs : ∀ e, i.arg 0 = .ok e → ∃ T, tyOf e = some T)
    (h : typeSide i stack left = .ok r) :
    Sound isLiteral typed E r (stepWrap (if left then .left else .right) vs) := by
  obtain ⟨s, tail, rfl, -, h⟩ := args1_eq_ok h
  obtain ⟨ia, -, h⟩ := Except.bind_eq_ok.mp h
  obtain ⟨va, -, h⟩ := Except.bind_eq_ok.mp h
  obtain ⟨given, hgiven, h⟩ := Except.bind_eq_ok.mp h
  obtain ⟨t, ht, h⟩ := Except.bind_eq_ok.mp h
  obtain ⟨other, hother, h⟩ := Except.bind_eq_ok.mp h
  obtain ⟨or', hor, rfl⟩ := push_eq_ok h
  obtain ⟨v, vs', ⟨S, hS, hv⟩, hvs', rfl⟩ := FitsStack.cons_iff.mp hvs
  obtain ⟨T, hT⟩ := means_typeArg hargs ht
  have hS := hS.annotate hgiven
  have hT := hT.annotate hother
  cases left with
  | true =>
    exact Sound.push ⟨.binary .or S T, (Means.ofBinary rfl hS hT).annotate hor, .left hv⟩ hvs'
  | false =>
    exact Sound.push ⟨.binary .or T S, (Means.ofBinary rfl hT hS).annotate hor, .right hv⟩ hvs'

theorem NONE_sound (hargs : ∀ e, i.arg 0 = .ok e → ∃ T, tyOf e = some T)
    (h : typeEmpty i stack "option" = .ok r) : Sound isLiteral typed E r (.ok (.nothing :: vs)) := by
  obtain ⟨t, ht, h⟩ := Except.bind_eq_ok.mp h
  obtain ⟨_, -, h⟩ := Except.bind_eq_ok.mp h
  obtain ⟨T, hT⟩ := means_typeArg hargs ht
  exact Sound.pushResult h ⟨.unary .option T, .ofUnary rfl hT, .nothing⟩ hvs

theorem NIL_sound (hargs : ∀ e, i.arg 0 = .ok e → ∃ T, tyOf e = some T)
    (h : typeEmpty i stack "list" = .ok r) : Sound isLiteral typed E r (.ok (.list [] :: vs)) := by
  obtain ⟨t, ht, h⟩ := Except.bind_eq_ok.mp h
  obtain ⟨_, -, h⟩ := Except.bind_eq_ok.mp h
  obtain ⟨T, hT⟩ := means_typeArg hargs ht
  exact Sound.pushResult h
    ⟨.unary .list T, .ofUnary rfl hT, .list fun a ha => absurd ha List.not_mem_nil⟩ hvs

omit hvs in
/-- The arguments of an instruction, as those of a type. -/
theorem argOf_args {p : String} {k : ℕ} {t : StackType} (h : i.typeArg k = .ok t) :
    argOf (ofPrim p (StackType.ofExprs (i.args.getD []))) k = .ok t := by
  obtain ⟨e, he, h⟩ := Except.bind_eq_ok.mp h
  cases h
  unfold Instruction.arg at he
  split at he
  · rename_i e' he'
    cases he
    have hk : (StackType.ofExprs (i.args.getD []))[k]? = some (ofExpr e) := by
      rw [StackType.ofExprs_eq_map, List.getElem?_map, he']
      rfl
    rw [ofPrim, argOf]
    rw [hk]
  · cases he

theorem EMPTY_SET_sound (hargs : ∀ e, i.arg 0 = .ok e → ∃ T, tyOf e = some T)
    (h : typeEMPTY_SET i stack = .ok r) : Sound isLiteral typed E r (.ok (.set [] :: vs)) := by
  obtain ⟨t, ht, h⟩ := Except.bind_eq_ok.mp h
  obtain ⟨_, -, h⟩ := Except.bind_eq_ok.mp h
  obtain ⟨_, -, h⟩ := Except.bind_eq_ok.mp h
  obtain ⟨T, hT⟩ := means_typeArg hargs ht
  exact Sound.pushResult h
    ⟨.unary .set T, .unary rfl rfl (argOf_args ht) hT, .set fun a ha => absurd ha List.not_mem_nil⟩
    hvs

theorem EMPTY_MAP_sound (hargs : ∀ e, i.arg 0 = .ok e → ∃ T, tyOf e = some T)
    (hargs' : ∀ e, i.arg 1 = .ok e → ∃ T, tyOf e = some T)
    (h : typeEMPTY_MAP i stack = .ok r) : Sound isLiteral typed E r (.ok (.map [] :: vs)) := by
  obtain ⟨t, ht, h⟩ := Except.bind_eq_ok.mp h
  obtain ⟨_, -, h⟩ := Except.bind_eq_ok.mp h
  obtain ⟨_, -, h⟩ := Except.bind_eq_ok.mp h
  obtain ⟨u, hu, h⟩ := Except.bind_eq_ok.mp h
  obtain ⟨_, -, h⟩ := Except.bind_eq_ok.mp h
  obtain ⟨T, hT⟩ := means_typeArg hargs ht
  obtain ⟨U, hU⟩ := means_typeArg hargs' hu
  exact Sound.pushResult h
    ⟨.binary .map T U, .binary rfl rfl (argOf_args ht) (argOf_args hu) hT hU,
      .map (.inl rfl) (fun e he => absurd he List.not_mem_nil)
        fun e he => absurd he List.not_mem_nil⟩ hvs

theorem UNIT_sound (hunit : isLiteral "unit" (.prim "Unit" none none))
    (h : typeUNIT i stack = .ok r) :
    Sound isLiteral typed E r (.ok (.atom "unit" (.prim "Unit" none none) :: vs)) :=
  Sound.pushResult h ⟨.atom "unit", .ofLeaf (by decide), .atom (by decide) hunit⟩ hvs

theorem CONS_sound (h : typeCONS i stack = .ok r) :
    Sound isLiteral typed E r (stepCONS vs) := by
  obtain ⟨a, l, tail, rfl, -, hid, h⟩ := args2_eq_ok h
  obtain ⟨elt, helt, h⟩ := Except.bind_eq_ok.mp h
  obtain ⟨_, heq, h⟩ := Except.bind_eq_ok.mp h
  obtain ⟨v, vs', ⟨T, hT, hv⟩, hvs', rfl⟩ := FitsStack.cons_iff.mp hvs
  obtain ⟨w, ws, hw, hws, rfl⟩ := FitsStack.cons_iff.mp hvs'
  obtain ⟨items, x, A, rfl, hx, hA, hitems⟩ := hw.list (typeID_eq hid)
  cases helt.symm.trans hx
  obtain rfl := ((means_of_ensureTypesEqual heq T).mp hT).unique hA
  exact Sound.pushVar h ⟨.unary .list T, .ofUnary rfl hA, .list (List.forall_mem_cons.mpr ⟨hv, hitems⟩)⟩
    hws

theorem FAILWITH_sound {ctx : Context} (hE : ∀ v, E (.failed v)) (h : typeFAILWITH i stack ctx = .ok r) :
    Sound isLiteral typed E r (stepFAILWITH vs) := by
  obtain ⟨s, tail, rfl, -, h⟩ := args1_eq_ok h
  obtain ⟨v, vs', hv, hvs', rfl⟩ := FitsStack.cons_iff.mp hvs
  exact hE v

/-! ## Combs -/

theorem getNth_sound {args : List Expr} (h : typeGetNth i stack args = .ok r) {order} :
    Sound isLiteral typed E r (stepGET order (some args) vs) := by
  unfold typeGetNth at h
  split at h
  · rename_i e rest
    obtain ⟨n, hn, h⟩ := Except.bind_eq_ok.mp h
    obtain ⟨s, tail, rfl, hid, h⟩ := args1_eq_ok h
    obtain ⟨field, hfield, h⟩ := Except.bind_eq_ok.mp h
    obtain ⟨v, vs', hv, hvs', rfl⟩ := FitsStack.cons_iff.mp hvs
    obtain ⟨w, hw, hfits⟩ := nth_fits hv (.inl (typeID_eq hid)) hfield
    rw [stepGET, List.getElem?_cons_zero, orStuck, Except.ok_bind, numeral_of_natOf hn, orStuck,
      Except.ok_bind, hw]
    exact Sound.pushVar h hfits hvs'
  · cases h

theorem updateNth_sound {args : List Expr} (h : typeUpdateNth i stack args = .ok r) {order} :
    Sound isLiteral typed E r (stepUPDATE order (some args) vs) := by
  unfold typeUpdateNth at h
  split at h
  · rename_i e rest
    obtain ⟨n, hn, h⟩ := Except.bind_eq_ok.mp h
    obtain ⟨x, s, tail, rfl, -, hid, h⟩ := args2_eq_ok h
    obtain ⟨out, hout, h⟩ := Except.bind_eq_ok.mp h
    obtain ⟨v, vs', hv, hvs', rfl⟩ := FitsStack.cons_iff.mp hvs
    obtain ⟨w, ws, hw, hws, rfl⟩ := FitsStack.cons_iff.mp hvs'
    obtain ⟨u, hu, hfits⟩ := setNth_fits hv hw (.inl (typeID_eq hid)) hout
    rw [stepUPDATE, List.getElem?_cons_zero, orStuck, Except.ok_bind, numeral_of_natOf hn, orStuck,
      Except.ok_bind, hu]
    exact Sound.pushVar h hfits hws
  · cases h

/-! ## Collections -/

variable {order : String → Expr → Expr → Ordering}

theorem COMPARE_sound (hint : ∀ o, HasType isLiteral typed (orderValue o) (.atom "int"))
    (hequal : ∀ a b tail, stack = a :: b :: tail → assertScalarTypesEqual a b false = .ok ())
    (h : typeCOMPARE i stack = .ok r) : Sound isLiteral typed E r (stepCOMPARE order vs) := by
  obtain ⟨a, b, tail, rfl, -, -, h⟩ := args2_eq_ok h
  obtain ⟨_, hcomparable, h⟩ := Except.bind_eq_ok.mp h
  obtain ⟨_, -, h⟩ := Except.bind_eq_ok.mp h
  obtain ⟨v, vs', ⟨T, hT, hv⟩, hvs', rfl⟩ := FitsStack.cons_iff.mp hvs
  obtain ⟨w, ws, ⟨U, hU, hw⟩, hws, rfl⟩ := FitsStack.cons_iff.mp hvs'
  obtain rfl := ((means_of_scalarTypesEqual (hequal a b tail rfl) T).mp hT).unique hU
  obtain ⟨o, ho⟩ := compareValues_of_hasType order (comparable_of_ensure hT hcomparable)
    hv hw
  rw [stepCOMPARE, ho]
  exact Sound.pushVar h ⟨.atom "int", .ofLeaf (by decide), hint o⟩ hws

omit hvs in
/-- A key that the checker accepts has its place in a collection. -/
theorem locate_key (order : String → Expr → Expr → Ordering) {α : Type} (key : α → Value) {a x : StackType} {l : List α} {A : Ty} {k : Value}
    (hk : Fits isLiteral typed k a) (hcomparable : ensure i stack .comparable a = .ok ())
    (heq : ensureTypesEqual i stack a x = .ok ()) (hA : Means x A)
    (hl : ∀ y ∈ l, HasType isLiteral typed (key y) A) :
    HasType isLiteral typed k A ∧ Means a A ∧
      ∃ before found after, locate order key k l = some (before, found, after) ∧
        (∀ y ∈ before, y ∈ l) ∧ (∀ y ∈ found, y ∈ l) ∧ ∀ y ∈ after, y ∈ l := by
  obtain ⟨T, hT, hk⟩ := hk
  obtain rfl := ((means_of_ensureTypesEqual heq T).mp hT).unique hA
  exact ⟨hk, hT, locate_of_hasType order key (comparable_of_ensure hT hcomparable) hk hl⟩

theorem MEM_sound (h : typeMEM i stack = .ok r) : Sound isLiteral typed E r (stepMEM order vs) := by
  obtain ⟨a, c, tail, rfl, -, hid, h⟩ := args2_eq_ok h
  obtain ⟨_, hcomparable, h⟩ := Except.bind_eq_ok.mp h
  obtain ⟨x, hx, h⟩ := Except.bind_eq_ok.mp h
  obtain ⟨_, heq, h⟩ := Except.bind_eq_ok.mp h
  obtain ⟨k, vs', hk, hvs', rfl⟩ := FitsStack.cons_iff.mp hvs
  obtain ⟨w, ws, hw, hws, rfl⟩ := FitsStack.cons_iff.mp hvs'
  have hbool (b : Bool) : Fits isLiteral typed (.bool b) (leaf "bool") :=
    ⟨.atom "bool", .ofLeaf (by decide), .bool b⟩
  obtain ⟨p, hp, hname⟩ := typeID_mem hid (List.cons_ne_nil _ _)
  obtain rfl | hp := List.mem_cons.mp hp
  · obtain ⟨items, x', A, rfl, hx', hA, hitems⟩ := hw.set hname
    cases hx.symm.trans hx'
    obtain ⟨-, -, before, found, after, hloc, -⟩ := locate_key order id hk hcomparable
      heq hA hitems
    rw [stepMEM, hloc]
    exact Sound.pushVar h (hbool _) hws
  · have hname' : c.typeID = some "map" ∨ c.typeID = some "big_map" := by
      obtain rfl | hp := List.mem_cons.mp hp
      · exact .inl hname
      · exact .inr (List.mem_singleton.mp hp ▸ hname)
    obtain ⟨entries, x', y, A, B, rfl, hx', -, hA, -, hkeys, -⟩ := hw.map hname'
    cases hx.symm.trans hx'
    obtain ⟨-, -, before, found, after, hloc, -⟩ := locate_key order Prod.fst hk
      hcomparable heq hA hkeys
    rw [stepMEM, hloc]
    exact Sound.pushVar h (hbool _) hws

theorem getMap_sound (h : typeGetMap i stack = .ok r) :
    Sound isLiteral typed E r (stepGET order none vs) := by
  obtain ⟨a, c, tail, rfl, -, hid, h⟩ := args2_eq_ok h
  obtain ⟨_, hcomparable, h⟩ := Except.bind_eq_ok.mp h
  obtain ⟨x, hx, h⟩ := Except.bind_eq_ok.mp h
  obtain ⟨_, heq, h⟩ := Except.bind_eq_ok.mp h
  obtain ⟨value, hvalue, h⟩ := Except.bind_eq_ok.mp h
  obtain ⟨k, vs', hk, hvs', rfl⟩ := FitsStack.cons_iff.mp hvs
  obtain ⟨w, ws, hw, hws, rfl⟩ := FitsStack.cons_iff.mp hvs'
  obtain ⟨p, hp, hname⟩ := typeID_mem hid (List.cons_ne_nil _ _)
  have hname' : c.typeID = some "map" ∨ c.typeID = some "big_map" := by
    obtain rfl | hp := List.mem_cons.mp hp
    · exact .inl hname
    · exact .inr (List.mem_singleton.mp hp ▸ hname)
  obtain ⟨entries, x', y, A, B, rfl, hx', hy, hA, hB, hkeys, hvalues⟩ := hw.map hname'
  cases hx.symm.trans hx'
  cases hvalue.symm.trans hy
  obtain ⟨-, -, before, found, after, hloc, -, hfound, -⟩ := locate_key order Prod.fst
    hk hcomparable heq hA hkeys
  rw [stepGET, hloc]
  refine Sound.pushVar h ⟨.unary .option B, .ofUnary rfl hB, ?_⟩ hws
  cases found with
  | none => exact .nothing
  | some e => exact .just (hvalues e (hfound e rfl))

omit hvs in
theorem updated_means {p : String} {args : List StackType} {t : StackType}
    (h : updated i stack p args = .ok t) :
    ∃ args', t = ofPrim p args' ∧ List.Forall₂ (fun t t' => ∀ T, Means t T → Means t' T) args args' := by
  obtain ⟨kept, hkept, h⟩ := Except.bind_eq_ok.mp h
  cases h
  refine ⟨kept, rfl, ?_⟩
  refine (Except.mapM_eq_ok.mp hkept).imp ?_
  intro a b hab T hT
  exact hT.annotate hab

omit hvs in
theorem primOf_of_typeID {t : StackType} {p : String} (h : t.typeID = some p) (hp : p ≠ "pair") :
    t.primOf = some p := by
  cases t with
  | seq items => exact absurd (Option.some.inj h).symm hp
  | prim q args annots r => exact h
  | _ => cases h

omit hvs in
/-- The collection after `UPDATE`. -/
theorem push_updated {p : String} {args tail : List StackType}
    (h : push (do annotateVar i stack (← updated i stack p args) none) tail = .ok r) :
    ∃ args' t, r = .stack (t :: tail) ∧
      List.Forall₂ (fun t t' => ∀ T, Means t T → Means t' T) args args' ∧
        ∀ T, Means (ofPrim p args') T → Means t T := by
  obtain ⟨t, ht, rfl⟩ := push_eq_ok h
  obtain ⟨u, hu, ht⟩ := Except.bind_eq_ok.mp ht
  obtain ⟨args', rfl, hargs⟩ := updated_means hu
  exact ⟨args', t, rfl, hargs, fun T hT => hT.annotateVar ht⟩

/-- `UPDATE` of a set. -/
theorem updateSet_sound {key value set x : StackType} {tail : List StackType}
    (hstack : stack = key :: value :: set :: tail) (hname : value.typeID = some "bool")
    (hset : set.typeID = some "set") (hcomparable : ensure i stack .comparable key = .ok ())
    (hx : argOf set 0 = .ok x) (heq : ensureTypesEqual i stack key x = .ok ())
    (h : push (do annotateVar i stack (← updated i stack "set" [key]) none) tail = .ok r) :
    Sound isLiteral typed E r (stepUPDATE order none vs) := by
  subst hstack
  obtain ⟨k, vs', hk, hvs', rfl⟩ := FitsStack.cons_iff.mp hvs
  obtain ⟨w, ws, hw, hws, rfl⟩ := FitsStack.cons_iff.mp hvs'
  obtain ⟨c, cs, hc, hcs, rfl⟩ := FitsStack.cons_iff.mp hws
  obtain ⟨b, rfl⟩ := hw.bool hname
  obtain ⟨items, x', A, rfl, hx', hA, hitems⟩ := hc.set hset
  cases hx.symm.trans hx'
  obtain ⟨hkA, hkey, before, found, after, hloc, hbefore, -, hafter⟩ := locate_key order id
    hk hcomparable heq hA hitems
  obtain ⟨args', t, rfl, hargs, ht⟩ := push_updated h
  cases hargs with
  | cons hk' hnil =>
    cases hnil
    rw [stepUPDATE, hloc]
    refine Sound.push ⟨.unary .set A, ht _ (.ofUnary rfl (hk' A hkey)), .set fun v hv => ?_⟩ hcs
    obtain hv | hv := List.mem_append.mp hv
    · obtain hv | hv := List.mem_append.mp hv
      · exact hitems v (hbefore v hv)
      · cases b with
        | true => exact List.mem_singleton.mp hv ▸ hkA
        | false => cases hv
    · exact hitems v (hafter v hv)

/-- `UPDATE` of a map, with a value of the type of its values. -/
theorem updateEntry_sound {p : String} {key value map x type y : StackType} {tail : List StackType}
    {u : Michelson.Binary} (hp : Michelson.Binary.ofName p = some u) (hu : u = .map ∨ u = .bigMap)
    (hstack : stack = key :: value :: map :: tail) (hname : value.typeID = some "option")
    (hmap : map.typeID = some "map" ∨ map.typeID = some "big_map")
    (hcomparable : ensure i stack .comparable key = .ok ()) (hx : argOf map 0 = .ok x)
    (heq : ensureTypesEqual i stack key x = .ok ()) (htype : argOf value 0 = .ok type)
    (hy : argOf map 1 = .ok y) (hequal : assertScalarTypesEqual type y false = .ok ())
    (h : push (do annotateVar i stack (← updated i stack p [key, type]) none) tail = .ok r) :
    Sound isLiteral typed E r (stepUPDATE order none vs) := by
  subst hstack
  obtain ⟨k, vs', hk, hvs', rfl⟩ := FitsStack.cons_iff.mp hvs
  obtain ⟨w, ws, hw, hws, rfl⟩ := FitsStack.cons_iff.mp hvs'
  obtain ⟨c, cs, hc, hcs, rfl⟩ := FitsStack.cons_iff.mp hws
  obtain ⟨entries, x', y', A, B, rfl, hx', hy', hA, hB, hkeys, hvalues⟩ := hc.map hmap
  cases hx.symm.trans hx'
  cases hy.symm.trans hy'
  obtain ⟨type', C, htype', hC, hvalue⟩ := hw.option hname
  cases htype.symm.trans htype'
  obtain rfl := ((means_of_scalarTypesEqual hequal C).mp hC).unique hB
  obtain ⟨hkA, hkey, before, found, after, hloc, hbefore, -, hafter⟩ := locate_key order Prod.fst
    hk hcomparable heq hA hkeys
  obtain ⟨args', t, rfl, hargs, ht⟩ := push_updated h
  cases hargs with
  | cons hk' hargs =>
    cases hargs with
    | cons hv' hnil =>
      cases hnil
      have hmeans := ht _ (.ofBinary hp (hk' A hkey) (hv' C hC))
      obtain rfl | ⟨v, rfl, hv⟩ := hvalue
      · rw [stepUPDATE, hloc]
        have hmem : ∀ e ∈ before ++ after, e ∈ entries := fun e he =>
          (List.mem_append.mp he).elim (hbefore e) (hafter e)
        exact Sound.push ⟨_, hmeans, .map hu (fun e he => hkeys e (hmem e he))
          fun e he => hvalues e (hmem e he)⟩ hcs
      · rw [stepUPDATE, hloc]
        have hmem : ∀ e ∈ before ++ (k, v) :: after, e = (k, v) ∨ e ∈ entries := by
          intro e he
          obtain he | he := List.mem_append.mp he
          · exact .inr (hbefore e he)
          · exact (List.mem_cons.mp he).imp_right (hafter e)
        refine Sound.push ⟨_, hmeans, .map hu (fun e he => ?_) fun e he => ?_⟩ hcs
        · obtain rfl | he := hmem e he
          · exact hkA
          · exact hkeys e he
        · obtain rfl | he := hmem e he
          · exact hv
          · exact hvalues e he

theorem updateMap_sound (h : typeUpdateMap i stack = .ok r)
    (hequal : ∀ key value map tail x y, stack = key :: value :: map :: tail →
      value.typeID = some "option" → argOf value 0 = .ok x → argOf map 1 = .ok y →
        assertScalarTypesEqual x y false = .ok ()) :
    Sound isLiteral typed E r (stepUPDATE order none vs) := by
  obtain ⟨key, value, tail, rfl, -, hid, h⟩ := args2_eq_ok h
  obtain ⟨_, hcomparable, h⟩ := Except.bind_eq_ok.mp h
  obtain ⟨p, hp, hname⟩ := typeID_mem hid (List.cons_ne_nil _ _)
  have hthird {t : StackType} (ht : (key :: value :: tail)[2]? = some t) :
      ∃ tail', tail = t :: tail' := by
    cases tail with
    | nil => cases ht
    | cons u tail => cases ht; exact ⟨tail, rfl⟩
  obtain rfl | hp := List.mem_cons.mp hp
  · rw [if_pos (primOf_of_typeID hname (by decide))] at h
    obtain ⟨set, hset, hsetid, h⟩ := argAt_eq_ok h
    obtain ⟨tail', rfl⟩ := hthird hset
    obtain ⟨x, hx, h⟩ := Except.bind_eq_ok.mp h
    obtain ⟨_, heq, h⟩ := Except.bind_eq_ok.mp h
    exact updateSet_sound hvs rfl hname (typeID_eq hsetid) hcomparable hx heq h
  · obtain rfl := List.mem_singleton.mp hp
    rw [if_neg (by rw [primOf_of_typeID hname (by decide)]; decide)] at h
    obtain ⟨map, hmap, hmapid, h⟩ := argAt_eq_ok h
    obtain ⟨tail', rfl⟩ := hthird hmap
    obtain ⟨x, hx, h⟩ := Except.bind_eq_ok.mp h
    obtain ⟨_, heq, h⟩ := Except.bind_eq_ok.mp h
    obtain ⟨type, htype, h⟩ := Except.bind_eq_ok.mp h
    have hmap' : map.typeID = some "map" ∨ map.typeID = some "big_map" := by
      obtain ⟨q, hq, hqname⟩ := typeID_mem hmapid (List.cons_ne_nil _ _)
      obtain rfl | hq := List.mem_cons.mp hq
      · exact .inl hqname
      · exact .inr (List.mem_singleton.mp hq ▸ hqname)
    obtain ⟨k, vs', hk, hvs', rfl⟩ := FitsStack.cons_iff.mp hvs
    obtain ⟨w, ws, hw, hws, rfl⟩ := FitsStack.cons_iff.mp hvs'
    obtain ⟨c, cs, hc, hcs, rfl⟩ := FitsStack.cons_iff.mp hws
    obtain ⟨-, -, y, -, -, -, -, hy, -⟩ := hc.map hmap'
    have hsame := hequal key value map tail' type y rfl hname htype hy
    split at h
    · exact updateEntry_sound hvs rfl (.inl rfl) rfl hname hmap' hcomparable hx heq htype hy hsame h
    · obtain ⟨_, -, h⟩ := Except.bind_eq_ok.mp h
      exact updateEntry_sound hvs rfl (.inr rfl) rfl hname hmap' hcomparable hx heq htype hy hsame h

/-! ## Functions -/

theorem APPLY_sound (h : typeAPPLY i stack = .ok r)
    (htwo : ∀ a f tail p, stack = a :: f :: tail → argOf f 0 = .ok p →
      ∃ x y, typeArgs p = .ok [x, y]) :
    Sound isLiteral typed E r (stepAPPLY vs) := by
  obtain ⟨a, f, tail, rfl, -, hid, h⟩ := args2_eq_ok h
  obtain ⟨_, -, h⟩ := Except.bind_eq_ok.mp h
  obtain ⟨_, -, h⟩ := Except.bind_eq_ok.mp h
  obtain ⟨pt, hpt, h⟩ := Except.bind_eq_ok.mp h
  obtain ⟨x, y, hxy⟩ := htwo a f tail pt rfl hpt
  have hfirst : typeArgAt pt 0 = .ok x := by rw [typeArgAt, hxy]; rfl
  have hsecond : typeArgAt pt 1 = .ok y := by rw [typeArgAt, hxy]; rfl
  split at h
  · cases h
  · rename_i hpair
    have hpair : pt.isPairType = true := by simpa using hpair
    rw [hfirst, Except.ok_bind, hsecond, Except.ok_bind] at h
    obtain ⟨_, heq, h⟩ := Except.bind_eq_ok.mp h
    obtain ⟨t, ht, rfl⟩ := push_eq_ok h
    obtain ⟨res, hres, ht⟩ := Except.bind_eq_ok.mp ht
    obtain ⟨v, vs', ⟨C, hC, hv⟩, hvs', rfl⟩ := FitsStack.cons_iff.mp hvs
    obtain ⟨w, ws, hw, hws, rfl⟩ := FitsStack.cons_iff.mp hvs'
    obtain ⟨pt', res', P, R, hpt', hres', hP, hR, hfun⟩ := hw.lambda (typeID_eq hid)
    cases hpt.symm.trans hpt'
    cases hres.symm.trans hres'
    have hcomb : ∃ q, unpackComb pt = .ok q ∧ q.first = x ∧ q.second = y := by
      cases pt with
      | seq items =>
        cases hxy
        exact ⟨_, rfl, rfl, rfl⟩
      | prim p args annots r =>
        cases args with
        | none => cases hxy
        | some args =>
          cases hxy
          exact ⟨_, rfl, rfl, rfl⟩
      | _ => cases hpair
    obtain ⟨q, hq, rfl, rfl⟩ := hcomb
    obtain ⟨A, B, rfl, hA, hB⟩ := (means_pair_iff hpair hq).mp hP
    obtain rfl := ((means_of_ensureTypesEqual heq C).mp hC).unique hA
    have happlied : Fits isLiteral typed (.applied w v) t :=
      ⟨.binary .lambda B R, (Means.ofBinary rfl hB hR).annotateVar ht, .applied hfun hv⟩
    cases hfun with
    | lambda hcode => exact Sound.push happlied hws
    | applied hf hc => exact Sound.push happlied hws
    | map hu => cases hu <;> contradiction

end

end Typechecker
