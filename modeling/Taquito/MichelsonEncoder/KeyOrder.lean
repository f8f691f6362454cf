import Taquito.MichelsonEncoder.Alternatives
import Taquito.MichelsonEncoder.Keys

/-!
# The order in which keys are compared

The `compare` methods do not compare the keys that two values denote but the values as they are
given: numbers as doubles, texts by their code units, an option by whether it is falsy. `Tells`
says that this order is that of the keys. Two values are told apart if the values of their
components are (`MType.Told`), and `everywhere_compared_iff` says that this is what the methods of
a type and of its components need to compare two values as the protocol orders their keys.
-/

open Js

namespace MichelsonEncoder

/-! ## Values of types without components -/

/-- What is the same, before and behind is so for two keys too. -/
structure Tells {α : Type} [LinearOrder α] (same before after : Bool) (k k' : α) : Prop where
  alike : same = true ↔ k = k'
  ahead : k < k' → before = true ∧ after = false
  behind : k' < k → after = true ∧ before = false

theorem orderBy_eq_cmp_iff {α : Type} [LinearOrder α] {same before after : Bool} {k k' : α} :
    (BaseType.orderBy same before = cmp k k' ∧ BaseType.orderBy same after = cmp k' k)
      ↔ Tells same before after k k' := by
  unfold BaseType.orderBy
  rcases lt_trichotomy k k' with hlt | rfl | hlt
  · rw [(cmp_eq_lt_iff k k').mpr hlt, (cmp_eq_gt_iff k' k).mpr hlt]
    constructor
    · rintro ⟨hbefore, hafter⟩
      refine ⟨iff_of_false ?_ hlt.ne, fun _ => ?_, fun h => absurd h hlt.asymm⟩
      · rintro rfl
        cases hbefore
      · cases same <;> cases before <;> cases after <;> simp_all
    · rintro ⟨hsame, hbefore, -⟩
      obtain ⟨hb, ha⟩ := hbefore hlt
      have hs : same = false := Bool.eq_false_iff.mpr fun h => hlt.ne (hsame.mp h)
      rw [hs, hb, ha]
      exact ⟨rfl, rfl⟩
  · rw [cmp_self_eq_eq]
    constructor
    · rintro ⟨hbefore, -⟩
      refine ⟨iff_of_true ?_ rfl, fun h => absurd h (lt_irrefl k), fun h => absurd h (lt_irrefl k)⟩
      cases same <;> cases before <;> simp_all
    · rintro ⟨hsame, -, -⟩
      rw [hsame.mpr rfl]
      exact ⟨rfl, rfl⟩
  · rw [(cmp_eq_gt_iff k k').mpr hlt, (cmp_eq_lt_iff k' k).mpr hlt]
    constructor
    · rintro ⟨hbefore, hafter⟩
      refine ⟨iff_of_false ?_ hlt.ne', fun h => absurd h hlt.asymm, fun _ => ?_⟩
      · rintro rfl
        cases hbefore
      · cases same <;> cases before <;> cases after <;> simp_all
    · rintro ⟨hsame, -, hafter⟩
      obtain ⟨ha, hb⟩ := hafter hlt
      have hs : same = false := Bool.eq_false_iff.mpr fun h => hlt.ne' (hsame.mp h)
      rw [hs, hb, ha]
      exact ⟨rfl, rfl⟩

namespace BaseType

section given

variable (host : Host)

/-- The octets of a key of P256 that are compared. -/
def abscissa (v : Val) : Bytes :=
  ((host.b58.decode (v.text host)).getD []).drop (Utils.Prefix.P2PK.bytes.length + 1)

/-- The curve of a key, as its text begins. -/
def curve (v : Val) : JSString := (v.text host).take 4

/-- The values are the same as they are given. -/
def same (t : BaseType) (x y : Val) : Bool :=
  match t with
  | .nat | .int | .mutez => sameNumber (toNumber host x) (toNumber host y)
  | .bool => x.truthy = y.truthy
  | .unit => true
  | .key =>
    if curve host x = js "p2pk" ∧ curve host y = js "p2pk" then abscissa host x = abscissa host y
    else sameValue x y
  | _ => sameValue x y

/-- One value stands before the other as they are given. -/
def before (t : BaseType) (x y : Val) : Bool :=
  match t with
  | .nat | .int | .mutez => lessNumber (toNumber host x) (toNumber host y)
  | .bool => !x.truthy
  | .unit => false
  | .address =>
    let implicit (v : Val) := (js "tz").isPrefixOf (v.text host)
    (implicit x && !implicit y) || (implicit x == implicit y && lessValue host x y)
  | .key =>
    if curve host x = js "edpk" ∧ curve host y ≠ js "edpk" then true
    else if curve host x = js "sppk" ∧ curve host y ≠ js "sppk" then curve host y ≠ js "edpk"
    else if curve host x = js "p2pk" then
      curve host y = js "p2pk" ∧ abscissa host x < abscissa host y
    else lessValue host x y
  | _ => lessValue host x y

/-- Two values are told apart, or equal, as their keys are. -/
def Told (t : BaseType) (x y : Val) (k k' : t.Key) : Prop :=
  match t with
  | .bool | .unit => True
  | t => Tells (t.same host x y) (t.before host x y) (t.before host y x) k k'

end given

/-! ### What is compared of keys -/

section compare

variable {host : Host}

theorem isSymbol_of_jsonText {v : Val} {s : JSString} (h : v.jsonText host = some s) :
    isSymbol v = false := by
  cases v <;> first | rfl | cases h

theorem compareDefault_eq {x y : Val} (hx : isSymbol x = false) (hy : isSymbol y = false) :
    compareDefault host x y = .ok (orderBy (sameValue x y) (lessValue host x y)) := by
  rw [compareDefault, hx, hy]
  cases sameValue x y <;> rfl

theorem compareAddresses_eq (a b : JSString) :
    compareAddresses (.string a) (.string b)
      = .ok (orderBy (address.same host (.string a) (.string b))
          (address.before host (.string a) (.string b))) := by
  have htext : ∀ s, (Val.string s).text host = s := fun s => by rw [Val.text]
  have hless : lessValue host (.string a) (.string b) = decide (a < b) := by
    show decide ((Val.string a).text host < (Val.string b).text host) = _
    rw [htext, htext]
  show (if _ then _ else _) = _
  unfold before
  dsimp only
  rw [htext, htext, hless]
  have hsame : address.same host (.string a) (.string b) = decide (a = b) := rfl
  rw [hsame]
  by_cases hab : a = b
  · subst hab
    cases (js "tz").isPrefixOf a <;> simp [orderBy, compareTexts]
  · cases (js "tz").isPrefixOf a <;> cases (js "tz").isPrefixOf b <;>
      simp [orderBy, compareTexts, hab]

theorem compareKeys_eq {a b : JSString} {as bs : Bytes} (ha : host.b58.decode a = some as)
    (hb : host.b58.decode b = some bs) :
    compareKeys host (.string a) (.string b)
      = .ok (orderBy (key.same host (.string a) (.string b))
          (key.before host (.string a) (.string b))) := by
  have htext : ∀ s, (Val.string s).text host = s := fun s => by rw [Val.text]
  have hless : lessValue host (.string a) (.string b) = decide (a < b) := by
    show decide ((Val.string a).text host < (Val.string b).text host) = _
    rw [htext, htext]
  have hsame : sameValue (.string a) (.string b) = decide (a = b) := rfl
  rw [compareKeys]
  unfold same before abscissa curve
  dsimp only
  rw [htext, htext, hless, hsame, ha, hb]
  have hcurves : js "edpk" ≠ js "sppk" ∧ js "edpk" ≠ js "p2pk" ∧ js "sppk" ≠ js "p2pk" := by decide
  obtain ⟨hes, hep, hsp⟩ := hcurves
  have hne : a.take 4 ≠ b.take 4 → decide (a = b) = false := by
    intro h
    refine decide_eq_false ?_
    rintro rfl
    exact h rfl
  by_cases hed : a.take 4 = js "edpk"
  · by_cases hed' : b.take 4 = js "edpk"
    · simp [hed, hed', hes, hep, compareTexts]
    · have hab := hne fun h => hed' (h.symm.trans hed)
      simp [hed, hed', hep, hab, orderBy]
  · by_cases hspa : a.take 4 = js "sppk"
    · by_cases hspb : b.take 4 = js "sppk"
      · simp [hspa, hspb, hes.symm, hsp, compareTexts]
      · have hab := hne fun h => hspb (h.symm.trans hspa)
        by_cases hed' : b.take 4 = js "edpk"
        · simp [hspa, hed', hes.symm, hes, hsp, hab, orderBy]
        · simp [hspa, hspb, hed', hes.symm, hsp, hab, orderBy]
    · by_cases hpa : a.take 4 = js "p2pk"
      · by_cases hpb : b.take 4 = js "p2pk"
        · simp [hpa, hpb, hep.symm, hsp.symm, orderBy]
        · have hab := hne fun h => hpb (h.symm.trans hpa)
          simp [hpa, hpb, hep.symm, hsp.symm, hab, orderBy]
      · simp [hed, hspa, hpa, compareTexts]

theorem sameNumber_comm (m n : BigNumber) : sameNumber m n = sameNumber n m := by
  match m, n with
  | .finite p, .finite q => exact decide_eq_decide.mpr eq_comm
  | .infinity neg, .infinity neg' => exact decide_eq_decide.mpr eq_comm
  | .finite _, .infinity _ | .infinity _, .finite _ | .finite _, .nan | .infinity _, .nan
  | .nan, .finite _ | .nan, .infinity _ | .nan, .nan => rfl

theorem sameValue_comm (x y : Val) : sameValue x y = sameValue y x := by
  cases x <;> cases y <;>
    first
    | rfl
    | exact decide_eq_decide.mpr eq_comm
    | exact sameNumber_comm _ _

/-- Whether values are the same does not depend on their order. -/
theorem same_comm (t : BaseType) (x y : Val) : t.same host x y = t.same host y x := by
  cases t with
  | nat | int | mutez => exact sameNumber_comm _ _
  | bool => exact decide_eq_decide.mpr eq_comm
  | unit => rfl
  | key =>
    unfold same
    dsimp only
    by_cases hboth : curve host x = js "p2pk" ∧ curve host y = js "p2pk"
    · rw [if_pos hboth, if_pos hboth.symm]
      exact decide_eq_decide.mpr eq_comm
    · rw [if_neg hboth, if_neg fun h => hboth h.symm]
      exact sameValue_comm x y
  | _ => exact sameValue_comm x y

/-- A symbol is no key of any type but `unit` and `bool`. -/
theorem isSymbol_of_keyOf {t : BaseType} (hunit : t ≠ .unit) (hbool : t ≠ .bool) {x : Val}
    {e : Encoded} {k : t.Key} (he : t.encodeObject host x = .ok e) (hk : t.keyOf host e = some k) :
    isSymbol x = false := by
  cases x with
  | unit =>
    cases t with
    | unit => exact absurd rfl hunit
    | bool => exact absurd rfl hbool
    | string | timestamp | operation =>
      cases he
      cases hk
    | _ => cases he
  | _ => rfl

theorem decode_of_publicKeyKey {b58 : Base58Check} {s : JSString} {k : List ℕ}
    (h : publicKeyKey b58 s = some k) : ∃ bs, b58.decode s = some bs := by
  obtain ⟨key, hkey, -⟩ := Option.map_eq_some_iff.mp h
  obtain ⟨bs, hbs, -⟩ := Option.bind_eq_some_iff.mp hkey
  exact ⟨bs, hbs⟩

/-- What `compare` compares of the values of keys. -/
theorem compare_eq {t : BaseType} {x y : Val} {e e' : Encoded} {k k' : t.Key}
    (he : t.encodeObject host x = .ok e) (hk : t.keyOf host e = some k)
    (he' : t.encodeObject host y = .ok e') (hk' : t.keyOf host e' = some k') :
    t.compare host x y = .ok (orderBy (t.same host x y) (t.before host x y)) := by
  have hdefault : t ≠ .unit → t ≠ .bool → compareDefault host x y
      = .ok (orderBy (sameValue x y) (lessValue host x y)) := fun hunit hbool =>
    compareDefault_eq (isSymbol_of_keyOf hunit hbool he hk) (isSymbol_of_keyOf hunit hbool he' hk')
  cases t with
  | nat | int | mutez | unit => rfl
  | bool => rfl
  | string | tx_rollup_l2_address | bytes | timestamp | key_hash | signature | chain_id =>
    exact hdefault (fun h => nomatch h) (fun h => nomatch h)
  | address =>
    obtain ⟨a, rfl, -, rfl⟩ := validText_ok he
    obtain ⟨b, rfl, -, rfl⟩ := validText_ok he'
    exact compareAddresses_eq a b
  | key =>
    obtain ⟨a, rfl, -, rfl⟩ := validText_ok he
    obtain ⟨b, rfl, -, rfl⟩ := validText_ok he'
    obtain ⟨as, has⟩ := decode_of_publicKeyKey hk
    obtain ⟨bs, hbs⟩ := decode_of_publicKeyKey hk'
    exact compareKeys_eq has hbs
  | operation | never | bls12_381_fr | bls12_381_g1 | bls12_381_g2 | chest | chest_key => cases k

/-- **The values of a type without components are compared as their keys** if they are told apart.
-/
theorem compared_iff_told {t : BaseType} {x y : Val} {e e' : Encoded} {k k' : t.Key}
    (he : t.encodeObject host x = .ok e) (hk : t.keyOf host e = some k)
    (he' : t.encodeObject host y = .ok e') (hk' : t.keyOf host e' = some k') :
    (t.compare host x y = .ok (cmp k k') ∧ t.compare host y x = .ok (cmp k' k))
      ↔ t.Told host x y k k' := by
  have hiff : (t.compare host x y = .ok (cmp k k') ∧ t.compare host y x = .ok (cmp k' k))
      ↔ Tells (t.same host x y) (t.before host x y) (t.before host y x) k k' := by
    rw [compare_eq he hk he' hk', compare_eq he' hk' he hk, same_comm t y x, Except.ok.injEq,
      Except.ok.injEq]
    exact orderBy_eq_cmp_iff
  cases t with
  | bool =>
    refine iff_of_true (hiff.mpr ?_) trivial
    cases he
    cases he'
    have hbool : ∀ b : Bool, keyOf host .bool (encodeBool b) = some b := by
      intro b
      cases b <;> rfl
    cases Option.some.inj ((hbool _).symm.trans hk)
    cases Option.some.inj ((hbool _).symm.trans hk')
    show Tells (decide (x.truthy = y.truthy)) (!x.truthy) (!y.truthy) x.truthy y.truthy
    cases x.truthy <;> cases y.truthy <;>
      exact ⟨by decide, by decide, by decide⟩
  | unit => exact iff_of_true ⟨rfl, rfl⟩ trivial
  | _ => exact hiff

end compare

end BaseType

/-! ## Values of types with components -/

section components

variable (host : Host)

/-- A relation between two values and the keys that they denote, at every type and index. -/
abbrev KeyRelation := (t : MType) → ℕ → Val → Val → t.Key → t.Key → Prop

/-- The value of an alternative: under its label, unless it is an `or`. -/
def alternativeOf (t : Token) (x : Val) : Except EncoderError Val :=
  if t.kind = .or then .ok x else x.get t.annot

/-- A relation holds of two values and of the values of their components, where both have one. -/
def MType.Everywhere (R : KeyRelation) : (t : MType) → ℕ → Val → Val → t.Key → t.Key → Prop
  | .pair annots left right, idx, x, y, k, k' =>
    R (.pair annots left right) idx x y k k' ∧
      (∀ v w, componentOf (left.token host idx) x = .ok v →
        componentOf (left.token host idx) y = .ok w →
        left.Everywhere R idx v w (ofLex k).1 (ofLex k').1) ∧
      ∀ v w, componentOf (right.token host (idx + left.pairCount host idx)) x = .ok v →
        componentOf (right.token host (idx + left.pairCount host idx)) y = .ok w →
        right.Everywhere R (idx + left.pairCount host idx) v w (ofLex k).2 (ofLex k').2
  | .or annots left right, idx, x, y, k, k' =>
    R (.or annots left right) idx x y k k' ∧
      (∀ m m' v w, ofLex k = .inl m → ofLex k' = .inl m' →
        alternativeOf (left.token host idx) x = .ok v →
        alternativeOf (left.token host idx) y = .ok w → left.Everywhere R idx v w m m') ∧
      ∀ m m' v w, ofLex k = .inr m → ofLex k' = .inr m' →
        alternativeOf (right.token host (idx + left.orCount host idx)) x = .ok v →
        alternativeOf (right.token host (idx + left.orCount host idx)) y = .ok w →
        right.Everywhere R (idx + left.orCount host idx) v w m m'
  | .option annots component, idx, x, y, k, k' =>
    R (.option annots component) idx x y k k' ∧
      ∀ m m' : component.Key, k = (m : WithBot component.Key) → k' = (m' : WithBot component.Key) →
        component.Everywhere R 0 x y m m'
  | t, idx, x, y, k, k' => R t idx x y k k'

/-- `compare` orders two values as their keys. -/
def Compared : KeyRelation := fun t idx x y k k' =>
  (t.token host idx).compare x y = .ok (cmp k k') ∧ (t.token host idx).compare y x = .ok (cmp k' k)

/-- The first key of an object. -/
def firstKey (x : Val) : Option JSString := x.keys.toOption.bind List.head?

/-- Two values of a type without components are told apart; of two optional values at most one is
falsy, and it is the lesser one; two values of an `or` with one key have the same label. -/
def ToldApart : KeyRelation
  | .base _ t, _, x, y, k, k' => t.Told host x y k k'
  | .option _ _, _, x, y, k, k' => (x.truthy = false → k < k') ∧ (y.truthy = false → k' < k)
  | .or _ _ _, _, x, y, k, k' => k = k' → firstKey x = firstKey y
  | _, _, _, _, _, _ => True

end components

/-! ## The components of a value that denotes a key -/

section denotes

variable {host : Host}

/-- A pair denotes the keys of its components. -/
theorem denotes_pair {annots : Annots} {left right : MType} {idx : ℕ} {x : Val}
    {k : (MType.pair annots left right).Key} (h : Denotes host (.pair annots left right) idx x k) :
    ∃ v w, componentOf (left.token host idx) x = .ok v ∧
      componentOf (right.token host (idx + left.pairCount host idx)) x = .ok w ∧
      Denotes host left idx v (ofLex k).1 ∧
      Denotes host right (idx + left.pairCount host idx) w (ofLex k).2 := by
  obtain ⟨e, he, hk⟩ := h
  obtain ⟨v, hv, he⟩ := Except.bind_eq_ok.mp he
  obtain ⟨w, hw, he⟩ := Except.bind_eq_ok.mp he
  obtain ⟨l, hl, he⟩ := Except.bind_eq_ok.mp he
  obtain ⟨r, hr, he⟩ := Except.bind_eq_ok.mp he
  cases he
  rw [keyOf_pair] at hk
  obtain ⟨kl, hkl, hk⟩ := Option.bind_eq_some_iff.mp hk
  obtain ⟨kr, hkr, rfl⟩ := Option.map_eq_some_iff.mp hk
  exact ⟨v, w, hv, hw, ⟨l, hl, hkl⟩, ⟨r, hr, hkr⟩⟩

/-- An option denotes `None`, or the key of its component. -/
theorem denotes_option {annots : Annots} {component : MType} {idx : ℕ} {x : Val}
    {k : (MType.option annots component).Key} (h : Denotes host (.option annots component) idx x k) :
    (x.isNone = true ∧ k = (⊥ : WithBot component.Key)) ∨
      (x.isNone = false ∧ ∃ m : component.Key, k = (m : WithBot component.Key) ∧
        Denotes host component 0 x m) := by
  obtain ⟨e, he, hk⟩ := h
  have hdef : ((MType.option annots component).token host idx).EncodeObject x
      = OptionToken.EncodeObject (component.token host 0) x := rfl
  rw [hdef, OptionToken.EncodeObject] at he
  by_cases hnone : x.isNone = true
  · rw [if_pos hnone] at he
    cases he
    rw [keyOf_none] at hk
    exact Or.inl ⟨hnone, (Option.some.inj hk).symm⟩
  · rw [if_neg hnone] at he
    obtain ⟨c, hc, he⟩ := Except.bind_eq_ok.mp he
    cases he
    rw [keyOf_some] at hk
    obtain ⟨m, hm, rfl⟩ := Option.map_eq_some_iff.mp hk
    exact Or.inr ⟨Bool.eq_false_iff.mpr hnone, m, rfl, c, hc, hm⟩

/-- Where an `or` has found the alternative of a value, with what it encodes and the key of it. -/
inductive AtAlternative (host : Host) (left right : MType) (idx : ℕ) (x : Val) (label : JSString) :
    Encoded → left.Key ⊕ right.Key → Prop where
  | left {v e k} (hl : (left.token host idx).named label) (hget : x.get label = .ok v)
    (h : (left.token host idx).EncodeObject v = .ok e) (hk : left.keyOf host e = some k) :
    AtAlternative host left right idx x label (.prim "Left" (some [e])) (.inl k)
  | right {v e k} (hl : ¬(left.token host idx).named label)
    (hr : (right.token host (idx + left.orCount host idx)).named label) (hget : x.get label = .ok v)
    (h : (right.token host (idx + left.orCount host idx)).EncodeObject v = .ok e)
    (hk : right.keyOf host e = some k) :
    AtAlternative host left right idx x label (.prim "Right" (some [e])) (.inr k)
  | insideLeft {e k} (hl : ¬(left.token host idx).named label)
    (hr : ¬(right.token host (idx + left.orCount host idx)).named label)
    (hor : (left.token host idx).kind = .or) (h : (left.token host idx).EncodeObject x = .ok e)
    (hk : left.keyOf host e = some k) :
    AtAlternative host left right idx x label (.prim "Left" (some [e])) (.inl k)
  | insideRight {e k} (hl : ¬(left.token host idx).named label)
    (hr : ¬(right.token host (idx + left.orCount host idx)).named label)
    (hnull : (left.token host idx).kind = .or → (left.token host idx).EncodeObject x = .ok .null)
    (hor : (right.token host (idx + left.orCount host idx)).kind = .or)
    (h : (right.token host (idx + left.orCount host idx)).EncodeObject x = .ok e)
    (hk : right.keyOf host e = some k) :
    AtAlternative host left right idx x label (.prim "Right" (some [e])) (.inr k)

/-- An `or` denotes the key of one alternative. -/
theorem denotes_or {annots : Annots} {left right : MType} {idx : ℕ} {x : Val} {e : Encoded}
    {k : (MType.or annots left right).Key}
    (he : ((MType.or annots left right).token host idx).EncodeObject x = .ok e)
    (hk : (MType.or annots left right).keyOf host e = some k) :
    ∃ keys, x.keys = .ok keys ∧ AtAlternative host left right idx x (labelOf keys) e (ofLex k) := by
  obtain ⟨keys, hkeys, henc⟩ := encodesOr_of_encodeObject he
  refine ⟨keys, hkeys, ?_⟩
  cases henc with
  | left hl hget h =>
    rw [keyOf_left] at hk
    obtain ⟨m, hm, rfl⟩ := Option.map_eq_some_iff.mp hk
    exact .left hl hget h hm
  | right hl hr hget h =>
    rw [keyOf_right] at hk
    obtain ⟨m, hm, rfl⟩ := Option.map_eq_some_iff.mp hk
    exact .right hl hr hget h hm
  | insideLeft hl hr hor h hne =>
    rw [keyOf_left] at hk
    obtain ⟨m, hm, rfl⟩ := Option.map_eq_some_iff.mp hk
    exact .insideLeft hl hr hor h hm
  | insideRight hl hr hnull hor h hne =>
    rw [keyOf_right] at hk
    obtain ⟨m, hm, rfl⟩ := Option.map_eq_some_iff.mp hk
    exact .insideRight hl hr hnull hor h hm
  | nothing hl hr hnull hnull' => cases hk

theorem AtAlternative.exists_left {left right : MType} {idx : ℕ} {x : Val} {label : JSString}
    {e : Encoded} {k : left.Key} (h : AtAlternative host left right idx x label e (.inl k)) :
    ∃ e', e = .prim "Left" (some [e']) := by
  cases h <;> exact ⟨_, rfl⟩

theorem AtAlternative.exists_right {left right : MType} {idx : ℕ} {x : Val} {label : JSString}
    {e : Encoded} {k : right.Key} (h : AtAlternative host left right idx x label e (.inr k)) :
    ∃ e', e = .prim "Right" (some [e']) := by
  cases h <;> exact ⟨_, rfl⟩

end denotes

/-! ## Alternatives -/

section alternatives

variable {host : Host}

theorem comparable_token {t : MType} (h : t.isComparable = true) (idx : ℕ) :
    (t.token host idx).comparable = true := by
  cases t with
  | pair | or | option => rfl
  | base annots b => exact h
  | list | set | map | bigMap | contract | other => cases h

/-- The token that is found inside an alternative. -/
def findInside (t : Token) (label : JSString) : Option (Val → Val → Except EncoderError Ordering) :=
  if t.kind = .or then t.findToken label else none

theorem findToken_left {left right : ℕ → Token} {idx : ℕ} {label : JSString}
    (hl : (OrToken.tokens left right idx).1.named label)
    (hcomparable : (OrToken.tokens left right idx).1.comparable = true) :
    OrToken.findToken left right idx label = some (OrToken.tokens left right idx).1.compare :=
  if_pos ⟨hl, hcomparable⟩

theorem findToken_right {left right : ℕ → Token} {idx : ℕ} {label : JSString}
    (hl : ¬(OrToken.tokens left right idx).1.named label)
    (hr : (OrToken.tokens left right idx).2.named label)
    (hcomparable : (OrToken.tokens left right idx).2.comparable = true) :
    OrToken.findToken left right idx label = some (OrToken.tokens left right idx).2.compare :=
  (if_neg fun h => hl h.1).trans (if_pos ⟨hr, hcomparable⟩)

theorem findToken_inside {left right : ℕ → Token} {idx : ℕ} {label : JSString}
    (hl : ¬(OrToken.tokens left right idx).1.named label)
    (hr : ¬(OrToken.tokens left right idx).2.named label) :
    OrToken.findToken left right idx label
      = (findInside (OrToken.tokens left right idx).1 label).orElse fun _ =>
          findInside (OrToken.tokens left right idx).2 label :=
  (if_neg fun h => hl h.1).trans (if_neg fun h => hr h.1)

/-- Nothing is found under the label of a value that is encoded as nothing. -/
theorem findToken_eq_none {x : Val} {keys : List JSString} (hkeys : x.keys = .ok keys) (t : MType) :
    ∀ idx, ((t.token host idx).kind = .or → (t.token host idx).EncodeObject x = .ok .null) →
      findInside (t.token host idx) (labelOf keys) = none := by
  induction t using MType.inductLeaves with
  | leaf t ht =>
    intro idx _
    exact if_neg (MType.kind_ne_or ht idx)
  | or annots left right ihl ihr =>
    intro idx hnull
    obtain ⟨keys', hkeys', henc⟩ := encodesOr_of_encodeObject (hnull rfl)
    cases Except.ok.inj (hkeys.symm.trans hkeys')
    cases henc with
    | nothing hl hr hnullL hnullR =>
      show OrToken.findToken _ _ _ _ = none
      have hleft : findInside (OrToken.tokens (left.token host) (right.token host) idx).1
          (labelOf keys) = none := ihl idx hnullL
      have hright : findInside (OrToken.tokens (left.token host) (right.token host) idx).2
          (labelOf keys) = none := ihr _ hnullR
      rw [findToken_inside hl hr, hleft, hright]
      rfl

/-- The token of a value that denotes a key is found under its label. -/
theorem findToken_isSome {x : Val} {keys : List JSString} (hkeys : x.keys = .ok keys) (t : MType) :
    ∀ idx k, t.isComparable = true → (t.token host idx).kind = .or → Denotes host t idx x k →
      ((t.token host idx).findToken (labelOf keys)).isSome = true := by
  induction t using MType.inductLeaves with
  | leaf t ht =>
    intro idx k _ hor
    exact absurd hor (MType.kind_ne_or ht idx)
  | or annots left right ihl ihr =>
    intro idx k hcomparable _ hden
    obtain ⟨hcl, hcr⟩ := Bool.and_eq_true_iff.mp hcomparable
    obtain ⟨e, he, hk⟩ := hden
    obtain ⟨keys', hkeys', hat⟩ := denotes_or he hk
    cases Except.ok.inj (hkeys.symm.trans hkeys')
    show (OrToken.findToken (left.token host) (right.token host) idx (labelOf keys)).isSome = true
    clear he hk
    cases hat with
    | left hl hget h hm =>
      rw [findToken_left hl (comparable_token hcl _)]
      rfl
    | right hl hr hget h hm =>
      rw [findToken_right hl hr (comparable_token hcr _)]
      rfl
    | insideLeft hl hr hor h hm =>
      rw [findToken_inside hl hr]
      obtain ⟨compare, hcompare⟩ := Option.isSome_iff_exists.mp (ihl idx _ hcl hor ⟨_, h, hm⟩)
      have hfind : findInside (OrToken.tokens (left.token host) (right.token host) idx).1
          (labelOf keys) = some compare := (if_pos hor).trans hcompare
      rw [hfind]
      rfl
    | insideRight hl hr hnull hor h hm =>
      rw [findToken_inside hl hr]
      have hnone : findInside (OrToken.tokens (left.token host) (right.token host) idx).1
          (labelOf keys) = none := findToken_eq_none hkeys left idx hnull
      obtain ⟨compare, hcompare⟩ := Option.isSome_iff_exists.mp (ihr _ _ hcr hor ⟨_, h, hm⟩)
      have hfind : findInside (OrToken.tokens (left.token host) (right.token host) idx).2
          (labelOf keys) = some compare := (if_pos hor).trans hcompare
      rw [hnone, hfind]
      rfl

/-- Values with one label are compared by the token that is found under it. -/
theorem compare_or_of_label {left right : ℕ → Token} {idx : ℕ} {x y : Val} {keys keys' : List JSString}
    (hkeys : x.keys = .ok keys) (hkeys' : y.keys = .ok keys') (hlabel : keys.head? = keys'.head?) :
    OrToken.compare host left right idx x y
      = match OrToken.findToken left right idx (labelOf keys) with
        | some compare => do compare (← x.get (labelOf keys)) (← y.get (labelOf keys))
        | none => .ok .eq := by
  rw [OrToken.compare, hkeys, hkeys', Except.ok_bind, Except.ok_bind, if_pos hlabel]
  rfl

/-- Values with different labels are compared by the JSON texts of what they are encoded into. -/
theorem compare_or_of_labels {left right : ℕ → Token} {idx : ℕ} {x y : Val}
    {keys keys' : List JSString} {e e' : Encoded} (hkeys : x.keys = .ok keys)
    (hkeys' : y.keys = .ok keys') (hlabel : keys.head? ≠ keys'.head?)
    (he : OrToken.EncodeObject left right idx x = .ok e)
    (he' : OrToken.EncodeObject left right idx y = .ok e') :
    OrToken.compare host left right idx x y
      = .ok (if (e.toJson host).text < (e'.toJson host).text then .lt else .gt) := by
  rw [OrToken.compare, hkeys, hkeys', Except.ok_bind, Except.ok_bind, if_neg hlabel, he, he']
  rfl

/-! ### JSON texts of alternatives -/

/-- The text of an application begins with its name. -/
theorem exists_text_prim (p : String) (args : Option (List Encoded)) :
    ∃ rest, ((Encoded.prim p args).toJson host).text
      = js "\x7b\"prim\":" ++ stringify (js p) ++ rest := by
  cases args with
  | none => exact ⟨_, rfl⟩
  | some args => exact ⟨_, rfl⟩

/-- The text of a constructor around the text of what is in it. -/
theorem exists_text_wrap (p : String) :
    ∃ pre suf, ∀ e : Encoded, ((Encoded.prim p (some [e])).toJson host).text
      = pre ++ (e.toJson host).text ++ suf := by
  refine ⟨0x7B :: ((stringify (js "prim") ++ 0x3A :: stringify (js p)) ++
    0x2C :: (stringify (js "args") ++ [0x3A, 0x5B])), [0x5D, 0x7D], fun e => ?_⟩
  simp [Encoded.toJson, toJsons, Json.text, Json.moreItems, Json.moreFields]

/-- Applications of different names are told apart by their names. -/
theorem diverges_prim {p q : String} (h : Sorting.Diverges (stringify (js p)) (stringify (js q)))
    (args args' : Option (List Encoded)) :
    Sorting.Diverges ((Encoded.prim p args).toJson host).text
      ((Encoded.prim q args').toJson host).text := by
  obtain ⟨rest, hrest⟩ := @exists_text_prim host p args
  obtain ⟨rest', hrest'⟩ := @exists_text_prim host q args'
  rw [hrest, hrest']
  exact h.append _ rest rest'

theorem diverges_wrap {e e' : Encoded}
    (h : Sorting.Diverges (e.toJson host).text (e'.toJson host).text) (p : String) :
    Sorting.Diverges ((Encoded.prim p (some [e])).toJson host).text
      ((Encoded.prim p (some [e'])).toJson host).text := by
  obtain ⟨pre, suf, htext⟩ := @exists_text_wrap host p
  rw [htext, htext]
  exact h.append pre suf suf

/-- A pair is never made of `undefined`. -/
theorem encodeObject_pair_undefined (t : MType) : t.isPair = true → ∀ idx e,
    (t.token host idx).EncodeObject .undefined ≠ .ok e := by
  induction t with
  | pair annots left right ihl ihr =>
    intro _ idx e he
    obtain ⟨v, hv, he⟩ := Except.bind_eq_ok.mp he
    obtain ⟨w, -, he⟩ := Except.bind_eq_ok.mp he
    obtain ⟨l, hl, -⟩ := Except.bind_eq_ok.mp he
    by_cases hplain : (left.token host idx).isPlainPair = true
    · have hpair : left.isPair = true := by
        rw [MType.isPlainPair_token] at hplain
        cases left <;> first | rfl | cases hplain
      have hcomponent : componentOf (left.token host idx) .undefined = .ok .undefined :=
        if_pos hplain
      cases hcomponent.symm.trans hv
      exact ihl hpair idx l hl
    · have hcomponent : componentOf (left.token host idx) .undefined = .error .TypeError :=
        if_neg hplain
      cases hcomponent.symm.trans hv
  | _ => exact fun h => nomatch h

/-- `undefined` denotes the least key of a type, if it denotes one. -/
theorem diverges_of_undefined {t : MType} {idx : ℕ} (hor : (t.token host idx).kind ≠ .or) {y : Val}
    {e e' : Encoded} {k k' : t.Key} (he : (t.token host idx).EncodeObject .undefined = .ok e)
    (hk : t.keyOf host e = some k) (he' : (t.token host idx).EncodeObject y = .ok e')
    (hk' : t.keyOf host e' = some k') (hne : k ≠ k') :
    k < k' ∧ Sorting.Diverges (e.toJson host).text (e'.toJson host).text := by
  cases t with
  | base annots b =>
    cases b with
    | bool =>
      cases he
      cases he'
      cases hk
      cases hy : y.truthy with
      | false =>
        rw [hy] at hk'
        cases hk'
        exact absurd rfl hne
      | true =>
        rw [hy] at hk'
        cases hk'
        exact ⟨Bool.false_lt_true, diverges_prim ⟨[0x22], 70, 84, _, _, rfl, rfl, by decide⟩ none none⟩
    | unit => exact absurd rfl hne
    | string | timestamp =>
      cases he
      cases hk
    | operation | never | bls12_381_fr | bls12_381_g1 | bls12_381_g2 | chest | chest_key => cases k
    | _ => cases he
  | option annots component =>
    cases he
    rw [keyOf_none] at hk
    cases Option.some.inj hk
    rcases denotes_option ⟨e', he', hk'⟩ with ⟨-, rfl⟩ | ⟨hsome, m, rfl, -⟩
    · exact absurd rfl hne
    · have hdef : ((MType.option annots component).token host idx).EncodeObject y
          = OptionToken.EncodeObject (component.token host 0) y := rfl
      rw [hdef, OptionToken.EncodeObject, if_neg (Bool.eq_false_iff.mp hsome)] at he'
      obtain ⟨c, -, hc⟩ := Except.bind_eq_ok.mp he'
      cases hc
      exact ⟨WithBot.bot_lt_coe m,
        diverges_prim ⟨[0x22], 78, 83, _, _, rfl, rfl, by decide⟩ none (some [c])⟩
  | pair annots left right => exact absurd he (encodeObject_pair_undefined _ rfl idx e)
  | or => exact absurd rfl hor
  | list | set | map | bigMap | contract | other => cases k

/-- A value without keys has no fields. -/
theorem get_of_keys_nil {x : Val} (h : x.keys = .ok []) (label : JSString) :
    x.get label = .ok .undefined := by
  have hrange : ∀ n, Except.ok ((List.range n).map natText) = (.ok [] : Except EncoderError _) → n = 0 := by
    intro n hn
    have hlength := congrArg List.length (Except.ok.inj hn)
    rwa [List.length_map, List.length_range] at hlength
  cases x with
  | undefined | null => cases h
  | object fields =>
    have hlength := congrArg List.length (Except.ok.inj h)
    rw [length_objectKeys] at hlength
    obtain rfl := List.eq_nil_of_length_eq_zero hlength
    rfl
  | array items =>
    obtain rfl := List.eq_nil_of_length_eq_zero (hrange _ h)
    rw [Val.get]
    cases arrayIndex label <;> rfl
  | string s =>
    obtain rfl := List.eq_nil_of_length_eq_zero (hrange _ h)
    rw [Val.get]
    cases arrayIndex label <;> rfl
  | uint8Array bytes =>
    obtain rfl := List.eq_nil_of_length_eq_zero (hrange _ h)
    rw [Val.get]
    cases arrayIndex label <;> rfl
  | bool | number | double | bigNumber | unit | map => rfl

/-- One of two encoded values has the lesser key, and the lesser JSON text. -/
def Diverge (host : Host) {α : Type} [LinearOrder α] (k k' : α) (e e' : Encoded) : Prop :=
  (k < k' ∧ Sorting.Diverges (e.toJson host).text (e'.toJson host).text) ∨
    (k' < k ∧ Sorting.Diverges (e'.toJson host).text (e.toJson host).text)

theorem diverges_left_right (e e' : Encoded) :
    Sorting.Diverges ((Encoded.prim "Left" (some [e])).toJson host).text
      ((Encoded.prim "Right" (some [e'])).toJson host).text :=
  diverges_prim ⟨[0x22], 76, 82, _, _, rfl, rfl, by decide⟩ _ _

theorem Diverge.left {left right : MType} {m m' : left.Key} {e e' : Encoded}
    (h : Diverge host m m' e e') (annots : Annots) :
    Diverge host (toLex (.inl m) : (MType.or annots left right).Key)
      (toLex (.inl m') : (MType.or annots left right).Key) (.prim "Left" (some [e]))
      (.prim "Left" (some [e'])) :=
  h.imp (fun h => ⟨Sum.Lex.inl_lt_inl_iff.mpr h.1, diverges_wrap h.2 "Left"⟩)
    fun h => ⟨Sum.Lex.inl_lt_inl_iff.mpr h.1, diverges_wrap h.2 "Left"⟩

theorem Diverge.right {left right : MType} {m m' : right.Key} {e e' : Encoded}
    (h : Diverge host m m' e e') (annots : Annots) :
    Diverge host (toLex (.inr m) : (MType.or annots left right).Key)
      (toLex (.inr m') : (MType.or annots left right).Key) (.prim "Right" (some [e]))
      (.prim "Right" (some [e'])) :=
  h.imp (fun h => ⟨Sum.Lex.inr_lt_inr_iff.mpr h.1, diverges_wrap h.2 "Right"⟩)
    fun h => ⟨Sum.Lex.inr_lt_inr_iff.mpr h.1, diverges_wrap h.2 "Right"⟩

section labels

variable {x y : Val} {keys keys' : List JSString}

/-- One name for two labels means that one of them is missing, and its value too. -/
theorem diverge_of_named (hkeys : x.keys = .ok keys) (hkeys' : y.keys = .ok keys')
    (hlabel : keys.head? ≠ keys'.head?) {t : MType} {idx : ℕ} {v w : Val} {e e' : Encoded}
    {k k' : t.Key} (hnamed : (t.token host idx).named (labelOf keys))
    (hnamed' : (t.token host idx).named (labelOf keys')) (hget : x.get (labelOf keys) = .ok v)
    (hget' : y.get (labelOf keys') = .ok w) (he : (t.token host idx).EncodeObject v = .ok e)
    (hk : t.keyOf host e = some k) (he' : (t.token host idx).EncodeObject w = .ok e')
    (hk' : t.keyOf host e' = some k') (hne : k ≠ k') : Diverge host k k' e e' := by
  have hsame : labelOf keys = labelOf keys' := hnamed.1.symm.trans hnamed'.1
  match keys, keys' with
  | [], _ =>
    cases (get_of_keys_nil hkeys _).symm.trans hget
    exact Or.inl (diverges_of_undefined hnamed.2 he hk he' hk' hne)
  | _, [] =>
    cases (get_of_keys_nil hkeys' _).symm.trans hget'
    exact Or.inr (diverges_of_undefined hnamed.2 he' hk' he hk hne.symm)
  | key :: _, key' :: _ => exact absurd (congrArg some hsame) hlabel

/-- Values with different labels are ordered as their JSON texts. -/
theorem diverge_of_labels (hkeys : x.keys = .ok keys) (hkeys' : y.keys = .ok keys')
    (hlabel : keys.head? ≠ keys'.head?) (t : MType) :
    ∀ idx (e e' : Encoded) (k k' : t.Key), (t.token host idx).kind = .or →
      (t.token host idx).EncodeObject x = .ok e → t.keyOf host e = some k →
      (t.token host idx).EncodeObject y = .ok e' → t.keyOf host e' = some k' → k ≠ k' →
      Diverge host k k' e e' := by
  induction t using MType.inductLeaves with
  | leaf t ht =>
    intro idx e e' k k' hor
    exact absurd hor (MType.kind_ne_or ht idx)
  | or annots left right ihl ihr =>
    intro idx e e' k k' _ he hk he' hk' hne
    obtain ⟨ks, hks, hat⟩ := denotes_or he hk
    obtain ⟨ks', hks', hat'⟩ := denotes_or he' hk'
    cases Except.ok.inj (hkeys.symm.trans hks)
    cases Except.ok.inj (hkeys'.symm.trans hks')
    have hsides : ofLex k ≠ ofLex k' := hne
    show Diverge host (toLex (ofLex k) : (MType.or annots left right).Key) (toLex (ofLex k')) e e'
    clear he hk he' hk' hne
    generalize ofLex k = s at hat hsides ⊢
    generalize ofLex k' = s' at hat' hsides ⊢
    match s, s' with
    | .inl m, .inr m' =>
      obtain ⟨e₁, rfl⟩ := hat.exists_left
      obtain ⟨e₁', rfl⟩ := hat'.exists_right
      exact Or.inl ⟨Sum.Lex.inl_lt_inr m m', diverges_left_right e₁ e₁'⟩
    | .inr m, .inl m' =>
      obtain ⟨e₁, rfl⟩ := hat.exists_right
      obtain ⟨e₁', rfl⟩ := hat'.exists_left
      exact Or.inr ⟨Sum.Lex.inl_lt_inr m' m, diverges_left_right e₁' e₁⟩
    | .inl m, .inl m' =>
      have hm : m ≠ m' := fun h => hsides (h ▸ rfl)
      cases hat with
      | left hl hget h hk =>
        cases hat' with
        | left hl' hget' h' hk' =>
          exact (diverge_of_named hkeys hkeys' hlabel hl hl' hget hget' h hk h' hk' hm).left annots
        | insideLeft hl' hr' hor' h' hk' => exact absurd hor' hl.2
      | insideLeft hl hr hor h hk =>
        cases hat' with
        | left hl' hget' h' hk' => exact absurd hor hl'.2
        | insideLeft hl' hr' hor' h' hk' => exact (ihl idx _ _ m m' hor h hk h' hk' hm).left annots
    | .inr m, .inr m' =>
      have hm : m ≠ m' := fun h => hsides (h ▸ rfl)
      cases hat with
      | right hl hr hget h hk =>
        cases hat' with
        | right hl' hr' hget' h' hk' =>
          exact (diverge_of_named hkeys hkeys' hlabel hr hr' hget hget' h hk h' hk' hm).right annots
        | insideRight hl' hr' hnull' hor' h' hk' => exact absurd hor' hr.2
      | insideRight hl hr hnull hor h hk =>
        cases hat' with
        | right hl' hr' hget' h' hk' => exact absurd hor hr'.2
        | insideRight hl' hr' hnull' hor' h' hk' => exact (ihr _ _ _ m m' hor h hk h' hk' hm).right annots

end labels

end alternatives

end MichelsonEncoder
