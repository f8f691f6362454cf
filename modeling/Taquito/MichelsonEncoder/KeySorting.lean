import Taquito.Lib.Loops
import Taquito.MichelsonEncoder.KeyOrder

/-!
# Sorted keys

What `compare` needs to order two values as the keys that they denote (`everywhere_compared_iff`),
and from it what sets and maps need to be encoded in ascending order.
-/

open Js

namespace MichelsonEncoder

variable {host : Host}

/-! ## Pairs and options -/

theorem cmp_toLex {α β : Type} [LinearOrder α] [LinearOrder β] (k k' : α ×ₗ β) :
    cmp k k' = if cmp (ofLex k).1 (ofLex k').1 = .eq then cmp (ofLex k).2 (ofLex k').2
      else cmp (ofLex k).1 (ofLex k').1 := by
  have hlt : ∀ a b : α ×ₗ β, a < b ↔ (ofLex a).1 < (ofLex b).1 ∨
      (ofLex a).1 = (ofLex b).1 ∧ (ofLex a).2 < (ofLex b).2 := fun a b => Prod.Lex.lt_iff
  rcases lt_trichotomy (ofLex k).1 (ofLex k').1 with h | h | h
  · rw [(cmp_eq_lt_iff _ _).mpr h, (cmp_eq_lt_iff k k').mpr ((hlt k k').mpr (Or.inl h)),
      if_neg (by decide)]
  · rw [(cmp_eq_eq_iff _ _).mpr h, if_pos rfl]
    rcases lt_trichotomy (ofLex k).2 (ofLex k').2 with h' | h' | h'
    · rw [(cmp_eq_lt_iff _ _).mpr h', (cmp_eq_lt_iff k k').mpr ((hlt k k').mpr (Or.inr ⟨h, h'⟩))]
    · rw [(cmp_eq_eq_iff _ _).mpr h', cmp_eq_eq_iff]
      exact ofLex.injective (Prod.ext h h')
    · rw [(cmp_eq_gt_iff _ _).mpr h',
        (cmp_eq_gt_iff k k').mpr ((hlt k' k).mpr (Or.inr ⟨h.symm, h'⟩))]
  · rw [(cmp_eq_gt_iff _ _).mpr h, (cmp_eq_gt_iff k k').mpr ((hlt k' k).mpr (Or.inl h)),
      if_neg (by decide)]

/-- Pairs are compared as their keys if their components are. -/
theorem compare_pair {annots : Annots} {left right : MType} {idx : ℕ} {x y v w v' w' : Val}
    {k k' : (MType.pair annots left right).Key} (hcl : left.isComparable = true)
    (hcr : right.isComparable = true) (hv : componentOf (left.token host idx) x = .ok v)
    (hw : componentOf (right.token host (idx + left.pairCount host idx)) x = .ok w)
    (hv' : componentOf (left.token host idx) y = .ok v')
    (hw' : componentOf (right.token host (idx + left.pairCount host idx)) y = .ok w')
    (hleft : (left.token host idx).compare v v' = .ok (cmp (ofLex k).1 (ofLex k').1))
    (hright : (right.token host (idx + left.pairCount host idx)).compare w w'
      = .ok (cmp (ofLex k).2 (ofLex k').2)) :
    ((MType.pair annots left right).token host idx).compare x y = .ok (cmp k k') := by
  have htokens : PairToken.tokens (left.token host) (right.token host) idx
      = (left.token host idx, right.token host (idx + left.pairCount host idx)) := rfl
  have hcomparable : ((left.token host idx).comparable &&
      (right.token host (idx + left.pairCount host idx)).comparable) = true := by
    rw [comparable_token hcl, comparable_token hcr]
    rfl
  show PairToken.compare (left.token host) (right.token host) idx x y = _
  rw [PairToken.compare, htokens]
  dsimp only
  rw [if_pos hcomparable, hv, hv', Except.ok_bind, Except.ok_bind, hleft, Except.ok_bind]
  have hcmp : cmp k k' = if cmp (ofLex k).1 (ofLex k').1 = .eq then cmp (ofLex k).2 (ofLex k').2
      else cmp (ofLex k).1 (ofLex k').1 := cmp_toLex k k'
  rw [hcmp]
  by_cases heq : cmp (ofLex k).1 (ofLex k').1 = .eq
  · rw [if_pos heq, if_pos heq, hw, hw', Except.ok_bind, Except.ok_bind, hright]
  · rw [if_neg heq, if_neg heq]
    rfl

/-- An option that is falsy counts as the lesser one. -/
theorem compare_option (annots : Annots) (component : MType) (idx : ℕ) (x y : Val) :
    ((MType.option annots component).token host idx).compare x y
      = if x.truthy = false then .ok .lt else if y.truthy = false then .ok .gt
        else (component.token host 0).compare x y := by
  show (if _ then _ else _) = _
  cases x.truthy <;> cases y.truthy <;> rfl

theorem truthy_of_isNone {x : Val} (h : x.isNone = true) : x.truthy = false := by
  cases x <;> first | rfl | cases h

/-- Options are compared as their keys exactly if they are told apart. -/
theorem compared_option_iff {annots : Annots} {component : MType} {idx : ℕ} {x y : Val}
    {k k' : (MType.option annots component).Key} (hx : Denotes host (.option annots component) idx x k)
    (hy : Denotes host (.option annots component) idx y k')
    (hcomponent : ∀ m m' : component.Key, k = (m : WithBot component.Key) →
      k' = (m' : WithBot component.Key) → Compared host component 0 x y m m') :
    Compared host (.option annots component) idx x y k k'
      ↔ ToldApart host (.option annots component) idx x y k k' := by
  rw [Compared, compare_option, compare_option]
  show _ ↔ (x.truthy = false → k < k') ∧ (y.truthy = false → k' < k)
  have hlt : ∀ a b : (MType.option annots component).Key,
      (Except.ok .lt : Except EncoderError Ordering) = .ok (cmp a b) ↔ a < b := by
    intro a b
    rw [Except.ok.injEq, eq_comm, cmp_eq_lt_iff]
  have hgt : ∀ a b : (MType.option annots component).Key,
      (Except.ok .gt : Except EncoderError Ordering) = .ok (cmp a b) ↔ b < a := by
    intro a b
    rw [Except.ok.injEq, eq_comm, cmp_eq_gt_iff]
  cases hxt : x.truthy <;> cases hyt : y.truthy
  · rw [if_pos rfl, if_pos rfl, hlt, hlt]
    exact ⟨fun h => ⟨fun _ => h.1, fun _ => h.2⟩, fun h => ⟨h.1 rfl, h.2 rfl⟩⟩
  · rw [if_pos rfl, if_neg (by decide), if_pos rfl, hlt, hgt]
    exact ⟨fun h => ⟨fun _ => h.1, nofun⟩, fun h => ⟨h.1 rfl, h.1 rfl⟩⟩
  · rw [if_neg (by decide), if_pos rfl, if_pos rfl, hlt, hgt]
    exact ⟨fun h => ⟨nofun, fun _ => h.2⟩, fun h => ⟨h.2 rfl, h.2 rfl⟩⟩
  · have hsome : ∀ {v : Val} {a : (MType.option annots component).Key}, v.truthy = true →
        Denotes host (.option annots component) idx v a →
          ∃ m : component.Key, a = (m : WithBot component.Key) := by
      intro v a hv ha
      rcases denotes_option ha with ⟨hnone, -⟩ | ⟨-, m, hm, -⟩
      · rw [truthy_of_isNone hnone] at hv
        cases hv
      · exact ⟨m, hm⟩
    obtain ⟨m, hm⟩ := hsome hxt hx
    obtain ⟨m', hm'⟩ := hsome hyt hy
    have hcmp : ∀ a b : component.Key, cmp (a : WithBot component.Key) b = cmp a b :=
      WithBot.coe_strictMono.cmp_map_eq
    obtain ⟨hxy, hyx⟩ := hcomponent m m' hm hm'
    rw [← hcmp] at hxy hyx
    rw [hm, hm']
    exact iff_of_true ⟨hxy, hyx⟩ (by simp)

/-! ## Alternatives -/

theorem firstKey_eq {x : Val} {keys : List JSString} (h : x.keys = .ok keys) :
    firstKey x = keys.head? := by
  rw [firstKey, h]
  rfl

theorem alternativeOf_named {t : Token} {label : JSString} (h : t.named label) (x : Val) :
    alternativeOf t x = x.get label := by
  rw [alternativeOf, if_neg h.2, h.1]

/-- What is compared inside an alternative that is an `or`. -/
theorem compare_inside {x y : Val} {keys keys' : List JSString} (hkeys : x.keys = .ok keys)
    (hkeys' : y.keys = .ok keys') (hlabel : keys.head? = keys'.head?) {t : MType} {idx : ℕ}
    (hor : (t.token host idx).kind = .or) {compare : Val → Val → Except EncoderError Ordering}
    (hfind : (t.token host idx).findToken (labelOf keys) = some compare) :
    (t.token host idx).compare x y
      = (do compare (← x.get (labelOf keys)) (← y.get (labelOf keys))) := by
  cases t with
  | or annots left right =>
    show OrToken.compare host (left.token host) (right.token host) idx x y = _
    have hfind' : OrToken.findToken (left.token host) (right.token host) idx (labelOf keys)
        = some compare := hfind
    rw [compare_or_of_label hkeys hkeys' hlabel, hfind']
  | _ => exact absurd hor (MType.kind_ne_or rfl idx)

/-- Values with one label are compared as the values of their alternative. -/
theorem compare_or_alternatives {annots : Annots} {left right : MType} {idx : ℕ} {x y : Val}
    {keys keys' : List JSString} {e e' : Encoded} {s s' : left.Key ⊕ right.Key}
    (hcl : left.isComparable = true) (hcr : right.isComparable = true) (hkeys : x.keys = .ok keys)
    (hkeys' : y.keys = .ok keys') (hlabel : keys.head? = keys'.head?)
    (hx : AtAlternative host left right idx x (labelOf keys) e s)
    (hy : AtAlternative host left right idx y (labelOf keys') e' s')
    (hleft : ∀ m m' v w, s = .inl m → s' = .inl m' →
      alternativeOf (left.token host idx) x = .ok v → alternativeOf (left.token host idx) y = .ok w →
      (left.token host idx).compare v w = .ok (cmp m m'))
    (hright : ∀ m m' v w, s = .inr m → s' = .inr m' →
      alternativeOf (right.token host (idx + left.orCount host idx)) x = .ok v →
      alternativeOf (right.token host (idx + left.orCount host idx)) y = .ok w →
      (right.token host (idx + left.orCount host idx)).compare v w = .ok (cmp m m')) :
    ((MType.or annots left right).token host idx).compare x y
      = .ok (cmp (toLex s : (MType.or annots left right).Key) (toLex s')) := by
  have hinl : ∀ m m' : left.Key, cmp (toLex (.inl m) : (MType.or annots left right).Key)
      (toLex (.inl m')) = cmp m m' := (@Sum.Lex.inl_strictMono left.Key right.Key _ _).cmp_map_eq
  have hinr : ∀ m m' : right.Key, cmp (toLex (.inr m) : (MType.or annots left right).Key)
      (toLex (.inr m')) = cmp m m' := (@Sum.Lex.inr_strictMono left.Key right.Key _ _).cmp_map_eq
  have hsame : labelOf keys = labelOf keys' := by rw [labelOf, labelOf, hlabel]
  rw [← hsame] at hy
  show OrToken.compare host (left.token host) (right.token host) idx x y = _
  rw [compare_or_of_label hkeys hkeys' hlabel]
  cases hx with
  | left hl hget h hk =>
    cases hy with
    | left hl' hget' h' hk' =>
      have hfind : OrToken.findToken (left.token host) (right.token host) idx (labelOf keys)
          = some (left.token host idx).compare := findToken_left hl (comparable_token hcl _)
      rw [hfind, hinl]
      dsimp only
      rw [hget, hget']
      exact hleft _ _ _ _ rfl rfl ((alternativeOf_named hl x).trans hget)
        ((alternativeOf_named hl y).trans hget')
    | right hl' | insideLeft hl' | insideRight hl' => exact absurd hl hl'
  | right hl hr hget h hk =>
    cases hy with
    | right hl' hr' hget' h' hk' =>
      have hfind : OrToken.findToken (left.token host) (right.token host) idx (labelOf keys)
          = some (right.token host (idx + left.orCount host idx)).compare :=
        findToken_right hl hr (comparable_token hcr _)
      rw [hfind, hinr]
      dsimp only
      rw [hget, hget']
      exact hright _ _ _ _ rfl rfl ((alternativeOf_named hr x).trans hget)
        ((alternativeOf_named hr y).trans hget')
    | left hl' => exact absurd hl' hl
    | insideLeft hl' hr' | insideRight hl' hr' => exact absurd hr hr'
  | insideLeft hl hr hor h hk =>
    obtain ⟨compare, hcompare⟩ :=
      Option.isSome_iff_exists.mp (findToken_isSome hkeys left idx _ hcl hor ⟨_, h, hk⟩)
    have hinside : findInside (left.token host idx) (labelOf keys) = some compare :=
      (if_pos hor).trans hcompare
    cases hy with
    | insideLeft hl' hr' hor' h' hk' =>
      have hfind : OrToken.findToken (left.token host) (right.token host) idx (labelOf keys)
          = some compare := by
        have hinside' : findInside (OrToken.tokens (left.token host) (right.token host) idx).1
            (labelOf keys) = some compare := hinside
        rw [findToken_inside hl hr, hinside']
        rfl
      rw [hfind, hinl]
      exact (compare_inside hkeys hkeys' hlabel hor hcompare).symm.trans
        (hleft _ _ x y rfl rfl (if_pos hor) (if_pos hor))
    | left hl' => exact absurd hl' hl
    | right hl' hr' => exact absurd hr' hr
    | insideRight hl' hr' hnull' hor' h' hk' =>
      have hnone := findToken_eq_none hkeys' left idx hnull'
      rw [← hsame, hinside] at hnone
      cases hnone
  | insideRight hl hr hnull hor h hk =>
    obtain ⟨compare, hcompare⟩ :=
      Option.isSome_iff_exists.mp (findToken_isSome hkeys right _ _ hcr hor ⟨_, h, hk⟩)
    cases hy with
    | insideRight hl' hr' hnull' hor' h' hk' =>
      have hfind : OrToken.findToken (left.token host) (right.token host) idx (labelOf keys)
          = some compare := by
        have hnone : findInside (OrToken.tokens (left.token host) (right.token host) idx).1
            (labelOf keys) = none := findToken_eq_none hkeys left idx hnull
        have hinside : findInside (OrToken.tokens (left.token host) (right.token host) idx).2
            (labelOf keys) = some compare := (if_pos hor).trans hcompare
        rw [findToken_inside hl hr, hnone, hinside]
        rfl
      rw [hfind, hinr]
      exact (compare_inside hkeys hkeys' hlabel hor hcompare).symm.trans
        (hright _ _ x y rfl rfl (if_pos hor) (if_pos hor))
    | left hl' => exact absurd hl' hl
    | right hl' hr' => exact absurd hr' hr
    | insideLeft hl' hr' hor' h' hk' =>
      have hnone := findToken_eq_none hkeys left idx hnull
      have hsome := findToken_isSome hkeys' left idx _ hcl hor' ⟨_, h', hk'⟩
      rw [findInside, if_pos hor', hsame] at hnone
      rw [hnone] at hsome
      cases hsome

/-- Values of an `or` are compared as their keys if the values of their alternatives are, and one
key is not given under two labels. -/
theorem compare_or {annots : Annots} {left right : MType} {idx : ℕ} {x y : Val}
    {k k' : (MType.or annots left right).Key} (hcl : left.isComparable = true)
    (hcr : right.isComparable = true) (hx : Denotes host (.or annots left right) idx x k)
    (hy : Denotes host (.or annots left right) idx y k') (hkey : k = k' → firstKey x = firstKey y)
    (hleft : ∀ m m' v w, ofLex k = .inl m → ofLex k' = .inl m' →
      alternativeOf (left.token host idx) x = .ok v → alternativeOf (left.token host idx) y = .ok w →
      (left.token host idx).compare v w = .ok (cmp m m'))
    (hright : ∀ m m' v w, ofLex k = .inr m → ofLex k' = .inr m' →
      alternativeOf (right.token host (idx + left.orCount host idx)) x = .ok v →
      alternativeOf (right.token host (idx + left.orCount host idx)) y = .ok w →
      (right.token host (idx + left.orCount host idx)).compare v w = .ok (cmp m m')) :
    ((MType.or annots left right).token host idx).compare x y = .ok (cmp k k') := by
  obtain ⟨e, he, hk⟩ := hx
  obtain ⟨e', he', hk'⟩ := hy
  obtain ⟨keys, hkeys, hat⟩ := denotes_or he hk
  obtain ⟨keys', hkeys', hat'⟩ := denotes_or he' hk'
  rw [firstKey_eq hkeys, firstKey_eq hkeys'] at hkey
  by_cases hlabel : keys.head? = keys'.head?
  · exact compare_or_alternatives hcl hcr hkeys hkeys' hlabel hat hat' hleft hright
  · have hne : k ≠ k' := fun h => hlabel (hkey h)
    have hcompare : ((MType.or annots left right).token host idx).compare x y
        = .ok (if (e.toJson host).text < (e'.toJson host).text then .lt else .gt) :=
      compare_or_of_labels hkeys hkeys' hlabel he he'
    rw [hcompare]
    rcases diverge_of_labels hkeys hkeys' hlabel _ idx e e' k k' rfl he hk he' hk' hne with
      ⟨hlt, htext⟩ | ⟨hlt, htext⟩
    · rw [if_pos htext.lt, (cmp_eq_lt_iff k k').mpr hlt]
    · rw [if_neg (List.lt_asymm htext.lt), (cmp_eq_gt_iff k k').mpr hlt]

/-- One key that is compared as such is not given under two labels. -/
theorem firstKey_of_compared {annots : Annots} {left right : MType} {idx : ℕ} {x y : Val}
    {k : (MType.or annots left right).Key} (hx : Denotes host (.or annots left right) idx x k)
    (hy : Denotes host (.or annots left right) idx y k)
    (h : ((MType.or annots left right).token host idx).compare x y = .ok (cmp k k)) :
    firstKey x = firstKey y := by
  obtain ⟨e, he, hk⟩ := hx
  obtain ⟨e', he', hk'⟩ := hy
  obtain ⟨keys, hkeys, -⟩ := denotes_or he hk
  obtain ⟨keys', hkeys', -⟩ := denotes_or he' hk'
  rw [firstKey_eq hkeys, firstKey_eq hkeys']
  by_contra hlabel
  have hcompare : ((MType.or annots left right).token host idx).compare x y
      = .ok (if (e.toJson host).text < (e'.toJson host).text then .lt else .gt) :=
    compare_or_of_labels hkeys hkeys' hlabel he he'
  rw [hcompare, cmp_self_eq_eq] at h
  split at h <;> cases h

/-! ## All types -/

theorem MType.Everywhere.self {R : KeyRelation} {t : MType} {idx : ℕ} {x y : Val} {k k' : t.Key}
    (h : t.Everywhere host R idx x y k k') : R t idx x y k k' := by
  cases t with
  | pair | or | option => exact h.1
  | _ => exact h

theorem denotes_component {annots : Annots} {component : MType} {idx : ℕ} {x : Val}
    {m : component.Key}
    (h : Denotes host (.option annots component) idx x (m : WithBot component.Key)) :
    Denotes host component 0 x m := by
  rcases denotes_option h with ⟨-, hbot⟩ | ⟨-, m', hm, hden⟩
  · exact absurd hbot WithBot.coe_ne_bot
  · rwa [WithBot.coe_injective hm]

/-- The value of the alternative that an `or` denotes the key of. -/
theorem denotes_alternatives {annots : Annots} {left right : MType} {idx : ℕ} {x : Val}
    {k : (MType.or annots left right).Key} (h : Denotes host (.or annots left right) idx x k) :
    (∀ m v, ofLex k = .inl m → alternativeOf (left.token host idx) x = .ok v →
        Denotes host left idx v m) ∧
      ∀ m v, ofLex k = .inr m →
        alternativeOf (right.token host (idx + left.orCount host idx)) x = .ok v →
        Denotes host right (idx + left.orCount host idx) v m := by
  obtain ⟨e, he, hk⟩ := h
  obtain ⟨keys, -, hat⟩ := denotes_or he hk
  clear he hk
  generalize ofLex k = s at hat
  constructor
  · rintro m v rfl hv
    cases hat with
    | left hl hget h hk =>
      cases ((alternativeOf_named hl x).trans hget).symm.trans hv
      exact ⟨_, h, hk⟩
    | insideLeft hl hr hor h hk =>
      have hx : alternativeOf (left.token host idx) x = .ok x := if_pos hor
      cases hx.symm.trans hv
      exact ⟨_, h, hk⟩
  · rintro m v rfl hv
    cases hat with
    | right hl hr hget h hk =>
      cases ((alternativeOf_named hr x).trans hget).symm.trans hv
      exact ⟨_, h, hk⟩
    | insideRight hl hr hnull hor h hk =>
      have hx : alternativeOf (right.token host (idx + left.orCount host idx)) x = .ok x := if_pos hor
      cases hx.symm.trans hv
      exact ⟨_, h, hk⟩

theorem everywhere_pair_iff {R : KeyRelation} {annots : Annots} {left right : MType} {idx : ℕ}
    {x y v w v' w' : Val} {k k' : (MType.pair annots left right).Key}
    (hv : componentOf (left.token host idx) x = .ok v)
    (hw : componentOf (right.token host (idx + left.pairCount host idx)) x = .ok w)
    (hv' : componentOf (left.token host idx) y = .ok v')
    (hw' : componentOf (right.token host (idx + left.pairCount host idx)) y = .ok w') :
    (MType.pair annots left right).Everywhere host R idx x y k k'
      ↔ R (.pair annots left right) idx x y k k' ∧
        left.Everywhere host R idx v v' (ofLex k).1 (ofLex k').1 ∧
        right.Everywhere host R (idx + left.pairCount host idx) w w' (ofLex k).2 (ofLex k').2 := by
  rw [MType.Everywhere]
  refine and_congr_right fun _ => and_congr ?_ ?_
  · constructor
    · exact fun h => h v v' hv hv'
    · intro h a b ha hb
      cases hv.symm.trans ha
      cases hv'.symm.trans hb
      exact h
  · constructor
    · exact fun h => h w w' hw hw'
    · intro h a b ha hb
      cases hw.symm.trans ha
      cases hw'.symm.trans hb
      exact h

/-- **Values are compared as their keys at every component exactly if they are told apart at every
component.** -/
theorem everywhere_compared_iff (t : MType) : ∀ idx x y (k k' : t.Key), t.isComparable = true →
    Denotes host t idx x k → Denotes host t idx y k' →
    (t.Everywhere host (Compared host) idx x y k k'
      ↔ t.Everywhere host (ToldApart host) idx x y k k') := by
  induction t with
  | base annots b =>
    intro idx x y k k' _ hx hy
    obtain ⟨e, he, hk⟩ := hx
    obtain ⟨e', he', hk'⟩ := hy
    exact BaseType.compared_iff_told he hk he' hk'
  | option annots component ih =>
    intro idx x y k k' hcomparable hx hy
    have hcomponents : (∀ m m' : component.Key, k = (m : WithBot component.Key) →
          k' = (m' : WithBot component.Key) →
          component.Everywhere host (Compared host) 0 x y m m') ↔
        ∀ m m' : component.Key, k = (m : WithBot component.Key) →
          k' = (m' : WithBot component.Key) →
          component.Everywhere host (ToldApart host) 0 x y m m' := by
      refine forall_congr' fun m => forall_congr' fun m' => forall_congr' fun hm =>
        forall_congr' fun hm' => ?_
      exact ih 0 x y m m' hcomparable (denotes_component (hm ▸ hx)) (denotes_component (hm' ▸ hy))
    constructor
    · rintro ⟨hroot, hinner⟩
      refine ⟨?_, hcomponents.mp hinner⟩
      exact (compared_option_iff hx hy fun m m' hm hm' => (hinner m m' hm hm').self).mp hroot
    · rintro ⟨hroot, hinner⟩
      refine ⟨?_, hcomponents.mpr hinner⟩
      exact (compared_option_iff hx hy fun m m' hm hm' =>
        (hcomponents.mpr hinner m m' hm hm').self).mpr hroot
  | pair annots left right ihl ihr =>
    intro idx x y k k' hcomparable hx hy
    obtain ⟨hcl, hcr⟩ := Bool.and_eq_true_iff.mp hcomparable
    obtain ⟨v, w, hv, hw, hdv, hdw⟩ := denotes_pair hx
    obtain ⟨v', w', hv', hw', hdv', hdw'⟩ := denotes_pair hy
    have hleft := ihl idx v v' (ofLex k).1 (ofLex k').1 hcl hdv hdv'
    have hright := ihr (idx + left.pairCount host idx) w w' (ofLex k).2 (ofLex k').2 hcr hdw hdw'
    rw [everywhere_pair_iff hv hw hv' hw', everywhere_pair_iff hv hw hv' hw', hleft, hright]
    refine and_congr_left fun ⟨hl, hr⟩ => iff_of_true ?_ trivial
    obtain ⟨hxy, hyx⟩ := (hleft.mpr hl).self
    obtain ⟨hxy', hyx'⟩ := (hright.mpr hr).self
    exact ⟨compare_pair hcl hcr hv hw hv' hw' hxy hxy', compare_pair hcl hcr hv' hw' hv hw hyx hyx'⟩
  | or annots left right ihl ihr =>
    intro idx x y k k' hcomparable hx hy
    obtain ⟨hcl, hcr⟩ := Bool.and_eq_true_iff.mp hcomparable
    obtain ⟨hxl, hxr⟩ := denotes_alternatives hx
    obtain ⟨hyl, hyr⟩ := denotes_alternatives hy
    have hleft : ∀ m m' v w, ofLex k = .inl m → ofLex k' = .inl m' →
        alternativeOf (left.token host idx) x = .ok v →
        alternativeOf (left.token host idx) y = .ok w →
        (left.Everywhere host (Compared host) idx v w m m'
          ↔ left.Everywhere host (ToldApart host) idx v w m m') :=
      fun m m' v w hm hm' hv hw => ihl idx v w m m' hcl (hxl m v hm hv) (hyl m' w hm' hw)
    have hright : ∀ m m' v w, ofLex k = .inr m → ofLex k' = .inr m' →
        alternativeOf (right.token host (idx + left.orCount host idx)) x = .ok v →
        alternativeOf (right.token host (idx + left.orCount host idx)) y = .ok w →
        (right.Everywhere host (Compared host) (idx + left.orCount host idx) v w m m'
          ↔ right.Everywhere host (ToldApart host) (idx + left.orCount host idx) v w m m') :=
      fun m m' v w hm hm' hv hw => ihr _ v w m m' hcr (hxr m v hm hv) (hyr m' w hm' hw)
    constructor
    · rintro ⟨hroot, hl, hr⟩
      refine ⟨?_, fun m m' v w hm hm' hv hw => (hleft m m' v w hm hm' hv hw).mp (hl m m' v w hm hm' hv hw),
        fun m m' v w hm hm' hv hw => (hright m m' v w hm hm' hv hw).mp (hr m m' v w hm hm' hv hw)⟩
      rintro rfl
      exact firstKey_of_compared hx hy hroot.1
    · rintro ⟨hroot, hl, hr⟩
      have hl' := fun m m' v w hm hm' hv hw =>
        (hleft m m' v w hm hm' hv hw).mpr (hl m m' v w hm hm' hv hw)
      have hr' := fun m m' v w hm hm' hv hw =>
        (hright m m' v w hm hm' hv hw).mpr (hr m m' v w hm hm' hv hw)
      refine ⟨⟨?_, ?_⟩, hl', hr'⟩
      · exact compare_or hcl hcr hx hy hroot
          (fun m m' v w hm hm' hv hw => (hl' m m' v w hm hm' hv hw).self.1)
          fun m m' v w hm hm' hv hw => (hr' m m' v w hm hm' hv hw).self.1
      · exact compare_or hcl hcr hy hx (fun h => (hroot h.symm).symm)
          (fun m m' v w hm hm' hv hw => (hl' m' m w v hm' hm hw hv).self.2)
          fun m m' v w hm hm' hv hw => (hr' m' m w v hm' hm hw hv).self.2
  | list | set | map | bigMap | contract | other =>
    intro idx x y k
    cases k

/-! ## Sorting -/

section sortBy

variable {compare : Val → Val → Except EncoderError Ordering}

theorem compareErrors_eq_nil {xs : List Val}
    (h : xs.Pairwise fun x y => (compare x y).isOk ∧ (compare y x).isOk) :
    compareErrors compare xs = [] := by
  unfold compareErrors
  rw [List.filterMap_eq_nil_iff]
  intro c hc
  obtain ⟨ys, hys, hc⟩ := List.mem_flatMap.mp hc
  have hpairwise := h.sublist ((List.mem_tails ys xs).mp hys).sublist
  match ys with
  | [] => cases hc
  | x :: ys =>
    obtain ⟨y, hy, hc⟩ := List.mem_flatMap.mp hc
    obtain ⟨hxy, hyx⟩ := (List.pairwise_cons.mp hpairwise).1 y hy
    rcases List.mem_cons.mp hc with rfl | hc
    · cases hcompare : compare x y with
      | ok => rfl
      | error e =>
        rw [hcompare] at hxy
        cases hxy
    · rw [List.mem_singleton] at hc
      subst hc
      cases hcompare : compare y x with
      | ok => rfl
      | error e =>
        rw [hcompare] at hyx
        cases hyx

/-- Values that are compared as their keys are sorted by them. -/
theorem sortBy_eq {α β : Type} [LinearOrder β] {value : α → Val} {key : α → β} {rows : List α}
    (hcompare : rows.Pairwise fun a b => compare (value a) (value b) = .ok (cmp (key a) (key b)) ∧
      compare (value b) (value a) = .ok (cmp (key b) (key a)))
    (hnodup : (rows.map key).Nodup)
    (hdefined : 2 ≤ rows.length → ∀ a ∈ rows, (value a).isUndefined = false) :
    ∃ zs : List α, zs.Perm rows ∧ (zs.Pairwise fun a b => key a < key b) ∧
      sortBy compare (rows.map value) = .ok (zs.map value) := by
  by_cases hlength : 2 ≤ rows.length
  · refine ⟨rows.mergeSort fun a b => notBehind compare (value a) (value b),
      List.mergeSort_perm _ _, Sorting.pairwise_mergeSort (hcompare.imp ?_) hnodup, ?_⟩
    · rintro a b ⟨hab, -⟩
      rw [notBehind, hab]
      rcases lt_trichotomy (key a) (key b) with hlt | heq | hlt
      · rw [(cmp_eq_lt_iff _ _).mpr hlt, decide_eq_true hlt.le]
      · rw [(cmp_eq_eq_iff _ _).mpr heq, decide_eq_true heq.le]
      · rw [(cmp_eq_gt_iff _ _).mpr hlt, decide_eq_false hlt.not_ge]
    · have hall : (rows.map value).filter (fun x => !x.isUndefined) = rows.map value := by
        apply List.filter_eq_self.mpr
        intro x hx
        obtain ⟨a, ha, rfl⟩ := List.mem_map.mp hx
        rw [hdefined hlength a ha]
        rfl
      have hnone : (rows.map value).filter Val.isUndefined = [] := by
        apply List.filter_eq_nil_iff.mpr
        intro x hx
        obtain ⟨a, ha, rfl⟩ := List.mem_map.mp hx
        rw [hdefined hlength a ha]
        exact Bool.false_ne_true
      have herrors : compareErrors compare (rows.map value) = [] := by
        apply compareErrors_eq_nil
        rw [List.pairwise_map]
        refine hcompare.imp ?_
        rintro a b ⟨hab, hba⟩
        rw [hab, hba]
        exact ⟨rfl, rfl⟩
      rw [sortBy, hall, hnone, herrors, List.append_nil]
      show Except.ok _ = Except.ok _
      rw [List.map_mergeSort]
      exact fun _ _ _ _ => rfl
  · refine ⟨rows, List.Perm.refl _, ?_, ?_⟩
    · match rows, hlength with
      | [], _ => exact List.Pairwise.nil
      | [_], _ => exact List.pairwise_singleton _ _
      | _ :: _ :: _, h => exact absurd (by simp) h
    · match rows, hlength with
      | [], _ => simp [sortBy, compareErrors]
      | [a], _ =>
        rw [List.map_singleton, sortBy]
        cases ha : (value a).isUndefined <;>
          simp [ha, compareErrors]
      | _ :: _ :: _, h => exact absurd (by simp) h

end sortBy

/-! ## Sets and maps -/

/-- A value with the key that it denotes. -/
abbrev KeyRow (t : MType) := Val × t.Key

/-- A row of a map: a key with what it denotes, and a value. -/
abbrev MapRow (t : MType) := KeyRow t × Val

/-- The entries of a `MichelsonMap` with these rows. -/
def entriesOf (host : Host) {t : MType} (rows : List (MapRow t)) : Entries :=
  rows.map fun r => (r.1.1.serialize host, r.1.1, r.2)

/-- The literals are those of the rows in ascending order of their keys. -/
def AscendingSet (host : Host) (t : MType) (keys : List (KeyRow t)) (es : List Encoded) : Prop :=
  ∃ zs : List (KeyRow t), zs.Perm keys ∧ (zs.Pairwise fun a b => a.2 < b.2) ∧
    List.Forall₂ (fun z e => (t.token host 0).EncodeObject z.1 = .ok e) zs es

/-- The `Elt`s are those of the rows in ascending order of their keys. -/
def AscendingMap (host : Host) (t : MType) (value : Token) (rows : List (MapRow t))
    (es : List Encoded) : Prop :=
  ∃ zs : List (MapRow t), zs.Perm rows ∧ (zs.Pairwise fun a b => a.1.2 < b.1.2) ∧
    List.Forall₂ (fun z e => ∃ k v, (t.token host 0).EncodeObject z.1.1 = .ok k ∧
      value.EncodeObject z.2 = .ok v ∧ e = .prim "Elt" (some [k, v])) zs es

/-- Sets of these keys, and maps that have them for keys, are encoded in ascending order, whatever
order they are given in, and `compare` orders the keys and their components as the protocol. -/
structure EncodesSorted (host : Host) (t : MType) (keys : List (KeyRow t)) : Prop where
  compare : keys.Pairwise fun a b => t.Everywhere host (Compared host) 0 a.1 b.1 a.2 b.2
  set : ∀ (annots : Annots) (idx : ℕ) (rows : List (KeyRow t)), rows.Perm keys →
    ∃ es, AscendingSet host t keys es ∧
      (setToken annots (t.token host) idx).EncodeObject (.array (rows.map Prod.fst)) = .ok (.seq es) ∧
      ∀ args, (setToken annots (t.token host) idx).Encode (args ++ [.array (rows.map Prod.fst)])
        = .ok (.seq es, args)
  map : ∀ (annots : Annots) (value : ℕ → Token) (idx : ℕ) (rows : List (MapRow t)) (val : Val),
    (rows.map Prod.fst).Perm keys → (rows.map fun r => r.1.1.serialize host).Nodup →
    (∀ r ∈ rows, ((value 0).EncodeObject r.2).isOk) →
    (∀ name, objLitToMichelsonMap host name val = .ok (entriesOf host rows)) →
    ∃ es, AscendingMap host t (value 0) rows es ∧
      ∀ token ∈ [mapToken host annots (t.token host) value idx,
          bigMapToken host annots (t.token host) value idx],
        token.EncodeObject val = .ok (.seq es) ∧
          ∀ args, token.Encode (args ++ [val]) = .ok (.seq es, args)

/-- Keys that are told apart, and that are not `undefined` where there is more than one. -/
structure ToldKeys (host : Host) (t : MType) (keys : List (KeyRow t)) : Prop where
  told : keys.Pairwise fun a b => t.Everywhere host (ToldApart host) 0 a.1 b.1 a.2 b.2
  defined : 2 ≤ keys.length → ∀ a ∈ keys, a.1.isUndefined = false

section sets

variable {t : MType} {keys : List (KeyRow t)}

/-- A row is found by the text of its key. -/
theorem find_entriesOf {rows : List (MapRow t)} (hnodup : (rows.map fun r => r.1.1.serialize host).Nodup)
    {r : MapRow t} (hr : r ∈ rows) :
    (entriesOf host rows).find? (fun e => e.1 = r.1.1.serialize host)
      = some (r.1.1.serialize host, r.1.1, r.2) := by
  induction rows with
  | nil => cases hr
  | cons r' rows ih =>
    rw [List.map_cons, List.nodup_cons] at hnodup
    rw [entriesOf, List.map_cons, List.find?_cons]
    rcases List.mem_cons.mp hr with rfl | hr
    · rw [decide_eq_true rfl]
    · have hne : r'.1.1.serialize host ≠ r.1.1.serialize host := fun h =>
        hnodup.1 (h ▸ List.mem_map_of_mem hr)
      rw [decide_eq_false hne]
      exact ih hnodup.2 hr

/-- How two rows are compared does not depend on their order in the list. -/
theorem pairwise_compared (hcompare : keys.Pairwise fun a b =>
      t.Everywhere host (Compared host) 0 a.1 b.1 a.2 b.2) {rows : List (KeyRow t)}
    (hperm : rows.Perm keys) : rows.Pairwise fun a b => Compared host t 0 a.1 b.1 a.2 b.2 :=
  (hperm.pairwise_iff fun hab => hab.symm).mpr (hcompare.imp fun h => h.self)

/-- The `Elt` of a key: the value is the one that is filed under the text of the key. -/
def encodeElt (host : Host) (key value : Token) (entries : Entries) (k : Val) :
    Except EncoderError Encoded := do
  let e ← key.EncodeObject k
  let found := (entries.find? fun e => e.1 = k.serialize host).map fun e => e.2.2
  let v ← value.EncodeObject (found.getD .undefined)
  return .prim "Elt" (some [e, v])

theorem encodeElts {value : Token} {rows zs : List (MapRow t)}
    (htexts : (rows.map fun r => r.1.1.serialize host).Nodup) (hzs : ∀ z ∈ zs, z ∈ rows)
    (hvalues : ∀ r ∈ rows, (value.EncodeObject r.2).isOk)
    (hden : ∀ r ∈ rows, Denotes host t 0 r.1.1 r.1.2) :
    ∃ es, (zs.map fun z => z.1.1).mapM (encodeElt host (t.token host 0) value (entriesOf host rows))
        = .ok es ∧
      List.Forall₂ (fun z e => ∃ k v, (t.token host 0).EncodeObject z.1.1 = .ok k ∧
        value.EncodeObject z.2 = .ok v ∧ e = .prim "Elt" (some [k, v])) zs es := by
  induction zs with
  | nil => exact ⟨[], rfl, .nil⟩
  | cons z zs ih =>
    obtain ⟨es, hes, hall⟩ := ih fun z hz => hzs z (List.mem_cons_of_mem _ hz)
    have hz := hzs z List.mem_cons_self
    obtain ⟨k, hk, -⟩ := hden z hz
    have helt : ∃ v, value.EncodeObject z.2 = .ok v := by
      have hok := hvalues z hz
      cases hv : value.EncodeObject z.2 with
      | ok v => exact ⟨v, rfl⟩
      | error e =>
        rw [hv] at hok
        cases hok
    obtain ⟨v, hv⟩ := helt
    refine ⟨.prim "Elt" (some [k, v]) :: es, ?_, .cons ⟨k, v, hk, hv, rfl⟩ hall⟩
    rw [List.map_cons, List.mapM_cons, hes, encodeElt, hk, find_entriesOf htexts hz]
    show (do let e ← (do let v ← value.EncodeObject z.2; return _); _) = _
    rw [hv]
    rfl

theorem EncodesSorted.of_compared (hden : ∀ a ∈ keys, Denotes host t 0 a.1 a.2)
    (hnodup : (keys.map Prod.snd).Nodup)
    (hcompare : keys.Pairwise fun a b => t.Everywhere host (Compared host) 0 a.1 b.1 a.2 b.2)
    (hdefined : 2 ≤ keys.length → ∀ a ∈ keys, a.1.isUndefined = false) :
    EncodesSorted host t keys where
  compare := hcompare
  set := by
    intro annots idx rows hperm
    obtain ⟨zs, hzs, hsorted, hsort⟩ := @sortBy_eq (t.token host 0).compare _ _ _ Prod.fst Prod.snd rows
      (pairwise_compared hcompare hperm) ((hperm.map _).nodup_iff.mpr hnodup)
      fun hlength a ha => hdefined (hperm.length_eq ▸ hlength) a (hperm.mem_iff.mp ha)
    have heach : ∀ x ∈ zs.map Prod.fst, ∃ e, (t.token host 0).EncodeObject x = .ok e := by
      intro x hx
      obtain ⟨z, hz, rfl⟩ := List.mem_map.mp hx
      obtain ⟨e, he, -⟩ := hden z ((hzs.trans hperm).mem_iff.mp hz)
      exact ⟨e, he⟩
    obtain ⟨es, hes⟩ := Except.mapM_ok_of_forall heach
    have hall := Except.mapM_eq_ok.mp hes
    have hencode : (setToken annots (t.token host) idx).EncodeObject (.array (rows.map Prod.fst))
        = .ok (.seq es) := by
      show SetToken.EncodeObject (t.token host 0) _ = _
      rw [SetToken.EncodeObject, validArray, Except.ok_bind, hsort, Except.ok_bind, hes]
      rfl
    refine ⟨es, ⟨zs, hzs.trans hperm, hsorted, List.forall₂_map_left_iff.mp hall⟩, hencode, ?_⟩
    intro args
    show (do return (← SetToken.EncodeObject (t.token host 0) _, _)) = _
    rw [List.getLast?_concat, List.dropLast_concat, Option.getD_some]
    exact congrArg (· >>= _) hencode
  map := by
    intro annots value idx rows val hperm htexts hvalues hentries
    have hkeys : (rows.map fun r => r.1.2).Nodup := by
      have hmap := (hperm.map Prod.snd).nodup_iff.mpr hnodup
      rwa [List.map_map] at hmap
    obtain ⟨zs, hzs, hsorted, hsort⟩ := @sortBy_eq (t.token host 0).compare (MapRow t) _ _
      (fun r => r.1.1) (fun r => r.1.2) rows
      (List.pairwise_map.mp (pairwise_compared hcompare hperm)) hkeys
      fun hlength r hr => hdefined (by rwa [← hperm.length_eq, List.length_map]) r.1
        (hperm.mem_iff.mp (List.mem_map_of_mem hr))
    obtain ⟨es, hes, hall⟩ := @encodeElts host t (value 0) rows zs htexts
      (fun z hz => hzs.mem_iff.mp hz) hvalues
      fun r hr => hden r.1 (hperm.mem_iff.mp (List.mem_map_of_mem hr))
    have hencode : encodeEntries host (t.token host 0) (value 0) (entriesOf host rows)
        = .ok (.seq es) := by
      have hmap : (entriesOf host rows).map (fun e => e.2.1) = rows.map fun r => r.1.1 := by
        rw [entriesOf, List.map_map]
        rfl
      have helts : encodeEntries host (t.token host 0) (value 0) (entriesOf host rows)
          = (do
            let ks ← sortBy (t.token host 0).compare ((entriesOf host rows).map fun e => e.2.1)
            let elts ← ks.mapM (encodeElt host (t.token host 0) (value 0) (entriesOf host rows))
            return .seq elts) := rfl
      rw [helts, hmap, hsort, Except.ok_bind, hes]
      rfl
    have hobject : ∀ name, (do
        encodeEntries host (t.token host 0) (value 0) (← objLitToMichelsonMap host name val))
          = .ok (.seq es) := by
      intro name
      rw [hentries, Except.ok_bind, hencode]
    have hargs : ∀ (args : List Val),
        (mapToken host annots (t.token host) value idx).Encode (args ++ [val]) = .ok (.seq es, args) ∧
        (bigMapToken host annots (t.token host) value idx).Encode (args ++ [val])
          = .ok (.seq es, args) := by
      intro args
      have hpop : BaseType.pop (args ++ [val]) = (val, args) := by
        rw [BaseType.pop, List.getLast?_concat, List.dropLast_concat]
        rfl
      constructor
      all_goals
        dsimp only [mapToken, bigMapToken]
        rw [hpop]
        dsimp only
        rw [hentries, Except.ok_bind, hencode]
        rfl
    refine ⟨es, ⟨zs, hzs, hsorted, hall⟩, ?_⟩
    intro token htoken
    rw [List.mem_cons, List.mem_singleton] at htoken
    rcases htoken with rfl | rfl
    · exact ⟨hobject _, fun args => (hargs args).1⟩
    · exact ⟨hobject _, fun args => (hargs args).2⟩

/-- `undefined` denotes the least key. -/
theorem lt_of_undefined {a b : KeyRow t} (ha : Denotes host t 0 a.1 a.2)
    (hb : Denotes host t 0 b.1 b.2) (hundefined : a.1 = .undefined) (hne : a.2 ≠ b.2) : a.2 < b.2 := by
  obtain ⟨e, he, hk⟩ := ha
  obtain ⟨e', he', hk'⟩ := hb
  rw [hundefined] at he
  refine (diverges_of_undefined ?_ he hk he' hk' hne).1
  intro hor
  cases t with
  | or annots left right =>
    have herror : ((MType.or annots left right).token host 0).EncodeObject .undefined
        = .error .TypeError := rfl
    rw [herror] at he
    cases he
  | _ => exact absurd hor (MType.kind_ne_or rfl 0)

/-- The last of the literals is that of `undefined`, if it is a member. -/
theorem last_undefined {es : List Encoded}
    (hencode : SetToken.EncodeObject (t.token host 0) (.array (keys.map Prod.fst)) = .ok (.seq es))
    {a : KeyRow t} (ha : a ∈ keys) (hundefined : a.1 = .undefined) :
    ∃ es' e, es.reverse = e :: es' ∧ (t.token host 0).EncodeObject .undefined = .ok e := by
  rw [SetToken.EncodeObject, validArray, Except.ok_bind] at hencode
  obtain ⟨items, hitems, hencode⟩ := Except.bind_eq_ok.mp hencode
  obtain ⟨es', hes', hencode⟩ := Except.bind_eq_ok.mp hencode
  cases hencode
  have hlast : ∃ pre, items = pre ++ [.undefined] := by
    rw [sortBy] at hitems
    split at hitems
    · cases hitems
    · cases hitems
      have hmem : a.1 ∈ (keys.map Prod.fst).filter Val.isUndefined :=
        List.mem_filter.mpr ⟨List.mem_map_of_mem ha, by rw [hundefined]; rfl⟩
      rcases List.eq_nil_or_concat ((keys.map Prod.fst).filter Val.isUndefined) with hnil | ⟨L, u, hL⟩
      · rw [hnil] at hmem
        cases hmem
      · rw [List.concat_eq_append] at hL
        have hu : u.isUndefined = true := by
          have humem : u ∈ (keys.map Prod.fst).filter Val.isUndefined := by
            rw [hL]
            exact List.mem_append_right _ List.mem_cons_self
          exact (List.mem_filter.mp humem).2
        have hu' : u = .undefined := by
          cases u <;> first | rfl | cases hu
        rw [hL, hu', ← List.append_assoc]
        exact ⟨_, rfl⟩
  obtain ⟨pre, rfl⟩ := hlast
  have hall := List.forall₂_reverse_iff.mpr (Except.mapM_eq_ok.mp hes')
  rw [List.reverse_append] at hall
  cases hrev : es.reverse with
  | nil =>
    rw [hrev] at hall
    cases hall
  | cons e es' =>
    rw [hrev] at hall
    cases hall with
    | cons h _ => exact ⟨es', e, rfl, h⟩

end sets

end MichelsonEncoder
