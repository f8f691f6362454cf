import Taquito.MichelCodec.JsonParsing

/-!
# Substituting global constants

`parseJSON` replaces a global constant by its value after it has parsed the arguments of the
constant, and it does not go into the value. So what is left is fully expanded if and only if every
value that was put in is (`constants_expanded_iff`).
-/

open Js

namespace MichelCodec

/-- The value of a constant with these arguments. -/
def constantValue (hashAndValue : JSString → Option Expr) (args : Option (List Expr)) :
    Option Expr :=
  match args with
  | some [.string hash] => hashAndValue hash
  | _ => none

/-- A global constant whose hash has a value. -/
def IsKeyed (hashAndValue : JSString → Option Expr) : Expr → Prop
  | .prim p args _ => p = "constant" ∧ (constantValue hashAndValue args).isSome = true
  | _ => False

/-- A node that is neither a constant with a value nor, if macros are expanded, a macro. -/
def IsFullyExpanded (opt : ParserOptions) (hashAndValue : JSString → Option Expr) (e : Expr) :
    Prop :=
  ¬ IsKeyed hashAndValue e ∧ (opt.expandMacros.getD true = true → IsExpanded opt.usedProtocol e)

/-- The hash that an argument of a constant stands for: a text, or a constant that stands for one.
-/
inductive Resolves (hashAndValue : JSString → Option Expr) : Expr → JSString → Prop where
  | text (hash : JSString) : Resolves hashAndValue (.string hash) hash
  | constant {a : Expr} {annots : Option (List JSString)} {hash hash' : JSString}
      (inner : Resolves hashAndValue a hash) (value : hashAndValue hash = some (.string hash')) :
      Resolves hashAndValue (.prim "constant" (some [a]) annots) hash'

/-- A constant whose value, if it has one, is fully expanded. -/
def ValueExpanded (opt : ParserOptions) (hashAndValue : JSString → Option Expr) : Expr → Prop
  | .prim p (some [a]) _ => p = "constant" → ∀ hash v, Resolves hashAndValue a hash →
      hashAndValue hash = some v → v.Everywhere (IsFullyExpanded opt hashAndValue)
  | _ => True

variable {opt : ParserOptions} {hashAndValue : JSString → Option Expr} {p : String}
  {args : Option (List Expr)} {annots : Option (List JSString)}

theorem expandGlobalConstants_eq : expandGlobalConstants hashAndValue p args annots =
    (constantValue hashAndValue args).getD (.prim p args annots) := by
  rcases args with _ | (_ | ⟨a, _ | ⟨b, rest⟩⟩)
  · rfl
  · rfl
  · cases a <;> rfl
  · cases a <;> rfl

section

variable (hmap : opt.expandGlobalConstant = some hashAndValue)

include hmap in
theorem expand_constant : opt.expand "constant" args annots =
    .ok ((constantValue hashAndValue args).getD (.prim "constant" args annots)) := by
  rw [ParserOptions.expand, hmap, ← expandGlobalConstants_eq]
  rfl

include hmap in
theorem expand_other (hp : p ≠ "constant") : opt.expand p args annots =
    if opt.expandMacros.getD true = true then
      (expandMacros opt.usedProtocol p args annots).mapError .expansion
    else .ok (.prim p args annots) := by
  rw [ParserOptions.expand, hmap]
  exact if_neg hp

include hmap in
/-- What an argument stands for is what it is parsed as. -/
theorem parseJSON_string_iff {a : Expr} : ∀ {hash : JSString},
    parseJSON opt a = .ok (.string hash) ↔ Resolves hashAndValue a hash := by
  induction a with
  | int text =>
    intro hash
    refine iff_of_false ?_ (by rintro ⟨⟩)
    rw [parseJSON]
    split <;> rintro ⟨⟩
  | string s =>
    intro hash
    constructor
    · intro h
      cases Except.ok.inj h
      exact .text s
    · rintro ⟨⟩
      rfl
  | bytes hex =>
    intro hash
    refine iff_of_false ?_ (by rintro ⟨⟩)
    rw [parseJSON]
    split <;> rintro ⟨⟩
  | seq items ih =>
    intro hash
    rw [parseJSON_seq_eq_ok]
    exact iff_of_false (by rintro ⟨_, _, ⟨⟩⟩) (by rintro ⟨⟩)
  | prim p args annots ih =>
    intro hash
    rw [parseJSON_prim_eq_ok]
    by_cases hp : p = "constant"
    · subst hp
      constructor
      · rintro ⟨args', hsome, hargs, h⟩
        rw [expand_constant hmap, Except.ok.injEq] at h
        unfold constantValue at h
        split at h
        · next hash' =>
          cases hvalue : hashAndValue hash' with
          | none =>
            rw [hvalue] at h
            cases h
          | some v =>
            rw [hvalue, Option.getD_some] at h
            obtain ⟨es, rfl⟩ := Option.isSome_iff_exists.mp hsome.symm
            rw [Option.getD_some, Option.getD_some] at hargs
            obtain ⟨a, es', hab, hnil, rfl⟩ := List.forall₂_cons_right_iff.mp hargs
            rw [List.forall₂_nil_right_iff] at hnil
            subst hnil
            have hinner := (ih a List.mem_cons_self).mp hab
            exact .constant hinner (h ▸ hvalue)
        · cases h
      · rintro ⟨⟩
        next a hash' hinner hvalue =>
        refine ⟨some [.string hash'], rfl, ?_, ?_⟩
        · exact .cons ((ih a List.mem_cons_self).mpr hinner) .nil
        · rw [expand_constant hmap, constantValue, hvalue]
          rfl
    · refine iff_of_false ?_ ?_
      · rintro ⟨args', -, -, h⟩
        rw [expand_other hmap hp] at h
        split at h
        · exact isNode_expandMacros _ (mapError_eq_ok.mp h)
        · cases h
      · rintro ⟨⟩
        exact hp rfl

end

/-- An argument stands for one hash at most. -/
theorem Resolves.unique {a : Expr} {hash hash' : JSString} (h : Resolves hashAndValue a hash)
    (h' : Resolves hashAndValue a hash') : hash = hash' := by
  induction h generalizing hash' with
  | text hash => cases h' with | text => rfl
  | constant inner value ih =>
    cases h' with
    | constant inner' value' =>
      rw [ih inner', value'] at value
      exact (Expr.string.inj (Option.some.inj value)).symm

theorem constantValue_eq_some {v : Expr} (h : constantValue hashAndValue args = some v) :
    ∃ hash, args = some [.string hash] ∧ hashAndValue hash = some v := by
  unfold constantValue at h
  split at h
  · next hash => exact ⟨hash, rfl, h⟩
  · cases h

/-- A literal is fully expanded. -/
theorem everywhere_isFullyExpanded_literal {e : Expr} (h : e.children = [])
    (hprim : ∀ p args annots, e ≠ .prim p args annots) :
    e.Everywhere (IsFullyExpanded opt hashAndValue) := by
  refine .node ⟨?_, fun _ => ?_⟩ fun a ha => ?_
  · cases e with
    | prim p args annots => exact absurd rfl (hprim p args annots)
    | _ => exact id
  · cases e with
    | prim p args annots => exact absurd rfl (hprim p args annots)
    | _ => trivial
  · rw [h] at ha
    cases ha

section

variable (hmap : opt.expandGlobalConstant = some hashAndValue)

include hmap in
/-- What is no constant is fully expanded if and only if its arguments are. -/
theorem everywhere_expand_other {e : Expr} (hp : p ≠ "constant")
    (h : opt.expand p args annots = .ok e) :
    e.Everywhere (IsFullyExpanded opt hashAndValue) ↔
      ∀ a ∈ args.getD [], a.Everywhere (IsFullyExpanded opt hashAndValue) := by
  have hkeyed : ∀ {q : String} {as : Option (List Expr)} {ws : Option (List JSString)},
      q ≠ "constant" → ¬ IsKeyed hashAndValue (.prim q as ws) := fun hq h => hq h.1
  rw [expand_other hmap hp] at h
  by_cases hmacros : opt.expandMacros.getD true = true
  · rw [if_pos hmacros, mapError_eq_ok] at h
    have hiff := everywhere_expandMacros_iff (P := IsFullyExpanded opt hashAndValue)
      (fun _ => ⟨id, fun _ => trivial⟩) (fun q as ws hq hfree => ⟨hkeyed ?_, fun _ => hfree⟩)
      (fun _ => ⟨id, fun _ => trivial⟩) h (fun hfree => ⟨hkeyed hp, fun _ => hfree⟩)
      (fun _ _ => ⟨id, fun _ => trivial⟩)
    · rw [hiff]
      exact and_iff_left fun _ _ => ⟨id, fun _ => trivial⟩
    · rintro rfl
      exact absurd hq (by decide)
  · rw [if_neg hmacros] at h
    rw [← Except.ok.inj h, Expr.everywhere_iff]
    exact and_iff_right ⟨hkeyed hp, fun hm => absurd hm hmacros⟩

include hmap in
/-- **Global constants are fully expanded** if and only if the values that are put in are. -/
theorem constants_expanded_iff (x : Expr) : ∀ {r : Expr}, parseJSON opt x = .ok r →
    (r.Everywhere (IsFullyExpanded opt hashAndValue) ↔
      x.Everywhere (ValueExpanded opt hashAndValue)) := by
  have hall : ∀ {es es' : List Expr}, (∀ a ∈ es, ∀ {r : Expr}, parseJSON opt a = .ok r →
      (r.Everywhere (IsFullyExpanded opt hashAndValue) ↔
        a.Everywhere (ValueExpanded opt hashAndValue))) →
      List.Forall₂ (fun a b => parseJSON opt a = .ok b) es es' →
      ((∀ a ∈ es', a.Everywhere (IsFullyExpanded opt hashAndValue)) ↔
        ∀ a ∈ es, a.Everywhere (ValueExpanded opt hashAndValue)) := by
    intro es es' ih h
    constructor
    · intro hes' a ha
      obtain ⟨b, hb, hab⟩ := exists_mem_right h ha
      exact (ih a ha hab).mp (hes' b hb)
    · intro hes b hb
      obtain ⟨a, ha, hab⟩ := exists_mem_left h hb
      exact (ih a ha hab).mpr (hes a ha)
  induction x with
  | int text =>
    intro r h
    rw [parseJSON] at h
    split at h
    · rw [← Except.ok.inj h]
      exact iff_of_true (everywhere_isFullyExpanded_literal rfl fun _ _ _ h => Expr.noConfusion h)
        (.node trivial (List.forall_mem_nil _))
    · cases h
  | string s =>
    intro r h
    rw [← Except.ok.inj h]
    exact iff_of_true (everywhere_isFullyExpanded_literal rfl fun _ _ _ h => Expr.noConfusion h)
      (.node trivial (List.forall_mem_nil _))
  | bytes hex =>
    intro r h
    rw [parseJSON] at h
    split at h
    · rw [← Except.ok.inj h]
      exact iff_of_true (everywhere_isFullyExpanded_literal rfl fun _ _ _ h => Expr.noConfusion h)
        (.node trivial (List.forall_mem_nil _))
    · cases h
  | seq items ih =>
    intro r h
    obtain ⟨items', hitems, rfl⟩ := parseJSON_seq_eq_ok.mp h
    rw [Expr.everywhere_iff, Expr.everywhere_iff]
    exact and_congr (iff_of_true ⟨id, fun _ => trivial⟩ trivial) (hall ih hitems)
  | prim p args annots ih =>
    intro r h
    obtain ⟨args', hsome, hargs, hr⟩ := parseJSON_prim_eq_ok.mp h
    by_cases hp : p = "constant"
    · subst hp
      rw [expand_constant hmap, Except.ok.injEq] at hr
      cases hvalue : constantValue hashAndValue args' with
      | some v =>
        -- the value stands in the place of the constant
        rw [hvalue, Option.getD_some] at hr
        obtain ⟨hash, rfl, hv⟩ := constantValue_eq_some hvalue
        obtain ⟨es, rfl⟩ := Option.isSome_iff_exists.mp hsome.symm
        rw [Option.getD_some, Option.getD_some] at hargs
        obtain ⟨a, es', hab, hnil, rfl⟩ := List.forall₂_cons_right_iff.mp hargs
        rw [List.forall₂_nil_right_iff] at hnil
        subst hnil
        have hresolves := (parseJSON_string_iff hmap).mp hab
        have hinner : a.Everywhere (ValueExpanded opt hashAndValue) :=
          (ih a List.mem_cons_self hab).mp
            (everywhere_isFullyExpanded_literal rfl fun _ _ _ h => Expr.noConfusion h)
        rw [← hr, Expr.everywhere_iff (e := .prim _ _ _)]
        constructor
        · intro hexpanded
          refine ⟨fun _ hash' v' hresolves' hv' => ?_,
            fun a' ha' => List.mem_singleton.mp ha' ▸ hinner⟩
          rw [hresolves'.unique hresolves, hv] at hv'
          exact Option.some.inj hv' ▸ hexpanded
        · intro hcond
          exact hcond.1 rfl hash v hresolves hv
      | none =>
        rw [hvalue, Option.getD_none] at hr
        rw [← hr, Expr.everywhere_iff, Expr.everywhere_iff]
        refine and_congr (iff_of_true ⟨fun hkeyed => ?_, fun _ => rfl⟩ ?_) (hall ih hargs)
        · rw [IsKeyed, hvalue] at hkeyed
          cases hkeyed.2
        · unfold ValueExpanded
          split
          · next q a ws heq =>
            cases heq
            intro _ hash v hresolves hv
            obtain ⟨es', rfl⟩ := Option.isSome_iff_exists.mp hsome
            rw [Option.getD_some, Option.getD_some] at hargs
            obtain ⟨b, bs, hab, hnil, rfl⟩ := List.forall₂_cons_left_iff.mp hargs
            rw [List.forall₂_nil_left_iff] at hnil
            have hb : b = .string hash :=
              Except.ok.inj (hab.symm.trans ((parseJSON_string_iff hmap).mpr hresolves))
            rw [hnil, hb, constantValue, hv] at hvalue
            cases hvalue
          · trivial
    · rw [everywhere_expand_other hmap hp hr, hall ih hargs, Expr.everywhere_iff]
      refine (and_iff_right ?_).symm
      unfold ValueExpanded
      split
      · next heq =>
        cases heq
        exact fun hq => absurd hq hp
      · trivial

end

/-- The constant `a` is the constant `b`, which is a number. -/
def chained (hash : JSString) : Option Expr :=
  if hash = js "a" then some (.prim "constant" (some [.string (js "b")]) none)
  else if hash = js "b" then some (.int (js "1"))
  else none

theorem constants_expanded_chained : (Expr.int (js "1")).Everywhere
      (IsFullyExpanded ⟨none, some chained, none⟩ chained) ↔
    (Expr.prim "constant" (some [.string (js "b")]) none).Everywhere
      (ValueExpanded ⟨none, some chained, none⟩ chained) :=
  constants_expanded_iff rfl (.prim "constant" (some [.string (js "b")]) none) rfl

/-- The constant in the value of `a` is left as it is. -/
theorem not_constants_expanded : ∃ r, parseJSON ⟨none, some chained, none⟩
      (.prim "constant" (some [.string (js "a")]) none) = .ok r ∧ IsKeyed chained r :=
  ⟨.prim "constant" (some [.string (js "b")]) none, rfl, rfl, rfl⟩

end MichelCodec
