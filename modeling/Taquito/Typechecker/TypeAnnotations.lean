import Taquito.Typechecker.Instructions

/-!
# Annotations of the types on a stack

`unpackAnnotations` accepts a list of annotations exactly when it accepts each of them. A type whose
annotations are accepted keeps its annotations of variables and types when an instruction without
annotations puts it back on the stack: `annotateVar_eq`.

`functionType` checks the annotations of every type of the stack it is given. `IsAnnotated` is what
a type that passes it has, and so have the types that it is made of.
-/

open Js MichelCodec

namespace Typechecker

open StackType

/-! ## Accepted annotations -/

/-- One annotation is accepted. -/
def AnnotationOk (opt : UnpackAnnotationsOptions) (v : JSString) : Prop :=
  ( unpackAnnotation opt {} v).isSome

/-- Whether an annotation is accepted does not depend on those before it. -/
theorem unpackAnnotation_isSome (opt : UnpackAnnotationsOptions) (a : UnpackedAnnotations)
    (v : JSString) : ( unpackAnnotation opt a v).isSome ↔ AnnotationOk opt v := by
  unfold AnnotationOk unpackAnnotation
  split
  · exact Iff.rfl
  · split
    · exact Iff.rfl
    · split
      · exact Iff.rfl
      · split <;> exact Iff.rfl

theorem unpackAnnotationsFrom_ok_iff (opt : UnpackAnnotationsOptions) (a : UnpackedAnnotations)
    (annots : List JSString) :
    (∃ b, unpackAnnotationsFrom opt a annots = .ok b) ↔ ∀ v ∈ annots, AnnotationOk opt v := by
  induction annots generalizing a with
  | nil => exact iff_of_true ⟨a, rfl⟩ fun _ h => absurd h List.not_mem_nil
  | cons v annots ih =>
    rw [List.forall_mem_cons, ← unpackAnnotation_isSome opt a v, unpackAnnotationsFrom]
    cases hv : unpackAnnotation opt a v with
    | none => exact iff_of_false (fun h => by obtain ⟨b, hb⟩ := h; cases hb) fun h => by cases h.1
    | some b => exact (ih b).trans (and_iff_right rfl).symm

/-- What one more annotation does. -/
theorem unpackAnnotation_cases {opt : UnpackAnnotationsOptions} {a b : UnpackedAnnotations}
    {v : JSString} (h : unpackAnnotation opt a v = some b) :
    b = a ∨ b = { a with f := some (a.f.getD [] ++ [v]) } ∨
      b = { a with t := some (a.t.getD [] ++ [v]) } ∨ b = { a with v := some (a.v.getD [] ++ [v]) } := by
  have hite {c : Prop} [Decidable c] {x : UnpackedAnnotations}
      (h : some (if c then x else a) = some b) : b = a ∨ b = x := by
    by_cases hc : c
    · rw [if_pos hc] at h
      exact .inr (Option.some.inj h).symm
    · rw [if_neg hc] at h
      exact .inl (Option.some.inj h).symm
  unfold unpackAnnotation at h
  by_cases h₁ : v.isEmpty
  · rw [if_pos h₁] at h
    exact .inl (Option.some.inj h).symm
  · rw [if_neg h₁] at h
    by_cases h₂ : (!annRe v || (!opt.specialVar && (v == js "@%" || v == js "@%%")) ||
        (!opt.specialFields && v == js "%@")) = true
    · rw [if_pos h₂] at h
      cases h
    · rw [if_neg h₂] at h
      by_cases h₃ : v.head? = some 37
      · rw [if_pos h₃] at h
        obtain hb | hb := hite h
        · exact .inl hb
        · exact .inr (.inl hb)
      · rw [if_neg h₃] at h
        by_cases h₄ : v.head? = some 58
        · rw [if_pos h₄] at h
          obtain hb | hb := hite h
          · exact .inl hb
          · exact .inr (.inr (.inl hb))
        · rw [if_neg h₄] at h
          obtain hb | hb := hite h
          · exact .inl hb
          · exact .inr (.inr (.inr hb))

/-- The annotations of variables and types are among those that were unpacked. -/
theorem unpackAnnotationsFrom_mem {opt : UnpackAnnotationsOptions} {annots : List JSString}
    {a b : UnpackedAnnotations} (h : unpackAnnotationsFrom opt a annots = .ok b) {x : JSString}
    (hx : x ∈ b.v.getD [] ∨ x ∈ b.t.getD []) : x ∈ annots ∨ x ∈ a.v.getD [] ∨ x ∈ a.t.getD [] := by
  induction annots generalizing a with
  | nil =>
    cases h
    exact .inr hx
  | cons v annots ih =>
    rw [unpackAnnotationsFrom] at h
    cases hc : unpackAnnotation opt a v with
    | none =>
      rw [hc] at h
      cases h
    | some c =>
      rw [hc] at h
      have hnew {l : List JSString} (hx : x ∈ l ++ [v]) : x ∈ v :: annots ∨ x ∈ l := by
        obtain hx | hx := List.mem_append.mp hx
        · exact .inr hx
        · exact .inl (List.mem_singleton.mp hx ▸ List.mem_cons_self)
      obtain hmem | hmem := ih h
      · exact .inl (List.mem_cons_of_mem v hmem)
      · obtain rfl | rfl | rfl | rfl := unpackAnnotation_cases hc
        · exact .inr hmem
        · exact .inr hmem
        · obtain hmem | hmem := hmem
          · exact .inr (.inl hmem)
          · exact (hnew hmem).imp_right .inr
        · obtain hmem | hmem := hmem
          · exact (hnew hmem).imp_right .inl
          · exact .inr (.inr hmem)

/-! ## Types that pass -/

/-- The annotations of the type itself are accepted. -/
def OwnAnnotations (t : StackType) : Prop := ∀ v ∈ t.annots.getD [], AnnotationOk {} v

theorem unpackAnnotations_ok_iff (t : StackType) :
    (∃ a, unpackAnnotations t {} = .ok a) ↔ OwnAnnotations t := by
  rw [OwnAnnotations, ← unpackAnnotationsFrom_ok_iff {} {}, unpackAnnotations]
  cases unpackAnnotationsFrom {} {} (t.annots.getD []) with
  | ok a => exact iff_of_true ⟨a, rfl⟩ ⟨a, rfl⟩
  | error v =>
    exact iff_of_false (fun h => by obtain ⟨a, ha⟩ := h; cases ha)
      fun h => by obtain ⟨a, ha⟩ := h; cases ha

/-- What an instruction without annotations keeps of the annotations of a type. -/
def StackType.kept (t : StackType) : List JSString :=
  match unpackAnnotationsFrom {} {} (t.annots.getD []) with
  | .ok a => a.v.getD [] ++ a.t.getD []
  | .error _ => []

/-- An instruction without annotations may have any number of them. -/
theorem instructionAnn_eq {i : Instruction} (hnone : i.annots = none) (stack : List StackType)
    (num : AnnotationCounts) (opt : UnpackAnnotationsOptions) :
    instructionAnn i stack num opt = .ok {} := by
  have hannots : (ofExpr i.expr).annots = none := by
    rw [Instruction.expr, hnone]
    cases i.args <;> rfl
  rw [instructionAnn, unpackAnnotations, hannots]
  rfl

theorem argAnn_eq (i : Instruction) (stack : List StackType) {t : StackType} (ht : OwnAnnotations t) :
    ∃ a, argAnn i stack t = .ok a ∧ a.v.getD [] ++ a.t.getD [] = t.kept := by
  obtain ⟨a, ha⟩ := (unpackAnnotationsFrom_ok_iff {} {} _).mpr ht
  refine ⟨a, ?_, ?_⟩
  · rw [argAnn, unpackAnnotations, ha]
    rfl
  · rw [StackType.kept, ha]

/-- **What an instruction without annotations puts back on the stack.** -/
theorem annotate_eq (i : Instruction) (stack : List StackType) {t : StackType}
    (ht : OwnAnnotations t) :
    annotate i stack t { v := .null, t := .null } = .ok (t.withAnnots t.kept) := by
  obtain ⟨a, ha, hkept⟩ := argAnn_eq i stack ht
  rw [annotate, ha, Except.ok_bind]
  show Except.ok (t.withAnnots (a.v.getD [] ++ a.t.getD [] ++ [])) = _
  rw [List.append_nil, hkept]

theorem annotateVar_eq {i : Instruction} (hnone : i.annots = none) (stack : List StackType)
    {t : StackType} (ht : OwnAnnotations t) :
    annotateVar i stack t none = .ok (t.withAnnots t.kept) := by
  rw [annotateVar, instructionAnn_eq hnone, Except.ok_bind]
  exact annotate_eq i stack ht

/-- A component keeps the same annotations, whatever the pair has. -/
theorem annotateField_eq (i : Instruction) (stack : List StackType) {arg field : StackType}
    (harg : OwnAnnotations arg) (hfield : OwnAnnotations field) (k : ℕ) (defField : JSString) :
    annotateField i stack arg field {} k defField = .ok (field.withAnnots field.kept) := by
  obtain ⟨a, ha, -⟩ := argAnn_eq i stack harg
  obtain ⟨b, hb, -⟩ := argAnn_eq i stack hfield
  rw [annotateField, hb, Except.ok_bind]
  dsimp only
  rw [ha]
  exact annotate_eq i stack hfield

@[simp] theorem withAnnots_withAnnots (t : StackType) (a b : List JSString) :
    (t.withAnnots a).withAnnots b = t.withAnnots b := by
  cases t with
  | _ => rfl

theorem annots_withAnnots (t : StackType) (ann : List JSString) :
    ∀ v ∈ (t.withAnnots ann).annots.getD [], v ∈ ann := by
  intro v hv
  have hif (hv : v ∈ (if ann.isEmpty then none else some ann).getD []) : v ∈ ann := by
    cases ann with
    | nil => exact absurd hv List.not_mem_nil
    | cons a ann => exact hv
  cases t with
  | seq items => exact hif hv
  | prim p args annots ref => exact hif hv
  | spread items annots => exact hif hv
  | int text => exact absurd hv List.not_mem_nil
  | string text => exact absurd hv List.not_mem_nil
  | bytes hex => exact absurd hv List.not_mem_nil

@[simp] theorem isPairType_withAnnots (t : StackType) (ann : List JSString) :
    (t.withAnnots ann).isPairType = t.isPairType := by
  cases t with
  | _ => rfl

/-- What was put back on the stack can be put back again. -/
theorem OwnAnnotations.withAnnots_kept {t : StackType} (ht : OwnAnnotations t) :
    OwnAnnotations (t.withAnnots t.kept) := by
  intro v hv
  obtain ⟨a, ha⟩ := (unpackAnnotationsFrom_ok_iff {} {} _).mpr ht
  have hkept := annots_withAnnots t t.kept v hv
  rw [StackType.kept, ha] at hkept
  obtain hmem | hmem := unpackAnnotationsFrom_mem ha (List.mem_append.mp hkept)
  · exact ht v hmem
  · obtain hmem | hmem := hmem
    · exact absurd hmem List.not_mem_nil
    · exact absurd hmem List.not_mem_nil

/-- The type passes `assertTypeAnnotationsValid`, for some bound on its nesting. -/
def IsAnnotated (t : StackType) : Prop := ∃ fuel field, typeAnnotationsValid fuel t field = .ok ()

theorem forEachType_eq_ok {check : StackType → Checked Unit} {types : List StackType} :
    forEachType check types = .ok () ↔ ∀ t ∈ types, check t = .ok () := by
  induction types with
  | nil => exact iff_of_true rfl fun _ h => absurd h List.not_mem_nil
  | cons t types ih =>
    rw [List.forall_mem_cons, ← ih, forEachType, Except.bind_eq_ok]
    constructor
    · rintro ⟨_, ht, hrest⟩
      exact ⟨ht, hrest⟩
    · rintro ⟨ht, hrest⟩
      exact ⟨(), ht, hrest⟩

theorem IsAnnotated.own {t : StackType} (h : IsAnnotated t) : OwnAnnotations t := by
  obtain ⟨fuel, field, h⟩ := h
  cases fuel with
  | zero => cases h
  | succ fuel =>
    rw [← unpackAnnotations_ok_iff]
    cases t with
    | seq items => exact ⟨_, rfl⟩
    | _ =>
      obtain ⟨_, hown, -⟩ := Except.bind_eq_ok.mp h
      obtain ⟨a, ha, -⟩ := Except.bind_eq_ok.mp hown
      exact ⟨a, ha⟩

/-- The arguments of a pair pass as well, with one bound. -/
theorem IsAnnotated.args {t : StackType} (h : IsAnnotated t) (hpair : t.isPairType = true)
    {args : List StackType} (hargs : typeArgs t = .ok args) :
    ∃ fuel, ∀ a ∈ args, typeAnnotationsValid fuel a true = .ok () := by
  obtain ⟨fuel, field, h⟩ := h
  cases fuel with
  | zero => cases h
  | succ fuel =>
    have harg : argAnnotationsValid (typeAnnotationsValid fuel) t = .ok () := by
      cases t with
      | seq items => exact h
      | _ =>
        obtain ⟨_, -, harg⟩ := Except.bind_eq_ok.mp h
        exact harg
    rw [argAnnotationsValid, if_pos hpair, hargs, Except.ok_bind] at harg
    exact ⟨fuel, forEachType_eq_ok.mp harg⟩

/-- What `unpackComb` makes of a type. -/
theorem unpackComb_eq_ok {t : StackType} {c : Comb} (h : unpackComb t = .ok c) :
    ∃ rest, typeArgs t = .ok (c.first :: rest) ∧
      (rest = [c.second] ∨ rest.length ≠ 1 ∧ c.second = ofPrim "pair" rest) ∧
      (c.annots = none ∨ c.annots = t.annots) := by
  have hargs {args : List StackType} {annots : Option (List JSString)} {ref : Option StackType}
      (h : unpackArgs args annots ref = .ok c) : ∃ rest, args = c.first :: rest ∧
        (rest = [c.second] ∨ rest.length ≠ 1 ∧ c.second = ofPrim "pair" rest) ∧
        (c.annots = none ∨ c.annots = annots) := by
    match args, h with
    | [a, b], h =>
      cases h
      exact ⟨[b], rfl, .inl rfl, .inl rfl⟩
    | [a], h =>
      cases h
      exact ⟨[], rfl, .inr ⟨Nat.zero_ne_one, rfl⟩, .inr rfl⟩
    | a :: b :: d :: rest, h =>
      cases h
      exact ⟨b :: d :: rest, rfl, .inr ⟨by rw [List.length_cons, List.length_cons]; omega, rfl⟩,
        .inr rfl⟩
  match t, h with
  | .seq items, h =>
    obtain ⟨rest, rfl, hsecond, hannots⟩ := hargs h
    exact ⟨rest, rfl, hsecond, hannots⟩
  | .prim p (some args) annots ref, h =>
    obtain ⟨rest, rfl, hsecond, hannots⟩ := hargs h
    exact ⟨rest, rfl, hsecond, hannots⟩

/-- The two components of a pair pass as well, and so does the pair put together again. -/
theorem IsAnnotated.comb {t : StackType} (h : IsAnnotated t) (hpair : t.isPairType = true) {c : Comb}
    (hc : unpackComb t = .ok c) :
    IsAnnotated c.first ∧ IsAnnotated c.second ∧ ∀ a b, OwnAnnotations (c.withArgs a b) := by
  obtain ⟨rest, hargs, hsecond, hannots⟩ := unpackComb_eq_ok hc
  obtain ⟨fuel, hall⟩ := h.args hpair hargs
  rw [List.forall_mem_cons] at hall
  refine ⟨⟨fuel, true, hall.1⟩, ?_, fun a b v hv => ?_⟩
  · obtain rfl | ⟨-, hsecond⟩ := hsecond
    · exact ⟨fuel, true, hall.2 _ List.mem_cons_self⟩
    · rw [hsecond]
      exact ⟨fuel + 1, true, forEachType_eq_ok.mpr hall.2⟩
  · replace hv : v ∈ c.annots.getD [] := hv
    obtain hannots | hannots := hannots
    · rw [hannots] at hv
      exact absurd hv List.not_mem_nil
    · rw [hannots] at hv
      exact h.own v hv

end Typechecker
