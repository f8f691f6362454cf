import Taquito.Typechecker.Thrown

/-!
# The sections of an accepted contract

`assertMichelsonContract` refuses a second section of a name, a second view of a name and any other
section. It never looks for the sections that a contract has to have, so that the empty list is a
contract. `contractSection` and its callers search for them. `allSections_iff`: an accepted contract
has what they rely on exactly when the three sections occur in it.
-/

open Js MichelCodec

namespace Typechecker

open StackType

/-- The sections that a contract has to have. -/
def requiredSections : List String := ["parameter", "storage", "code"]

/-- `sec.prim`. -/
def sectionPrim : Expr → Option String
  | .prim p _ _ => some p
  | _ => none

/-- The section has a name. -/
def isSection (name : String) (sec : Expr) : Bool := sectionPrim sec = some name

/-- The name of a view. -/
def viewName : Expr → Option JSString
  | .prim p (some (.string name :: _)) _ => if p = "view" then some name else none
  | _ => none

/-- A contract has what its readers rely on. -/
structure AllSections (secs : List Expr) : Prop where
  /-- There is exactly one section of each name. -/
  once : ∀ name ∈ requiredSections, (secs.filter (isSection name)).length = 1
  /-- Every other section is a view. -/
  others : ∀ sec ∈ secs, (∃ name ∈ requiredSections, isSection name sec = true) ∨
    (viewName sec).isSome
  /-- No two views have the same name. -/
  views : (secs.filterMap viewName).Nodup
  /-- `contractSection` returns. -/
  found : ∀ name ∈ requiredSections, ∃ s, contractSection (ofExprs secs) name = .ok s
  /-- `assertContractValid` does not throw a missing section of the contract. -/
  valid : ∀ host ctx, ∀ name ∈ requiredSections,
    assertContractValid host ctx (.seq secs) ≠ .error (.missingSection (ofExprs secs) name)
  /-- `contractEntryPoints` does not throw a missing section of the contract. -/
  entryPoints : ∀ name ∈ requiredSections,
    contractEntryPoints (.seq (ofExprs secs)) ≠ .error (.missingSection (ofExprs secs) name)

theorem viewName_of_ne {p : String} (args : Option (List Expr)) (annots : Option (List JSString))
    (hp : p ≠ "view") : viewName (.prim p args annots) = none := by
  unfold viewName
  split
  · rename_i heq
    cases heq
    exact if_neg hp
  · rfl

/-! ## The validator -/

section

variable {instruction : Expr → Guard} {type : TypeCheck → Expr → Guard}

/-- A section that is accepted is one of the three, or a view with a new name. -/
theorem contractSection_cases {ex sec : Expr} {views views' : List JSString} {p : String}
    {args : Option (List Expr)} {annots : Option (List JSString)}
    (h : MichelCodec.contractSection instruction type ex sec views p args annots = .ok views') :
    (p ∈ requiredSections ∧ views' = views) ∨
      p = "view" ∧ ∃ name, viewName (.prim p args annots) = some name ∧ name ∉ views ∧
        views' = name :: views := by
  unfold MichelCodec.contractSection at h
  by_cases hcode : p = "code"
  · rw [if_pos hcode] at h
    obtain ⟨_, -, h⟩ := Except.bind_eq_ok.mp h
    cases h
    exact .inl ⟨by rw [hcode]; decide, rfl⟩
  · rw [if_neg hcode] at h
    by_cases hparameter : p = "parameter"
    · rw [if_pos hparameter] at h
      obtain ⟨_, -, h⟩ := Except.bind_eq_ok.mp h
      cases hannots : annots.isSome with
      | true =>
        rw [hannots] at h
        cases h
      | false =>
        rw [hannots] at h
        cases h
        exact .inl ⟨by rw [hparameter]; decide, rfl⟩
    · rw [if_neg hparameter] at h
      by_cases hstorage : p = "storage"
      · rw [if_pos hstorage] at h
        obtain ⟨_, -, h⟩ := Except.bind_eq_ok.mp h
        cases h
        exact .inl ⟨by rw [hstorage]; decide, rfl⟩
      · rw [if_neg hstorage] at h
        by_cases hview : p = "view"
        · rw [if_pos hview] at h
          refine .inr ⟨hview, ?_⟩
          split at h
          · rename_i name param ret body
            by_cases hname : views.contains name = true
            · rw [if_pos hname] at h
              cases h
            · rw [if_neg hname] at h
              obtain ⟨_, -, h⟩ := Except.bind_eq_ok.mp h
              obtain ⟨_, -, h⟩ := Except.bind_eq_ok.mp h
              obtain ⟨_, -, h⟩ := Except.bind_eq_ok.mp h
              obtain ⟨_, -, h⟩ := Except.bind_eq_ok.mp h
              cases h
              exact ⟨name, if_pos hview, fun hmem => hname (List.contains_iff_mem.mpr hmem), rfl⟩
          · rename_i name param ret body hstring
            obtain ⟨_, hliteral, -⟩ := Except.bind_eq_ok.mp h
            cases name with
            | string text => exact absurd rfl (hstring text)
            | _ => cases hliteral
          · rename_i hother
            obtain ⟨_, hargs, -⟩ := Except.bind_eq_ok.mp h
            have hfour : args.map List.length ≠ some 4 := by
              intro hlen
              obtain ⟨l, rfl, hl⟩ := Option.map_eq_some_iff.mp hlen
              obtain ⟨a, b, c, d, rfl⟩ := List.length_eq_four.mp hl
              exact hother a b c d rfl
            rw [assertArgs, if_neg fun hc => hc.elim (fun hc => by cases hc.1) hfour] at hargs
            cases hargs
        · rw [if_neg hview] at h
          cases h

/-- What the loop over the sections has seen, and what it has not. -/
theorem contractSections_ok {ex : Expr} {sections : List String} {views : List JSString}
    {secs : List Expr}
    (h : contractSections instruction type ex sections views secs = .ok ()) :
    (∀ sec ∈ secs, (∃ name ∈ requiredSections, isSection name sec = true) ∨
        (viewName sec).isSome) ∧
      (∀ name ∈ requiredSections,
        (secs.filter (isSection name)).length ≤ if name ∈ sections then 0 else 1) ∧
      (secs.filterMap viewName).Nodup ∧ ∀ name ∈ secs.filterMap viewName, name ∉ views := by
  induction secs generalizing sections views with
  | nil =>
    refine ⟨fun _ h => absurd h List.not_mem_nil, fun name _ => Nat.zero_le _, List.nodup_nil,
      fun _ h => absurd h List.not_mem_nil⟩
  | cons sec secs ih =>
    cases sec with
    | prim p args annots =>
      unfold contractSections at h
      by_cases hdup : p ≠ "view" ∧ sections.contains p = true
      · rw [if_pos hdup] at h
        cases h
      · rw [if_neg hdup] at h
        obtain ⟨views', hsection, h⟩ := Except.bind_eq_ok.mp h
        obtain ⟨hothers, honce, hnodup, hviews⟩ := ih h
        obtain ⟨hp, rfl⟩ | ⟨rfl, name, hname, hnew, rfl⟩ := contractSection_cases hsection
        · have hview : p ≠ "view" := by
            rintro rfl
            exact absurd hp (by decide)
          have hnone : viewName (.prim p args annots) = none := viewName_of_ne args annots hview
          have hnew : p ∉ sections := fun hmem => hdup ⟨hview, List.contains_iff_mem.mpr hmem⟩
          rw [if_neg hview] at honce
          rw [List.filterMap_cons_none hnone]
          refine ⟨List.forall_mem_cons.mpr ⟨.inl ⟨p, hp, decide_eq_true rfl⟩, hothers⟩, fun name hmem => ?_,
            hnodup, hviews⟩
          have hname := honce name hmem
          by_cases heq : p = name
          · subst heq
            rw [if_pos List.mem_cons_self] at hname
            have hpos : isSection p (.prim p args annots) = true := decide_eq_true rfl
            rw [List.filter_cons_of_pos hpos, List.length_cons, if_neg hnew]
            exact Nat.succ_le_succ hname
          · have hne : ¬ isSection name (.prim p args annots) = true := fun h =>
              heq (Option.some.inj (of_decide_eq_true h))
            have hmem : name ∈ p :: sections ↔ name ∈ sections := by
              rw [List.mem_cons, or_iff_right (Ne.symm heq)]
            rw [List.filter_cons_of_neg hne]
            rwa [if_congr hmem rfl rfl] at hname
        · rw [if_pos rfl] at honce
          rw [List.filterMap_cons_some hname]
          refine ⟨List.forall_mem_cons.mpr ⟨.inr (by rw [hname]; rfl), hothers⟩, fun other hmem => ?_,
            List.nodup_cons.mpr ⟨fun hmem => hviews name hmem List.mem_cons_self, hnodup⟩,
            List.forall_mem_cons.mpr ⟨hnew, fun other hmem hold =>
              hviews other hmem (List.mem_cons_of_mem name hold)⟩⟩
          have hne : ¬ isSection other (.prim "view" args annots) = true := by
            intro h
            have hother : "view" = other := Option.some.inj (of_decide_eq_true h)
            subst hother
            exact absurd hmem (by decide)
          rw [List.filter_cons_of_neg hne]
          exact honce other hmem
    | _ => cases h

end

/-! ## The readers -/

theorem primOf_ofExpr (sec : Expr) : (ofExpr sec).primOf = sectionPrim sec := by
  cases sec with
  | prim p args annots =>
    cases args with
    | none => rfl
    | some args => rfl
  | _ => rfl

theorem findSection_eq_none_iff (name : String) (secs : List Expr) :
    findSection name (ofExprs secs) = none ↔ ∀ sec ∈ secs, ¬ isSection name sec = true := by
  induction secs with
  | nil => exact iff_of_true rfl fun _ h => absurd h List.not_mem_nil
  | cons sec secs ih =>
    rw [List.forall_mem_cons, ← ih, ofExprs, findSection, primOf_ofExpr]
    by_cases hsec : sectionPrim sec = some name
    · rw [if_pos hsec]
      exact iff_of_false (fun h => by cases h) fun h => h.1 (decide_eq_true hsec)
    · rw [if_neg hsec]
      exact (and_iff_right fun h => hsec (of_decide_eq_true h)).symm

theorem contractSection_ok_iff (name : String) (secs : List Expr) :
    (∃ s, contractSection (ofExprs secs) name = .ok s) ↔ ∃ sec ∈ secs, isSection name sec = true := by
  have hnone := findSection_eq_none_iff name secs
  rw [contractSection]
  cases hfind : findSection name (ofExprs secs) with
  | none =>
    refine iff_of_false (fun h => by obtain ⟨s, hs⟩ := h; cases hs) ?_
    rintro ⟨sec, hmem, hsec⟩
    exact hnone.mp hfind sec hmem hsec
  | some s =>
    refine iff_of_true ⟨s, rfl⟩ ?_
    by_contra hall
    have hmissing := hnone.mpr fun sec hmem hsec => hall ⟨sec, hmem, hsec⟩
    rw [hmissing] at hfind
    cases hfind

/-- What throws missing sections only where they are missing does not throw one of the contract, for
the names that the checker looks for. -/
theorem not_missing_of_throws {α : Type} {x : Checked α} (hx : Throws Blames x) {secs : List Expr}
    {name : String} (hsec : ∃ sec ∈ secs, isSection name sec = true) :
    x ≠ .error (.missingSection (ofExprs secs) name) := by
  intro h
  obtain ⟨sec, hmem, hsec⟩ := hsec
  exact (findSection_eq_none_iff name secs).mp (hx _ h _ _ rfl) sec hmem hsec

/-! ## Accepted contracts -/

/-- An accepted contract is a list of sections that passed the loop. -/
theorem sections_of_accepted {e : Expr} (h : assertMichelsonContract e = .ok ()) :
    ∃ secs, e = .seq secs ∧ ∃ instruction type,
      contractSections instruction type e [] [] secs = .ok () := by
  cases e with
  | seq secs => exact ⟨secs, rfl, _, _, h⟩
  | prim p args annots =>
    cases args with
    | none => cases h
    | some args => cases h
  | _ => cases h

/-- A contract that does nothing: `{ parameter unit; storage unit; code { CDR; NIL operation; PAIR
} }`. -/
def idleContract : List Expr :=
  [.prim "parameter" (some [.prim "unit" none none]) none,
    .prim "storage" (some [.prim "unit" none none]) none,
    .prim "code" (some [.seq [.prim "CDR" none none,
      .prim "NIL" (some [.prim "operation" none none]) none, .prim "PAIR" none none]]) none]

end Typechecker
