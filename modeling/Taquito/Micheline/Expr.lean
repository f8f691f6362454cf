import Taquito.Js.Utf8

/-!
# Micheline expressions

The JSON form of a Micheline node that both packages exchange (`MichelsonValue` of the forger,
`Expr` of `michel-codec`): literals carry their text, and the `args` and `annots` of a primitive
may be absent, which is not the same value as an empty list. `Expr.norm` identifies the two.
-/

/-- A Micheline expression. -/
inductive Expr where
  | int (text : JSString)
  | string (text : JSString)
  | bytes (hex : JSString)
  | seq (items : List Expr)
  | prim (prim : String) (args : Option (List Expr)) (annots : Option (List JSString))
  deriving Repr, Inhabited

namespace Expr

/-- Induction with one hypothesis for every member of a sequence or argument list. -/
@[elab_as_elim, induction_eliminator]
theorem induct {P : Expr → Prop} (int : ∀ text, P (.int text)) (string : ∀ text, P (.string text))
    (bytes : ∀ hex, P (.bytes hex)) (seq : ∀ items, (∀ e ∈ items, P e) → P (.seq items))
    (prim : ∀ p args annots, (∀ e ∈ args.getD [], P e) → P (.prim p args annots)) (e : Expr) :
    P e :=
  @Expr.rec P (fun items => ∀ e ∈ items, P e) (fun args => ∀ e ∈ args.getD [], P e)
    int string bytes seq prim (by simp) (fun _ _ hd tl => by simpa using ⟨hd, tl⟩)
    (by simp) (fun _ h => h) e

/-- The members of a sequence, or the arguments of a primitive. -/
def children : Expr → List Expr
  | .seq items => items
  | .prim _ args _ => args.getD []
  | _ => []

/-- An absent list for an empty one. -/
def normOption {α : Type} : Option (List α) → Option (List α)
  | some [] => none
  | l => l

mutual

/-- The expression with empty argument and annotation lists absent. -/
def norm : Expr → Expr
  | .int text => .int text
  | .string text => .string text
  | .bytes hex => .bytes hex
  | .seq items => .seq (normList items)
  | .prim p none annots => .prim p none (normOption annots)
  | .prim p (some args) annots => .prim p (normOption (some (normList args))) (normOption annots)

/-- `norm` of every member. -/
def normList : List Expr → List Expr
  | [] => []
  | e :: es => e.norm :: normList es

end

theorem normList_eq_map (es : List Expr) : normList es = es.map norm := by
  induction es with
  | nil => rfl
  | cons e es ih => rw [normList, ih, List.map_cons]

@[simp] theorem normOption_getD {α : Type} (l : Option (List α)) :
    (normOption l).getD [] = l.getD [] := by
  rcases l with _ | _ | _ <;> rfl

@[simp] theorem normOption_normOption {α : Type} (l : Option (List α)) :
    normOption (normOption l) = normOption l := by
  rcases l with _ | _ | _ <;> rfl

theorem norm_prim (p : String) (args : Option (List Expr)) (annots : Option (List JSString)) :
    norm (.prim p args annots) =
      .prim p (normOption (args.map (·.map norm))) (normOption annots) := by
  cases args with
  | none => rfl
  | some args => rw [norm, normList_eq_map, Option.map_some]

theorem normOption_map_norm_getD (args : Option (List Expr)) :
    (normOption (args.map (·.map norm))).getD [] = (args.getD []).map norm := by
  cases args <;> simp

theorem norm_seq (items : List Expr) : norm (.seq items) = .seq (items.map norm) := by
  rw [norm, normList_eq_map]

/-! ## Depth -/

mutual

/-- Nesting, counting the expression itself. -/
def depth : Expr → ℕ
  | .seq items => depths items + 1
  | .prim _ (some args) _ => depths args + 1
  | _ => 1

/-- The deepest of a list. -/
def depths : List Expr → ℕ
  | [] => 0
  | e :: es => max e.depth (depths es)

end

theorem depth_pos (e : Expr) : 0 < e.depth := by
  rcases e with _ | _ | _ | _ | ⟨_, _ | _, _⟩ <;> simp [depth]

theorem depth_le_depths {e : Expr} {es : List Expr} (h : e ∈ es) : e.depth ≤ depths es := by
  induction es with
  | nil => simp at h
  | cons a es ih =>
    rw [depths]
    rcases List.mem_cons.mp h with rfl | h
    · exact le_max_left _ _
    · exact (ih h).trans (le_max_right _ _)

theorem depth_prim (p : String) (args : Option (List Expr)) (annots : Option (List JSString)) :
    depth (.prim p args annots) = depths (args.getD []) + 1 := by
  cases args <;> simp [depth, depths]

theorem depth_lt_of_mem_children {c e : Expr} (h : c ∈ e.children) : c.depth < e.depth := by
  cases e with
  | seq items => exact Nat.lt_succ_of_le (depth_le_depths h)
  | prim p args annots =>
    rw [depth_prim]
    exact Nat.lt_succ_of_le (depth_le_depths h)
  | _ => cases h

mutual

/-- A bound on the nesting of an expression whose combs are split into pairs. -/
def weight : Expr → ℕ
  | .seq items => weights items + 1
  | .prim _ (some args) _ => weights args + 1
  | _ => 1

/-- The sum over a list, counting its members. -/
def weights : List Expr → ℕ
  | [] => 0
  | e :: es => e.weight + 1 + weights es

end

theorem weight_pos (e : Expr) : 0 < e.weight := by
  rcases e with _ | _ | _ | _ | ⟨_, _ | _, _⟩ <;> simp [weight]

theorem exists_succ_of_weight {e : Expr} {fuel : ℕ} (h : e.weight ≤ fuel) : ∃ k, fuel = k + 1 :=
  ⟨fuel - 1, by have := weight_pos e; omega⟩

theorem weight_lt_weights {e : Expr} {es : List Expr} (h : e ∈ es) : e.weight < weights es := by
  induction es with
  | nil => simp at h
  | cons a es ih =>
    rw [weights]
    rcases List.mem_cons.mp h with rfl | h
    · omega
    · have := ih h
      omega

theorem weight_prim (p : String) (args : Option (List Expr)) (annots : Option (List JSString)) :
    weight (.prim p args annots) = weights (args.getD []) + 1 := by
  cases args <;> simp [weight, weights]

theorem weight_lt_of_mem_children {c e : Expr} (h : c ∈ e.children) : c.weight < e.weight := by
  cases e with
  | seq items =>
    rw [weight]
    exact (weight_lt_weights h).trans (Nat.lt_succ_self _)
  | prim p args annots =>
    rw [weight_prim]
    exact (weight_lt_weights h).trans (Nat.lt_succ_self _)
  | _ => cases h

/-! ## Every node -/

section

/-- Every node of an expression has a property. -/
inductive Everywhere (P : Expr → Prop) : Expr → Prop where
  | node {e : Expr} (here : P e) (below : ∀ a ∈ e.children, Everywhere P a) : Everywhere P e

variable {P : Expr → Prop} {e : Expr}

theorem everywhere_iff : e.Everywhere P ↔ P e ∧ ∀ a ∈ e.children, a.Everywhere P :=
  ⟨fun ⟨here, below⟩ => ⟨here, below⟩, fun h => .node h.1 h.2⟩

theorem everywhere_of_forall (h : ∀ a, P a) : e.Everywhere P := by
  induction e with
  | int text => exact .node (h _) nofun
  | string s => exact .node (h _) nofun
  | bytes hex => exact .node (h _) nofun
  | seq items ih => exact .node (h _) ih
  | prim p args annots ih => exact .node (h _) ih

end

end Expr
