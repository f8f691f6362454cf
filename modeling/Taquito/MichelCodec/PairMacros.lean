import Taquito.MichelCodec.Macros

/-!
# What the pair macros do

A stack semantics of the instructions that the expansions of `P...R` and `UNP...R` consist of, and
the meaning of these expansions: the code for a tree builds that tree from its leaves
(`run_pairMacro`), and the code of the inverse macro takes it apart (`run_unpairMacro`). Both follow
the parts in which the name is parsed: a part acts on the stack below the depth it is dipped to, and
the parts of a right subtree lie one deeper.
-/

open Js

namespace MichelCodec

/-! ## Values and instructions -/

/-- A value: a pair carries the field annotations of its sides. -/
inductive Value (α : Type) where
  | atom (a : α)
  | pair (lf : Option JSString) (l : Value α) (rf : Option JSString) (r : Value α)

variable {α : Type}

/-- A field annotation; `%` alone is none. -/
def fieldLabel (a : Option JSString) : Option JSString := a.filter (· ≠ [37])

/-- `PAIR`, below the first `d` elements. -/
def pairAt (lf rf : Option JSString) : ℕ → List (Value α) → Option (List (Value α))
  | 0, a :: b :: s => some (.pair lf a rf b :: s)
  | d + 1, a :: s => (pairAt lf rf d s).map (a :: ·)
  | _, _ => none

/-- `UNPAIR`, below the first `d` elements. -/
def unpairAt : ℕ → List (Value α) → Option (List (Value α))
  | 0, .pair _ a _ b :: s => some (a :: b :: s)
  | d + 1, a :: s => (unpairAt d s).map (a :: ·)
  | _, _ => none

/-- `DIP n`, of a computation on the rest of the stack. -/
def dip (f : List (Value α) → Option (List (Value α))) : ℕ → List (Value α) →
    Option (List (Value α))
  | 0, s => f s
  | n + 1, a :: s => (dip f n s).map (a :: ·)
  | _ + 1, [] => none

/-- The instructions without arguments. -/
def runPlain (p : String) (annots : Option (List JSString)) (s : List (Value α)) :
    Option (List (Value α)) :=
  let fields := (filterAnnotations annots).1
  match s with
  | [] => none
  | a :: s =>
    if p = "PAIR" then pairAt (fieldLabel fields[0]?) (fieldLabel fields[1]?) 0 (a :: s)
    else if p = "UNPAIR" then unpairAt 0 (a :: s)
    else if p = "DUP" then some (a :: a :: s)
    else match a with
      | .pair _ x _ y => if p = "CAR" then some (x :: s) else if p = "CDR" then some (y :: s) else none
      | .atom _ => none

mutual

/-- The effect of code on a stack; `none` is code that is stuck, or not of the fragment. -/
def run : Expr → List (Value α) → Option (List (Value α))
  | .seq items, s => runAll items s
  | .prim p none annots, s => runPlain p annots s
  | .prim p (some [body]) _, s => if p = "DIP" then dip (run body) 1 s else none
  | .prim p (some [.int n, body]) _, s =>
    if p = "DIP" then (decimalValue n).bind fun n => dip (run body) n.toNat s else none
  | _, _ => none

/-- The effect of a sequence. -/
def runAll : List Expr → List (Value α) → Option (List (Value α))
  | [], s => some s
  | e :: es, s => (run e s).bind (runAll es)

end

theorem runAll_append (es es' : List Expr) (s : List (Value α)) :
    runAll (es ++ es') s = (runAll es s).bind (runAll es') := by
  induction es generalizing s with
  | nil => simp [runAll]
  | cons e es ih =>
    rw [List.cons_append, runAll, runAll, Option.bind_assoc]
    congr 1
    funext s'
    exact ih s'

/-! ## Trees and their names -/

/-- A binary tree of pairs. -/
inductive PairTree (β : Type) where
  | leaf (a : β)
  | node (l r : PairTree β)

namespace PairTree

variable {β : Type}

/-- The leaves, from left to right. -/
def leaves : PairTree β → List β
  | leaf a => [a]
  | node l r => l.leaves ++ r.leaves

/-- The part of the name that stands for a tree; a leaf is `A` on the left and `I` on the right. -/
def code (side : Char) : PairTree β → List Char
  | leaf _ => [side]
  | node l r => 'P' :: (l.code 'A' ++ r.code 'I')

/-- The name of the `P...R` macro of a tree. -/
def pairName (t : PairTree β) : String := String.ofList (t.code 'A' ++ ['R'])

/-- The name of the `UNP...R` macro of a tree. -/
def unpairName (t : PairTree β) : String := String.ofList ('U' :: 'N' :: (t.code 'A' ++ ['R']))

/-- The annotation of a leaf. -/
def leafAnnot : PairTree β → List JSString → Option JSString
  | leaf _, fields => fields.head?
  | node _ _, _ => none

/-- The parts a name is parsed into; a leaf has none. -/
def parts (agg : Option (List PT) → Option (List PT) → PT → List PT) :
    PairTree β → List JSString → Option (List PT)
  | leaf _, _ => none
  | node l r, fields =>
    some (agg (l.parts agg fields)
      ((r.parts agg (fields.drop l.leaves.length)).map (·.map fun t => (t.1 + 1, t.2)))
      (0, l.leafAnnot fields, r.leafAnnot (fields.drop l.leaves.length)))

/-- The value of a tree of values, the `i`-th leaf under the `i`-th field annotation. -/
def build : PairTree (Value α) → List JSString → Value α
  | leaf a, _ => a
  | node l r, fields =>
    .pair (fieldLabel (l.leafAnnot fields)) (l.build fields)
      (fieldLabel (r.leafAnnot (fields.drop l.leaves.length)))
      (r.build (fields.drop l.leaves.length))

end PairTree

/-! ## Parsing a name -/

section

variable (ex : Expr) (name : String) (agg : Option (List PT) → Option (List PT) → PT → List PT)

/-- One side of a pair: its parts or its annotation, and the numbers of characters and annotations
consumed after its first character. -/
def parseSide (letter c : Char) (rest : List Char) (fields : List JSString) :
    Except MacroError (Option (List PT) × Option JSString × ℕ × ℕ) :=
  if c = 'P' then do
    let (r, n, an) ← parsePairUnpairExpr ex name agg rest fields
    pure (some r, none, n, an)
  else if c = letter then pure (none, fields.head?, 0, min 1 fields.length)
  else .error ⟨ex, js name ++ js ": unexpected character: " ++ js (toString c)⟩

/-- A pair is its two sides, the depths of the right one shifted. -/
theorem parsePairUnpairExpr_cons (c : Char) (left : List Char) (fields : List JSString) :
    parsePairUnpairExpr ex name agg (c :: left) fields = (do
      let (lexpr, la, n, ai) ← parseSide ex name agg 'A' c left fields
      match left.drop n with
      | [] => .error ⟨ex, js "unexpected end: " ++ js name⟩
      | c :: right => do
        let (rexpr, ra, m, an) ← parseSide ex name agg 'I' c right (fields.drop ai)
        pure (agg lexpr (rexpr.map (·.map fun t => (t.1 + 1, t.2))) (0, la, ra), 2 + n + m,
          ai + an)) := by
  unfold parsePairUnpairExpr parseSide
  split
  · cases parsePairUnpairExpr ex name agg left fields with
    | error e => rfl
    | ok x =>
      simp only [Except.ok_bind, pure_bind]
      split
      · next h => rw [h]
      · next c right h =>
        rw [h]
        dsimp only
        split
        · simp
        split <;> rfl
  split
  · simp only [pure_bind]
    split
    · next h => rw [h]
    · next c right h =>
      rw [h]
      dsimp only
      split
      · simp
      split <;> rfl
  · rfl

end

section

variable {β : Type}

private theorem drop_min (k : ℕ) (l : List JSString) : l.drop (min k l.length) = l.drop k := by
  rcases Nat.le_total k l.length with h | h
  · rw [min_eq_left h]
  · rw [min_eq_right h, List.drop_length, List.drop_eq_nil_of_le h]

private theorem min_add_min (k m : ℕ) (l : List JSString) :
    min k l.length + min m (l.drop k).length = min (k + m) l.length := by
  rw [List.length_drop]
  omega

/-- The text of a tree, parsed as one side of a pair. -/
theorem parseSide_code (ex : Expr) (name : String)
    (agg : Option (List PT) → Option (List PT) → PT → List PT) (t : PairTree β) :
    ∀ (letter : Char), letter ≠ 'P' → ∀ (fields : List JSString) (tail : List Char),
      ∃ c rest n, t.code letter ++ tail = c :: rest ∧ rest.drop n = tail ∧
        parseSide ex name agg letter c rest fields =
          .ok (t.parts agg fields, t.leafAnnot fields, n, min t.leaves.length fields.length) := by
  induction t with
  | leaf a =>
    intro letter hletter fields tail
    refine ⟨letter, tail, 0, rfl, rfl, ?_⟩
    rw [parseSide, if_neg hletter, if_pos rfl]
    rfl
  | node l r ihl ihr =>
    intro letter _ fields tail
    obtain ⟨c, rest, n, hc, hrest, hleft⟩ := ihl 'A' (by decide) fields (r.code 'I' ++ tail)
    obtain ⟨c', rest', m, hc', hrest', hright⟩ :=
      ihr 'I' (by decide) (fields.drop l.leaves.length) tail
    refine ⟨'P', l.code 'A' ++ (r.code 'I' ++ tail), 2 + n + m, by simp [PairTree.code], ?_, ?_⟩
    · rw [hc, show 2 + n + m = (n + (m + 1)) + 1 by omega, List.drop_succ_cons, ← List.drop_drop,
        hrest, hc', List.drop_succ_cons, hrest']
    · rw [parseSide, if_pos rfl, hc, parsePairUnpairExpr_cons, hleft]
      simp only [Except.ok_bind, hrest, hc', drop_min, hright]
      simp only [pure, Except.pure, Except.ok_bind, PairTree.parts, PairTree.leafAnnot,
        PairTree.leaves, List.length_append]
      rw [min_add_min]

/-- The text of the two sides of a tree, whatever comes after it, is parsed into its parts. -/
theorem parsePairUnpairExpr_tree (ex : Expr) (name : String)
    (agg : Option (List PT) → Option (List PT) → PT → List PT) (l r : PairTree β)
    (fields : List JSString) (tail : List Char) :
    ∃ n an, parsePairUnpairExpr ex name agg (l.code 'A' ++ r.code 'I' ++ tail) fields =
      .ok (((PairTree.node l r).parts agg fields).getD [], n, an) := by
  obtain ⟨c, rest, n, hc, -, hparse⟩ :=
    parseSide_code ex name agg (.node l r) 'A' (by decide) fields tail
  obtain ⟨rfl, rfl⟩ := List.cons.inj hc
  rw [parseSide, if_pos rfl] at hparse
  obtain ⟨⟨ps, m, an⟩, hx, hpure⟩ := Except.bind_eq_ok.mp hparse
  simp only [Except.pure_eq_ok, Except.ok.injEq, Prod.mk.injEq] at hpure
  rw [← hpure.1]
  exact ⟨m, an, hx⟩

end

/-! ## Running the parts -/

private theorem dip_pairAt (lf rf : Option JSString) (d : ℕ) (s : List (Value α)) :
    dip (pairAt lf rf 0) d s = pairAt lf rf d s := by
  induction d generalizing s with
  | zero => rfl
  | succ d ih =>
    cases s with
    | nil => rfl
    | cons a s => rw [dip, pairAt, ih]

private theorem dip_unpairAt (d : ℕ) (s : List (Value α)) :
    dip (unpairAt 0) d s = unpairAt d s := by
  induction d generalizing s with
  | zero => rfl
  | succ d ih =>
    cases s with
    | nil => rfl
    | cons a s => rw [dip, unpairAt, ih]

/-- A part acts below its depth. -/
theorem run_dipped (d : ℕ) (leaf : Expr) (s : List (Value α)) :
    run (dipped d leaf) s = dip (run leaf) d s := by
  have hseq : run (.seq [leaf]) = (run leaf : List (Value α) → _) := by
    funext s
    simp [run, runAll, Option.bind_fun_some]
  unfold dipped
  by_cases h0 : d = 0
  · rw [if_pos h0, h0, dip]
  by_cases h1 : d = 1
  · rw [if_neg h0, if_pos h1, h1, run, if_pos rfl, hseq]
  · rw [if_neg h0, if_neg h1, run, if_pos rfl, decimalValue_natText, hseq]
    simp

theorem run_pair (annots : Option (List JSString)) :
    run (leafPrim "PAIR" annots) = (pairAt (fieldLabel (filterAnnotations annots).1[0]?)
      (fieldLabel (filterAnnotations annots).1[1]?) 0 : List (Value α) → _) := by
  funext s
  cases s <;> rfl

theorem run_unpair (annots : Option (List JSString)) :
    run (leafPrim "UNPAIR" annots) = (unpairAt 0 : List (Value α) → _) := by
  funext s
  cases s <;> rfl

/-- Before Edo, a pair is taken apart by its two projections. -/
theorem run_unpair_babylon (la ra : Option (List JSString)) :
    run (.seq [plain "DUP", leafPrim "CAR" la, .prim "DIP" (some [.seq [leafPrim "CDR" ra]]) none]) =
      (unpairAt 0 : List (Value α) → _) := by
  funext s
  rcases s with _ | ⟨_ | ⟨_, _, _, _⟩, s⟩ <;> rfl

/-- The annotations of a part, as its `PAIR` reads them. -/
theorem filterAnnotations_pairAnnots {a : Option JSString × Option JSString} {rest : List JSString}
    (hl : ∀ x, a.1 = some x → x.head? = some 37) (hr : ∀ x, a.2 = some x → x.head? = some 37)
    (hrest : ∀ x ∈ rest, x.head? ≠ some 37) :
    fieldLabel (filterAnnotations (pairAnnots a rest)).1[0]? = fieldLabel a.1 ∧
      fieldLabel (filterAnnotations (pairAnnots a rest)).1[1]? = fieldLabel a.2 := by
  have hnil : rest.filter (fun v => v.head? = some 37) = [] := by
    rw [List.filter_eq_nil_iff]
    simpa using hrest
  have hsome : ∀ ann : List JSString, (if ann.isEmpty then none else some ann : Option _).getD [] =
      ann := fun ann => by cases ann <;> rfl
  obtain ⟨l, r⟩ := a
  simp only [filterAnnotations, pairAnnots, hsome, List.partition_eq_filter_filter,
    List.filter_append, hnil, List.append_nil]
  cases l with
  | none =>
    cases r with
    | none => exact ⟨rfl, rfl⟩
    | some y => simp [trimLast, hr y rfl, fieldLabel]
  | some x =>
    cases r with
    | none => simp [trimLast, hl x rfl, fieldLabel]
    | some y => simp [trimLast, hl x rfl, hr y rfl]

/-- The parts one after the other, each below its depth: pairs are built. -/
def buildParts (ps : List PT) (s : List (Value α)) : Option (List (Value α)) :=
  ps.foldlM (fun s t => pairAt (fieldLabel t.2.1) (fieldLabel t.2.2) t.1 s) s

/-- The parts one after the other: pairs are taken apart. -/
def splitParts (ps : List PT) (s : List (Value α)) : Option (List (Value α)) :=
  ps.foldlM (fun s t => unpairAt t.1 s) s

theorem buildParts_append (ps qs : List PT) (s : List (Value α)) :
    buildParts (ps ++ qs) s = (buildParts ps s).bind (buildParts qs) :=
  List.foldlM_append

theorem splitParts_append (ps qs : List PT) (s : List (Value α)) :
    splitParts (ps ++ qs) s = (splitParts ps s).bind (splitParts qs) :=
  List.foldlM_append

private theorem pairAt_append (lf rf : Option JSString) (pre : List (Value α)) (a b : Value α)
    (s : List (Value α)) :
    pairAt lf rf pre.length (pre ++ a :: b :: s) = some (pre ++ .pair lf a rf b :: s) := by
  induction pre with
  | nil => rfl
  | cons x pre ih => rw [List.cons_append, List.length_cons, pairAt, ih]; rfl

private theorem unpairAt_append (lf rf : Option JSString) (pre : List (Value α)) (a b : Value α)
    (s : List (Value α)) :
    unpairAt pre.length (pre ++ .pair lf a rf b :: s) = some (pre ++ a :: b :: s) := by
  induction pre with
  | nil => rfl
  | cons x pre ih => rw [List.cons_append, List.length_cons, unpairAt, ih]; rfl

/-- The parts, `k` deeper. -/
def deeper (k : ℕ) (ps : List PT) : List PT := ps.map fun t => (t.1 + k, t.2)

private theorem deeper_deeper (j k : ℕ) (ps : List PT) :
    deeper k (deeper j ps) = deeper (k + j) ps := by
  simp only [deeper, List.map_map]
  congr 1
  funext t
  simp only [Function.comp_apply]
  rw [Nat.add_assoc, Nat.add_comm j k]

/-- The parts of a tree build it from its leaves, below any prefix of the stack. -/
theorem buildParts_tree (t : PairTree (Value α)) : ∀ (fields : List JSString)
    (pre s : List (Value α)),
    buildParts (deeper pre.length ((t.parts pairOrder fields).getD [])) (pre ++ (t.leaves ++ s)) =
      some (pre ++ t.build fields :: s) := by
  induction t with
  | leaf a =>
    intro fields pre s
    rfl
  | node l r ihl ihr =>
    intro fields pre s
    have hparts : deeper pre.length (((PairTree.node l r).parts pairOrder fields).getD []) =
        deeper pre.length ((l.parts pairOrder fields).getD []) ++
          (deeper (pre.length + 1) ((r.parts pairOrder (fields.drop l.leaves.length)).getD []) ++
            [(pre.length, l.leafAnnot fields, r.leafAnnot (fields.drop l.leaves.length))]) := by
      rw [← deeper_deeper 1 pre.length, PairTree.parts]
      cases r.parts pairOrder (fields.drop l.leaves.length) <;> simp [pairOrder, deeper]
    -- the left side is built, then the right side below it, then the pair
    have hleft := ihl fields pre (r.leaves ++ s)
    have hright := ihr (fields.drop l.leaves.length) (pre ++ [l.build fields]) s
    rw [List.length_append, List.length_singleton, List.append_assoc, List.append_assoc] at hright
    rw [hparts, buildParts_append, PairTree.leaves, List.append_assoc, hleft, Option.bind_some,
      buildParts_append]
    simp only [List.singleton_append] at hright
    rw [hright, Option.bind_some]
    simp only [buildParts, List.foldlM_cons, List.foldlM_nil, pairAt_append]
    rfl

/-- The parts of a tree take it apart into its leaves, whatever the labels. -/
theorem splitParts_tree (t : PairTree (Value α)) : ∀ (fields labels : List JSString)
    (pre s : List (Value α)),
    splitParts (deeper pre.length ((t.parts unpairOrder fields).getD []))
      (pre ++ t.build labels :: s) = some (pre ++ (t.leaves ++ s)) := by
  induction t with
  | leaf a =>
    intro fields labels pre s
    rfl
  | node l r ihl ihr =>
    intro fields labels pre s
    have hparts : deeper pre.length (((PairTree.node l r).parts unpairOrder fields).getD []) =
        [(pre.length, l.leafAnnot fields, r.leafAnnot (fields.drop l.leaves.length))] ++
          (deeper (pre.length + 1) ((r.parts unpairOrder (fields.drop l.leaves.length)).getD []) ++
            deeper pre.length ((l.parts unpairOrder fields).getD [])) := by
      rw [← deeper_deeper 1 pre.length, PairTree.parts]
      cases r.parts unpairOrder (fields.drop l.leaves.length) <;> simp [unpairOrder, deeper]
    have hright := ihr (fields.drop l.leaves.length) (labels.drop l.leaves.length)
      (pre ++ [l.build labels]) s
    have hleft := ihl fields labels pre (r.leaves ++ s)
    rw [List.length_append, List.length_singleton, List.append_assoc, List.append_assoc] at hright
    simp only [List.singleton_append] at hright
    have htop : ∀ la ra, splitParts [(pre.length, la, ra)]
        (pre ++ (PairTree.node l r).build labels :: s) =
          some (pre ++ l.build labels :: r.build (labels.drop l.leaves.length) :: s) := by
      intro la ra
      simp only [splitParts, List.foldlM_cons, List.foldlM_nil, PairTree.build, unpairAt_append]
      rfl
    rw [hparts, splitParts_append, htop, Option.bind_some, splitParts_append, hright,
      Option.bind_some, hleft, PairTree.leaves, List.append_assoc]

/-! ## Running the code -/

/-- The annotations of the parts of a tree are among those given. -/
theorem mem_parts {β : Type} {agg : Option (List PT) → Option (List PT) → PT → List PT}
    (hagg : ∀ l r top t, t ∈ agg l r top → t ∈ l.getD [] ∨ t ∈ r.getD [] ∨ t = top)
    (t : PairTree β) : ∀ {fields : List JSString} {x : PT},
      x ∈ (t.parts agg fields).getD [] → ∀ a, x.2.1 = some a ∨ x.2.2 = some a → a ∈ fields := by
  have hleaf : ∀ (t : PairTree β) {fields : List JSString} {a : JSString},
      t.leafAnnot fields = some a → a ∈ fields := by
    rintro (_ | _) fields a h
    · exact List.mem_of_mem_head? h
    · cases h
  induction t with
  | leaf a =>
    intro fields x hx
    simp [PairTree.parts] at hx
  | node l r ihl ihr =>
    intro fields x hx a ha
    rcases hagg _ _ _ _ hx with hx | hx | rfl
    · exact ihl hx a ha
    · cases hr : r.parts agg (fields.drop l.leaves.length) with
      | none => simp [hr] at hx
      | some ps =>
        rw [hr] at hx
        simp only [Option.map_some, Option.getD_some, List.mem_map] at hx
        obtain ⟨y, hy, rfl⟩ := hx
        have hmem : y ∈ (r.parts agg (fields.drop l.leaves.length)).getD [] := by
          rw [hr]
          exact hy
        exact List.mem_of_mem_drop (ihr hmem a ha)
    · rcases ha with ha | ha
      · exact hleaf l ha
      · exact List.mem_of_mem_drop (hleaf r ha)

/-- The code of a `P...R` macro. -/
theorem run_pairCode {rest : List JSString} (hrest : ∀ x ∈ rest, x.head? ≠ some 37) {ps : List PT}
    (hps : ∀ x ∈ ps, ∀ a, x.2.1 = some a ∨ x.2.2 = some a → a.head? = some 37)
    (s : List (Value α)) : run (pairCode rest ps) s = buildParts ps s := by
  have key : ∀ (k n : ℕ) (ps : List PT),
      (∀ x ∈ ps, ∀ a, x.2.1 = some a ∨ x.2.2 = some a → a.head? = some 37) →
      ∀ s : List (Value α), runAll (ps.mapIdx fun i t => dipped t.1 (leafPrim "PAIR"
        (pairAnnots t.2 (if t.1 = 0 ∧ i + k = n then rest else [])))) s = buildParts ps s := by
    intro k n ps
    induction ps generalizing k with
    | nil =>
      intro _ s
      rfl
    | cons t ps ih =>
      intro hps s
      have hmem : ∀ x ∈ (if t.1 = 0 ∧ 0 + k = n then rest else []), x.head? ≠ some 37 := by
        intro x hx
        split at hx
        · exact hrest x hx
        · cases hx
      obtain ⟨h0, h1⟩ := filterAnnotations_pairAnnots (a := t.2)
        (fun x hx => hps t (by simp) x (.inl hx)) (fun x hx => hps t (by simp) x (.inr hx)) hmem
      have htail := ih (k + 1) fun x hx => hps x (by simp [hx])
      rw [List.mapIdx_cons, runAll, run_dipped, run_pair, h0, h1, dip_pairAt]
      simp only [buildParts, List.foldlM_cons]
      simp only [show ∀ i, i + 1 + k = i + (k + 1) by omega]
      congr 1
      funext s'
      exact htail s'
  rw [pairCode, run]
  exact key 0 (ps.length - 1) ps hps s

/-- The code of an `UNP...R` macro. -/
theorem run_unpairParts {leaf : PT → Expr}
    (hleaf : ∀ t, run (leaf t) = (unpairAt 0 : List (Value α) → _)) (ps : List PT)
    (s : List (Value α)) : run (.seq (ps.map fun t => dipped t.1 (leaf t))) s = splitParts ps s := by
  rw [run]
  induction ps generalizing s with
  | nil => rfl
  | cons t ps ih =>
    rw [List.map_cons, runAll, run_dipped, hleaf, dip_unpairAt]
    simp only [splitParts, List.foldlM_cons]
    congr 1
    funext s'
    exact ih s'

/-! ## Names of macros -/

section

variable {p : String}

/-- The names of the macros with a fixed name. -/
def macroNames : List String :=
  comparisons.map ("CMP" ++ ·) ++ comparisons.map ("IF" ++ ·) ++ comparisons.map ("IFCMP" ++ ·) ++
    comparisons.map ("ASSERT_" ++ ·) ++ comparisons.map ("ASSERT_CMP" ++ ·) ++
    ["FAIL", "ASSERT", "ASSERT_NONE", "ASSERT_SOME", "ASSERT_LEFT", "ASSERT_RIGHT", "IF_SOME",
      "IF_RIGHT", "CAR", "CDR"]

theorem namedMacro_eq_none {args : Option (List Expr)} {annots : Option (List JSString)}
    (h : p ∉ macroNames) : namedMacro p args annots = .ok none := by
  have heq : ∀ q ∈ macroNames, p ≠ q := fun q hq he => h (he ▸ hq)
  simp only [macroNames, List.mem_append, not_or] at h
  obtain ⟨⟨⟨⟨⟨hCMP, hIF⟩, hIFCMP⟩, hASSERT⟩, hASSERTCMP⟩, -⟩ := h
  unfold namedMacro
  rw [if_neg hCMP, if_neg hIF, if_neg hIFCMP, if_neg (heq _ (by decide)),
    if_neg (heq _ (by decide)), if_neg hASSERT, if_neg hASSERTCMP, if_neg (heq _ (by decide)),
    if_neg (heq _ (by decide)), if_neg (heq _ (by decide)), if_neg (heq _ (by decide)),
    if_neg (heq _ (by decide)), if_neg (heq _ (by decide)), if_neg]
  · rfl
  · rintro (he | he)
    · exact heq "CAR" (by decide) he
    · exact heq "CDR" (by decide) he

/-- No macro with a fixed name starts as the pair macros do. -/
theorem namedMacro_none {args : Option (List Expr)} {annots : Option (List JSString)}
    (h : p.toList.head? = some 'P' ∨ p.toList.head? = some 'U') :
    namedMacro p args annots = .ok none := by
  have hheads : ∀ q ∈ macroNames, q.toList.head? ≠ some 'P' ∧ q.toList.head? ≠ some 'U' := by decide
  exact namedMacro_eq_none fun hp => h.elim (hheads p hp).1 (hheads p hp).2

/-- A name of the form of a family, recognised. -/
theorem matchName_append {pre chars post : String} {min : ℕ} {m : List Char}
    (hp : p.toList = pre.toList ++ m ++ post.toList) (hm : ∀ c ∈ m, c ∈ chars.toList)
    (hmin : min ≤ m.length) : matchName pre chars min post p = some m := by
  have hmid : middle pre.toList post.toList p.toList = some m := by
    unfold middle
    rw [if_pos]
    · rw [hp]
      simp
    · rw [hp]
      refine ⟨?_, ?_, ?_⟩
      · rw [List.isPrefixOf_iff_prefix, List.append_assoc]
        exact List.prefix_append _ _
      · rw [List.isSuffixOf_iff_suffix]
        exact List.suffix_append _ _
      · simp
  rw [matchName, hmid, Option.filter_some, if_pos]
  simpa [hmin] using hm

/-- A name with another first letter is not of the family. -/
theorem matchName_none {pre chars post : String} {min : ℕ}
    (h : ¬ pre.toList.isPrefixOf p.toList) : matchName pre chars min post p = none := by
  rw [matchName, middle, if_neg fun hc => h hc.1]
  rfl

end

namespace PairTree

variable {β : Type}

theorem mem_code {side c : Char} (t : PairTree β) (h : c ∈ t.code side) :
    c = side ∨ c ∈ ['P', 'A', 'I'] := by
  induction t generalizing side with
  | leaf a => exact .inl (List.mem_singleton.mp h)
  | node l r ihl ihr =>
    rw [code, List.mem_cons, List.mem_append] at h
    rcases h with rfl | h | h
    · simp
    · rcases ihl h with rfl | h
      · simp
      · exact .inr h
    · rcases ihr h with rfl | h
      · simp
      · exact .inr h

theorem leaves_pos (t : PairTree β) : 0 < t.leaves.length := by
  induction t with
  | leaf a => exact Nat.one_pos
  | node l r ihl ihr =>
    rw [leaves, List.length_append]
    omega

theorem exists_leaf (t : PairTree β) (h : t.leaves.length = 1) : ∃ a, t = .leaf a := by
  cases t with
  | leaf a => exact ⟨a, rfl⟩
  | node l r =>
    have hl := l.leaves_pos
    have hr := r.leaves_pos
    rw [leaves, List.length_append] at h
    omega

theorem code_length (t : PairTree β) (side : Char) :
    (t.code side).length + 1 = 2 * t.leaves.length := by
  induction t generalizing side with
  | leaf a => rfl
  | node l r ihl ihr =>
    have hl := ihl 'A'
    have hr := ihr 'I'
    simp only [code, List.length_cons, List.length_append, leaves]
    omega

end PairTree

/-! ## The macros -/

variable (l r : PairTree (Value α))

/-- The two sides of a tree, as the middle of its name. -/
private def sides : List Char := l.code 'A' ++ r.code 'I'

private theorem mem_sides {c : Char} (h : c ∈ sides l r) : c ∈ "PAI".toList := by
  have hc : c = 'A' ∨ c = 'I' ∨ c ∈ ['P', 'A', 'I'] := by
    rcases List.mem_append.mp h with h | h
    · exact (l.mem_code h).imp_right .inr
    · exact .inr (r.mem_code h)
  rcases hc with rfl | rfl | h
  · decide
  · decide
  · exact h

private theorem sides_length : (sides l r).length + 2 = 2 * (l.leaves.length + r.leaves.length) := by
  have hl := l.code_length 'A'
  have hr := r.code_length 'I'
  rw [sides, List.length_append]
  omega

/-- **The `P...R` macro of a tree** builds it from its leaves, under its field annotations. -/
theorem expandMacros_pairName (proto : Protocol) (annots : Option (List JSString)) :
    ∃ code, expandMacros proto (PairTree.node l r).pairName none annots = .ok code ∧
      ∀ s, run code ((PairTree.node l r).leaves ++ s) =
        some ((PairTree.node l r).build (filterAnnotations annots).1 :: s) := by
  have hname : (PairTree.node l r).pairName.toList = "P".toList ++ sides l r ++ "R".toList := by
    simp [PairTree.pairName, PairTree.code, sides]
  by_cases h2 : l.leaves.length + r.leaves.length = 2
  · -- two leaves: `PAIR` is no macro but the instruction
    have hl := l.leaves_pos
    have hr := r.leaves_pos
    obtain ⟨a, rfl⟩ := PairTree.exists_leaf l (by omega)
    obtain ⟨b, rfl⟩ := PairTree.exists_leaf r (by omega)
    have hPAIR : (PairTree.node (.leaf a) (.leaf b)).pairName = "PAIR" := by
      rw [← String.toList_inj, hname]
      rfl
    refine ⟨.prim "PAIR" none annots, ?_, fun s => ?_⟩
    · rw [hPAIR, expandMacros, namedMacro_none (.inl (by decide))]
      rfl
    have hhead : ∀ fields : List JSString, fields[0]? = fields.head? := fun fields => by
      cases fields <;> rfl
    have hsnd : ∀ fields : List JSString, fields[1]? = (fields.drop 1).head? := fun fields => by
      rcases fields with _ | ⟨_, _ | _⟩ <;> rfl
    show run (leafPrim "PAIR" annots) _ = _
    rw [run_pair, hhead, hsnd]
    rfl
  · have hlen := sides_length l r
    have hl := l.leaves_pos
    have hr := r.leaves_pos
    have hmatch : matchName "P" "PAI" 3 "R" (PairTree.node l r).pairName = some (sides l r) :=
      matchName_append hname (fun c hc => mem_sides l r hc) (by omega)
    have hnamed : namedMacro (PairTree.node l r).pairName none annots = .ok none :=
      namedMacro_none (.inl (by rw [hname]; rfl))
    have hdrop : (PairTree.node l r).pairName.toList.drop 1 = sides l r ++ ['R'] := by
      rw [hname]
      rfl
    obtain ⟨n, an, hparse⟩ := parsePairUnpairExpr_tree
      (.prim (PairTree.node l r).pairName none annots) (PairTree.node l r).pairName pairOrder l r
      (filterAnnotations annots).1 ['R']
    rw [← sides] at hparse
    refine ⟨pairCode (filterAnnotations annots).2
      (((PairTree.node l r).parts pairOrder (filterAnnotations annots).1).getD []), ?_, fun s => ?_⟩
    · rw [expandMacros, hnamed]
      simp only [Except.ok_bind, hmatch, Option.isSome_some, if_true, assertMacroArgs, hdrop, hparse]
      rfl
    · rw [run_pairCode]
      · have h := buildParts_tree (.node l r) (filterAnnotations annots).1 [] s
        simpa [deeper] using h
      · intro x hx
        rw [filterAnnotations, List.partition_eq_filter_filter] at hx
        simpa using (List.mem_filter.mp hx).2
      · intro x hx a ha
        have hmem := mem_parts (fun l r top t ht => by simpa [pairOrder, or_assoc] using ht) _ hx a ha
        rw [filterAnnotations, List.partition_eq_filter_filter] at hmem
        simpa using (List.mem_filter.mp hmem).2

/-- **The `UNP...R` macro of a tree** takes it apart, under every protocol and annotations. -/
theorem expandMacros_unpairName (proto : Protocol) (annots : Option (List JSString)) :
    ∃ code, expandMacros proto (PairTree.node l r).unpairName none annots = .ok code ∧
      ∀ labels s, run code ((PairTree.node l r).build labels :: s) =
        some ((PairTree.node l r).leaves ++ s) := by
  have hname : (PairTree.node l r).unpairName.toList = "UNP".toList ++ sides l r ++ "R".toList := by
    simp [PairTree.unpairName, PairTree.code, sides]
  have hlen := sides_length l r
  have hl := l.leaves_pos
  have hr := r.leaves_pos
  have hpair : matchName "P" "PAI" 3 "R" (PairTree.node l r).unpairName = none :=
    matchName_none (by rw [hname]; simp)
  have hmatch : matchName "UNP" "PAI" 2 "R" (PairTree.node l r).unpairName = some (sides l r) :=
    matchName_append hname (fun c hc => mem_sides l r hc) (by omega)
  have hnamed : namedMacro (PairTree.node l r).unpairName none annots = .ok none :=
    namedMacro_none (.inr (by rw [hname]; rfl))
  have hdrop : (PairTree.node l r).unpairName.toList.drop 3 = sides l r ++ ['R'] := by
    rw [hname]
    rfl
  have hparse := fun fields => parsePairUnpairExpr_tree
    (.prim (PairTree.node l r).unpairName none annots) (PairTree.node l r).unpairName unpairOrder l r
    fields ['R']
  have hsplit : ∀ fields labels s,
      splitParts (((PairTree.node l r).parts unpairOrder fields).getD [])
        ((PairTree.node l r).build labels :: s) = some ((PairTree.node l r).leaves ++ s) := by
    intro fields labels s
    have h := splitParts_tree (.node l r) fields labels [] s
    simpa [deeper] using h
  by_cases hproto : ProtoInferiorTo proto .PtEdo2Zk = true
  · -- before Edo: `DUP; CAR; DIP { CDR }` at every part
    obtain ⟨n, an, hparse⟩ := hparse (annots.getD [])
    rw [← sides] at hparse
    refine ⟨unpairCode (((PairTree.node l r).parts unpairOrder (annots.getD [])).getD []), ?_,
      fun labels s => ?_⟩
    · rw [expandMacros, hnamed]
      simp only [Except.ok_bind, hpair, hmatch, hproto, Option.isSome_none, Option.isSome_some,
        Bool.false_eq_true, if_false, if_true, assertMacroArgs, hdrop, hparse]
      rfl
    · rw [unpairCode, run_unpairParts fun t => run_unpair_babylon _ _, hsplit]
  by_cases hunpair : (PairTree.node l r).unpairName = "UNPAIR"
  · -- two leaves: the instruction itself
    have hleaves : l.leaves.length + r.leaves.length = 2 := by
      have h := congrArg (fun s : String => s.toList.length) hunpair
      simp only [hname, List.length_append] at h
      have h' : "UNPAIR".toList.length = 6 := rfl
      have h₁ : "UNP".toList.length = 3 := rfl
      have h₂ : "R".toList.length = 1 := rfl
      omega
    obtain ⟨a, rfl⟩ := PairTree.exists_leaf l (by omega)
    obtain ⟨b, rfl⟩ := PairTree.exists_leaf r (by omega)
    refine ⟨.prim (PairTree.node (.leaf a) (.leaf b)).unpairName none annots, ?_,
      fun labels s => ?_⟩
    · rw [expandMacros, hnamed]
      simp only [Except.ok_bind, hproto, hunpair, Bool.false_eq_true, if_false, if_true]
      rfl
    · rw [hunpair]
      show run (leafPrim "UNPAIR" annots) _ = _
      rw [run_unpair]
      rfl
  · obtain ⟨n, an, hparse⟩ := hparse []
    rw [← sides] at hparse
    refine ⟨unpairCodeEdo (((PairTree.node l r).parts unpairOrder []).getD []), ?_,
      fun labels s => ?_⟩
    · rw [expandMacros, hnamed]
      simp only [Except.ok_bind, hpair, hmatch, hproto, hunpair, Option.isSome_none,
        Option.isSome_some, Bool.false_eq_true, if_false, if_true, assertMacroArgs, hdrop, hparse]
      rfl
    · rw [unpairCodeEdo]
      exact (run_unpairParts (fun _ => run_unpair none) _ _).trans (hsplit [] labels s)

/-- **The meaning of the pair macros.** For every tree of pairs, the code of its `P...R` macro
builds it from its leaves under its field annotations, the code of its `UNP...R` macro takes it
apart, and each undoes the other. -/
theorem pairMacros_meaning (proto : Protocol) (l r : PairTree (Value α))
    (annots annots' : Option (List JSString)) :
    ∃ pair unpair, expandMacros proto (PairTree.node l r).pairName none annots = .ok pair ∧
      expandMacros proto (PairTree.node l r).unpairName none annots' = .ok unpair ∧
      (∀ s, run pair ((PairTree.node l r).leaves ++ s) =
        some ((PairTree.node l r).build (filterAnnotations annots).1 :: s)) ∧
      (∀ labels s, run unpair ((PairTree.node l r).build labels :: s) =
        some ((PairTree.node l r).leaves ++ s)) ∧
      (∀ s, (run pair ((PairTree.node l r).leaves ++ s)).bind (run unpair) =
        some ((PairTree.node l r).leaves ++ s)) ∧
      ∀ s, (run unpair ((PairTree.node l r).build (filterAnnotations annots).1 :: s)).bind
          (run pair) = some ((PairTree.node l r).build (filterAnnotations annots).1 :: s) := by
  obtain ⟨pair, hpair, hbuild⟩ := expandMacros_pairName l r proto annots
  obtain ⟨unpair, hunpair, hsplit⟩ := expandMacros_unpairName l r proto annots'
  refine ⟨pair, unpair, hpair, hunpair, hbuild, hsplit, fun s => ?_, fun s => ?_⟩
  · rw [hbuild, Option.bind_some, hsplit]
  · rw [hsplit, Option.bind_some, hbuild]

end MichelCodec
