import Taquito.MichelCodec.CombForms

/-!
# The search in top-level pairs

`Schema.FindFirstInTopLevelPair` walks along the type of a storage and the storage together, splits
pairs of any form on the way (`collapse`) and returns what stands where the type is the requested
one (`deepEqual`). A `Walk` is the list of all positions of the pair tree, each with its type and
what stands there, in the order of the search: `FindFirstInTopLevelPair_eq` says that the search is
`find?` on that list.

`deepEqual` compares everything but literals, so it takes `sapling_state 8` for `sapling_state 16`.
`findsFirst_iff` says when that makes no difference.
-/

open Js

namespace TopLevelPairs

open MichelCodec (components isComb)

/-! ## The code -/

/-- `e.prim`. -/
def primOf : Expr → Option String
  | .prim p _ _ => some p
  | _ => none

/-- `e.args`. -/
def argsOf : Expr → Option (List Expr)
  | .prim _ args _ => args
  | _ => none

/-- `e.annots`. -/
def annotsOf : Expr → Option (List JSString)
  | .prim _ _ annots => annots
  | _ => none

/-- `collapse`, of a primitive. -/
def collapsePrim (prim p : String) (args : Option (List Expr)) (annots : Option (List JSString)) :
    Expr :=
  match args with
  | some (a :: b :: c :: rest) =>
    if p = prim then .prim p (some [a, .prim prim (some (b :: c :: rest)) none]) annots
    else .prim p args annots
  | _ => .prim p args annots

/-- `collapse`. -/
def collapse (prim : String) : Expr → Expr
  | .seq items => collapsePrim prim prim (some items) none
  | .prim p args annots => collapsePrim prim p args annots
  | e => e

/-- `deepEqual`, of the arguments. -/
def argsEqual (equal : Expr → Expr → Bool) : Option (List Expr) → Option (List Expr) → Bool
  | none, none => true
  | some as, some bs => as.length == bs.length && (as.zip bs).all fun x => equal x.1 x.2
  | _, _ => false

/-- `deepEqual`, with a bound on the nesting. -/
def deepEqualTo : ℕ → Expr → Expr → Bool
  | 0 => fun _ _ => false
  | fuel + 1 => fun a b =>
    primOf (collapse "pair" a) == primOf (collapse "pair" b) &&
      argsEqual (deepEqualTo fuel) (argsOf (collapse "pair" a)) (argsOf (collapse "pair" b)) &&
      annotsOf (collapse "pair" a) == annotsOf (collapse "pair" b)

/-- `deepEqual`. -/
def deepEqual (a b : Expr) : Bool := deepEqualTo a.weight a b

/-- What the search throws. -/
inductive SearchError where
  | MissingArgumentError
  | TypeError
  deriving DecidableEq, Repr

section

variable (find : Expr → Option Expr → Except SearchError (Option Expr))

/-- `findValue`, below a pair. The members of the storage may be `undefined`. -/
def findInPair (schema storage : Expr) : Except SearchError (Option Expr) :=
  match argsOf (collapse "pair" schema), argsOf (collapse "Pair" storage) with
  | some (left :: rest), some args => do
    match ← find left args[0]? with
    | some found => return some found
    | none =>
      match rest[0]? with
      | some right => find right args[1]?
      | none => .error .TypeError
  | some [], some _ => .ok none
  | _, _ => .error .MissingArgumentError

end

/-- `findValue`, with a bound on the nesting of the type, which is never reached. -/
def findValue (valueToFind : Expr) :
    ℕ → Expr → Option Expr → Except SearchError (Option Expr)
  | 0 => fun _ _ => .ok none
  | fuel + 1 => fun schema storage =>
    if deepEqual valueToFind schema then .ok storage
    else if isComb "pair" schema then
      match storage with
      | some storage => findInPair (findValue valueToFind fuel) schema storage
      | none => .error .TypeError
    else .ok none

/-- `val` of the root token: an array is a pair. -/
def rootVal : Expr → Expr
  | .seq items => .prim "pair" (some items) none
  | t => t

/-- `Schema.FindFirstInTopLevelPair`, of the schema of a type. -/
def FindFirstInTopLevelPair (type storage valueType : Expr) : Except SearchError (Option Expr) :=
  findValue valueType type.weight (rootVal type) (some storage)

/-! ## Types up to the form of their pairs -/

mutual

/-- The type with two components in every pair. -/
def normal : Expr → Expr
  | .seq items => normalPair none items
  | .prim p none annots => .prim p none annots
  | .prim p (some args) annots =>
    if p = "pair" then normalPair annots args else .prim p (some (normals args)) annots
  | e => e

/-- `normal` of every member. -/
def normals : List Expr → List Expr
  | [] => []
  | e :: es => normal e :: normals es

/-- A pair of its components. -/
def normalPair (annots : Option (List JSString)) : List Expr → Expr
  | [] => .prim "pair" (some []) annots
  | [a] => .prim "pair" (some [normal a]) annots
  | [a, b] => .prim "pair" (some [normal a, normal b]) annots
  | a :: rest => .prim "pair" (some [normal a, normalPair none rest]) annots

end

mutual

/-- The expression with all literals forgotten. -/
def blank : Expr → Expr
  | .seq items => .seq (blanks items)
  | .prim p none annots => .prim p none annots
  | .prim p (some args) annots => .prim p (some (blanks args)) annots
  | _ => .int []

/-- `blank` of every member. -/
def blanks : List Expr → List Expr
  | [] => []
  | e :: es => blank e :: blanks es

end

theorem normals_eq_map (es : List Expr) : normals es = es.map normal := by
  induction es with
  | nil => rfl
  | cons e es ih => rw [normals, ih, List.map_cons]

theorem blanks_eq_map (es : List Expr) : blanks es = es.map blank := by
  induction es with
  | nil => rfl
  | cons e es ih => rw [blanks, ih, List.map_cons]

theorem blank_prim (p : String) (args : Option (List Expr)) (annots : Option (List JSString)) :
    blank (.prim p args annots) = .prim p (args.map (·.map blank)) annots := by
  cases args with
  | none => rfl
  | some args => rw [blank, blanks_eq_map, Option.map_some]

/-- What `collapse` makes of a primitive: its arguments are normalised one by one. -/
theorem collapsePrim_spec (p : String) (args : List Expr) (annots : Option (List JSString)) :
    ∃ args', collapsePrim "pair" p (some args) annots = .prim p (some args') annots ∧
      normal (.prim p (some args) annots) = .prim p (some (args'.map normal)) annots ∧
      ∀ c ∈ args', c.weight < Expr.weights args + 1 := by
  have hweight : ∀ c ∈ args, c.weight < Expr.weights args + 1 := fun c hc =>
    (Expr.weight_lt_weights hc).trans (Nat.lt_succ_self _)
  by_cases hp : p = "pair"
  · subst hp
    rw [normal, if_pos rfl]
    match args, hweight with
    | [], h => exact ⟨[], rfl, rfl, h⟩
    | [a], h => exact ⟨[a], rfl, rfl, h⟩
    | [a, b], h => exact ⟨[a, b], rfl, rfl, h⟩
    | a :: b :: d :: rest, h =>
      refine ⟨[a, .prim "pair" (some (b :: d :: rest)) none], ?_, ?_, ?_⟩
      · rw [collapsePrim, if_pos rfl]
      · show Expr.prim "pair" (some [normal a, normalPair none (b :: d :: rest)]) annots = _
        rw [List.map_cons, List.map_cons, List.map_nil, normal, if_pos rfl]
      · refine List.forall_mem_cons.mpr ⟨h a List.mem_cons_self, List.forall_mem_singleton.mpr ?_⟩
        rw [Expr.weight, Expr.weights.eq_def (a :: _)]
        dsimp only
        omega
  · rw [normal, if_neg hp, normals_eq_map]
    refine ⟨args, ?_, rfl, hweight⟩
    unfold collapsePrim
    split
    · rw [if_neg hp]
    · rfl

/-- Two types after `collapse`, as `deepEqual` sees them. -/
theorem collapse_cases (e : Expr) :
    (primOf (collapse "pair" e) = none ∧ argsOf (collapse "pair" e) = none ∧
        annotsOf (collapse "pair" e) = none ∧ blank (normal e) = .int []) ∨
      ∃ p args annots, collapse "pair" e = .prim p args annots ∧
        blank (normal e) = .prim p (args.map (·.map fun c => blank (normal c))) annots ∧
        ∀ c ∈ args.getD [], c.weight < e.weight := by
  have hprim (p : String) (args : List Expr) (annots : Option (List JSString)) :
      ∃ args', collapsePrim "pair" p (some args) annots = .prim p (some args') annots ∧
        blank (normal (.prim p (some args) annots)) =
          .prim p (some (args'.map fun c => blank (normal c))) annots ∧
        ∀ c ∈ args', c.weight < Expr.weights args + 1 := by
    obtain ⟨args', hcollapse, hnormal, hweight⟩ := collapsePrim_spec p args annots
    refine ⟨args', hcollapse, ?_, hweight⟩
    rw [hnormal, blank_prim, Option.map_some, List.map_map]
    rfl
  cases e with
  | int text => exact .inl ⟨rfl, rfl, rfl, rfl⟩
  | string text => exact .inl ⟨rfl, rfl, rfl, rfl⟩
  | bytes hex => exact .inl ⟨rfl, rfl, rfl, rfl⟩
  | seq items =>
    obtain ⟨args', hcollapse, hblank, hweight⟩ := hprim "pair" items none
    rw [normal, if_pos rfl] at hblank
    exact .inr ⟨"pair", some args', none, hcollapse, hblank, hweight⟩
  | prim p args annots =>
    cases args with
    | none => exact .inr ⟨p, none, annots, rfl, rfl, fun _ h => absurd h List.not_mem_nil⟩
    | some args =>
      obtain ⟨args', hcollapse, hblank, hweight⟩ := hprim p args annots
      exact .inr ⟨p, some args', annots, hcollapse, hblank, hweight⟩

/-- The arguments are equal if they are as many and equal one by one. -/
theorem zip_all_iff {equal : Expr → Expr → Bool} {f : Expr → Expr} {as : List Expr}
    (h : ∀ a ∈ as, ∀ b, equal a b = true ↔ f a = f b) (bs : List Expr) :
    (as.length = bs.length ∧ ((as.zip bs).all fun x => equal x.1 x.2) = true) ↔
      as.map f = bs.map f := by
  induction as generalizing bs with
  | nil =>
    cases bs with
    | nil => exact iff_of_true ⟨rfl, rfl⟩ rfl
    | cons b bs => exact iff_of_false (fun h => by cases h.1) (by rintro ⟨⟩)
  | cons a as ih =>
    cases bs with
    | nil => exact iff_of_false (fun h => by cases h.1) (by rintro ⟨⟩)
    | cons b bs =>
      rw [List.forall_mem_cons] at h
      rw [List.length_cons, List.length_cons, Nat.add_right_cancel_iff, List.zip_cons_cons,
        List.all_cons, Bool.and_eq_true, List.map_cons, List.map_cons, List.cons.injEq,
        ← h.1 b, ← ih h.2 bs]
      exact and_left_comm

theorem argsEqual_iff {equal : Expr → Expr → Bool} {f : Expr → Expr} {as bs : Option (List Expr)}
    (h : ∀ a ∈ as.getD [], ∀ b, equal a b = true ↔ f a = f b) :
    argsEqual equal as bs = true ↔ as.map (·.map f) = bs.map (·.map f) := by
  match as, bs, h with
  | none, none, _ => exact iff_of_true rfl rfl
  | none, some bs, _ => exact iff_of_false Bool.false_ne_true (by rintro ⟨⟩)
  | some as, none, _ => exact iff_of_false Bool.false_ne_true (by rintro ⟨⟩)
  | some as, some bs, h =>
    rw [Option.map_some, Option.map_some, Option.some.injEq, argsEqual, Bool.and_eq_true,
      beq_iff_eq]
    exact zip_all_iff h bs

/-- **`deepEqual` compares types up to the form of their pairs, and forgets literals.** -/
theorem deepEqual_iff (a b : Expr) :
    deepEqual a b = true ↔ blank (normal a) = blank (normal b) := by
  have hfuel : ∀ (fuel : ℕ) (a b : Expr), a.weight ≤ fuel →
      (deepEqualTo fuel a b = true ↔ blank (normal a) = blank (normal b)) := by
    intro fuel
    induction fuel with
    | zero =>
      intro a b h
      have hpos := Expr.weight_pos a
      omega
    | succ fuel ih =>
      intro a b h
      rw [deepEqualTo, Bool.and_eq_true, Bool.and_eq_true, beq_iff_eq, beq_iff_eq]
      obtain ⟨hp, hargs, hannots, hblank⟩ | ⟨p, args, annots, hcollapse, hblank, hweight⟩ :=
        collapse_cases a
      · obtain ⟨hp', hargs', hannots', hblank'⟩ | ⟨p', args', annots', hcollapse', hblank', -⟩ :=
          collapse_cases b
        · rw [hp, hargs, hannots, hblank, hp', hargs', hannots', hblank']
          exact iff_of_true ⟨⟨rfl, rfl⟩, rfl⟩ rfl
        · rw [hp, hcollapse', hblank, hblank']
          exact iff_of_false (fun h => by cases h.1.1) (by rintro ⟨⟩)
      · obtain ⟨hp', hargs', hannots', hblank'⟩ | ⟨p', args', annots', hcollapse', hblank', -⟩ :=
          collapse_cases b
        · rw [hp', hcollapse, hblank, hblank']
          exact iff_of_false (fun h => by cases h.1.1) (by rintro ⟨⟩)
        · have hchildren : ∀ c ∈ args.getD [], ∀ d,
              deepEqualTo fuel c d = true ↔ blank (normal c) = blank (normal d) := fun c hc d =>
            ih c d (by have := hweight c hc; omega)
          rw [hcollapse, hcollapse', hblank, hblank', Expr.prim.injEq]
          show (some p = some p' ∧ argsEqual (deepEqualTo fuel) args args' = true) ∧
            annots = annots' ↔ _
          rw [argsEqual_iff hchildren, Option.some.injEq, and_assoc]
  exact hfuel a.weight a b le_rfl

/-! ## The positions of a pair tree -/

/-- The storage has a component for each component of the type; `l` lists all positions, a pair
before its components and left before right, each with its type and what stands there. -/
inductive Walk : Expr → Expr → List (Expr × Expr) → Prop where
  | leaf {t v : Expr} (type : isComb "pair" t = false) : Walk t v [(t, v)]
  | pair {t v a b x y : Expr} {l₁ l₂ : List (Expr × Expr)}
      (type : components "pair" t = some (a, b)) (value : components "Pair" v = some (x, y))
      (left : Walk a x l₁) (right : Walk b y l₂) : Walk t v ((t, v) :: (l₁ ++ l₂))

/-- The members of a comb are its two components, or the second one is the pair of the others. -/
theorem components_cases {id : String} {t a b : Expr} (h : components id t = some (a, b)) :
    t.children = [a, b] ∨ ∃ y z rest,
      t.children = a :: y :: z :: rest ∧ b = .prim id (some (y :: z :: rest)) none := by
  rw [components, if_pos (MichelCodec.isComb_of_components h)] at h
  rcases hc : t.children with _ | ⟨x, _ | ⟨y, _ | ⟨z, rest⟩⟩⟩
  · rw [hc] at h
    cases h
  · rw [hc] at h
    cases h
  · rw [hc] at h
    cases h
    exact .inl rfl
  · rw [hc] at h
    cases h
    exact .inr ⟨y, z, rest, rfl, rfl⟩

/-- `collapse` leaves the two components of a comb. -/
theorem argsOf_collapse {id : String} {t a b : Expr} (h : components id t = some (a, b)) :
    argsOf (collapse id t) = some [a, b] := by
  have hchildren := components_cases h
  have hargs (args : List Expr) (annots : Option (List JSString))
      (hmembers : args = [a, b] ∨ ∃ y z rest,
        args = a :: y :: z :: rest ∧ b = .prim id (some (y :: z :: rest)) none) :
      argsOf (collapsePrim id id (some args) annots) = some [a, b] := by
    obtain rfl | ⟨y, z, rest, rfl, rfl⟩ := hmembers
    · rfl
    · rw [collapsePrim, if_pos rfl]
      rfl
  have hcomb := MichelCodec.isComb_of_components h
  cases t with
  | seq items => exact hargs items none hchildren
  | prim p args annots =>
    obtain rfl : p = id := beq_iff_eq.mp hcomb
    cases args with
    | none => obtain h | ⟨y, z, rest, h, -⟩ := hchildren <;> cases h
    | some args => exact hargs args annots hchildren
  | _ => cases hcomb

theorem weight_of_components {id : String} {t a b : Expr} (h : components id t = some (a, b)) :
    a.weight < t.weight ∧ b.weight < t.weight := by
  have hweight (e : Expr) (he : e.children ≠ []) : e.weight = Expr.weights e.children + 1 := by
    cases e with
    | seq items => rfl
    | prim p args annots => exact Expr.weight_prim p args annots
    | _ => exact absurd rfl he
  obtain hc | ⟨y, z, rest, hc, rfl⟩ := components_cases h
  · have ha : a ∈ t.children := hc ▸ List.mem_cons_self
    have hb : b ∈ t.children := hc ▸ List.mem_cons_of_mem _ List.mem_cons_self
    exact ⟨Expr.weight_lt_of_mem_children ha, Expr.weight_lt_of_mem_children hb⟩
  · refine ⟨Expr.weight_lt_of_mem_children (hc ▸ List.mem_cons_self), ?_⟩
    rw [hweight t (by rw [hc]; exact List.cons_ne_nil _ _), hc, Expr.weight_prim,
      Expr.weights.eq_def (a :: _)]
    dsimp only [Option.getD_some]
    omega

theorem findValue_succ (q : Expr) (fuel : ℕ) (t v : Expr) :
    findValue q (fuel + 1) t (some v) =
      if deepEqual q t then .ok (some v)
      else if isComb "pair" t then findInPair (findValue q fuel) t v
      else .ok none := rfl

/-- **The search is `find?` on the positions.** -/
theorem findValue_eq {q t v : Expr} {l : List (Expr × Expr)} (h : Walk t v l) {fuel : ℕ}
    (hfuel : t.weight ≤ fuel) :
    findValue q fuel t (some v) = .ok ((l.find? fun p => deepEqual q p.1).map Prod.snd) := by
  induction h generalizing fuel with
  | leaf htype =>
    obtain ⟨fuel, rfl⟩ := Expr.exists_succ_of_weight hfuel
    rw [findValue_succ, List.find?_singleton, htype]
    split <;> rfl
  | @pair t v a b x y l₁ l₂ htype hvalue _ _ ihl ihr =>
    obtain ⟨fuel, rfl⟩ := Expr.exists_succ_of_weight hfuel
    obtain ⟨ha, hb⟩ := weight_of_components htype
    rw [findValue_succ, List.find?_cons]
    by_cases hq : deepEqual q t = true
    · rw [if_pos hq, hq]
      rfl
    · rw [if_neg hq, if_pos (MichelCodec.isComb_of_components htype),
        Bool.eq_false_of_not_eq_true hq]
      dsimp only
      rw [findInPair, argsOf_collapse htype, argsOf_collapse hvalue, List.find?_append]
      show (findValue q fuel a (some x) >>= fun found => _) = _
      rw [ihl (by omega), Except.ok_bind]
      -- what is found on the left is returned; otherwise the right component decides
      cases l₁.find? fun p => deepEqual q p.1 with
      | some p => rfl
      | none => exact ihr (by omega)

theorem FindFirstInTopLevelPair_eq {q t v : Expr} {l : List (Expr × Expr)} (h : Walk t v l) :
    FindFirstInTopLevelPair t v q =
      .ok ((l.find? fun p => deepEqual q p.1).map Prod.snd) := by
  have hroot : findValue q t.weight (rootVal t) (some v) = findValue q t.weight t (some v) := by
    cases t with
    | seq items =>
      obtain ⟨fuel, hfuel⟩ := Expr.exists_succ_of_weight (le_refl (Expr.seq items).weight)
      rw [hfuel]
      -- both collapse to one pair
      have hequal : deepEqual q (rootVal (.seq items)) = deepEqual q (.seq items) := by
        rw [Bool.eq_iff_iff, deepEqual_iff, deepEqual_iff, rootVal, normal, normal, if_pos rfl]
      rw [rootVal, findValue_succ, findValue_succ, ← hequal]
      rfl
    | _ => rfl
  rw [FindFirstInTopLevelPair]
  exact hroot.trans (findValue_eq h le_rfl)

/-! ## The first position of a type -/

/-- The first position whose type is `q`, when types are the same by `type`. -/
def IsFirst (type : Expr → Expr) (q : Expr) (l : List (Expr × Expr)) (p : Expr × Expr) : Prop :=
  ∃ before after, l = before ++ p :: after ∧ type p.1 = type q ∧ ∀ p' ∈ before, type p'.1 ≠ type q

/-- The type up to the form of its pairs and its literals. -/
def outline (t : Expr) : Expr := blank (normal t)

/-- The result is what stands at the first position of type `q`, or nothing as there is none. -/
def FindsFirst (q : Expr) (l : List (Expr × Expr)) : Except SearchError (Option Expr) → Prop
  | .ok (some x) => ∃ p, IsFirst normal q l p ∧ p.2 = x
  | .ok none => ∀ p ∈ l, normal p.1 ≠ normal q
  | .error _ => False

/-- The first position whose type is `q` but for its literals is of type `q`, or what stands there
stands at the first position of type `q` too. -/
def Unmistakable (q : Expr) (l : List (Expr × Expr)) : Prop :=
  ∀ p, IsFirst outline q l p → normal p.1 = normal q ∨ ∃ p', IsFirst normal q l p' ∧ p'.2 = p.2

theorem find?_eq_some_iff {q : Expr} {l : List (Expr × Expr)} {p : Expr × Expr} :
    (l.find? fun p => deepEqual q p.1) = some p ↔ IsFirst outline q l p := by
  have hequal (p : Expr × Expr) : deepEqual q p.1 = true ↔ outline p.1 = outline q := by
    rw [deepEqual_iff]
    exact eq_comm
  rw [List.find?_eq_some_iff_append, hequal]
  constructor
  · rintro ⟨hp, before, after, rfl, hbefore⟩
    refine ⟨before, after, rfl, hp, fun p' hp' => ?_⟩
    exact (hequal p').not.mp (Bool.not_eq_true _ ▸ by simpa using hbefore p' hp')
  · rintro ⟨before, after, rfl, hp, hbefore⟩
    refine ⟨hp, before, after, rfl, fun p' hp' => ?_⟩
    simpa using (hequal p').not.mpr (hbefore p' hp')

/-- The first position of the outline of `q` is the first one of type `q`, if it is of that type. -/
theorem isFirst_of_outline {q : Expr} {l : List (Expr × Expr)} {p : Expr × Expr}
    (h : IsFirst outline q l p) (htype : normal p.1 = normal q) : IsFirst normal q l p := by
  obtain ⟨before, after, hl, -, hbefore⟩ := h
  exact ⟨before, after, hl, htype, fun p' hp' heq => hbefore p' hp' (congrArg blank heq)⟩

/-- **The first value of the requested type is found, unless a position whose type differs in its
literals only comes before it.** -/
theorem findsFirst_iff {t v q : Expr} {l : List (Expr × Expr)} (h : Walk t v l) :
    FindsFirst q l (FindFirstInTopLevelPair t v q) ↔ Unmistakable q l := by
  rw [FindFirstInTopLevelPair_eq h]
  cases hfind : l.find? fun p => deepEqual q p.1 with
  | none =>
    have hnone (p : Expr × Expr) (hp : p ∈ l) : outline p.1 ≠ outline q := fun heq =>
      List.find?_eq_none.mp hfind p hp ((deepEqual_iff q p.1).mpr heq.symm)
    refine iff_of_true (fun p hp heq => hnone p hp (congrArg blank heq)) ?_
    rintro p ⟨before, after, rfl, hp, -⟩
    exact absurd hp (hnone p (by simp))
  | some p =>
    have hfirst := find?_eq_some_iff.mp hfind
    constructor
    · intro hfinds p' hp'
      obtain rfl : p = p' := Option.some.inj (hfind.symm.trans (find?_eq_some_iff.mpr hp'))
      exact .inr hfinds
    · intro hunmistakable
      obtain htype | hsame := hunmistakable p hfirst
      · exact ⟨p, isFirst_of_outline hfirst htype, rfl⟩
      · exact hsame

theorem unmistakable_of {q : Expr} {l : List (Expr × Expr)}
    (h : ∀ p ∈ l, outline p.1 = outline q → normal p.1 = normal q) : Unmistakable q l := by
  rintro p ⟨before, after, rfl, hp, -⟩
  exact .inl (h p (by simp) hp)

/-- The type of the states of the sapling pools with memos of a size. -/
def saplingState (memoSize : String) : Expr :=
  .prim "sapling_state" (some [.int (js memoSize)]) none

/-- A counter next to a sapling pool. -/
def counterAndPool : Expr := .seq [.prim "nat" none none, saplingState "8"]

theorem findsFirst_pool :
    FindsFirst (saplingState "8")
      [(counterAndPool, .prim "Pair" (some [.int (js "3"), .int (js "1")]) none),
        (.prim "nat" none none, .int (js "3")), (saplingState "8", .int (js "1"))]
      (FindFirstInTopLevelPair counterAndPool
        (.prim "Pair" (some [.int (js "3"), .int (js "1")]) none) (saplingState "8")) := by
  refine (findsFirst_iff (.pair rfl rfl (.leaf rfl) (.leaf rfl))).mpr (unmistakable_of ?_)
  rintro p hp houtline
  obtain rfl | rfl | rfl : _ ∨ _ ∨ _ := by simpa using hp
  · exact absurd (Expr.prim.inj houtline).1 (by decide)
  · exact absurd (Expr.prim.inj houtline).1 (by decide)
  · rfl

/-- Two sapling pools whose memos differ in size. -/
def twoPools : Expr := .prim "pair" (some [saplingState "8", saplingState "16"]) none

/-- The pool with memos of size 8 is returned for the one with memos of size 16. -/
theorem not_findsFirst_pools :
    Walk twoPools (.prim "Pair" (some [.int (js "1"), .int (js "2")]) none)
        [(twoPools, .prim "Pair" (some [.int (js "1"), .int (js "2")]) none),
          (saplingState "8", .int (js "1")), (saplingState "16", .int (js "2"))] ∧
      ¬ FindsFirst (saplingState "16")
        [(twoPools, .prim "Pair" (some [.int (js "1"), .int (js "2")]) none),
          (saplingState "8", .int (js "1")), (saplingState "16", .int (js "2"))]
        (FindFirstInTopLevelPair twoPools
          (.prim "Pair" (some [.int (js "1"), .int (js "2")]) none) (saplingState "16")) := by
  have hwalk : Walk twoPools (.prim "Pair" (some [.int (js "1"), .int (js "2")]) none)
      [(twoPools, .prim "Pair" (some [.int (js "1"), .int (js "2")]) none),
        (saplingState "8", .int (js "1")), (saplingState "16", .int (js "2"))] :=
    .pair rfl rfl (.leaf rfl) (.leaf rfl)
  refine ⟨hwalk, ?_⟩
  rw [FindFirstInTopLevelPair_eq hwalk]
  rintro ⟨p, ⟨before, after, hl, htype, -⟩, hp⟩
  have hmem : p ∈ before ++ p :: after := by simp
  rw [← hl] at hmem
  obtain rfl | rfl | rfl : _ ∨ _ ∨ _ := by simpa using hmem
  · exact absurd (Expr.prim.inj htype).1 (by decide)
  · have hsize := (List.cons.inj (Option.some.inj (Expr.prim.inj htype).2.1)).1
    exact absurd (Expr.int.inj hsize) (by decide)
  · exact absurd (Expr.int.inj hp) (by decide)

end TopLevelPairs
