import Taquito.Host.BigNumber
import Taquito.MichelCodec.PairMacros

/-!
# Which names are pair macros

The names that `pairRe` and `unpairRe` admit, and those among them that spell a tree. A name is
parsed from its first letter on, and the parser stops as soon as the tree is complete
(`parsePairUnpairExpr_ok_iff`); that it has come to the end of the name is never asked. So exactly
the names that go on after a complete tree are taken for what they are not
(`pairNames_parsedExactly_iff`).
-/

open Js

namespace MichelCodec

/-! ## The grammar -/

/-- The letters between `P` or `UNP` and `R` that spell the two sides of a tree. -/
def IsPairWord (m : List Char) : Prop := ∃ l r : PairTree Unit, m = l.code 'A' ++ r.code 'I'

/-- The letters that go on after they have spelled a tree. -/
def Overlong (m : List Char) : Prop := ∃ word extra, IsPairWord word ∧ extra ≠ [] ∧ m = word ++ extra

theorem mem_of_isPairWord {m : List Char} (h : IsPairWord m) {c : Char} (hc : c ∈ m) :
    c ∈ ['P', 'A', 'I'] := by
  obtain ⟨l, r, rfl⟩ := h
  rcases List.mem_append.mp hc with hc | hc
  · rcases l.mem_code hc with rfl | hc
    · decide
    · exact hc
  · rcases r.mem_code hc with rfl | hc
    · decide
    · exact hc

section

variable (ex : Expr) (name : String) (agg : Option (List PT) → Option (List PT) → PT → List PT)

/-- What is parsed is spelled by the letters that were consumed. -/
theorem spells_of_parse (n : ℕ) : ∀ (expr : List Char), expr.length ≤ n →
    ∀ (fields : List JSString) (ps : List PT) (k an : ℕ),
      parsePairUnpairExpr ex name agg expr fields = .ok (ps, k, an) →
        ∃ l r : PairTree Unit, expr = l.code 'A' ++ (r.code 'I' ++ expr.drop k) := by
  induction n with
  | zero =>
    intro expr hlength fields ps k an h
    rw [List.length_eq_zero_iff.mp (by omega : expr.length = 0), parsePairUnpairExpr] at h
    cases h
  | succ n ih =>
    -- one side: a leaf is its letter, and a pair is parsed from fewer letters
    have hside : ∀ (letter c : Char) (rest : List Char) (fields : List JSString) x,
        rest.length ≤ n → parseSide ex name agg letter c rest fields = .ok x →
          ∃ t : PairTree Unit, c :: rest = t.code letter ++ rest.drop x.2.2.1 := by
      intro letter c rest fields x hlength h
      rw [parseSide] at h
      by_cases hP : c = 'P'
      · rw [if_pos hP] at h
        obtain ⟨⟨r, k, an⟩, hparse, hx⟩ := Except.bind_eq_ok.mp h
        obtain ⟨l, r', hrest⟩ := ih rest hlength fields r k an hparse
        cases hx
        refine ⟨.node l r', ?_⟩
        rw [PairTree.code, List.cons_append, List.append_assoc, hP]
        exact congrArg _ hrest
      rw [if_neg hP] at h
      by_cases hletter : c = letter
      · rw [if_pos hletter] at h
        cases h
        exact ⟨.leaf (), by rw [hletter]; rfl⟩
      · rw [if_neg hletter] at h
        cases h
    intro expr hlength fields ps k an h
    cases expr with
    | nil =>
      rw [parsePairUnpairExpr] at h
      cases h
    | cons c left =>
      rw [List.length_cons] at hlength
      rw [parsePairUnpairExpr_cons] at h
      obtain ⟨⟨lexpr, la, i, ai⟩, hleft, h⟩ := Except.bind_eq_ok.mp h
      obtain ⟨l, hl⟩ := hside 'A' c left fields _ (by omega) hleft
      dsimp only at h hl
      cases hdrop : left.drop i with
      | nil =>
        rw [hdrop] at h
        cases h
      | cons c' right =>
        rw [hdrop] at h hl
        dsimp only at h
        obtain ⟨⟨rexpr, ra, j, aj⟩, hright, h⟩ := Except.bind_eq_ok.mp h
        have hshort : right.length < left.length := by
          have hlengths := congrArg List.length hdrop
          rw [List.length_drop, List.length_cons] at hlengths
          omega
        obtain ⟨r, hr⟩ := hside 'I' c' right _ _ (by omega) hright
        dsimp only at h hr
        obtain ⟨-, rfl, -⟩ : agg lexpr _ _ = ps ∧ 2 + i + j = k ∧ ai + aj = an := by
          simpa only [Except.pure_eq_ok, Except.ok.injEq, Prod.mk.injEq] using h
        refine ⟨l, r, ?_⟩
        have hrest : (c :: left).drop (2 + i + j) = right.drop j := by
          rw [show 2 + i + j = (i + (j + 1)) + 1 by omega, List.drop_succ_cons, ← List.drop_drop,
            hdrop, List.drop_succ_cons]
        rw [hrest, hl, hr]

/-- **What the parser accepts**: the names that spell a tree, whatever comes after it. -/
theorem parsePairUnpairExpr_ok_iff {m : List Char} {fields : List JSString} :
    (∃ x, parsePairUnpairExpr ex name agg (m ++ ['R']) fields = .ok x) ↔ IsPairWord m ∨ Overlong m := by
  constructor
  · rintro ⟨⟨ps, k, an⟩, h⟩
    obtain ⟨l, r, hm⟩ := spells_of_parse ex name agg _ _ (Nat.le_refl _) _ _ _ _ h
    have hword : IsPairWord (l.code 'A' ++ r.code 'I') := ⟨l, r, rfl⟩
    rw [← List.append_assoc] at hm
    -- the last letter is `R`, which no tree spells
    rcases List.append_eq_append_iff.mp hm with ⟨extra, hword', hrest⟩ | ⟨extra, hword', hrest⟩
    · cases extra with
      | nil =>
        left
        rw [List.append_nil] at hword'
        exact hword' ▸ hword
      | cons c extra =>
        have hR : 'R' ∈ l.code 'A' ++ r.code 'I' := by
          rw [hword', ← (List.cons.inj hrest).1]
          simp
        exact absurd (mem_of_isPairWord hword hR) (by decide)
    · by_cases hextra : extra = []
      · left
        rw [hword', hextra, List.append_nil]
        exact hword
      · exact .inr ⟨_, extra, hword, hextra, hword'⟩
  · intro h
    obtain ⟨l, r, extra, rfl⟩ : ∃ (l r : PairTree Unit) (extra : List Char),
        m = l.code 'A' ++ r.code 'I' ++ extra := by
      rcases h with ⟨l, r, rfl⟩ | ⟨_, extra, ⟨l, r, rfl⟩, -, rfl⟩
      · exact ⟨l, r, [], (List.append_nil _).symm⟩
      · exact ⟨l, r, extra, rfl⟩
    obtain ⟨n, an, hparse⟩ := parsePairUnpairExpr_tree ex name agg l r fields (extra ++ ['R'])
    rw [List.append_assoc (l.code 'A' ++ r.code 'I')]
    exact ⟨_, hparse⟩

end

/-- No tree is spelled by the beginning of what spells another one. -/
theorem not_isPairWord_of_overlong {m : List Char} (h : Overlong m) : ¬ IsPairWord m := by
  obtain ⟨_, extra, ⟨l, r, rfl⟩, hextra, rfl⟩ := h
  rintro ⟨l', r', heq⟩
  obtain ⟨c, rest, n, hc, hrest, hparse⟩ :=
    parseSide_code (.seq []) "" pairOrder (.node l r) 'A' (by decide) [] extra
  obtain ⟨c', rest', n', hc', hrest', hparse'⟩ :=
    parseSide_code (.seq []) "" pairOrder (.node l' r') 'A' (by decide) [] []
  have hsame : (PairTree.node l r).code 'A' ++ extra = (PairTree.node l' r').code 'A' ++ [] := by
    rw [List.append_nil, PairTree.code, PairTree.code, List.cons_append, heq]
  obtain ⟨rfl, rfl⟩ := List.cons.inj (hc.symm.trans (hsame.trans hc'))
  rw [hparse] at hparse'
  simp only [Except.ok.injEq, Prod.mk.injEq] at hparse'
  rw [hparse'.2.2.1, hrest'] at hrest
  exact hextra hrest.symm

/-! ## Depths

The code of a macro dips each part to its depth, and the depths alone determine the tree. -/

namespace PairTree

variable {β : Type}

/-- The depths of the parts, from the top of the tree on. -/
def depths : PairTree β → List ℕ
  | leaf _ => []
  | node l r => 0 :: (r.depths.map (· + 1) ++ l.depths)

/-- The depths of a right side are told from those of the left side that follow them. -/
theorem append_depths_inj {xs xs' : List ℕ} {l l' : PairTree β}
    (h : xs.map (· + 1) ++ l.depths = xs'.map (· + 1) ++ l'.depths) :
    xs = xs' ∧ l.depths = l'.depths := by
  have hstart : ∀ (t : PairTree β) (x : ℕ) (ys zs : List ℕ),
      t.depths ≠ (x + 1) :: ys ++ zs := by
    intro t x ys zs h
    cases t with
    | leaf a => cases h
    | node l r =>
      rw [depths, List.cons_append, List.cons.injEq] at h
      omega
  induction xs generalizing xs' with
  | nil =>
    cases xs' with
    | nil => exact ⟨rfl, h⟩
    | cons x xs' => exact absurd h (hstart l x _ _)
  | cons x xs ih =>
    cases xs' with
    | nil => exact absurd h.symm (hstart l' x _ _)
    | cons x' xs' =>
      obtain ⟨hx, htail⟩ := List.cons.inj h
      obtain ⟨hxs, hdepths⟩ := ih htail
      exact ⟨by rw [Nat.succ.inj hx, hxs], hdepths⟩

/-- The depths determine what the tree spells. -/
theorem code_eq_of_depths : ∀ {t t' : PairTree β}, t.depths = t'.depths →
    ∀ side, t.code side = t'.code side := by
  intro t
  induction t with
  | leaf a =>
    intro t' h side
    cases t' with
    | leaf a' => rfl
    | node l' r' => cases h
  | node l r ihl ihr =>
    intro t' h side
    cases t' with
    | leaf a' => cases h
    | node l' r' =>
      obtain ⟨hr, hl⟩ := append_depths_inj (List.cons.inj h).2
      rw [code, code, ihl hl, ihr hr]

private theorem map_fst_deepened (ps : Option (List PT)) :
    ((ps.map (·.map fun t : PT => (t.1 + 1, t.2))).getD []).map Prod.fst
      = ((ps.getD []).map Prod.fst).map (· + 1) := by
  cases ps with
  | none => rfl
  | some ps =>
    simp only [Option.map_some, Option.getD_some, List.map_map]
    rfl

/-- The parts that an `UNP...R` name is parsed into, from the top of the tree on. -/
theorem depths_unpairOrder (t : PairTree β) : ∀ (fields : List JSString),
    ((t.parts unpairOrder fields).getD []).map Prod.fst = t.depths := by
  induction t with
  | leaf a => exact fun _ => rfl
  | node l r ihl ihr =>
    intro fields
    rw [parts, Option.getD_some, unpairOrder, List.map_cons, List.map_append, map_fst_deepened,
      ihl, ihr]
    rfl

/-- The parts that a `P...R` name is parsed into, the other way round. -/
theorem depths_pairOrder (t : PairTree β) : ∀ (fields : List JSString),
    (((t.parts pairOrder fields).getD []).map Prod.fst).reverse = t.depths := by
  induction t with
  | leaf a => exact fun _ => rfl
  | node l r ihl ihr =>
    intro fields
    have hr := ihr (fields.drop l.leaves.length)
    rw [parts, Option.getD_some, pairOrder, List.map_append, List.map_append, map_fst_deepened,
      List.reverse_append, List.reverse_append, ihl, List.map_cons, List.map_nil,
      List.reverse_singleton, ← List.map_reverse, hr]
    rfl

end PairTree

/-- The depth to which an instruction is dipped. -/
def dipDepth : Expr → ℕ
  | .prim "DIP" (some [_]) _ => 1
  | .prim "DIP" (some [.int n, _]) _ => ((decimalValue n).getD 0).toNat
  | _ => 0

/-- The depths in a code. -/
def codeDepths : Expr → List ℕ
  | .seq items => items.map dipDepth
  | _ => []

theorem dipDepth_dipped (d : ℕ) {leaf : Expr} (h : dipDepth leaf = 0) :
    dipDepth (dipped d leaf) = d := by
  unfold dipped
  by_cases h0 : d = 0
  · rw [if_pos h0, h, h0]
  by_cases h1 : d = 1
  · rw [if_neg h0, if_pos h1, h1]
    rfl
  · rw [if_neg h0, if_neg h1, dipDepth, decimalValue_natText]
    rfl

/-- A code whose parts are dipped has the depths of its parts. -/
theorem codeDepths_dipped {leaf : PT → Expr} (h : ∀ t, dipDepth (leaf t) = 0) (ps : List PT) :
    codeDepths (.seq (ps.map fun t => dipped t.1 (leaf t))) = ps.map Prod.fst := by
  rw [codeDepths, List.map_map]
  refine List.map_congr_left fun t _ => ?_
  exact dipDepth_dipped t.1 (h t)

theorem codeDepths_pairCode (rest : List JSString) (ps : List PT) :
    codeDepths (pairCode rest ps) = ps.map Prod.fst := by
  rw [pairCode, codeDepths]
  apply List.ext_getElem
  · rw [List.length_map, List.length_mapIdx, List.length_map]
  · intro i hi hi'
    rw [List.getElem_map, List.getElem_mapIdx, List.getElem_map]
    exact dipDepth_dipped _ rfl

/-! ## The macros -/

/-- The two families of macros. -/
inductive PairMacro where
  | pair
  | unpair

namespace PairMacro

/-- `pairRe` and `unpairRe`: the letters of the tree. -/
def letters : PairMacro → String → Option (List Char)
  | pair, p => matchName "P" "PAI" 3 "R" p
  | unpair, p => matchName "UNP" "PAI" 2 "R" p

/-- The letters in front of those of the tree. -/
def start : PairMacro → String
  | pair => "P"
  | unpair => "UNP"

variable {family : PairMacro} {p : String} {m : List Char}

theorem toList_of_middle {pre post s m : List Char} (h : middle pre post s = some m) :
    s = pre ++ m ++ post := by
  rw [middle] at h
  split at h
  · next hc =>
    obtain ⟨hpre, hpost, hlength⟩ := hc
    obtain ⟨s', rfl⟩ := List.isPrefixOf_iff_prefix.mp hpre
    obtain ⟨s'', hs''⟩ := List.isSuffixOf_iff_suffix.mp hpost
    rw [List.length_append] at h hlength
    rw [← Option.some.inj h, List.drop_left, List.append_assoc]
    congr 1
    have hlast : s'.drop (s'.length - post.length) = post := by
      have hdrop : (pre ++ s').drop ((pre ++ s').length - post.length) = post := by
        rw [← hs'', List.length_append, Nat.add_sub_cancel, List.drop_left]
      rw [List.length_append, show pre.length + s'.length - post.length
        = pre.length + (s'.length - post.length) by omega, ← List.drop_drop, List.drop_left] at hdrop
      exact hdrop
    have htake : s'.take (pre.length + s'.length - pre.length - post.length)
        = s'.take (s'.length - post.length) := by
      congr 1
      omega
    have hsplit := List.take_append_drop (s'.length - post.length) s'
    rw [hlast] at hsplit
    rw [htake, hsplit]
  · cases h

/-- A name of the family is its letters between the fixed ones. -/
theorem toList_of_letters (h : family.letters p = some m) :
    p.toList = family.start.toList ++ m ++ ['R'] := by
  cases family with
  | pair => exact toList_of_middle (Option.filter_eq_some_iff.mp h).1
  | unpair => exact toList_of_middle (Option.filter_eq_some_iff.mp h).1

/-- The depths in the code of a macro of the family, from the top of the tree on. -/
def depthsOf : PairMacro → Expr → List ℕ
  | pair, code => (codeDepths code).reverse
  | unpair, code => codeDepths code

end PairMacro

section

variable {family : PairMacro} {p : String} {m : List Char} {args : Option (List Expr)}
  (proto : Protocol) (annots : Option (List JSString))

theorem assertMacroArgs_zero (hargs : args.getD [] = []) :
    assertMacroArgs p args annots 0 = .ok [] := by
  cases args with
  | none => rfl
  | some es =>
    rw [Option.getD_some] at hargs
    rw [hargs]
    rfl

/-- A `P...R` macro is expanded if its letters are parsed. -/
theorem expandMacros_pair (h : PairMacro.letters .pair p = some m) (hargs : args.getD [] = []) :
    expandMacros proto p args annots = (do
      let r ← parsePairUnpairExpr (.prim p args annots) p pairOrder (m ++ ['R'])
        (filterAnnotations annots).1
      return pairCode (filterAnnotations annots).2 r.1) := by
  have hlist := PairMacro.toList_of_letters h
  have hdrop : p.toList.drop 1 = m ++ ['R'] := by
    rw [hlist]
    rfl
  have hmatch : matchName "P" "PAI" 3 "R" p = some m := h
  rw [expandMacros, namedMacro_none (.inl (by rw [hlist]; rfl)), Except.ok_bind]
  dsimp only
  rw [hmatch, Option.isSome_some, if_pos rfl, assertMacroArgs_zero annots hargs, Except.ok_bind,
    hdrop]

/-- An `UNP...R` macro is expanded if its letters are parsed, unless it is the instruction. -/
theorem expandMacros_unpair (h : PairMacro.letters .unpair p = some m) (hargs : args.getD [] = []) :
    expandMacros proto p args annots =
      if ProtoInferiorTo proto .PtEdo2Zk then do
        let r ← parsePairUnpairExpr (.prim p args annots) p unpairOrder (m ++ ['R'])
          (annots.getD [])
        return unpairCode r.1
      else if p = "UNPAIR" then .ok (.prim p args annots)
      else do
        let r ← parsePairUnpairExpr (.prim p args annots) p unpairOrder (m ++ ['R']) []
        return unpairCodeEdo r.1 := by
  have hlist := PairMacro.toList_of_letters h
  have hdrop : p.toList.drop 3 = m ++ ['R'] := by
    rw [hlist]
    rfl
  have hmatch : matchName "UNP" "PAI" 2 "R" p = some m := h
  have hpair : matchName "P" "PAI" 3 "R" p = none := by
    apply matchName_none
    rw [hlist]
    exact Bool.false_ne_true
  rw [expandMacros, namedMacro_none (.inr (by rw [hlist]; rfl)), Except.ok_bind]
  dsimp only
  rw [hpair, hmatch, Option.isSome_none, Option.isSome_some, if_neg (by decide), if_pos rfl,
    assertMacroArgs_zero annots hargs, hdrop]
  rfl

/-- **What is expanded**: the names whose letters spell a tree, whatever comes after it. -/
theorem expandMacros_ok_iff (h : family.letters p = some m) (hargs : args.getD [] = []) :
    (∃ code, expandMacros proto p args annots = .ok code) ↔ IsPairWord m ∨ Overlong m := by
  have hbind : ∀ {α : Type} (x : Except MacroError α) (f : α → Expr),
      (∃ code, (do return f (← x) : Except MacroError Expr) = .ok code) ↔ ∃ a, x = .ok a := by
    intro α x f
    cases x with
    | error e => exact ⟨nofun, nofun⟩
    | ok a => exact ⟨fun _ => ⟨a, rfl⟩, fun _ => ⟨f a, rfl⟩⟩
  cases family with
  | pair =>
    rw [expandMacros_pair proto annots h hargs]
    exact (hbind _ _).trans (parsePairUnpairExpr_ok_iff _ _ _)
  | unpair =>
    rw [expandMacros_unpair proto annots h hargs]
    by_cases hproto : ProtoInferiorTo proto .PtEdo2Zk = true
    · rw [if_pos hproto]
      exact (hbind _ _).trans (parsePairUnpairExpr_ok_iff _ _ _)
    rw [if_neg hproto]
    by_cases hp : p = "UNPAIR"
    · rw [if_pos hp]
      have hletters : m = ['A', 'I'] := by
        rw [hp] at h
        exact (Option.some.inj h).symm
      exact iff_of_true ⟨_, rfl⟩ (.inl ⟨.leaf (), .leaf (), hletters⟩)
    · rw [if_neg hp]
      exact (hbind _ _).trans (parsePairUnpairExpr_ok_iff _ _ _)

/-- The code of a name that spells a tree has the depths of the tree, except that of the
instruction `UNPAIR`. -/
theorem depthsOf_expandMacros (l r : PairTree Unit)
    (h : family.letters p = some (l.code 'A' ++ r.code 'I')) (hargs : args.getD [] = [])
    {code : Expr} (hcode : expandMacros proto p args annots = .ok code) :
    family.depthsOf code = (PairTree.node l r).depths ∨
      p = "UNPAIR" ∧ family.depthsOf code = [] := by
  cases family with
  | pair =>
    obtain ⟨n, an, hparse⟩ := parsePairUnpairExpr_tree (.prim p args annots) p pairOrder l r
      (filterAnnotations annots).1 ['R']
    rw [expandMacros_pair proto annots h hargs, hparse] at hcode
    rw [← Except.ok.inj hcode, PairMacro.depthsOf, codeDepths_pairCode]
    exact .inl (PairTree.depths_pairOrder (.node l r) _)
  | unpair =>
    have hparse := fun fields =>
      parsePairUnpairExpr_tree (.prim p args annots) p unpairOrder l r fields ['R']
    rw [expandMacros_unpair proto annots h hargs] at hcode
    by_cases hproto : ProtoInferiorTo proto .PtEdo2Zk = true
    · obtain ⟨n, an, hparse⟩ := hparse (annots.getD [])
      rw [if_pos hproto, hparse] at hcode
      rw [← Except.ok.inj hcode, PairMacro.depthsOf, unpairCode, codeDepths_dipped fun _ => rfl]
      exact .inl (PairTree.depths_unpairOrder (.node l r) _)
    rw [if_neg hproto] at hcode
    by_cases hp : p = "UNPAIR"
    · rw [if_pos hp] at hcode
      refine .inr ⟨hp, ?_⟩
      rw [← Except.ok.inj hcode]
      rfl
    · obtain ⟨n, an, hparse⟩ := hparse []
      rw [if_neg hp, hparse] at hcode
      rw [← Except.ok.inj hcode, PairMacro.depthsOf, unpairCodeEdo, codeDepths_dipped fun _ => rfl]
      exact .inl (PairTree.depths_unpairOrder (.node l r) _)

/-- The exactness of a name: it is expanded if and only if its letters spell a tree, and then no
other name of the family that ends with its tree has the same code. -/
structure ParsedExactly (family : PairMacro) (args : Option (List Expr)) (p : String)
    (m : List Char) : Prop where
  expanded : (∃ code, expandMacros proto p args annots = .ok code) ↔ IsPairWord m
  rejected : ¬ IsPairWord m → ∃ e : MacroError, expandMacros proto p args annots = .error e
  distinct : ∀ q m' annots', family.letters q = some m' → ¬ Overlong m' → p ≠ q →
    ∀ code, expandMacros proto p args annots = .ok code →
      expandMacros proto q args annots' ≠ .ok code

/-- **Pair-macro names are parsed exactly** if and only if they do not go on after a tree. -/
theorem pairNames_parsedExactly_iff (h : family.letters p = some m) (hargs : args.getD [] = []) :
    ParsedExactly proto annots family args p m ↔ ¬ Overlong m := by
  have hok := @expandMacros_ok_iff family p m args proto annots h hargs
  constructor
  · intro hexact hlong
    exact not_isPairWord_of_overlong hlong (hexact.expanded.mp (hok.mpr (.inr hlong)))
  intro hlong
  have hexpanded : (∃ code, expandMacros proto p args annots = .ok code) ↔ IsPairWord m :=
    hok.trans (or_iff_left hlong)
  refine ⟨hexpanded, fun hspells => ?_,
    fun q m' annots' hq hlong' hne code hp hcode => hne ?_⟩
  · cases hresult : expandMacros proto p args annots with
    | error e => exact ⟨e, rfl⟩
    | ok code => exact absurd (hexpanded.mp ⟨code, hresult⟩) hspells
  · obtain ⟨l, r, rfl⟩ := hexpanded.mp ⟨code, hp⟩
    obtain ⟨l', r', rfl⟩ :=
      ((expandMacros_ok_iff proto annots' hq hargs).mp ⟨code, hcode⟩).resolve_right hlong'
    rcases depthsOf_expandMacros proto annots l r h hargs hp with hdepths | ⟨hp, hnil⟩
    · rcases depthsOf_expandMacros proto annots' l' r' hq hargs hcode with hdepths' | ⟨-, hnil⟩
      · have hcodes := PairTree.code_eq_of_depths (hdepths.symm.trans hdepths') 'A'
        rw [PairTree.code, PairTree.code] at hcodes
        rw [← String.toList_inj, PairMacro.toList_of_letters h, PairMacro.toList_of_letters hq,
          (List.cons.inj hcodes).2]
      · cases hdepths.symm.trans hnil
    · rcases depthsOf_expandMacros proto annots' l' r' hq hargs hcode with hdepths' | ⟨hq, -⟩
      · cases hdepths'.symm.trans hnil
      · rw [hp, hq]

/-- A name that spells three leaves. -/
theorem pairNames_parsedExactly_three :
    ParsedExactly .PtEdo2Zk none .pair none "PPAIIR" ['P', 'A', 'I', 'I'] := by
  refine (pairNames_parsedExactly_iff _ _ (by decide) rfl).mpr fun hlong => ?_
  exact not_isPairWord_of_overlong hlong ⟨.node (.leaf ()) (.leaf ()), .leaf (), rfl⟩

/-- The letters after `PAI` are not looked at. -/
theorem not_pairNames_parsedExactly :
    ¬ ParsedExactly .PtEdo2Zk none .pair none "PAIAIR" ['A', 'I', 'A', 'I'] := by
  intro hexact
  have hlong : Overlong ['A', 'I', 'A', 'I'] :=
    ⟨['A', 'I'], ['A', 'I'], ⟨.leaf (), .leaf (), rfl⟩, by decide, rfl⟩
  have hletters : PairMacro.letters .pair "PAIAIR" = some ['A', 'I', 'A', 'I'] := by decide
  have haccepted : ∃ code, expandMacros .PtEdo2Zk "PAIAIR" none none = .ok code :=
    (expandMacros_ok_iff .PtEdo2Zk none hletters rfl).mpr (.inr hlong)
  exact not_isPairWord_of_overlong hlong (hexact.expanded.mp haccepted)

end

end MichelCodec
