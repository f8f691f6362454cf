import Taquito.MichelCodec.Parser

/-!
# What macro expansion leaves

The code that a macro stands for consists of instructions, of the macro's own arguments and of a few
numbers (`everywhere_expandMacros_iff`), and is never a literal (`isNode_expandMacros`).
-/

open Js

namespace MichelCodec

open Expr (Everywhere everywhere_iff)

/-! ## Primitives that are no macros -/

/-- A primitive that is not expanded. -/
def IsNoMacro (proto : Protocol) (p : String) (args : Option (List Expr))
    (annots : Option (List JSString)) : Prop :=
  expandMacros proto p args annots = .ok (.prim p args annots)

/-- The instructions in the code of macros that are no macros whatever their arguments are. -/
def codeNames : List String :=
  ["COMPARE", "EQ", "NEQ", "LT", "GT", "LE", "GE", "UNIT", "FAILWITH", "IF", "IF_NONE", "IF_LEFT",
    "RENAME", "GET", "SWAP", "DROP", "PAIR", "DIP", "DIG"]

/-- The instructions in the code of macros. -/
def instructionNames : List String := "CAR" :: "CDR" :: "DUP" :: "UNPAIR" :: codeNames

variable {proto : Protocol} {p : String} {args : Option (List Expr)}
  {annots : Option (List JSString)}

theorem isNoMacro_of_codeNames (h : p ∈ codeNames) : IsNoMacro proto p args annots := by
  simp only [codeNames, List.mem_cons, List.not_mem_nil, or_false] at h
  rcases h with rfl | rfl | rfl | rfl | rfl | rfl | rfl | rfl | rfl | rfl | rfl | rfl | rfl | rfl |
    rfl | rfl | rfl | rfl | rfl <;> rfl

theorem isNoMacro_CAR : IsNoMacro proto "CAR" none annots := rfl

theorem isNoMacro_CDR : IsNoMacro proto "CDR" none annots := rfl

theorem expandMacros_DUP (args : Option (List Expr)) : expandMacros proto "DUP" args annots =
    if ProtoInferiorTo proto .PtEdo2Zk then duup "DUP" args annots 1
    else .ok (.prim "DUP" args annots) := rfl

theorem isNoMacro_DUP : IsNoMacro proto "DUP" none annots := by
  rw [IsNoMacro, expandMacros_DUP]
  split <;> rfl

theorem isNoMacro_DUP_edo (h : ¬ ProtoInferiorTo proto .PtEdo2Zk = true) :
    IsNoMacro proto "DUP" args annots := by
  rw [IsNoMacro, expandMacros_DUP, if_neg h]

theorem isNoMacro_UNPAIR_edo (h : ¬ ProtoInferiorTo proto .PtEdo2Zk = true) :
    IsNoMacro proto "UNPAIR" args annots := by
  rw [IsNoMacro]
  exact if_neg h

/-! ## Numbers -/

/-- The number that is the only argument. -/
def countArg (args : Option (List Expr)) : Option Double :=
  match args with
  | some [.int text] => some (.parse text)
  | _ => none

/-- The numbers in the code of `DUP n`. -/
def dupCounts (n : Double) : List Double :=
  if n = .finite 1 ∨ n = .finite 2 then [] else [n.add (-1), n]

/-- The numbers that are computed for the code of a macro. -/
def counts (proto : Protocol) (p : String) (args : Option (List Expr)) : List Double :=
  if p = "CAR" then (countArg args).toList.map fun n => (n.scale 2).add 1
  else if p = "CDR" then (countArg args).toList.map fun n => n.scale 2
  else if ProtoInferiorTo proto .PtEdo2Zk then
    match matchName "DU" "U" 0 "P" p with
    | some [] => (countArg args).toList.flatMap dupCounts
    | some us => dupCounts (.ofInt (1 + us.length : ℕ))
    | none => []
  else []

/-! ## The code of macros -/

section

variable {P : Expr → Prop} (hseq : ∀ items, P (.seq items))
  (hprim : ∀ q args annots, q ∈ instructionNames → IsNoMacro proto q args annots →
    P (.prim q args annots))

include hseq in
theorem everywhere_seq_iff {items : List Expr} :
    (Expr.seq items).Everywhere P ↔ ∀ e ∈ items, e.Everywhere P :=
  everywhere_iff.trans ⟨fun h => h.2, fun h => ⟨hseq items, h⟩⟩

include hprim in
theorem everywhere_prim_iff (hp : p ∈ instructionNames) (h : IsNoMacro proto p args annots) :
    (Expr.prim p args annots).Everywhere P ↔ ∀ e ∈ args.getD [], e.Everywhere P :=
  everywhere_iff.trans ⟨fun h => h.2, fun he => ⟨hprim _ _ _ hp h, he⟩⟩

theorem everywhere_int_iff {text : JSString} : (Expr.int text).Everywhere P ↔ P (.int text) :=
  everywhere_iff.trans ⟨fun h => h.1, fun h => ⟨h, fun _ he => nomatch he⟩⟩

include hprim in
theorem everywhere_code_iff (h : p ∈ codeNames) :
    (Expr.prim p args annots).Everywhere P ↔ ∀ e ∈ args.getD [], e.Everywhere P :=
  everywhere_prim_iff hprim (by simp only [instructionNames, List.mem_cons, h, or_true])
    (isNoMacro_of_codeNames h)

include hprim in
/-- An instruction without arguments. -/
theorem everywhere_leafPrim (h : p ∈ "CAR" :: "CDR" :: "DUP" :: codeNames) :
    (leafPrim p annots).Everywhere P := by
  have hnone : ∀ a ∈ (none : Option (List Expr)).getD [], a.Everywhere P := nofun
  rw [List.mem_cons, List.mem_cons, List.mem_cons] at h
  rcases h with rfl | rfl | rfl | h
  · exact (everywhere_prim_iff hprim (by decide) isNoMacro_CAR).mpr hnone
  · exact (everywhere_prim_iff hprim (by decide) isNoMacro_CDR).mpr hnone
  · exact (everywhere_prim_iff hprim (by decide) isNoMacro_DUP).mpr hnone
  · exact (everywhere_code_iff hprim h).mpr hnone

include hseq hprim in
theorem everywhere_failCode : failCode.Everywhere P := by
  rw [failCode, everywhere_seq_iff hseq]
  simp only [List.forall_mem_cons, List.not_mem_nil, false_implies, implies_true, and_true]
  exact ⟨everywhere_leafPrim hprim (by decide), everywhere_leafPrim hprim (by decide)⟩

include hseq hprim in
theorem everywhere_mayRename : (mayRename annots).Everywhere P := by
  cases annots with
  | none => exact (everywhere_seq_iff hseq).mpr nofun
  | some ws =>
    refine (everywhere_seq_iff hseq).mpr fun e he => ?_
    rw [List.mem_singleton.mp he]
    exact everywhere_leafPrim hprim (by decide)

end

theorem assertMacroArgs_eq_ok {n : ℕ} {es : List Expr}
    (h : assertMacroArgs p args annots n = .ok es) : args.getD [] = es ∧ es.length = n := by
  unfold assertMacroArgs at h
  split at h
  · split at h
    · next hn =>
      rw [← Except.ok.inj h, hn]
      exact ⟨rfl, rfl⟩
    · cases h
  · split at h
    · next hn =>
      rw [← Except.ok.inj h]
      exact ⟨rfl, hn⟩
    · cases h

/-- Names for which no numbers are computed. -/
theorem counts_eq_nil {names : List String} (h : p ∈ names) (hnames : ∀ q ∈ names,
    q ≠ "CAR" ∧ q ≠ "CDR" ∧ matchName "DU" "U" 0 "P" q = none) : counts proto p args = [] := by
  obtain ⟨hCAR, hCDR, hDUP⟩ := hnames p h
  rw [counts, if_neg hCAR, if_neg hCDR, hDUP]
  split <;> rfl

section

variable {P : Expr → Prop} (hseq : ∀ items, P (.seq items))
  (hprim : ∀ q args annots, q ∈ instructionNames → IsNoMacro proto q args annots →
    P (.prim q args annots))

include hseq hprim in
/-- The code of the macros with a fixed name. -/
theorem everywhere_namedMacro_iff {e : Expr} (h : namedMacro p args annots = .ok (some e))
    (hint : ∀ text, .int text ∈ args.getD [] → P (.int text)) :
    e.Everywhere P ↔ (∀ a ∈ args.getD [], a.Everywhere P) ∧
      ∀ n ∈ counts proto p args, P (.int n.text) := by
  -- without numbers, the arguments are what is left
  have hnone : ∀ {names : List String}, p ∈ names → (∀ q ∈ names,
      q ≠ "CAR" ∧ q ≠ "CDR" ∧ matchName "DU" "U" 0 "P" q = none) →
      (e.Everywhere P ↔ ∀ a ∈ args.getD [], a.Everywhere P) →
      (e.Everywhere P ↔ (∀ a ∈ args.getD [], a.Everywhere P) ∧
        ∀ n ∈ counts proto p args, P (.int n.text)) := by
    intro names hp hnames hiff
    rw [hiff, counts_eq_nil hp hnames]
    exact ⟨fun ha => ⟨ha, nofun⟩, fun ha => ha.1⟩
  have hleaf : ∀ {q : String} (ws : Option (List JSString)),
      q ∈ "CAR" :: "CDR" :: "DUP" :: codeNames → (leafPrim q ws).Everywhere P :=
    fun ws hq => everywhere_leafPrim hprim hq
  have hfail := everywhere_failCode hseq hprim
  have hrename := @everywhere_mayRename proto annots P hseq hprim
  have hseq' := @everywhere_seq_iff P hseq
  have hcode : ∀ {q : String} {as : Option (List Expr)} {ws : Option (List JSString)},
      q ∈ codeNames → ((Expr.prim q as ws).Everywhere P ↔ ∀ a ∈ as.getD [], a.Everywhere P) :=
    fun hq => everywhere_code_iff hprim hq
  have hskip : (Expr.seq []).Everywhere P := hseq'.mpr nofun
  have hfailed : (Expr.seq [failCode]).Everywhere P :=
    hseq'.mpr fun a ha => List.mem_singleton.mp ha ▸ hfail
  -- the branch of the code that every assertion ends with
  have hif : ∀ {q : String} {a b : Expr}, q ∈ codeNames → a.Everywhere P → b.Everywhere P →
      (Expr.prim q (some [a, b]) none).Everywhere P := by
    intro q a b hq ha hb
    apply (hcode hq).mpr
    simp only [Option.getD_some, List.forall_mem_cons, List.not_mem_nil, false_implies,
      implies_true, and_true]
    exact ⟨ha, hb⟩
  -- the macros without arguments
  have hzero : ∀ {names : List String} {es : List Expr}, p ∈ names → (∀ q ∈ names,
      q ≠ "CAR" ∧ q ≠ "CDR" ∧ matchName "DU" "U" 0 "P" q = none) →
      assertMacroArgs p args annots 0 = .ok es → e.Everywhere P →
      (e.Everywhere P ↔ (∀ a ∈ args.getD [], a.Everywhere P) ∧
        ∀ n ∈ counts proto p args, P (.int n.text)) := by
    intro names es hp hnames hes he
    obtain ⟨rfl, hlength⟩ := assertMacroArgs_eq_ok hes
    apply hnone hp hnames
    rw [List.length_eq_zero_iff.mp hlength]
    exact iff_of_true he nofun
  unfold namedMacro at h
  have hsliced : ∀ {n : ℕ} {names : List String}, p ∈ names →
      (∀ q ∈ names, sliceName n q ∈ "CAR" :: "CDR" :: "DUP" :: codeNames) → ∀ ws,
      (leafPrim (sliceName n p) ws).Everywhere P := fun hp hnames ws => hleaf ws (hnames p hp)
  by_cases hp : p ∈ comparisons.map ("CMP" ++ ·)
  · rw [if_pos hp] at h
    obtain ⟨es, hes, h⟩ := Except.bind_eq_ok.mp h
    apply hzero hp (by decide) hes
    rw [← Option.some.inj (Except.ok.inj h), hseq']
    simp only [List.forall_mem_cons, List.not_mem_nil, false_implies, implies_true, and_true]
    exact ⟨hleaf none (by decide), hsliced hp (by decide) annots⟩
  rw [if_neg hp] at h
  by_cases hp : p ∈ comparisons.map ("IF" ++ ·)
  · rw [if_pos hp] at h
    obtain ⟨es, hes, h⟩ := Except.bind_eq_ok.mp h
    apply hnone hp (by decide)
    rw [← Option.some.inj (Except.ok.inj h), hseq']
    simp only [List.forall_mem_cons, List.not_mem_nil, false_implies, implies_true, and_true]
    rw [hcode (by decide)]
    exact and_iff_right (hsliced hp (by decide) none)
  rw [if_neg hp] at h
  by_cases hp : p ∈ comparisons.map ("IFCMP" ++ ·)
  · rw [if_pos hp] at h
    obtain ⟨es, hes, h⟩ := Except.bind_eq_ok.mp h
    apply hnone hp (by decide)
    rw [← Option.some.inj (Except.ok.inj h), hseq']
    simp only [List.forall_mem_cons, List.not_mem_nil, false_implies, implies_true, and_true]
    rw [hcode (by decide)]
    exact (and_iff_right (hleaf none (by decide))).trans
      (and_iff_right (hsliced hp (by decide) none))
  rw [if_neg hp] at h
  by_cases hp : p = "FAIL"
  · rw [if_pos hp] at h
    obtain ⟨es, hes, h⟩ := Except.bind_eq_ok.mp h
    obtain ⟨-, -, h⟩ := Except.bind_eq_ok.mp h
    apply hzero (List.mem_singleton.mpr hp) (by decide) hes
    exact Option.some.inj (Except.ok.inj h) ▸ hfail
  rw [if_neg hp] at h
  by_cases hp : p = "ASSERT"
  · rw [if_pos hp] at h
    obtain ⟨es, hes, h⟩ := Except.bind_eq_ok.mp h
    obtain ⟨-, -, h⟩ := Except.bind_eq_ok.mp h
    apply hzero (List.mem_singleton.mpr hp) (by decide) hes
    rw [← Option.some.inj (Except.ok.inj h), hseq']
    simp only [List.forall_mem_cons, List.not_mem_nil, false_implies, implies_true, and_true]
    exact hif (by decide) hskip hfailed
  rw [if_neg hp] at h
  by_cases hp : p ∈ comparisons.map ("ASSERT_" ++ ·)
  · rw [if_pos hp] at h
    obtain ⟨es, hes, h⟩ := Except.bind_eq_ok.mp h
    obtain ⟨-, -, h⟩ := Except.bind_eq_ok.mp h
    apply hzero hp (by decide) hes
    rw [← Option.some.inj (Except.ok.inj h), hseq']
    simp only [List.forall_mem_cons, List.not_mem_nil, false_implies, implies_true, and_true]
    exact ⟨hsliced hp (by decide) none, hif (by decide) hskip hfailed⟩
  rw [if_neg hp] at h
  by_cases hp : p ∈ comparisons.map ("ASSERT_CMP" ++ ·)
  · rw [if_pos hp] at h
    obtain ⟨es, hes, h⟩ := Except.bind_eq_ok.mp h
    obtain ⟨-, -, h⟩ := Except.bind_eq_ok.mp h
    apply hzero hp (by decide) hes
    rw [← Option.some.inj (Except.ok.inj h), hseq']
    simp only [List.forall_mem_cons, List.not_mem_nil, false_implies, implies_true, and_true]
    rw [hseq']
    simp only [List.forall_mem_cons, List.not_mem_nil, false_implies, implies_true, and_true]
    exact ⟨⟨hleaf none (by decide), hsliced hp (by decide) none⟩, hif (by decide) hskip hfailed⟩
  rw [if_neg hp] at h
  by_cases hp : p = "ASSERT_NONE"
  · rw [if_pos hp] at h
    obtain ⟨es, hes, h⟩ := Except.bind_eq_ok.mp h
    obtain ⟨-, -, h⟩ := Except.bind_eq_ok.mp h
    apply hzero (List.mem_singleton.mpr hp) (by decide) hes
    rw [← Option.some.inj (Except.ok.inj h), hseq']
    simp only [List.forall_mem_cons, List.not_mem_nil, false_implies, implies_true, and_true]
    exact hif (by decide) hskip hfailed
  rw [if_neg hp] at h
  by_cases hp : p = "ASSERT_SOME"
  · rw [if_pos hp] at h
    obtain ⟨es, hes, h⟩ := Except.bind_eq_ok.mp h
    apply hzero (List.mem_singleton.mpr hp) (by decide) hes
    rw [← Option.some.inj (Except.ok.inj h), hseq']
    simp only [List.forall_mem_cons, List.not_mem_nil, false_implies, implies_true, and_true]
    exact hif (by decide) hfailed hrename
  rw [if_neg hp] at h
  by_cases hp : p = "ASSERT_LEFT"
  · rw [if_pos hp] at h
    obtain ⟨es, hes, h⟩ := Except.bind_eq_ok.mp h
    apply hzero (List.mem_singleton.mpr hp) (by decide) hes
    rw [← Option.some.inj (Except.ok.inj h), hseq']
    simp only [List.forall_mem_cons, List.not_mem_nil, false_implies, implies_true, and_true]
    exact hif (by decide) hrename hfailed
  rw [if_neg hp] at h
  by_cases hp : p = "ASSERT_RIGHT"
  · rw [if_pos hp] at h
    obtain ⟨es, hes, h⟩ := Except.bind_eq_ok.mp h
    apply hzero (List.mem_singleton.mpr hp) (by decide) hes
    rw [← Option.some.inj (Except.ok.inj h), hseq']
    simp only [List.forall_mem_cons, List.not_mem_nil, false_implies, implies_true, and_true]
    exact hif (by decide) hfailed hrename
  rw [if_neg hp] at h
  by_cases hp : p = "IF_SOME"
  · rw [if_pos hp] at h
    obtain ⟨es, hes, h⟩ := Except.bind_eq_ok.mp h
    obtain ⟨rfl, -⟩ := assertMacroArgs_eq_ok hes
    apply hnone (List.mem_singleton.mpr hp) (by decide)
    rw [← Option.some.inj (Except.ok.inj h), hseq']
    simp only [List.forall_mem_cons, List.not_mem_nil, false_implies, implies_true, and_true]
    rw [hcode (by decide), Option.getD_some]
    simp only [List.mem_reverse]
  rw [if_neg hp] at h
  by_cases hp : p = "IF_RIGHT"
  · rw [if_pos hp] at h
    obtain ⟨es, hes, h⟩ := Except.bind_eq_ok.mp h
    obtain ⟨rfl, -⟩ := assertMacroArgs_eq_ok hes
    apply hnone (List.mem_singleton.mpr hp) (by decide)
    rw [← Option.some.inj (Except.ok.inj h), hseq']
    simp only [List.forall_mem_cons, List.not_mem_nil, false_implies, implies_true, and_true]
    rw [hcode (by decide), Option.getD_some]
    simp only [List.mem_reverse]
  rw [if_neg hp] at h
  by_cases hp : p = "CAR" ∨ p = "CDR"
  · rw [if_pos hp] at h
    cases args with
    | none =>
      have hcounts : counts proto p none = [] := by rcases hp with rfl | rfl <;> rfl
      rw [hcounts, ← Option.some.inj (Except.ok.inj h)]
      refine iff_of_true ?_ ⟨nofun, nofun⟩
      exact hleaf annots (by rcases hp with rfl | rfl <;> decide)
    | some es =>
      rw [if_neg (by simp)] at h
      obtain ⟨es', hes, h⟩ := Except.bind_eq_ok.mp h
      obtain ⟨text, htext, h⟩ := Except.bind_eq_ok.mp h
      obtain ⟨rfl, hlength⟩ := assertMacroArgs_eq_ok hes
      obtain ⟨a, ha⟩ := List.length_eq_one_iff.mp hlength
      rw [Option.getD_some] at ha
      subst ha
      have hint' : a = .int text := by
        simp only [Option.getD_some, List.headD_cons] at htext
        cases a <;> first | (cases htext; rfl) | cases htext
      subst hint'
      have hcounts : counts proto p (some [.int text])
          = [if p = "CAR" then ((Double.parse text).scale 2).add 1 else (Double.parse text).scale 2] := by
        rcases hp with rfl | rfl <;> rfl
      rw [hcounts, ← Option.some.inj (Except.ok.inj h), hcode (by decide)]
      simp only [Option.getD_some, List.forall_mem_cons, List.not_mem_nil, false_implies,
        implies_true, and_true, everywhere_int_iff]
      exact (and_iff_right (hint text (List.mem_singleton.mpr rfl))).symm
  rw [if_neg hp] at h
  cases Except.ok.inj h

include hseq hprim in
/-- A part is code if its leaf is, and if the depths are numerals. -/
theorem everywhere_dipped (hnat : ∀ n, P (.int (natText n))) (d : ℕ) {leaf : Expr}
    (h : leaf.Everywhere P) : (dipped d leaf).Everywhere P := by
  have hbody : (Expr.seq [leaf]).Everywhere P :=
    (everywhere_seq_iff hseq).mpr fun a ha => List.mem_singleton.mp ha ▸ h
  unfold dipped
  split
  · exact h
  split
  · refine (everywhere_code_iff hprim (by decide)).mpr fun a ha => ?_
    exact List.mem_singleton.mp ha ▸ hbody
  · refine (everywhere_code_iff hprim (by decide)).mpr ?_
    simp only [Option.getD_some, List.forall_mem_cons, List.not_mem_nil, false_implies,
      implies_true, and_true]
    exact ⟨everywhere_int_iff.mpr (hnat d), hbody⟩

include hseq hprim in
theorem everywhere_pairCode (hnat : ∀ n, P (.int (natText n))) (rest : List JSString)
    (ps : List PT) : (pairCode rest ps).Everywhere P := by
  refine (everywhere_seq_iff hseq).mpr fun e he => ?_
  obtain ⟨i, hi, rfl⟩ := List.mem_mapIdx.mp he
  exact everywhere_dipped hseq hprim hnat _ (everywhere_leafPrim hprim (by decide))

include hseq hprim in
theorem everywhere_unpairCode (hnat : ∀ n, P (.int (natText n))) (ps : List PT) :
    (unpairCode ps).Everywhere P := by
  refine (everywhere_seq_iff hseq).mpr fun e he => ?_
  obtain ⟨t, -, rfl⟩ := List.mem_map.mp he
  apply everywhere_dipped hseq hprim hnat
  have hbody : ∀ ws, (Expr.seq [leafPrim "CDR" ws]).Everywhere P := fun ws =>
    (everywhere_seq_iff hseq).mpr fun a ha =>
      List.mem_singleton.mp ha ▸ everywhere_leafPrim hprim (by decide)
  rw [everywhere_seq_iff hseq]
  simp only [List.forall_mem_cons, List.not_mem_nil, false_implies, implies_true, and_true]
  refine ⟨everywhere_leafPrim hprim (by decide), everywhere_leafPrim hprim (by decide), ?_⟩
  refine (everywhere_code_iff hprim (by decide)).mpr fun a ha => ?_
  exact List.mem_singleton.mp ha ▸ hbody _

include hseq hprim in
theorem everywhere_unpairCodeEdo (hnat : ∀ n, P (.int (natText n)))
    (h : ¬ ProtoInferiorTo proto .PtEdo2Zk = true) (ps : List PT) :
    (unpairCodeEdo ps).Everywhere P := by
  refine (everywhere_seq_iff hseq).mpr fun e he => ?_
  obtain ⟨t, -, rfl⟩ := List.mem_map.mp he
  apply everywhere_dipped hseq hprim hnat
  exact (everywhere_prim_iff hprim (by decide) (isNoMacro_UNPAIR_edo h)).mpr nofun

include hseq hprim in
/-- The code along a path is code around the code at its end. -/
theorem everywhere_parseSetMapCadr_iff {ex : Expr} {name : String} {termA termD : Expr}
    {Q : Prop} (hA : termA.Everywhere P ↔ Q) (hD : termD.Everywhere P ↔ Q) (path : List Char) :
    ∀ {vann : List JSString} {e : Expr},
      parseSetMapCadr ex name termA termD path vann = .ok e → (e.Everywhere P ↔ Q) := by
  have hleaf : ∀ {q : String} (ws : Option (List JSString)),
      q ∈ "CAR" :: "CDR" :: "DUP" :: codeNames → (leafPrim q ws).Everywhere P :=
    fun ws hq => everywhere_leafPrim hprim hq
  have hstep : ∀ {q : String} {inner : Expr} {rest : List Expr},
      q ∈ "CAR" :: "CDR" :: "DUP" :: codeNames → (∀ a ∈ rest, a.Everywhere P) →
      (inner.Everywhere P ↔ Q) → ((Expr.seq (plain "DUP" :: .prim "DIP"
        (some [.seq [leafPrim q (some [js "@%%"]), inner]]) none :: rest)).Everywhere P ↔ Q) := by
    intro q inner rest hq hrest hinner
    rw [everywhere_seq_iff hseq, List.forall_mem_cons, List.forall_mem_cons,
      everywhere_code_iff hprim (by decide), Option.getD_some, List.forall_mem_singleton,
      everywhere_seq_iff hseq, List.forall_mem_cons, List.forall_mem_singleton]
    have hDUP : (plain "DUP").Everywhere P := hleaf none (by decide)
    exact ⟨fun h => hinner.mp h.2.1.2, fun h => ⟨hDUP, ⟨hleaf _ hq, hinner.mpr h⟩, hrest⟩⟩
  induction path with
  | nil =>
    intro vann e h
    rw [parseSetMapCadr] at h
    cases h
  | cons c path ih =>
    intro vann e h
    unfold parseSetMapCadr at h
    split at h
    · next heq =>
      obtain ⟨rfl, rfl⟩ := List.cons.inj heq
      split at h
      · exact Except.ok.inj h ▸ hA
      · obtain ⟨inner, hinner, h⟩ := Except.bind_eq_ok.mp h
        rw [← Except.ok.inj h]
        refine hstep (by decide) ?_ (ih hinner)
        simp only [List.forall_mem_cons, List.not_mem_nil, false_implies, implies_true, and_true]
        exact ⟨hleaf _ (by decide), hleaf none (by decide), hleaf _ (by decide)⟩
    · next heq =>
      obtain ⟨rfl, rfl⟩ := List.cons.inj heq
      split at h
      · exact Except.ok.inj h ▸ hD
      · obtain ⟨inner, hinner, h⟩ := Except.bind_eq_ok.mp h
        rw [← Except.ok.inj h]
        refine hstep (by decide) ?_ (ih hinner)
        simp only [List.forall_mem_cons, List.not_mem_nil, false_implies, implies_true, and_true]
        exact ⟨hleaf _ (by decide), hleaf _ (by decide)⟩
    · cases h
    · cases h

include hseq hprim in
theorem everywhere_setCadr {path : List Char} {e : Expr} (h : setCadr p args annots path = .ok e) :
    e.Everywhere P := by
  have hleaf : ∀ {q : String} (ws : Option (List JSString)),
      q ∈ "CAR" :: "CDR" :: "DUP" :: codeNames → (leafPrim q ws).Everywhere P :=
    fun ws hq => everywhere_leafPrim hprim hq
  have hplain : ∀ {q : String}, q ∈ "CAR" :: "CDR" :: "DUP" :: codeNames →
    (plain q).Everywhere P := fun hq => hleaf none hq
  rw [setCadr] at h
  obtain ⟨es, -, h⟩ := Except.bind_eq_ok.mp h
  generalize filterAnnotations annots = x at h
  obtain ⟨fields, rest⟩ := x
  dsimp only at h
  split at h
  · cases h
  · have hend : ∀ {items : List Expr}, (∀ a ∈ items, a.Everywhere P) →
        ((Expr.seq items).Everywhere P ↔ True) := fun ha =>
      iff_true_intro ((everywhere_seq_iff hseq).mpr ha)
    split at h
    · refine (everywhere_parseSetMapCadr_iff hseq hprim (hend ?_) (hend ?_) path h).mpr trivial
      · simp only [List.forall_mem_cons, List.not_mem_nil, false_implies, implies_true, and_true]
        exact ⟨hplain (by decide), hleaf _ (by decide), hplain (by decide), hleaf _ (by decide),
          hplain (by decide), hleaf _ (by decide)⟩
      · simp only [List.forall_mem_cons, List.not_mem_nil, false_implies, implies_true, and_true]
        exact ⟨hplain (by decide), hleaf _ (by decide), hplain (by decide), hleaf _ (by decide),
          hleaf _ (by decide)⟩
    · refine (everywhere_parseSetMapCadr_iff hseq hprim (hend ?_) (hend ?_) path h).mpr trivial
      · simp only [List.forall_mem_cons, List.not_mem_nil, false_implies, implies_true, and_true]
        exact ⟨hleaf _ (by decide), hplain (by decide), hleaf _ (by decide)⟩
      · simp only [List.forall_mem_cons, List.not_mem_nil, false_implies, implies_true, and_true]
        exact ⟨hleaf _ (by decide), hleaf _ (by decide)⟩

include hseq hprim in
theorem everywhere_mapCadr_iff {path : List Char} {e : Expr}
    (h : mapCadr p args annots path = .ok e) :
    e.Everywhere P ↔ ∀ a ∈ args.getD [], a.Everywhere P := by
  have hleaf : ∀ {q : String} (ws : Option (List JSString)),
      q ∈ "CAR" :: "CDR" :: "DUP" :: codeNames → (leafPrim q ws).Everywhere P :=
    fun ws hq => everywhere_leafPrim hprim hq
  have hplain : ∀ {q : String}, q ∈ "CAR" :: "CDR" :: "DUP" :: codeNames →
    (plain q).Everywhere P := fun hq => hleaf none hq
  rw [mapCadr] at h
  obtain ⟨es, hes, h⟩ := Except.bind_eq_ok.mp h
  obtain ⟨hargs, hlength⟩ := assertMacroArgs_eq_ok hes
  obtain ⟨body, rfl⟩ := List.length_eq_one_iff.mp hlength
  rw [hargs, List.forall_mem_singleton]
  generalize filterAnnotations annots = x at h
  obtain ⟨fields, rest⟩ := x
  dsimp only at h
  split at h
  · cases h
  · refine everywhere_parseSetMapCadr_iff hseq hprim ?_ ?_ path h
    · rw [everywhere_seq_iff hseq, List.forall_mem_cons, List.forall_mem_cons, List.forall_mem_cons,
        everywhere_code_iff hprim (by decide), Option.getD_some, List.forall_mem_singleton,
        everywhere_seq_iff hseq, List.forall_mem_cons, List.forall_mem_singleton]
      simp only [List.forall_mem_cons, List.not_mem_nil, false_implies, implies_true, and_true]
      exact ⟨fun h => h.2.2.1.2, fun h => ⟨hplain (by decide), hleaf _ (by decide),
        ⟨hleaf _ (by decide), h⟩, hplain (by decide), hleaf _ (by decide)⟩⟩
    · rw [everywhere_seq_iff hseq, List.forall_mem_cons, List.forall_mem_cons, List.forall_mem_cons]
      simp only [List.forall_mem_cons, List.not_mem_nil, false_implies, implies_true, and_true]
      exact ⟨fun h => h.2.2.1, fun h => ⟨hplain (by decide), hleaf _ (by decide), h,
        hplain (by decide), hleaf _ (by decide), hleaf _ (by decide)⟩⟩

include hseq hprim in
/-- The code of `DUP n`, before Edo. -/
theorem everywhere_dupCode_iff (n : Double) :
    ((if n = .finite 1 then .seq [leafPrim "DUP" annots]
      else if n = .finite 2 then
        .seq [.prim "DIP" (some [.seq [leafPrim "DUP" annots]]) none, plain "SWAP"]
      else .seq [.prim "DIP" (some [.int (n.add (-1)).text, .seq [leafPrim "DUP" annots]]) none,
        .prim "DIG" (some [.int n.text]) none] : Expr).Everywhere P) ↔
      ∀ m ∈ dupCounts n, P (.int m.text) := by
  have hDUP : (leafPrim "DUP" annots).Everywhere P := everywhere_leafPrim hprim (by decide)
  have hbody : (Expr.seq [leafPrim "DUP" annots]).Everywhere P :=
    (everywhere_seq_iff hseq).mpr fun a ha => List.mem_singleton.mp ha ▸ hDUP
  rw [dupCounts]
  by_cases h1 : n = .finite 1
  · rw [if_pos h1, if_pos (.inl h1)]
    exact iff_of_true hbody nofun
  by_cases h2 : n = .finite 2
  · rw [if_neg h1, if_pos h2, if_pos (.inr h2)]
    refine iff_of_true ((everywhere_seq_iff hseq).mpr ?_) nofun
    simp only [List.forall_mem_cons, List.not_mem_nil, false_implies, implies_true, and_true]
    refine ⟨(everywhere_code_iff hprim (by decide)).mpr fun a ha => ?_,
      everywhere_leafPrim hprim (by decide)⟩
    exact List.mem_singleton.mp ha ▸ hbody
  · rw [if_neg h1, if_neg h2, if_neg (not_or.mpr ⟨h1, h2⟩), everywhere_seq_iff hseq,
      List.forall_mem_cons, List.forall_mem_singleton, everywhere_code_iff hprim (by decide),
      everywhere_code_iff hprim (by decide), Option.getD_some, Option.getD_some,
      List.forall_mem_cons, List.forall_mem_singleton, List.forall_mem_singleton,
      List.forall_mem_cons, List.forall_mem_singleton, everywhere_int_iff, everywhere_int_iff]
    exact and_congr_left fun _ => and_iff_left hbody

theorem prefix_of_matchName {pre chars post : String} {min : ℕ} {m : List Char}
    (h : matchName pre chars min post p = some m) : pre.toList <+: p.toList := by
  obtain ⟨hmiddle, -⟩ := Option.filter_eq_some_iff.mp h
  rw [middle] at hmiddle
  split at hmiddle
  · next hc => exact List.isPrefixOf_iff_prefix.mp hc.1
  · cases hmiddle

/-- No name is of two families that begin in different ways. -/
theorem matchName_of_other_start {pre pre' chars chars' post post' : String} {min min' : ℕ}
    {m : List Char} (h : matchName pre chars min post p = some m)
    (hpre : ¬ pre.toList <+: pre'.toList) (hpre' : ¬ pre'.toList <+: pre.toList) :
    matchName pre' chars' min' post' p = none := by
  rw [Option.eq_none_iff_forall_ne_some]
  intro m' h'
  rcases List.prefix_or_prefix_of_prefix (prefix_of_matchName h) (prefix_of_matchName h') with hp | hp
  · exact hpre hp
  · exact hpre' hp

theorem ne_of_namedMacro (h : namedMacro p args annots = .ok none) : p ≠ "CAR" ∧ p ≠ "CDR" := by
  have hcadr : ∀ q : String, namedMacro q args annots = (if args.isNone then
      .ok (some (.prim q args annots))
    else do
      let es ← assertMacroArgs q args annots 1
      let text ← assertIntArg q args annots (es.headD (.seq []))
      let n := (Double.parse text).scale 2
      return some (.prim "GET" (some [.int (if q = "CAR" then n.add 1 else n).text]) annots)) →
      namedMacro q args annots ≠ .ok none := by
    intro q hq hnone
    rw [hq] at hnone
    split at hnone
    · cases hnone
    · obtain ⟨es, -, hnone⟩ := Except.bind_eq_ok.mp hnone
      obtain ⟨text, -, hnone⟩ := Except.bind_eq_ok.mp hnone
      cases hnone
  refine ⟨?_, ?_⟩
  · rintro rfl
    exact hcadr _ rfl h
  · rintro rfl
    exact hcadr _ rfl h

include hseq hprim in
theorem everywhere_duup_iff {us : List Char} {e : Expr} (hCAR : p ≠ "CAR") (hCDR : p ≠ "CDR")
    (hproto : ProtoInferiorTo proto .PtEdo2Zk = true)
    (hm : matchName "DU" "U" 0 "P" p = some us) (h : duup p args annots (1 + us.length) = .ok e)
    (hfull : expandMacros proto p args annots = .ok e)
    (hhere : IsNoMacro proto p args annots → P (.prim p args annots))
    (hint : ∀ text, .int text ∈ args.getD [] → P (.int text)) :
    e.Everywhere P ↔ (∀ a ∈ args.getD [], a.Everywhere P) ∧
      ∀ n ∈ counts proto p args, P (.int n.text) := by
  rw [duup] at h
  dsimp only at h
  cases us with
  | nil =>
    have hcounts : counts proto p args = (countArg args).toList.flatMap dupCounts := by
      rw [counts, if_neg hCAR, if_neg hCDR, if_pos hproto, hm]
    rw [if_pos (show 1 + [].length = 1 from rfl)] at h
    rw [hcounts]
    cases args with
    | none =>
      have hself : Expr.prim p none annots = e := Except.ok.inj h
      rw [← hself] at hfull ⊢
      exact iff_of_true (.node (hhere hfull) nofun) ⟨nofun, nofun⟩
    | some es =>
      obtain ⟨es', hes, h⟩ := Except.bind_eq_ok.mp h
      obtain ⟨text, htext, h⟩ := Except.bind_eq_ok.mp h
      obtain ⟨rfl, hlength⟩ := assertMacroArgs_eq_ok hes
      obtain ⟨a, ha⟩ := List.length_eq_one_iff.mp hlength
      rw [Option.getD_some] at ha
      subst ha
      have hint' : a = .int text := by
        simp only [Option.getD_some, List.headD_cons] at htext
        cases a <;> first | (cases htext; rfl) | cases htext
      subst hint'
      rw [← Except.ok.inj h, everywhere_dupCode_iff hseq hprim]
      simp only [Option.getD_some, List.forall_mem_singleton, everywhere_int_iff]
      have hnumbers : (countArg (some [.int text])).toList.flatMap dupCounts
          = dupCounts (.parse text) := List.append_nil _
      rw [hnumbers]
      exact (and_iff_right (hint text (List.mem_singleton.mpr rfl))).symm
  | cons u us =>
    have hcounts : counts proto p args = dupCounts (.ofInt (1 + (u :: us).length : ℕ)) := by
      rw [counts, if_neg hCAR, if_neg hCDR, if_pos hproto, hm]
    rw [if_neg (by simp)] at h
    obtain ⟨es, hes, h⟩ := Except.bind_eq_ok.mp h
    obtain ⟨hargs, hlength⟩ := assertMacroArgs_eq_ok hes
    rw [hcounts, hargs, List.length_eq_zero_iff.mp hlength, ← Except.ok.inj h,
      everywhere_dupCode_iff hseq hprim]
    exact (and_iff_right nofun).symm

include hseq hprim in
/-- **The code of a macro** has a property everywhere if and only if the arguments of the macro and
the numbers that were computed for it do, for a property that all instructions have. -/
theorem everywhere_expandMacros_iff {e : Expr} (hnat : ∀ n, P (.int (natText n)))
    (h : expandMacros proto p args annots = .ok e)
    (hhere : IsNoMacro proto p args annots → P (.prim p args annots))
    (hint : ∀ text, .int text ∈ args.getD [] → P (.int text)) :
    e.Everywhere P ↔ (∀ a ∈ args.getD [], a.Everywhere P) ∧
      ∀ n ∈ counts proto p args, P (.int n.text) := by
  have hself' : IsNoMacro proto p args annots →
      ((Expr.prim p args annots).Everywhere P ↔ ∀ a ∈ args.getD [], a.Everywhere P) := fun hfree =>
    everywhere_iff.trans ⟨fun ha => ha.2, fun ha => ⟨hhere hfree, ha⟩⟩
  have hself : IsNoMacro proto p args annots → counts proto p args = [] →
      expandMacros proto p args annots = .ok (.prim p args annots) →
      (e.Everywhere P ↔ (∀ a ∈ args.getD [], a.Everywhere P) ∧
        ∀ n ∈ counts proto p args, P (.int n.text)) := by
    intro hfree hcounts hp
    rw [hp] at h
    rw [← Except.ok.inj h, hself' hfree, hcounts]
    exact ⟨fun ha => ⟨ha, nofun⟩, fun ha => ha.1⟩
  have hfull := h
  unfold expandMacros at h
  obtain ⟨named, hnamed, h⟩ := Except.bind_eq_ok.mp h
  cases named with
  | some ret =>
    cases h
    exact everywhere_namedMacro_iff hseq hprim hnamed hint
  | none =>
    obtain ⟨hCAR, hCDR⟩ := ne_of_namedMacro hnamed
    dsimp only at h
    -- without numbers, the arguments are what is left
    have hnone : matchName "DU" "U" 0 "P" p = none →
        (e.Everywhere P ↔ ∀ a ∈ args.getD [], a.Everywhere P) →
        (e.Everywhere P ↔ (∀ a ∈ args.getD [], a.Everywhere P) ∧
          ∀ n ∈ counts proto p args, P (.int n.text)) := by
      intro hDUP hiff
      rw [hiff, counts_eq_nil (List.mem_singleton.mpr rfl)
        fun q hq => List.mem_singleton.mp hq ▸ ⟨hCAR, hCDR, hDUP⟩]
      exact ⟨fun ha => ⟨ha, nofun⟩, fun ha => ha.1⟩
    have hzero : ∀ {es : List Expr}, matchName "DU" "U" 0 "P" p = none →
        assertMacroArgs p args annots 0 = .ok es → e.Everywhere P →
        (e.Everywhere P ↔ (∀ a ∈ args.getD [], a.Everywhere P) ∧
          ∀ n ∈ counts proto p args, P (.int n.text)) := by
      intro es hDUP hes he
      obtain ⟨rfl, hlength⟩ := assertMacroArgs_eq_ok hes
      apply hnone hDUP
      rw [List.length_eq_zero_iff.mp hlength]
      exact iff_of_true he nofun
    by_cases hpair : (matchName "P" "PAI" 3 "R" p).isSome
    · rw [if_pos hpair] at h
      obtain ⟨m, hm⟩ := Option.isSome_iff_exists.mp hpair
      obtain ⟨es, hes, h⟩ := Except.bind_eq_ok.mp h
      obtain ⟨⟨ps, n, an⟩, -, h⟩ := Except.bind_eq_ok.mp h
      refine hzero (matchName_of_other_start hm (by decide) (by decide)) hes ?_
      exact Except.ok.inj h ▸ everywhere_pairCode hseq hprim hnat _ ps
    rw [if_neg hpair] at h
    by_cases hunpair : (matchName "UNP" "PAI" 2 "R" p).isSome
    · rw [if_pos hunpair] at h
      obtain ⟨m, hm⟩ := Option.isSome_iff_exists.mp hunpair
      have hDUP : matchName "DU" "U" 0 "P" p = none :=
        matchName_of_other_start hm (by decide) (by decide)
      by_cases hproto : ProtoInferiorTo proto .PtEdo2Zk = true
      · rw [if_pos hproto] at h
        obtain ⟨es, hes, h⟩ := Except.bind_eq_ok.mp h
        obtain ⟨⟨ps, n, an⟩, -, h⟩ := Except.bind_eq_ok.mp h
        exact hzero hDUP hes (Except.ok.inj h ▸ everywhere_unpairCode hseq hprim hnat ps)
      rw [if_neg hproto] at h
      by_cases hUNPAIR : p = "UNPAIR"
      · subst hUNPAIR
        refine hnone hDUP ?_
        rw [if_pos rfl] at h
        rw [← Except.ok.inj h]
        exact everywhere_prim_iff hprim (by decide) (isNoMacro_UNPAIR_edo hproto)
      · rw [if_neg hUNPAIR] at h
        obtain ⟨es, hes, h⟩ := Except.bind_eq_ok.mp h
        obtain ⟨⟨ps, n, an⟩, -, h⟩ := Except.bind_eq_ok.mp h
        exact hzero hDUP hes (Except.ok.inj h ▸ everywhere_unpairCodeEdo hseq hprim hnat hproto ps)
    rw [if_neg hunpair] at h
    split at h
    · next ch hm =>
      obtain ⟨es, hes, h⟩ := Except.bind_eq_ok.mp h
      refine hzero (matchName_of_other_start hm (by decide) (by decide)) hes ?_
      rw [← Except.ok.inj h]
      refine (everywhere_seq_iff hseq).mpr fun a ha => ?_
      obtain ⟨i, hi, rfl⟩ := List.mem_mapIdx.mp ha
      split
      · exact everywhere_leafPrim hprim (by decide)
      · exact everywhere_leafPrim hprim (by decide)
    split at h
    · next path hm =>
      obtain ⟨es, hes, -⟩ := Except.bind_eq_ok.mp (show setCadr p args annots path = .ok e from h)
      exact hzero (matchName_of_other_start hm (by decide) (by decide)) hes
        (everywhere_setCadr hseq hprim h)
    split at h
    · next path hm =>
      exact hnone (matchName_of_other_start hm (by decide) (by decide))
        (everywhere_mapCadr_iff hseq hprim h)
    split at h
    · next is hm =>
      obtain ⟨es, hes, h⟩ := Except.bind_eq_ok.mp h
      obtain ⟨hargs, hlength⟩ := assertMacroArgs_eq_ok hes
      obtain ⟨body, rfl⟩ := List.length_eq_one_iff.mp hlength
      refine hnone (matchName_of_other_start hm (by decide) (by decide)) ?_
      rw [← Except.ok.inj h, everywhere_code_iff hprim (by decide), hargs, Option.getD_some,
        List.forall_mem_cons, everywhere_int_iff]
      exact and_iff_right (hnat _)
    split at h
    · next us hm =>
      by_cases hproto : ProtoInferiorTo proto .PtEdo2Zk = true
      · rw [if_pos hproto] at h
        exact everywhere_duup_iff hseq hprim hCAR hCDR hproto hm h hfull hhere hint
      rw [if_neg hproto] at h
      have hcounts : counts proto p args = [] := by
        rw [counts, if_neg hCAR, if_neg hCDR, if_neg hproto]
      by_cases hempty : us.isEmpty = true
      · rw [if_pos hempty] at h
        rw [← Except.ok.inj h] at hfull
        exact hself hfull hcounts hfull
      · rw [if_neg hempty] at h
        obtain ⟨es, hes, h⟩ := Except.bind_eq_ok.mp h
        obtain ⟨hargs, hlength⟩ := assertMacroArgs_eq_ok hes
        rw [hargs, List.length_eq_zero_iff.mp hlength, hcounts, ← Except.ok.inj h,
          everywhere_prim_iff hprim (by decide) (isNoMacro_DUP_edo hproto), Option.getD_some,
          List.forall_mem_singleton, everywhere_int_iff]
        exact iff_of_true (hnat _) ⟨nofun, nofun⟩
    · next hm =>
      refine hnone hm ?_
      rw [← Except.ok.inj h] at hfull ⊢
      exact hself' hfull

end

/-! ## The code of macros is no literal -/

/-- What a computation returns has a property. -/
def Yields {ε α : Type} (Q : α → Prop) (x : Except ε α) : Prop := ∀ a, x = .ok a → Q a

section

variable {ε α β : Type} {Q : α → Prop}

theorem yields_ok {a : α} (h : Q a) : Yields Q (.ok a : Except ε α) :=
  fun _ ha => Except.ok.inj ha ▸ h

theorem yields_error {e : ε} : Yields Q (.error e) := fun _ ha => nomatch ha

theorem yields_bind {x : Except ε β} {f : β → Except ε α} (h : ∀ b, Yields Q (f b)) :
    Yields Q (x >>= f) := by
  intro a ha
  obtain ⟨b, -, hb⟩ := Except.bind_eq_ok.mp ha
  exact h b a hb

theorem yields_ite {c : Prop} [Decidable c] {x y : Except ε α} (hx : Yields Q x)
    (hy : Yields Q y) : Yields Q (if c then x else y) := by
  split
  · exact hx
  · exact hy

end

/-- An expression that is no literal. -/
def IsNode : Expr → Prop
  | .seq _ => True
  | .prim _ _ _ => True
  | _ => False

theorem isNode_namedMacro : Yields (fun e => ∀ ret, e = some ret → IsNode ret)
    (namedMacro p args annots) := by
  unfold namedMacro
  repeat' first
    | exact yields_ok fun _ h => Option.some.inj h ▸ trivial
    | exact yields_ok nofun
    | refine yields_ite ?_ ?_
    | refine yields_bind fun _ => ?_

theorem isNode_parseSetMapCadr {ex : Expr} {name : String} {termA termD : Expr} (hA : IsNode termA)
    (hD : IsNode termD) {path : List Char} {vann : List JSString} :
    Yields IsNode (parseSetMapCadr ex name termA termD path vann) := by
  unfold parseSetMapCadr
  split
  · exact yields_ite (yields_ok hA) (yields_bind fun _ => yields_ok trivial)
  · exact yields_ite (yields_ok hD) (yields_bind fun _ => yields_ok trivial)
  · exact yields_error
  · exact yields_error

theorem isNode_duup {n : ℕ} : Yields IsNode (duup p args annots n) := by
  unfold duup
  generalize Double.ofInt n = count
  refine yields_ite (yields_ite (yields_ok trivial) ?_) (yields_bind fun _ => yields_ok ?_)
  · refine yields_bind fun _ => yields_bind fun _ => yields_ok ?_
    dsimp only
    split
    · trivial
    · split <;> trivial
  · dsimp only
    split
    · trivial
    · split <;> trivial

/-- The code of a macro is a sequence or a primitive. -/
theorem isNode_expandMacros : Yields IsNode (expandMacros proto p args annots) := by
  intro e h
  unfold expandMacros at h
  obtain ⟨named, hnamed, h⟩ := Except.bind_eq_ok.mp h
  cases named with
  | some ret => exact Except.ok.inj h ▸ isNode_namedMacro _ hnamed ret rfl
  | none =>
    dsimp only at h
    refine (?_ : Yields IsNode _) e h
    refine yields_ite (yields_bind fun _ => yields_bind fun _ => yields_ok trivial) ?_
    refine yields_ite (yields_ite (yields_bind fun _ => yields_bind fun _ => yields_ok trivial)
      (yields_ite (yields_ok trivial)
        (yields_bind fun _ => yields_bind fun _ => yields_ok trivial))) ?_
    split
    · exact yields_bind fun _ => yields_ok trivial
    split
    · unfold setCadr
      refine yields_bind fun _ => ?_
      dsimp only
      split
      · exact yields_error
      · split
        · refine isNode_parseSetMapCadr ?_ ?_ <;> trivial
        · refine isNode_parseSetMapCadr ?_ ?_ <;> trivial
    split
    · unfold mapCadr
      refine yields_bind fun _ => ?_
      dsimp only
      split
      · exact yields_error
      · refine isNode_parseSetMapCadr ?_ ?_ <;> trivial
    split
    · exact yields_bind fun _ => yields_ok trivial
    split
    · refine yields_ite ?_ (yields_ite (yields_ok trivial) (yields_bind fun _ => yields_ok trivial))
      exact isNode_duup
    · exact yields_ok trivial

end MichelCodec
