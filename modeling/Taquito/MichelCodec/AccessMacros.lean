import Taquito.MichelCodec.PairMacros

/-!
# What the access macros do

`C[AD]+R`, `SET_C[AD]+R` and `MAP_C[AD]+R` go to a subtree along a path. The stack semantics here
has values without annotations, and whatever is not an instruction of the expansions is a
parameter, so that the code of a `MAP_C[AD]+R` is any code. The code along a path is one induction
on the path (`exec_parseSetMapCadr`), from what the code at its end does.
-/

open Js

namespace MichelCodec

/-! ## Values -/

/-- A value, of pairs. -/
inductive Datum (α : Type) where
  | atom (a : α)
  | pair (l r : Datum α)

/-- A step of a path. -/
inductive Side where
  | A
  | D
  deriving DecidableEq, Repr

namespace Side

/-- The letter of a step. -/
def letter : Side → Char
  | A => 'A'
  | D => 'D'

end Side

namespace Datum

variable {α : Type}

/-- The subtree at a path. -/
def subtree : List Side → Datum α → Option (Datum α)
  | [], v => some v
  | .A :: path, .pair l _ => l.subtree path
  | .D :: path, .pair _ r => r.subtree path
  | _ :: _, .atom _ => none

/-- The value with another subtree at a path. -/
def replace (y : Datum α) : List Side → Datum α → Datum α
  | [], _ => y
  | .A :: path, .pair l r => .pair (replace y path l) r
  | .D :: path, .pair l r => .pair l (replace y path r)
  | _ :: _, .atom a => .atom a

/-- A value that has `y` at the path, and is otherwise as before. -/
structure Replaces (path : List Side) (y v v' : Datum α) : Prop where
  at_path : v'.subtree path = some y
  elsewhere : ∀ q, ¬ q <+: path → ¬ path <+: q → v'.subtree q = v.subtree q

/-- A subtree is replaced where it is, and nowhere else. -/
theorem replaces_replace {path : List Side} (y : Datum α) : ∀ {v t : Datum α},
    v.subtree path = some t → Replaces path y v (replace y path v) := by
  induction path with
  | nil =>
    intro v t _
    exact ⟨rfl, fun q _ hq => absurd (List.nil_prefix) hq⟩
  | cons side path ih =>
    intro v t h
    cases v with
    | atom a => cases side <;> cases h
    | pair l r =>
      cases side with
      | A =>
        obtain ⟨hat, helse⟩ := ih (v := l) h
        refine ⟨hat, fun q hq hq' => ?_⟩
        rcases q with _ | ⟨_ | _, q⟩
        · exact absurd List.nil_prefix hq
        · exact helse q (fun hp => hq ((List.prefix_cons_inj _).mpr hp))
            fun hp => hq' ((List.prefix_cons_inj _).mpr hp)
        · rfl
      | D =>
        obtain ⟨hat, helse⟩ := ih (v := r) h
        refine ⟨hat, fun q hq hq' => ?_⟩
        rcases q with _ | ⟨_ | _, q⟩
        · exact absurd List.nil_prefix hq
        · rfl
        · exact helse q (fun hp => hq ((List.prefix_cons_inj _).mpr hp))
            fun hp => hq' ((List.prefix_cons_inj _).mpr hp)

end Datum

/-! ## Instructions -/

section

variable {α : Type}

/-- What an instruction that is not of the expansions does to a stack. -/
abbrev Others (α : Type) := String → Option (List Expr) → List (Datum α) → Option (List (Datum α))

/-- The instructions without arguments. -/
def execPlain (others : Others α) (p : String) (s : List (Datum α)) : Option (List (Datum α)) :=
  if p = "DUP" then match s with | a :: s => some (a :: a :: s) | _ => none
  else if p = "DROP" then match s with | _ :: s => some s | _ => none
  else if p = "SWAP" then match s with | a :: b :: s => some (b :: a :: s) | _ => none
  else if p = "PAIR" then match s with | a :: b :: s => some (.pair a b :: s) | _ => none
  else if p = "CAR" then match s with | .pair a _ :: s => some (a :: s) | _ => none
  else if p = "CDR" then match s with | .pair _ b :: s => some (b :: s) | _ => none
  else others p none s

/-- `DIP`, of a computation on the rest of the stack. -/
def below (f : List (Datum α) → Option (List (Datum α))) :
    List (Datum α) → Option (List (Datum α))
  | a :: s => (f s).map (a :: ·)
  | [] => none

mutual

/-- The effect of code on a stack of values; `none` is code that is stuck. -/
def exec (others : Others α) : Expr → List (Datum α) → Option (List (Datum α))
  | .seq items, s => execAll others items s
  | .prim p none _, s => execPlain others p s
  | .prim p (some [body]) _, s =>
    if p = "DIP" then below (exec others body) s else others p (some [body]) s
  | .prim p (some args) _, s => others p (some args) s
  | _, _ => none

/-- The effect of a sequence. -/
def execAll (others : Others α) : List Expr → List (Datum α) → Option (List (Datum α))
  | [], s => some s
  | e :: es, s => (exec others e s).bind (execAll others es)

end

variable (others : Others α)

theorem exec_seq (items : List Expr) (s : List (Datum α)) :
    exec others (.seq items) s = execAll others items s := by
  rw [exec]

theorem exec_plain (p : String) (ws : Option (List JSString)) (s : List (Datum α)) :
    exec others (.prim p none ws) s = execPlain others p s := by
  rw [exec]

theorem execAll_nil (s : List (Datum α)) : execAll others [] s = some s := by
  rw [execAll]

theorem execAll_cons {e : Expr} {es : List Expr} {s s' : List (Datum α)}
    (h : exec others e s = some s') : execAll others (e :: es) s = execAll others es s' := by
  rw [execAll, h, Option.bind_some]

theorem execAll_singleton (e : Expr) (s : List (Datum α)) :
    execAll others [e] s = exec others e s := by
  rw [execAll]
  have hend : execAll others [] = some := by
    funext s
    exact execAll_nil others s
  rw [hend]
  exact Option.bind_fun_some _

/-- A sequence of two codes. -/
theorem exec_pair {e e' : Expr} {s s' : List (Datum α)} (h : exec others e s = some s') :
    exec others (.seq [e, e']) s = exec others e' s' := by
  rw [exec_seq, execAll_cons others h, execAll_singleton]

variable (ws : Option (List JSString)) (a b : Datum α) (s : List (Datum α))

theorem exec_DUP : exec others (leafPrim "DUP" ws) (a :: s) = some (a :: a :: s) :=
  exec_plain others "DUP" ws _

theorem exec_DROP : exec others (leafPrim "DROP" ws) (a :: s) = some s :=
  exec_plain others "DROP" ws _

theorem exec_SWAP : exec others (leafPrim "SWAP" ws) (a :: b :: s) = some (b :: a :: s) :=
  exec_plain others "SWAP" ws _

theorem exec_PAIR : exec others (leafPrim "PAIR" ws) (a :: b :: s) = some (.pair a b :: s) :=
  exec_plain others "PAIR" ws _

theorem exec_CAR : exec others (leafPrim "CAR" ws) (.pair a b :: s) = some (a :: s) :=
  exec_plain others "CAR" ws _

theorem exec_CDR : exec others (leafPrim "CDR" ws) (.pair a b :: s) = some (b :: s) :=
  exec_plain others "CDR" ws _

theorem exec_DIP {body : Expr} {s s' : List (Datum α)} (h : exec others body s = some s') :
    exec others (.prim "DIP" (some [body]) none) (a :: s) = some (a :: s') := by
  rw [exec, if_pos rfl, below, h]
  rfl

end

/-! ## Code along a path -/

section

variable {α : Type} (others : Others α) {t y : Datum α} {s s' : List (Datum α)}

/-- The letters of a path. -/
def letters (path : List Side) : List Char := path.map Side.letter

theorem exists_parseSetMapCadr (ex : Expr) (name : String) (termA termD : Expr)
    {path : List Side} (hpath : path ≠ []) : ∀ vann, ∃ code,
      parseSetMapCadr ex name termA termD (letters path) vann = .ok code := by
  induction path with
  | nil => exact absurd rfl hpath
  | cons side path ih =>
    intro vann
    by_cases hlast : path = []
    · subst hlast
      cases side with
      | A => exact ⟨termA, rfl⟩
      | D => exact ⟨termD, rfl⟩
    · obtain ⟨inner, hinner⟩ := ih hlast []
      have hempty : (letters path).isEmpty = false := by
        cases path with
        | nil => exact absurd rfl hlast
        | cons _ _ => rfl
      cases side with
      | A =>
        rw [letters, List.map_cons, Side.letter, parseSetMapCadr, ← letters, hempty,
          if_neg Bool.false_ne_true, hinner]
        exact ⟨_, rfl⟩
      | D =>
        rw [letters, List.map_cons, Side.letter, parseSetMapCadr, ← letters, hempty,
          if_neg Bool.false_ne_true, hinner]
        exact ⟨_, rfl⟩

/-- **The code along a path** does at its end what the given code does. -/
theorem exec_parseSetMapCadr {ex : Expr} {name : String} {termA termD : Expr}
    (hA : ∀ r, exec others termA (.pair t r :: s) = some (.pair y r :: s'))
    (hD : ∀ l, exec others termD (.pair l t :: s) = some (.pair l y :: s')) (path : List Side) :
    ∀ {vann : List JSString} {code : Expr},
      parseSetMapCadr ex name termA termD (letters path) vann = .ok code →
        ∀ {v : Datum α}, v.subtree path = some t →
          exec others code (v :: s) = some (Datum.replace y path v :: s') := by
  induction path with
  | nil =>
    intro vann code h
    cases h
  | cons side path ih =>
    intro vann code h v hv
    rcases v with a | ⟨l, r⟩
    · cases side <;> cases hv
    cases side with
    | A =>
      rw [letters, List.map_cons, Side.letter, parseSetMapCadr] at h
      split at h
      · next hlast =>
        rw [List.isEmpty_iff, List.map_eq_nil_iff] at hlast
        subst hlast
        have hl : l = t := Option.some.inj hv
        rw [← Except.ok.inj h, hl, hA]
        rfl
      · obtain ⟨inner, hinner, h⟩ := Except.bind_eq_ok.mp h
        -- the pair is kept on top while the left side is replaced below it
        have hbody : exec others (.seq [leafPrim "CAR" (some [js "@%%"]), inner])
            (.pair l r :: s) = some (Datum.replace y path l :: s') :=
          (exec_pair others (exec_CAR others _ l r s)).trans (ih hinner hv)
        rw [← Except.ok.inj h, exec_seq]
        refine (execAll_cons others (exec_DUP others none _ _)).trans ?_
        refine (execAll_cons others (exec_DIP others _ hbody)).trans ?_
        refine (execAll_cons others (exec_CDR others _ l r _)).trans ?_
        refine (execAll_cons others (exec_SWAP others none _ _ _)).trans ?_
        refine (execAll_cons others (exec_PAIR others _ _ _ _)).trans ?_
        exact execAll_nil others _
    | D =>
      rw [letters, List.map_cons, Side.letter, parseSetMapCadr] at h
      split at h
      · next hlast =>
        rw [List.isEmpty_iff, List.map_eq_nil_iff] at hlast
        subst hlast
        have hr : r = t := Option.some.inj hv
        rw [← Except.ok.inj h, hr, hD]
        rfl
      · obtain ⟨inner, hinner, h⟩ := Except.bind_eq_ok.mp h
        have hbody : exec others (.seq [leafPrim "CDR" (some [js "@%%"]), inner])
            (.pair l r :: s) = some (Datum.replace y path r :: s') :=
          (exec_pair others (exec_CDR others _ l r s)).trans (ih hinner hv)
        rw [← Except.ok.inj h, exec_seq]
        refine (execAll_cons others (exec_DUP others none _ _)).trans ?_
        refine (execAll_cons others (exec_DIP others _ hbody)).trans ?_
        refine (execAll_cons others (exec_CAR others _ l r _)).trans ?_
        refine (execAll_cons others (exec_PAIR others _ _ _ _)).trans ?_
        exact execAll_nil others _

/-- The code of `C[AD]+R`, which goes down step by step. -/
theorem exec_getCode (others : Others α) (ws : ℕ → Option (List JSString)) (path : List Side) :
    ∀ (k : ℕ) {v t : Datum α} (s : List (Datum α)), v.subtree path = some t →
      execAll others ((letters path).mapIdx fun i c =>
        leafPrim (if c = 'A' then "CAR" else "CDR") (ws (i + k))) (v :: s) = some (t :: s) := by
  induction path with
  | nil =>
    intro k v t s h
    rw [Option.some.inj h]
    exact execAll_nil others _
  | cons side path ih =>
    intro k v t s h
    have hnext : ∀ i, i + 1 + k = i + (k + 1) := fun i => by omega
    rcases v with a | ⟨l, r⟩
    · cases side <;> cases h
    rw [letters, List.map_cons, List.mapIdx_cons, ← letters]
    simp only [hnext]
    cases side with
    | A => exact (execAll_cons others (exec_CAR others _ l r s)).trans (ih (k + 1) s h)
    | D => exact (execAll_cons others (exec_CDR others _ l r s)).trans (ih (k + 1) s h)

end

/-! ## Names -/

section

variable (proto : Protocol) {path : List Side} (hpath : path ≠ [])

/-- The name of the macro with a prefix. -/
def accessName (start : String) (path : List Side) : String :=
  String.ofList (start.toList ++ letters path ++ ['R'])

theorem toList_accessName (start : String) (path : List Side) :
    (accessName start path).toList = start.toList ++ letters path ++ "R".toList := by
  rw [accessName, String.toList_ofList]
  rfl

theorem mem_letters {c : Char} (h : c ∈ letters path) : c ∈ "AD".toList := by
  obtain ⟨side, -, rfl⟩ := List.mem_map.mp h
  cases side <;> decide

theorem matchName_accessName {start : String} {min : ℕ} (h : min ≤ path.length) :
    matchName start "AD" min "R" (accessName start path) = some (letters path) :=
  matchName_append (toList_accessName start path) (fun _ hc => mem_letters hc)
    (by rwa [letters, List.length_map])

/-- A name of another family. -/
theorem matchName_accessName_none {start pre chars post : String} {min : ℕ} {c : Char}
    (hpre : pre.toList.head? = some c) (hstart : start.toList.head?.all (· ≠ c) = true)
    (hne : start.toList ≠ []) : matchName pre chars min post (accessName start path) = none := by
  apply matchName_none
  rw [List.isPrefixOf_iff_prefix, toList_accessName, List.append_assoc]
  obtain ⟨d, ds, hd⟩ := List.exists_cons_of_ne_nil hne
  obtain ⟨cs, hc⟩ := List.head?_eq_some_iff.mp hpre
  rw [hd] at hstart ⊢
  rw [hc, List.cons_append, List.cons_prefix_cons]
  rintro ⟨rfl, -⟩
  simp at hstart

end

/-! ## The macros -/

section

variable {α : Type} (others : Others α) (proto : Protocol) (annots : Option (List JSString))
  {path : List Side} (hpath : path ≠ [])

include hpath in
/-- **`C[AD]+R`** returns the subtree at the path. -/
theorem expandMacros_get : ∃ code,
    expandMacros proto (accessName "C" path) none annots = .ok code ∧
      ∀ (v t : Datum α) (s : List (Datum α)), v.subtree path = some t →
        exec others code (v :: s) = some (t :: s) := by
  by_cases hlength : 2 ≤ path.length
  · have hnamed : namedMacro (accessName "C" path) none annots = .ok none := by
      apply namedMacro_eq_none
      have hnames : ∀ q ∈ macroNames, q.toList.head? = some 'C' → 4 ≤ q.toList.length →
          q.toList[1]? = some 'M' := by decide
      intro hmem
      have hletter := hnames _ hmem (by rw [toList_accessName]; rfl) (by
        rw [toList_accessName]
        simp only [List.length_append, letters, List.length_map]
        have hC : "C".toList.length = 1 := rfl
        have hR : "R".toList.length = 1 := rfl
        omega)
      obtain ⟨side, path', rfl⟩ := List.exists_cons_of_ne_nil hpath
      rw [toList_accessName] at hletter
      cases side <;> cases hletter
    have hexpand : expandMacros proto (accessName "C" path) none annots
        = .ok (.seq ((letters path).mapIdx fun i c => leafPrim (if c = 'A' then "CAR" else "CDR")
          (if i = (letters path).length - 1 then annots else none))) := by
      rw [expandMacros, hnamed]
      simp only [Except.ok_bind]
      rw [@matchName_accessName_none _ "C" "P" _ _ _ 'P' rfl (by decide) (by decide),
        @matchName_accessName_none _ "C" "UNP" _ _ _ 'U' rfl (by decide) (by decide),
        matchName_accessName hlength]
      rfl
    refine ⟨_, hexpand, fun v t s h => ?_⟩
    rw [exec_seq]
    exact exec_getCode others (fun i => if i = (letters path).length - 1 then annots else none) path
      0 s h
  · -- one step: `CAR` and `CDR` are no macros but the instructions
    obtain ⟨side, path', rfl⟩ := List.exists_cons_of_ne_nil hpath
    have hnil : path' = [] := by
      rw [List.length_cons] at hlength
      exact List.length_eq_zero_iff.mp (by omega)
    subst hnil
    cases side with
    | A =>
      refine ⟨leafPrim "CAR" annots, rfl, fun v t s h => ?_⟩
      rcases v with a | ⟨l, r⟩
      · cases h
      · rw [exec_CAR, Option.some.inj (show some l = some t from h)]
    | D =>
      refine ⟨leafPrim "CDR" annots, rfl, fun v t s h => ?_⟩
      rcases v with a | ⟨l, r⟩
      · cases h
      · rw [exec_CDR, Option.some.inj (show some r = some t from h)]

theorem namedMacro_accessName {start : String} {args : Option (List Expr)} {c : Char}
    (hstart : start.toList.head? = some c) (hc : ∀ q ∈ macroNames, q.toList.head? ≠ some c) :
    namedMacro (accessName start path) args annots = .ok none := by
  refine namedMacro_eq_none fun hmem => hc _ hmem ?_
  obtain ⟨cs, hcs⟩ := List.head?_eq_some_iff.mp hstart
  rw [toList_accessName, hcs]
  rfl

/-- The fields of the annotations of a macro. -/
def fieldsOf (annots : Option (List JSString)) : List JSString := (filterAnnotations annots).1

include hpath in
/-- **`SET_C[AD]+R`** puts the second value in the place of the subtree. -/
theorem expandMacros_set (hfields : (fieldsOf annots).length ≤ 1) : ∃ code,
    expandMacros proto (accessName "SET_C" path) none annots = .ok code ∧
      ∀ (v t y : Datum α) (s : List (Datum α)), v.subtree path = some t →
        exec others code (v :: y :: s) = some (Datum.replace y path v :: s) := by
  have hexpand : expandMacros proto (accessName "SET_C" path) none annots
      = setCadr (accessName "SET_C" path) none annots (letters path) := by
    have hnamed : namedMacro (accessName "SET_C" path) none annots = .ok none :=
      namedMacro_accessName annots (c := 'S') rfl (by decide)
    rw [expandMacros, hnamed]
    simp only [Except.ok_bind]
    rw [@matchName_accessName_none _ "SET_C" "P" _ _ _ 'P' rfl (by decide) (by decide),
      @matchName_accessName_none _ "SET_C" "UNP" _ _ _ 'U' rfl (by decide) (by decide),
      @matchName_accessName_none _ "SET_C" "C" _ _ _ 'C' rfl (by decide) (by decide),
      matchName_accessName (List.length_pos_of_ne_nil hpath)]
    rfl
  -- the code at the end of the path, with and without a field to check
  have hend : ∃ (termA termD : Expr) (rest : List JSString), setCadr (accessName "SET_C" path) none
        annots (letters path) = parseSetMapCadr (.prim (accessName "SET_C" path) none annots)
          (accessName "SET_C" path) termA termD (letters path) rest ∧
      (∀ (t y r : Datum α) s, exec others termA (.pair t r :: y :: s) = some (.pair y r :: s)) ∧
      ∀ (t y l : Datum α) s, exec others termD (.pair l t :: y :: s) = some (.pair l y :: s) := by
    unfold fieldsOf at hfields
    rw [setCadr]
    generalize filterAnnotations annots = x at hfields
    obtain ⟨fields, rest⟩ := x
    rcases fields with _ | ⟨f, _ | ⟨_, _⟩⟩
    · refine ⟨_, _, rest, rfl, fun t y r s => ?_, fun t y l s => ?_⟩
      · rw [exec_seq]
        refine (execAll_cons others (exec_CDR others _ t r _)).trans ?_
        refine (execAll_cons others (exec_SWAP others none _ _ _)).trans ?_
        refine (execAll_cons others (exec_PAIR others _ _ _ _)).trans ?_
        exact execAll_nil others _
      · rw [exec_seq]
        refine (execAll_cons others (exec_CAR others _ l t _)).trans ?_
        refine (execAll_cons others (exec_PAIR others _ _ _ _)).trans ?_
        exact execAll_nil others _
    · refine ⟨_, _, rest, rfl, fun t y r s => ?_, fun t y l s => ?_⟩
      · rw [exec_seq]
        refine (execAll_cons others (exec_DUP others none _ _)).trans ?_
        refine (execAll_cons others (exec_CAR others _ t r _)).trans ?_
        refine (execAll_cons others (exec_DROP others none _ _)).trans ?_
        refine (execAll_cons others (exec_CDR others _ t r _)).trans ?_
        refine (execAll_cons others (exec_SWAP others none _ _ _)).trans ?_
        refine (execAll_cons others (exec_PAIR others _ _ _ _)).trans ?_
        exact execAll_nil others _
      · rw [exec_seq]
        refine (execAll_cons others (exec_DUP others none _ _)).trans ?_
        refine (execAll_cons others (exec_CDR others _ l t _)).trans ?_
        refine (execAll_cons others (exec_DROP others none _ _)).trans ?_
        refine (execAll_cons others (exec_CAR others _ l t _)).trans ?_
        refine (execAll_cons others (exec_PAIR others _ _ _ _)).trans ?_
        exact execAll_nil others _
    · simp only [List.length_cons] at hfields
      omega
  obtain ⟨termA, termD, rest, hset, hA, hD⟩ := hend
  obtain ⟨code, hcode⟩ := exists_parseSetMapCadr (.prim (accessName "SET_C" path) none annots)
    (accessName "SET_C" path) termA termD hpath rest
  refine ⟨code, hexpand.trans (hset.trans hcode), fun v t y s hv => ?_⟩
  exact exec_parseSetMapCadr others (fun r => hA t y r s) (fun l => hD t y l s) path hcode hv

include hpath in
/-- **`MAP_C[AD]+R`** puts what its code makes of the subtree in the place of the subtree. -/
theorem expandMacros_map (body : Expr) (hfields : (fieldsOf annots).length ≤ 1) : ∃ code,
    expandMacros proto (accessName "MAP_C" path) (some [body]) annots = .ok code ∧
      ∀ (v t y : Datum α) (s : List (Datum α)), v.subtree path = some t →
        (∀ s', exec others body (t :: s') = some (y :: s')) →
          exec others code (v :: s) = some (Datum.replace y path v :: s) := by
  have hexpand : expandMacros proto (accessName "MAP_C" path) (some [body]) annots
      = mapCadr (accessName "MAP_C" path) (some [body]) annots (letters path) := by
    have hnamed : namedMacro (accessName "MAP_C" path) (some [body]) annots = .ok none :=
      namedMacro_accessName annots (c := 'M') rfl (by decide)
    rw [expandMacros, hnamed]
    simp only [Except.ok_bind]
    rw [@matchName_accessName_none _ "MAP_C" "P" _ _ _ 'P' rfl (by decide) (by decide),
      @matchName_accessName_none _ "MAP_C" "UNP" _ _ _ 'U' rfl (by decide) (by decide),
      @matchName_accessName_none _ "MAP_C" "C" _ _ _ 'C' rfl (by decide) (by decide),
      @matchName_accessName_none _ "MAP_C" "SET_C" _ _ _ 'S' rfl (by decide) (by decide),
      matchName_accessName (List.length_pos_of_ne_nil hpath)]
    rfl
  have hend : ∃ termA termD : Expr, mapCadr (accessName "MAP_C" path) (some [body]) annots
        (letters path) = parseSetMapCadr (.prim (accessName "MAP_C" path) (some [body]) annots)
          (accessName "MAP_C" path) termA termD (letters path) [] ∧
      (∀ (t y r : Datum α) s, (∀ s', exec others body (t :: s') = some (y :: s')) →
        exec others termA (.pair t r :: s) = some (.pair y r :: s)) ∧
      ∀ (t y l : Datum α) s, (∀ s', exec others body (t :: s') = some (y :: s')) →
        exec others termD (.pair l t :: s) = some (.pair l y :: s) := by
    unfold fieldsOf at hfields
    rw [mapCadr]
    generalize filterAnnotations annots = x at hfields
    obtain ⟨fields, rest⟩ := x
    have hfew : ¬ 1 < fields.length := Nat.not_lt.mpr hfields
    refine ⟨_, _, if_neg hfew, fun t y r s hbody => ?_, fun t y l s hbody => ?_⟩
    · rw [exec_seq]
      refine (execAll_cons others (exec_DUP others none _ _)).trans ?_
      refine (execAll_cons others (exec_CDR others _ t r _)).trans ?_
      refine (execAll_cons others (exec_DIP others _
        ((exec_pair others (exec_CAR others _ t r s)).trans (hbody s)))).trans ?_
      refine (execAll_cons others (exec_SWAP others none _ _ _)).trans ?_
      refine (execAll_cons others (exec_PAIR others _ _ _ _)).trans ?_
      exact execAll_nil others _
    · rw [exec_seq]
      refine (execAll_cons others (exec_DUP others none _ _)).trans ?_
      refine (execAll_cons others (exec_CDR others _ l t _)).trans ?_
      refine (execAll_cons others (hbody _)).trans ?_
      refine (execAll_cons others (exec_SWAP others none _ _ _)).trans ?_
      refine (execAll_cons others (exec_CAR others _ l t _)).trans ?_
      refine (execAll_cons others (exec_PAIR others _ _ _ _)).trans ?_
      exact execAll_nil others _
  obtain ⟨termA, termD, hmap, hA, hD⟩ := hend
  obtain ⟨code, hcode⟩ := exists_parseSetMapCadr
    (.prim (accessName "MAP_C" path) (some [body]) annots) (accessName "MAP_C" path) termA termD hpath
    []
  refine ⟨code, hexpand.trans (hmap.trans hcode), fun v t y s hv hbody => ?_⟩
  exact exec_parseSetMapCadr others (fun r => hA t y r s hbody) (fun l => hD t y l s hbody) path hcode
    hv

end

/-- **The meaning of the access macros.** For every path, the code of `C<path>R` returns the subtree
at the path, that of `SET_C<path>R` replaces this subtree alone, so that it is what is got
afterwards, and that of `MAP_C<path>R` replaces it by what the given code makes of it. -/
theorem accessMacros_meaning {α : Type} (others : Others α) (proto : Protocol)
    (annots : Option (List JSString)) (hfields : (fieldsOf annots).length ≤ 1) {path : List Side}
    (hpath : path ≠ []) (body : Expr) :
    ∃ get set map, expandMacros proto (accessName "C" path) none annots = .ok get ∧
      expandMacros proto (accessName "SET_C" path) none annots = .ok set ∧
      expandMacros proto (accessName "MAP_C" path) (some [body]) annots = .ok map ∧
      ∀ (v t : Datum α), v.subtree path = some t →
        (∀ s, exec others get (v :: s) = some (t :: s)) ∧
        (∀ y, ∃ v', Datum.Replaces path y v v' ∧
          (∀ s, exec others set (v :: y :: s) = some (v' :: s)) ∧
          ∀ s, exec others get (v' :: s) = some (y :: s)) ∧
        ∀ y, (∀ s, exec others body (t :: s) = some (y :: s)) → ∃ v', Datum.Replaces path y v v' ∧
          ∀ s, exec others map (v :: s) = some (v' :: s) := by
  obtain ⟨get, hget, hgot⟩ := expandMacros_get others proto annots hpath
  obtain ⟨set, hset, hput⟩ := expandMacros_set others proto annots hpath hfields
  obtain ⟨map, hmap, hmapped⟩ := expandMacros_map others proto annots hpath body hfields
  refine ⟨get, set, map, hget, hset, hmap, fun v t hv => ⟨fun s => hgot v t s hv, fun y => ?_,
    fun y hbody => ?_⟩⟩
  · have hreplaces := Datum.replaces_replace y hv
    exact ⟨_, hreplaces, fun s => hput v t y s hv, fun s => hgot _ y s hreplaces.at_path⟩
  · exact ⟨_, Datum.replaces_replace y hv, fun s => hmapped v t y s hv hbody⟩

theorem accessMacros_meaning_DA : ∃ get set map,
    expandMacros .PtEdo2Zk (accessName "C" [.D, .A]) none none = .ok get ∧
      expandMacros .PtEdo2Zk (accessName "SET_C" [.D, .A]) none none = .ok set ∧
      expandMacros .PtEdo2Zk (accessName "MAP_C" [.D, .A]) (some [.seq []]) none = .ok map ∧
      ∀ (v t : Datum ℕ), v.subtree [.D, .A] = some t →
        (∀ s, exec (fun _ _ _ => none) get (v :: s) = some (t :: s)) ∧
        (∀ y, ∃ v', Datum.Replaces [.D, .A] y v v' ∧
          (∀ s, exec (fun _ _ _ => none) set (v :: y :: s) = some (v' :: s)) ∧
          ∀ s, exec (fun _ _ _ => none) get (v' :: s) = some (y :: s)) ∧
        ∀ y, (∀ s, exec (fun _ _ _ => none) (.seq []) (t :: s) = some (y :: s)) →
          ∃ v', Datum.Replaces [.D, .A] y v v' ∧
            ∀ s, exec (fun _ _ _ => none) map (v :: s) = some (v' :: s) :=
  accessMacros_meaning (fun _ _ _ => none) .PtEdo2Zk none (by decide) (List.cons_ne_nil _ _) (.seq [])

end MichelCodec
