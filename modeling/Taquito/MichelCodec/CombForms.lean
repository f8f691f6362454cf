import Taquito.MichelCodec.Trees
import Taquito.MichelCodec.ValidatorDepth

/-!
# Typed unpacking and the form of combs

A comb is written as pairs in pairs, as one `Pair` of all its members or as a sequence of them, and
an expression `Denotes` a value of a type in each of these forms. The reader gives the two
transforms of a pair type to the arguments of whatever stands for the pair, so a node of three or
more members runs out of transforms: packed data are read back at their type exactly if all of
their pairs have two members (`unpackData_packData_iff`).
-/

open Js Micheline

namespace MichelCodec

/-! ## Values -/

/-- A pair by its `prim`, or a sequence. -/
def isComb (id : String) : Expr → Bool
  | .seq _ => true
  | .prim p _ _ => p == id
  | _ => false

/-- The two components of a comb in any form. -/
def components (id : String) (v : Expr) : Option (Expr × Expr) :=
  if isComb id v then
    match v.children with
    | [a, b] => some (a, b)
    | a :: b :: c :: rest => some (a, .prim id (some (b :: c :: rest)) none)
    | _ => none
  else none

/-- The two components of a comb that is written with two members. -/
def twoMembers (id : String) (v : Expr) : Option (Expr × Expr) :=
  if isComb id v then
    match v.children with
    | [a, b] => some (a, b)
    | _ => none
  else none

/-- A value: its literals and its code with their types, and how they are put together. -/
inductive Meaning where
  | leaf (t d : Expr)
  | pair (left right : Meaning)
  | left (v : Meaning)
  | right (v : Meaning)
  | none
  | some (v : Meaning)
  | nil
  | cons (head tail : Meaning)
  | elt (key value : Meaning)

/-- The types whose data have data inside. -/
def compositeTypes : List String := ["pair", "or", "option", "list", "set", "map"]

/-- The data are those of a value of the type; `split` says which forms of combs count. -/
inductive Denotes (split : Expr → Option (Expr × Expr)) : Transform → Expr → Meaning → Prop where
  | leaf {p : String} {args : Option (List Expr)} {annots : Option (List JSString)} {d : Expr}
      (isLeaf : p ∉ compositeTypes) (notElt : isElt d = false) :
      Denotes split (.typed (.prim p args annots)) d (.leaf (.prim p args annots) d)
  | pair {t a b d x y : Expr} {v w : Meaning} (type : components "pair" t = some (a, b))
      (data : split d = some (x, y)) (left : Denotes split (.typed a) x v)
      (right : Denotes split (.typed b) y w) : Denotes split (.typed t) d (.pair v w)
  | left {a b x : Expr} {annots annots' : Option (List JSString)} {v : Meaning}
      (content : Denotes split (.typed a) x v) :
      Denotes split (.typed (.prim "or" (some [a, b]) annots)) (.prim "Left" (some [x]) annots')
        (.left v)
  | right {a b x : Expr} {annots annots' : Option (List JSString)} {v : Meaning}
      (content : Denotes split (.typed b) x v) :
      Denotes split (.typed (.prim "or" (some [a, b]) annots)) (.prim "Right" (some [x]) annots')
        (.right v)
  | none {a : Expr} {args : Option (List Expr)} {annots annots' : Option (List JSString)}
      (empty : args.getD [] = []) :
      Denotes split (.typed (.prim "option" (some [a]) annots)) (.prim "None" args annots') .none
  | some {a x : Expr} {annots annots' : Option (List JSString)} {v : Meaning}
      (content : Denotes split (.typed a) x v) :
      Denotes split (.typed (.prim "option" (some [a]) annots)) (.prim "Some" (some [x]) annots')
        (.some v)
  | nil {p : String} {args : Option (List Expr)} {annots : Option (List JSString)}
      (collection : p ∈ ["list", "set", "map"]) :
      Denotes split (.typed (.prim p args annots)) (.seq []) .nil
  | item {p : String} {a x : Expr} {annots : Option (List JSString)} {xs : List Expr} {v vs : Meaning}
      (collection : p ∈ ["list", "set"]) (head : Denotes split (.typed a) x v)
      (tail : Denotes split (.typed (.prim p (some [a]) annots)) (.seq xs) vs) :
      Denotes split (.typed (.prim p (some [a]) annots)) (.seq (x :: xs)) (.cons v vs)
  | entry {a b x : Expr} {annots : Option (List JSString)} {xs : List Expr} {v vs : Meaning}
      (head : Denotes split (.elt (.prim "map" (some [a, b]) annots)) x v)
      (tail : Denotes split (.typed (.prim "map" (some [a, b]) annots)) (.seq xs) vs) :
      Denotes split (.typed (.prim "map" (some [a, b]) annots)) (.seq (x :: xs)) (.cons v vs)
  | elt {a b x y : Expr} {annots annots' : Option (List JSString)} {v w : Meaning}
      (key : Denotes split (.typed a) x v) (value : Denotes split (.typed b) y w) :
      Denotes split (.elt (.prim "map" (some [a, b]) annots)) (.prim "Elt" (some [x, y]) annots')
        (.elt v w)

/-- What a single literal or piece of code, packed without a type, is read back as at its type. -/
def leafRead (host : Host) (t d : Expr) : Option Expr :=
  Except.toOption do
    let n ← writeTree host d.weight .passThrough d
    let e ← readTree host n (.typed t)
    assertMichelsonData e
    return e

/-- The value with every leaf as it is read back. -/
def Meaning.read (host : Host) : Meaning → Option Meaning
  | .leaf t d => (leafRead host t d).map (.leaf t)
  | .pair v w => do return .pair (← v.read host) (← w.read host)
  | .left v => do return .left (← v.read host)
  | .right v => do return .right (← v.read host)
  | .none => return .none
  | .some v => do return .some (← v.read host)
  | .nil => return .nil
  | .cons head tail => do return .cons (← head.read host) (← tail.read host)
  | .elt key value => do return .elt (← key.read host) (← value.read host)

/-- `unpackData(packData(d), t)` returns `e`. -/
def Unpacks (host : Host) (t d e : Expr) : Prop :=
  ∃ bytes, packData host d none = .ok bytes ∧ unpackData host bytes (some t) = .ok e

theorem denotes_mono {split split' : Expr → Option (Expr × Expr)}
    (h : ∀ d c, split d = some c → split' d = some c) {tf : Transform} {d : Expr} {v : Meaning}
    (hd : Denotes split tf d v) : Denotes split' tf d v := by
  induction hd with
  | leaf hleaf helt => exact .leaf hleaf helt
  | pair htype hdata _ _ ihl ihr => exact .pair htype (h _ _ hdata) ihl ihr
  | left _ ih => exact .left ih
  | right _ ih => exact .right ih
  | none hargs => exact .none hargs
  | some _ ih => exact .some ih
  | nil hp => exact .nil hp
  | item hp _ _ ihx ihxs => exact .item hp ihx ihxs
  | entry _ _ ihx ihxs => exact .entry ihx ihxs
  | elt _ _ ihk ihv => exact .elt ihk ihv

theorem components_of_twoMembers {id : String} {d : Expr} {c : Expr × Expr}
    (h : twoMembers id d = some c) : components id d = some c := by
  rw [twoMembers] at h
  rw [components]
  by_cases hc : isComb id d
  · rw [if_pos hc] at h ⊢
    match hargs : d.children with
    | [] | [_] | _ :: _ :: _ :: _ =>
      rw [hargs] at h
      cases h
    | [a, b] =>
      rw [hargs] at h
      exact h
  · rw [if_neg hc] at h
    cases h

/-! ## Writing without a type -/

/-- The node that is written of an expression without a type. -/
def Written (host : Host) (e : Expr) (n : Node) : Prop :=
  writeTree host e.weight .passThrough e = .ok n

variable {host : Host}

theorem writeTrees_forever {write : Transform → Expr → Except MichelError Node} {tf : Transform}
    {es : List Expr} {ns : List Node} : writeTrees write (.forever (.ok tf)) es = .ok ns ↔
      List.Forall₂ (fun e n => write tf e = .ok n) es ns := by
  induction es generalizing ns with
  | nil =>
    rw [writeTrees, List.forall₂_nil_left_iff, Except.ok.injEq]
    exact eq_comm
  | cons e es ih =>
    rw [writeTrees, List.forall₂_cons_left_iff]
    have hnext : Supply.next (.forever (.ok tf)) = .ok (tf, .forever (.ok tf)) := rfl
    rw [hnext, Except.ok_bind]
    constructor
    · intro h
      obtain ⟨n, hn, h⟩ := Except.bind_eq_ok.mp h
      obtain ⟨ms, hms, h⟩ := Except.bind_eq_ok.mp h
      cases h
      exact ⟨n, ms, hn, ih.mp hms, rfl⟩
    · rintro ⟨n, ms, hn, hms, rfl⟩
      simp only [hn, Except.ok_bind, ih.mpr hms]
      rfl

theorem forall₂_written {k : ℕ} {es : List Expr} {ns : List Node} (h : ∀ e ∈ es, e.weight ≤ k) :
    List.Forall₂ (fun e n => writeTree host k .passThrough e = .ok n) es ns ↔
      List.Forall₂ (Written host) es ns := by
  induction es generalizing ns with
  | nil => rw [List.forall₂_nil_left_iff, List.forall₂_nil_left_iff]
  | cons e es ih =>
    have hfuel := @writeTree_of_weight host k e.weight .passThrough e (h e List.mem_cons_self) le_rfl
    simp only [List.forall₂_cons_left_iff, ih fun x hx => h x (List.mem_cons_of_mem _ hx), hfuel,
      Written]

theorem written_seq {items : List Expr} {n : Node} : Written host (.seq items) n ↔
    ∃ ns, List.Forall₂ (Written host) items ns ∧ n = .seq ns := by
  obtain ⟨k, hk⟩ := Expr.exists_succ_of_weight (e := .seq items) le_rfl
  have hstep : writeTree host (k + 1) .passThrough (.seq items) =
    nodeTree (writeTree host k) (.seq items) (.forever (.ok .passThrough)) := rfl
  have hle : ∀ e ∈ items, e.weight ≤ k := fun e he => by
    have := Expr.weight_lt_of_mem_children (e := .seq items) he
    omega
  rw [Written, hk, hstep, nodeTree]
  constructor
  · intro h
    obtain ⟨ns, hns, h⟩ := Except.bind_eq_ok.mp h
    cases h
    exact ⟨ns, (forall₂_written hle).mp (writeTrees_forever.mp hns), rfl⟩
  · rintro ⟨ns, hns, rfl⟩
    rw [writeTrees_forever.mpr ((forall₂_written hle).mpr hns)]
    rfl

theorem written_prim {p : String} (hp : p ≠ "PUSH") {args : Option (List Expr)}
    {annots : Option (List JSString)} {n : Node} : Written host (.prim p args annots) n ↔
    ∃ code ns, primTags p = some code ∧ List.Forall₂ (Written host) (args.getD []) ns ∧
      n = .prim (UInt8.ofNat code) ns (annotBytes annots) := by
  obtain ⟨k, hk⟩ := Expr.exists_succ_of_weight (e := .prim p args annots) le_rfl
  have hstep : writeTree host (k + 1) .passThrough (.prim p args annots) =
      nodeTree (writeTree host k) (.prim p args annots) (.forever (.ok .passThrough)) := by
    rw [writeTree, writeTransform, passThroughSupply, if_neg hp]
    rfl
  have hle : ∀ e ∈ args.getD [], e.weight ≤ k := fun e he => by
    have := Expr.weight_lt_of_mem_children (e := .prim p args annots) he
    omega
  rw [Written, hk, hstep, nodeTree]
  cases hcode : primTags p with
  | none =>
    constructor
    · intro h
      cases h
    · rintro ⟨code, ns, h, -⟩
      cases h
  | some code =>
    constructor
    · intro h
      obtain ⟨ns, hns, h⟩ := Except.bind_eq_ok.mp h
      cases h
      exact ⟨code, ns, rfl, (forall₂_written hle).mp (writeTrees_forever.mp hns), rfl⟩
    · rintro ⟨code, ns, h, hns, rfl⟩
      cases h
      simp only [writeTrees_forever.mpr ((forall₂_written hle).mpr hns), Except.ok_bind]
      rfl

theorem packData_written {d : Expr} {bytes : Bytes} :
    packData host d none = .ok bytes ↔ ∃ n, Written host d n ∧ bytes = 5 :: wire n := by
  simp only [packData_eq, Written, transformOf]
  cases writeTree host d.weight .passThrough d with
  | error e =>
    constructor
    · intro h
      cases h
    · rintro ⟨n, h, -⟩
      cases h
  | ok n =>
    constructor
    · intro h
      cases h
      exact ⟨n, rfl, rfl⟩
    · rintro ⟨n', h, rfl⟩
      cases h
      rfl

/-! ## Reading a node -/

theorem readTrees_cons_eq_ok {n : Node} {ns : List Node} {s : Supply} {es : List Expr} :
    readTrees host (n :: ns) s = .ok es ↔ ∃ tf s' e es', s.next = .ok (tf, s') ∧
      readTree host n tf = .ok e ∧ readTrees host ns s' = .ok es' ∧ es = e :: es' := by
  rw [readTrees]
  constructor
  · intro h
    obtain ⟨⟨tf, s'⟩, hnext, h⟩ := Except.bind_eq_ok.mp h
    obtain ⟨e, he, h⟩ := Except.bind_eq_ok.mp h
    obtain ⟨es', hes, h⟩ := Except.bind_eq_ok.mp h
    cases h
    exact ⟨tf, s', e, es', hnext, he, hes, rfl⟩
  · rintro ⟨tf, s', e, es', hnext, he, hes, rfl⟩
    simp only [hnext, Except.ok_bind, he, hes]
    rfl

/-- Every node is read without a type. -/
def PassesAll (host : Host) (ns : List Node) : Prop :=
  ∃ es, readTrees host ns (.forever (.ok .passThrough)) = .ok es

theorem passesAll_cons {n : Node} {ns : List Node} : PassesAll host (n :: ns) ↔
    (∃ e, readTree host n .passThrough = .ok e) ∧ PassesAll host ns := by
  constructor
  · rintro ⟨es, h⟩
    obtain ⟨tf, s', e, es', hnext, he, hes, -⟩ := readTrees_cons_eq_ok.mp h
    cases hnext
    exact ⟨⟨e, he⟩, es', hes⟩
  · rintro ⟨⟨e, he⟩, es, hes⟩
    exact ⟨e :: es, readTrees_cons_eq_ok.mpr ⟨_, _, e, es, rfl, he, hes, rfl⟩⟩

theorem passesAll_nil : PassesAll host [] := ⟨[], rfl⟩

theorem primitives_ofNat {p : String} {code : ℕ} (hcode : primTags p = some code) :
    primitives[(UInt8.ofNat code).toNat]? = some p := by
  have hlt := primTags_lt hcode
  rw [UInt8.toNat_ofNat', Nat.mod_eq_of_lt (by omega)]
  exact primTags_iff.mp hcode

/-- A sequence whose transform only asks for a sequence. -/
theorem readTree_seq {ns : List Node} {tf : Transform} {it : Supply} {e : Expr}
    (hsupply : ∀ es, readSupply tf (.seq es) = .ok it)
    (hresult : ∀ es, readResult host tf (.seq es) = .ok (.seq es)) :
    readTree host (.seq ns) tf = .ok e ↔
      PassesAll host ns ∧ ∃ es, readTrees host ns it = .ok es ∧ e = .seq es := by
  rw [readTree]
  constructor
  · intro h
    obtain ⟨res, hres, h⟩ := Except.bind_eq_ok.mp h
    rw [hsupply, Except.ok_bind] at h
    obtain ⟨es, hes, h⟩ := Except.bind_eq_ok.mp h
    rw [hsupply, Except.ok_bind, hresult] at h
    cases h
    exact ⟨⟨res, hres⟩, es, hes, rfl⟩
  · rintro ⟨⟨res, hres⟩, es, hes, rfl⟩
    simp only [hres, Except.ok_bind, hsupply, hes, hresult]

/-- A primitive whose transform only asks for its name. -/
theorem readTree_prim {p : String} {code : ℕ} {ns : List Node} {annots : Option Bytes}
    {tf : Transform} {it : Supply} {e : Expr} (hcode : primTags p = some code)
    (hsupply : ∀ es, readSupply tf (.prim p (argsField ns.length es) none) = .ok it)
    (hresult : ∀ args words, readResult host tf (.prim p args words) = .ok (.prim p args words)) :
    readTree host (.prim (UInt8.ofNat code) ns annots) tf = .ok e ↔
      PassesAll host ns ∧ ∃ es, readTrees host ns it = .ok es ∧
        e = .prim p (argsField ns.length es) (annotWords annots) := by
  rw [readTree, primitives_ofNat hcode]
  constructor
  · intro h
    obtain ⟨res, hres, h⟩ := Except.bind_eq_ok.mp h
    rw [hsupply, Except.ok_bind] at h
    obtain ⟨es, hes, h⟩ := Except.bind_eq_ok.mp h
    rw [hsupply, Except.ok_bind, hresult] at h
    cases h
    exact ⟨⟨res, hres⟩, es, hes, rfl⟩
  · rintro ⟨⟨res, hres⟩, es, hes, rfl⟩
    simp only [hres, Except.ok_bind, hsupply, hes, hresult]

/-- Without a type, the members of a sequence are read without one. -/
theorem passes_seq {ns : List Node} :
    (∃ e, readTree host (.seq ns) .passThrough = .ok e) ↔ PassesAll host ns := by
  have hread (e : Expr) := @readTree_seq host ns .passThrough (.forever (.ok .passThrough)) e
    (fun _ => rfl) fun _ => rfl
  simp only [hread]
  exact ⟨fun ⟨e, h, _⟩ => h, fun ⟨es, h⟩ => ⟨.seq es, ⟨es, h⟩, es, h, rfl⟩⟩

theorem passes_prim {p : String} (hp : p ≠ "PUSH") {code : ℕ} (hcode : primTags p = some code)
    {ns : List Node} {annots : Option Bytes} :
    (∃ e, readTree host (.prim (UInt8.ofNat code) ns annots) .passThrough = .ok e) ↔
      PassesAll host ns := by
  have hread (e : Expr) := @readTree_prim host p code ns annots .passThrough
    (.forever (.ok .passThrough)) e hcode
    (fun _ => by rw [readSupply, passThroughSupply, if_neg hp]; rfl) fun _ _ => rfl
  simp only [hread]
  constructor
  · rintro ⟨e, h, -⟩
    exact h
  · rintro ⟨es, h⟩
    exact ⟨_, ⟨es, h⟩, es, h, rfl⟩

/-! ## Leaves -/

/-- An integer, a text or octets. -/
def isLiteral : Expr → Bool
  | .seq _ | .prim _ _ _ => false
  | _ => true

/-- A type with texts for its literals. -/
theorem readLeaf_eq_ok {t d e : Expr} {expected : String} {text : Bytes → Except MichelError JSString}
    (h : readLeaf t d expected text = .ok e) : isLiteral d = true ∧ isElt e = false := by
  cases d with
  | string s =>
    cases h
    exact ⟨rfl, rfl⟩
  | bytes hex =>
    obtain ⟨o, -, h⟩ := Except.bind_eq_ok.mp h
    cases o with
    | none => cases h
    | some bytes =>
      obtain ⟨s, -, h⟩ := Except.bind_eq_ok.mp h
      cases h
      exact ⟨rfl, rfl⟩
  | _ => cases h

theorem readTimestamp_eq_ok {t d e : Expr} (h : readTimestamp t d = .ok e) :
    isLiteral d = true ∧ isElt e = false := by
  cases d with
  | string s =>
    cases h
    exact ⟨rfl, rfl⟩
  | int text =>
    rw [readTimestamp] at h
    split at h
    · cases h
      exact ⟨rfl, rfl⟩
    · cases h
  | _ => cases h

/-- The types whose literals are turned into texts turn no other node into one. -/
theorem readResult_cases (host : Host) (p : String) (args : Option (List Expr))
    (annots : Option (List JSString)) :
    (textTypes.contains p = true ∧ ∀ d e, readResult host (.typed (.prim p args annots)) d = .ok e →
      isLiteral d = true ∧ isElt e = false) ∨
    (textTypes.contains p = false ∧ ∀ d, readResult host (.typed (.prim p args annots)) d = .ok d) := by
  unfold readResult
  by_cases h1 : p = "chain_id"
  · subst h1
    exact .inl ⟨rfl, fun d e => readLeaf_eq_ok⟩
  by_cases h2 : p = "signature"
  · subst h2
    exact .inl ⟨rfl, fun d e => readLeaf_eq_ok⟩
  by_cases h3 : p = "key_hash"
  · subst h3
    exact .inl ⟨rfl, fun d e => readLeaf_eq_ok⟩
  by_cases h4 : p = "key"
  · subst h4
    exact .inl ⟨rfl, fun d e => readLeaf_eq_ok⟩
  by_cases h5 : p = "address"
  · subst h5
    exact .inl ⟨rfl, fun d e => readLeaf_eq_ok⟩
  by_cases h6 : p = "timestamp"
  · subst h6
    exact .inl ⟨rfl, fun d e => readTimestamp_eq_ok⟩
  · refine .inr ⟨?_, fun d => ?_⟩
    · simp [textTypes, h1, h2, h3, h4, h5, h6]
    · dsimp only
      rw [if_neg h1, if_neg h2, if_neg h3, if_neg h4, if_neg h5, if_neg h6]
      rfl

theorem isElt_readResult {tf : Transform} {d e : Expr} (h : readResult host tf d = .ok e) :
    isElt e = isElt d := by
  cases tf with
  | typed t =>
    cases t with
    | prim p args annots =>
      obtain ⟨-, htext⟩ | ⟨-, hother⟩ := readResult_cases host p args annots
      · obtain ⟨hd, he⟩ := htext d e h
        rw [he]
        cases d with
        | prim q args annots => exact absurd hd Bool.false_ne_true
        | _ => rfl
      · rw [hother] at h
        cases h
        rfl
    | _ =>
      cases h
      rfl
  | _ =>
    cases h
    rfl

/-- The node of a primitive has its code. -/
theorem written_code {p : String} {args : Option (List Expr)} {annots : Option (List JSString)}
    {n : Node} (h : Written host (.prim p args annots) n) :
    ∃ code ns words, primTags p = some code ∧ n = .prim (UInt8.ofNat code) ns words := by
  obtain ⟨k, hk⟩ := Expr.exists_succ_of_weight (e := .prim p args annots) le_rfl
  rw [Written, hk, writeTree] at h
  obtain ⟨r, hr, h⟩ := Except.bind_eq_ok.mp h
  obtain ⟨s, -, rfl⟩ := Except.map_eq_ok.mp hr
  have h : nodeTree (writeTree host k) (.prim p args annots) s = .ok n := h
  rw [nodeTree] at h
  cases hcode : primTags p with
  | none =>
    rw [hcode] at h
    cases h
  | some code =>
    rw [hcode] at h
    obtain ⟨ns, -, h⟩ := Except.bind_eq_ok.mp h
    cases h
    exact ⟨code, ns, _, rfl, rfl⟩

/-- Reading what was written of an expression keeps whether it is a map element. -/
theorem isElt_readTree {d e : Expr} {n : Node} {tf : Transform} (hn : Written host d n)
    (he : readTree host n tf = .ok e) : isElt e = isElt d := by
  cases d with
  | prim p args annots =>
    obtain ⟨code, ns, words, hcode, rfl⟩ := written_code hn
    rw [readTree, primitives_ofNat hcode] at he
    obtain ⟨res, _, he⟩ := Except.bind_eq_ok.mp he
    obtain ⟨it, _, he⟩ := Except.bind_eq_ok.mp he
    obtain ⟨es, _, he⟩ := Except.bind_eq_ok.mp he
    obtain ⟨it', _, he⟩ := Except.bind_eq_ok.mp he
    exact (isElt_readResult he).trans rfl
  | seq items =>
    obtain ⟨ns, -, rfl⟩ := written_seq.mp hn
    rw [readTree] at he
    obtain ⟨res, _, he⟩ := Except.bind_eq_ok.mp he
    obtain ⟨it, _, he⟩ := Except.bind_eq_ok.mp he
    obtain ⟨es, _, he⟩ := Except.bind_eq_ok.mp he
    obtain ⟨it', _, he⟩ := Except.bind_eq_ok.mp he
    exact (isElt_readResult he).trans rfl
  | int text =>
    have hn : nodeTree (writeTree host 0) (.int text) (.forever (.ok .passThrough)) = .ok n := hn
    rw [nodeTree] at hn
    split at hn
    · cases hn
      exact (isElt_readResult he).trans rfl
    · cases hn
  | string text =>
    cases hn
    exact (isElt_readResult he).trans rfl
  | bytes hex =>
    have hn : nodeTree (writeTree host 0) (.bytes hex) (.forever (.ok .passThrough)) = .ok n := hn
    obtain ⟨bytes, -, hn⟩ := Except.bind_eq_ok.mp hn
    cases hn
    exact (isElt_readResult he).trans rfl

/-- What is read of a leaf at its type is also read without one. -/
theorem passes_leaf {p : String} (hp : p ∉ compositeTypes) {args : Option (List Expr)}
    {annots : Option (List JSString)} {n : Node} {e : Expr}
    (h : readTree host n (.typed (.prim p args annots)) = .ok e) :
    ∃ e, readTree host n .passThrough = .ok e := by
  simp only [compositeTypes, List.mem_cons, List.not_mem_nil, or_false, not_or] at hp
  obtain ⟨h1, h2, h3, h4, h5, h6⟩ := hp
  obtain ⟨-, htext⟩ | ⟨hp, hother⟩ := readResult_cases host p args annots
  · cases n with
    | seq ns =>
      rw [readTree] at h
      obtain ⟨res, hres, h⟩ := Except.bind_eq_ok.mp h
      exact passes_seq.mpr ⟨res, hres⟩
    | prim code ns words =>
      rw [readTree] at h
      cases hname : primitives[code.toNat]? with
      | none =>
        rw [hname] at h
        cases h
      | some q =>
        rw [hname] at h
        obtain ⟨res, _, h⟩ := Except.bind_eq_ok.mp h
        obtain ⟨it, _, h⟩ := Except.bind_eq_ok.mp h
        obtain ⟨es, _, h⟩ := Except.bind_eq_ok.mp h
        obtain ⟨it', _, h⟩ := Except.bind_eq_ok.mp h
        cases (htext _ _ h).1
    | _ => exact ⟨_, rfl⟩
  · have hsupply (d : Expr) : readSupply (.typed (.prim p args annots)) d =
        readSupply .passThrough d := by
      show readTypedSupply (.prim p args annots) d = passThroughSupply d
      unfold readTypedSupply
      dsimp only
      rw [if_neg h1, if_neg h2, if_neg h3, if_neg (not_or.mpr ⟨h4, h5⟩), if_neg h6, hp,
        if_neg Bool.false_ne_true]
    have hresult (d : Expr) : readResult host (.typed (.prim p args annots)) d =
      readResult host .passThrough d := hother d
    have hread : readTree host n (.typed (.prim p args annots)) = readTree host n .passThrough := by
      cases n <;> simp only [readTree, hsupply, hresult]
    exact ⟨e, hread ▸ h⟩

/-! ## Acceptance -/

/-- The node is accepted: as data, or as an entry of a map. -/
def AcceptedAs (tf : Transform) (e : Expr) : Prop :=
  match tf with
  | .elt _ => dataEntry assertMichelsonData e = .ok ()
  | _ => assertMichelsonData e = .ok ()

theorem dataEntry_of_depth {x : Expr} {k : ℕ} (h : x.depth ≤ k) :
    dataEntry (assertData k) x = dataEntry assertMichelsonData x := by
  have hall : SameBelow (assertInstruction k) assertMichelsonInstruction (assertData k)
      assertMichelsonData (assertContract k) (fun e => assertContract e.depth e)
      (assertTypeCheck k) (fun c e => assertTypeCheck e.depth c e) (k + 1) := fun e he => by
    have hle : e.depth ≤ k := Nat.le_of_lt_succ he
    have hsame := sameChecks_of_depth hle (le_refl e.depth)
    exact ⟨hsame.instruction, hsame.data, hsame.contract, hsame.type⟩
  exact dataEntry_congr hall (Nat.lt_succ_of_le h)

theorem isData_seq {es : List Expr} : assertMichelsonData (.seq es) = .ok () ↔
    (∀ x ∈ es, dataEntry assertMichelsonData x = .ok ()) ∧
      (es.any isElt = true → es.all isElt = true) := by
  have hdef : assertMichelsonData (.seq es) = (do
      forEach (dataEntry (assertData (Expr.depths es))) es
      if es.any isElt && !es.all isElt then
        invalid (.seq es) (js "data entries and map elements can't be intermixed")) := rfl
  have hentries : forEach (dataEntry (assertData (Expr.depths es))) es =
      forEach (dataEntry assertMichelsonData) es :=
    forEach_congr fun x hx => dataEntry_of_depth (Expr.depth_le_depths hx)
  rw [hdef, hentries, ← forEach_eq_ok]
  cases forEach (dataEntry assertMichelsonData) es with
  | error err => exact ⟨fun h => (by cases h), fun h => (by cases h.1)⟩
  | ok u =>
    rw [Except.ok_bind]
    cases es.any isElt <;> cases es.all isElt <;> simp [invalid]

theorem isData_prim {p : String} {args : Option (List Expr)} {annots : Option (List JSString)} :
    assertMichelsonData (.prim p args annots) =
      dataPrim assertMichelsonInstruction assertMichelsonData (fun e => assertContract e.depth e)
        (fun c e => assertTypeCheck e.depth c e) (.prim p args annots) p args := by
  have hargs : ∀ a ∈ args.getD [], a.depth < Expr.depths (args.getD []) + 1 := fun a ha =>
    Nat.lt_succ_of_le (Expr.depth_le_depths ha)
  rw [assertMichelsonData, Expr.depth_prim, assertData]
  exact dataPrim_congr (fun e he => by
    have hle : e.depth ≤ Expr.depths (args.getD []) := Nat.le_of_lt_succ he
    have hsame := sameChecks_of_depth hle (le_refl e.depth)
    exact ⟨hsame.instruction, hsame.data, hsame.contract, hsame.type⟩) hargs

/-- An entry that is no map element is data. -/
theorem dataEntry_of_notElt {x : Expr} (h : isElt x = false) :
    dataEntry assertMichelsonData x = assertMichelsonData x := by
  cases x with
  | prim p args annots =>
    have hp : p ≠ "Elt" := by
      rintro rfl
      cases h
    exact if_neg hp
  | _ => rfl

/-! ## Nodes with children -/

/-- A sequence, or a primitive other than `PUSH`. -/
inductive Branch : Expr → Prop where
  | seq (items : List Expr) : Branch (.seq items)
  | prim {p : String} {code : ℕ} (args : Option (List Expr)) (annots : Option (List JSString))
      (notPush : p ≠ "PUSH") (code : primTags p = some code) : Branch (.prim p args annots)

/-- The node of a branch, from the nodes of its children. -/
def nodeWith (d : Expr) (ns : List Node) : Node :=
  match d with
  | .prim p _ annots => .prim (UInt8.ofNat ((primTags p).getD 0)) ns (annotBytes annots)
  | _ => .seq ns

/-- The branch as it is read, from what its children are read as. -/
def exprWith (d : Expr) (es : List Expr) : Expr :=
  match d with
  | .prim p _ annots => .prim p (argsField es.length es) (annotWords (annotBytes annots))
  | _ => .seq es

/-- Expressions that differ only in their children and annotations. -/
def SameHead : Expr → Expr → Prop
  | .seq _, .seq _ => True
  | .prim p _ _, .prim q _ _ => p = q
  | _, _ => False

theorem sameHead_exprWith {d : Expr} (hd : Branch d) (es : List Expr) :
    SameHead d (exprWith d es) := by
  cases hd with
  | seq items => trivial
  | prim args annots hp hcode => rfl

@[simp] theorem children_exprWith {d : Expr} (hd : Branch d) (es : List Expr) :
    (exprWith d es).children = es := by
  cases hd with
  | seq items => rfl
  | prim args annots hp hcode =>
    cases es with
    | nil => rfl
    | cons e es => rfl

theorem written_branch {d : Expr} (hd : Branch d) {n : Node} : Written host d n ↔
    ∃ ns, List.Forall₂ (Written host) d.children ns ∧ n = nodeWith d ns := by
  cases hd with
  | seq items => exact written_seq
  | @prim p code args annots hp hcode =>
    rw [written_prim hp]
    constructor
    · rintro ⟨code', ns, hcode', hns, rfl⟩
      refine ⟨ns, hns, ?_⟩
      rw [nodeWith, hcode']
      rfl
    · rintro ⟨ns, hns, rfl⟩
      refine ⟨code, ns, hcode, hns, ?_⟩
      rw [nodeWith, hcode]
      rfl

theorem length_readTrees {ns : List Node} {s : Supply} {es : List Expr}
    (h : readTrees host ns s = .ok es) : es.length = ns.length := by
  induction ns generalizing s es with
  | nil =>
    cases h
    rfl
  | cons n ns ih =>
    obtain ⟨tf, s', e, es', -, -, hes, rfl⟩ := readTrees_cons_eq_ok.mp h
    rw [List.length_cons, List.length_cons, ih hes]

/-- A branch whose transform only asks for its head. -/
theorem readTree_branch {d : Expr} (hd : Branch d) {tf : Transform} {it : Supply}
    (hsupply : ∀ d', SameHead d d' → readSupply tf d' = .ok it)
    (hresult : ∀ d', SameHead d d' → readResult host tf d' = .ok d') {ns : List Node} {e : Expr} :
    readTree host (nodeWith d ns) tf = .ok e ↔
      PassesAll host ns ∧ ∃ es, readTrees host ns it = .ok es ∧ e = exprWith d es := by
  cases hd with
  | seq items => exact readTree_seq (fun es => hsupply _ trivial) fun es => hresult _ trivial
  | @prim p code args annots hp hcode =>
    rw [nodeWith, hcode]
    refine (readTree_prim hcode (fun es => hsupply _ rfl) fun args words => hresult _ rfl).trans ?_
    refine and_congr_right fun _ => exists_congr fun es => and_congr_right fun hes => ?_
    rw [exprWith, length_readTrees hes]

theorem passes_branch {d : Expr} (hd : Branch d) {ns : List Node} :
    (∃ e, readTree host (nodeWith d ns) .passThrough = .ok e) ↔ PassesAll host ns := by
  cases hd with
  | seq items => exact passes_seq
  | @prim p code args annots hp hcode =>
    rw [nodeWith, hcode]
    exact passes_prim hp hcode

/-- A branch with transforms for two children is read if it has two. -/
theorem readTree_two {d a b : Expr} (hd : Branch d) {tf : Transform}
    (hsupply : ∀ d', SameHead d d' →
      readSupply tf d' = .ok (.list [.ok (.typed a), .ok (.typed b)]))
    (hresult : ∀ d', SameHead d d' → readResult host tf d' = .ok d') {ns : List Node}
    (hlen : 2 ≤ ns.length) {e : Expr} :
    readTree host (nodeWith d ns) tf = .ok e ↔ ∃ n m ex ey, ns = [n, m] ∧
      PassesAll host ns ∧ readTree host n (.typed a) = .ok ex ∧
      readTree host m (.typed b) = .ok ey ∧ e = exprWith d [ex, ey] := by
  rw [readTree_branch hd hsupply hresult]
  constructor
  · rintro ⟨hpass, es, hes, rfl⟩
    match ns with
    | [] | [_] =>
      exact absurd hlen (by simp)
    | [n, m] =>
      obtain ⟨tf, s, ex, es', hnext, hex, hes, rfl⟩ := readTrees_cons_eq_ok.mp hes
      cases hnext
      obtain ⟨tf, s, ey, es', hnext, hey, hes, rfl⟩ := readTrees_cons_eq_ok.mp hes
      cases hnext
      cases hes
      exact ⟨n, m, ex, ey, rfl, hpass, hex, hey, rfl⟩
    | n :: m :: k :: ns =>
      -- there is no transform for the third member
      obtain ⟨tf, s, ex, es', hnext, hex, hes, rfl⟩ := readTrees_cons_eq_ok.mp hes
      cases hnext
      obtain ⟨tf, s, ey, es', hnext, hey, hes, rfl⟩ := readTrees_cons_eq_ok.mp hes
      cases hnext
      obtain ⟨tf, s, ez, es', hnext, -⟩ := readTrees_cons_eq_ok.mp hes
      cases hnext
  · rintro ⟨n, m, ex, ey, rfl, hpass, hex, hey, rfl⟩
    refine ⟨hpass, [ex, ey], readTrees_cons_eq_ok.mpr ⟨_, _, ex, [ey], rfl, hex, ?_, rfl⟩, rfl⟩
    exact readTrees_cons_eq_ok.mpr ⟨_, _, ey, [], rfl, hey, rfl, rfl⟩

/-! ## Combs -/

theorem branch_of_isComb {d : Expr} (h : isComb "Pair" d = true) : Branch d := by
  cases d with
  | seq items => exact .seq items
  | prim p args annots =>
    obtain rfl : p = "Pair" := by simpa [isComb] using h
    exact .prim args annots (by decide) (show primTags "Pair" = some 7 by decide)
  | _ => cases h

theorem isComb_of_sameHead {id : String} {d d' : Expr} (h : SameHead d d') :
    isComb id d' = isComb id d := by
  cases d with
  | seq items =>
    cases d' with
    | seq items' => rfl
    | _ => cases h
  | prim p args annots =>
    cases d' with
    | prim q args' annots' =>
      obtain rfl : p = q := h
      rfl
    | _ => cases h
  | _ => cases h

theorem isComb_of_components {id : String} {d : Expr} {c : Expr × Expr}
    (h : components id d = some c) : isComb id d = true := by
  rw [components] at h
  by_contra hc
  rw [if_neg hc] at h
  cases h

/-- The transforms of the two components of a pair type. -/
theorem readSupply_pair {t a b d : Expr} (ht : components "pair" t = some (a, b))
    (hd : isComb "Pair" d = true) :
    readSupply (.typed t) d = .ok (.list [.ok (.typed a), .ok (.typed b)]) := by
  have hdata : isPairData d = true := by
    cases d with
    | prim p args annots => exact hd
    | seq items => rfl
    | _ => cases hd
  have hcomb := isComb_of_components ht
  rw [components, if_pos hcomb] at ht
  have hpair : readTypedSupply t d = readPairSupply t d := by
    cases t with
    | seq items => rfl
    | prim p args annots =>
      obtain rfl : p = "pair" := by simpa [isComb] using hcomb
      unfold readTypedSupply
      exact if_pos rfl
    | _ => cases hcomb
  have hargs : combArgs t = .ok t.children := by
    cases t with
    | seq items => rfl
    | prim p args annots =>
      cases args with
      | none => cases ht
      | some args => rfl
    | _ => cases hcomb
  have hsplit : splitComb "pair" t.children = [some a, some b] := by
    match hc : t.children with
    | [] | [_] =>
      rw [hc] at ht
      cases ht
    | [_, _] | _ :: _ :: _ :: _ =>
      rw [hc] at ht
      cases ht
      rfl
  have hfst := unpackComb_fst "pair" t
  rw [hargs] at hfst
  obtain ⟨⟨tc, words⟩, htc, heq⟩ := Except.map_eq_ok.mp hfst
  have heq : tc = [some a, some b] := heq.trans hsplit
  rw [readSupply, hpair, readPairSupply, hdata, htc, heq]
  rfl

theorem readResult_pair {t d : Expr} (ht : isComb "pair" t = true) :
    readResult host (.typed t) d = .ok d := by
  cases t with
  | prim p args annots =>
    obtain rfl : p = "pair" := by simpa [isComb] using ht
    rfl
  | _ => rfl

/-- A comb at a pair type is read if it has two members. -/
theorem readTree_pair {t a b d : Expr} (ht : components "pair" t = some (a, b))
    (hd : isComb "Pair" d = true) {ns : List Node} (hlen : 2 ≤ ns.length) {e : Expr} :
    readTree host (nodeWith d ns) (.typed t) = .ok e ↔ ∃ n m ex ey, ns = [n, m] ∧
      PassesAll host ns ∧ readTree host n (.typed a) = .ok ex ∧
      readTree host m (.typed b) = .ok ey ∧ e = exprWith d [ex, ey] :=
  readTree_two (branch_of_isComb hd) (fun _ h => readSupply_pair ht
    ((isComb_of_sameHead h).trans hd)) (fun _ _ => readResult_pair (isComb_of_components ht)) hlen

/-- The members of a comb are data. -/
theorem isData_comb {d : Expr} (hd : isComb "Pair" d = true) {ex ey : Expr}
    (hx : isElt ex = false) (hy : isElt ey = false) :
    assertMichelsonData (exprWith d [ex, ey]) = .ok () ↔
      assertMichelsonData ex = .ok () ∧ assertMichelsonData ey = .ok () := by
  cases d with
  | seq items =>
    show assertMichelsonData (.seq [ex, ey]) = .ok () ↔ _
    rw [isData_seq, List.forall_mem_cons, List.forall_mem_singleton, dataEntry_of_notElt hx,
      dataEntry_of_notElt hy]
    simp [hx, hy]
  | prim p args annots =>
    obtain rfl : p = "Pair" := by simpa [isComb] using hd
    have hargs : argsField [ex, ey].length [ex, ey] = some [ex, ey] := rfl
    rw [exprWith, isData_prim, hargs, dataPrim, if_neg (by decide), if_pos rfl, Option.getD_some,
      if_neg (by simp), forEach_eq_ok, List.forall_mem_cons, List.forall_mem_singleton]
  | _ => cases hd

theorem twoMembers_exprWith {d : Expr} (hd : isComb "Pair" d = true) (ex ey : Expr) :
    twoMembers "Pair" (exprWith d [ex, ey]) = some (ex, ey) := by
  have hbranch := branch_of_isComb hd
  rw [twoMembers, isComb_of_sameHead (sameHead_exprWith hbranch _), if_pos hd,
    children_exprWith hbranch]

/-! ## One argument -/

/-- A primitive with one argument and one transform for it. -/
theorem readTree_one {p q : String} {x a : Expr} {targs : Option (List Expr)}
    {annots tannots : Option (List JSString)} {n : Node} {e : Expr} {code : ℕ} (hq : q ≠ "PUSH")
    (hcode : primTags q = some code)
    (hsupply : ∀ args annots', readSupply (.typed (.prim p targs tannots)) (.prim q args annots') =
      .ok (.list [.ok (.typed a)]))
    (hresult : ∀ d, readResult host (.typed (.prim p targs tannots)) d = .ok d) :
    readTree host (nodeWith (.prim q (some [x]) annots) [n]) (.typed (.prim p targs tannots)) =
        .ok e ↔ (∃ e, readTree host n .passThrough = .ok e) ∧ ∃ ex,
          readTree host n (.typed a) = .ok ex ∧ e = exprWith (.prim q (some [x]) annots) [ex] := by
  have hs (d' : Expr) (h : SameHead (.prim q (some [x]) annots) d') :
      readSupply (.typed (.prim p targs tannots)) d' = .ok (.list [.ok (.typed a)]) := by
    cases d' with
    | prim q' args annots' =>
      obtain rfl : q = q' := h
      exact hsupply _ _
    | _ => cases h
  rw [readTree_branch (.prim (some [x]) annots hq hcode) hs fun d' _ => hresult d', passesAll_cons]
  constructor
  · rintro ⟨⟨hpass, -⟩, es, hes, rfl⟩
    obtain ⟨tf, s, ex, es', hnext, hex, hes, rfl⟩ := readTrees_cons_eq_ok.mp hes
    cases hnext
    cases hes
    exact ⟨hpass, ex, hex, rfl⟩
  · rintro ⟨hpass, ex, hex, rfl⟩
    exact ⟨⟨hpass, passesAll_nil⟩, [ex],
      readTrees_cons_eq_ok.mpr ⟨_, _, ex, [], rfl, hex, rfl, rfl⟩, rfl⟩

/-- The constructors with one argument, and its type. -/
inductive Contains : Expr → String → Expr → Prop where
  | left (a b : Expr) (annots : Option (List JSString)) :
      Contains (.prim "or" (some [a, b]) annots) "Left" a
  | right (a b : Expr) (annots : Option (List JSString)) :
      Contains (.prim "or" (some [a, b]) annots) "Right" b
  | content (a : Expr) (annots : Option (List JSString)) :
      Contains (.prim "option" (some [a]) annots) "Some" a

section

variable {t a x : Expr} {q : String} {annots : Option (List JSString)}

theorem Contains.branch (h : Contains t q a) : Branch (.prim q (some [x]) annots) := by
  cases h with
  | left => exact .prim _ _ (by decide) (show primTags "Left" = some 5 by decide)
  | right => exact .prim _ _ (by decide) (show primTags "Right" = some 8 by decide)
  | content => exact .prim _ _ (by decide) (show primTags "Some" = some 9 by decide)

/-- A constructor with one argument is read if its argument is read at its type. -/
theorem readTree_contains (h : Contains t q a) {n : Node} {e : Expr} :
    readTree host (nodeWith (.prim q (some [x]) annots) [n]) (.typed t) = .ok e ↔
      (∃ e, readTree host n .passThrough = .ok e) ∧ ∃ ex, readTree host n (.typed a) = .ok ex ∧
        e = exprWith (.prim q (some [x]) annots) [ex] := by
  cases h with
  | left =>
    have hcode : primTags "Left" = some 5 := by decide
    exact readTree_one (by decide) hcode (fun _ _ => rfl) fun _ => rfl
  | right =>
    have hcode : primTags "Right" = some 8 := by decide
    exact readTree_one (by decide) hcode (fun _ _ => rfl) fun _ => rfl
  | content =>
    have hcode : primTags "Some" = some 9 := by decide
    exact readTree_one (by decide) hcode (fun _ _ => rfl) fun _ => rfl

theorem isData_contains (h : Contains t q a) (ex : Expr) :
    assertMichelsonData (exprWith (.prim q (some [x]) annots) [ex]) = assertMichelsonData ex := by
  have hargs : argsField [ex].length [ex] = some [ex] := rfl
  rw [exprWith, isData_prim, hargs]
  cases h <;> rfl

end

/-! ## Collections -/

theorem readTree_nil {p : String} (hp : p ∈ ["list", "set", "map"]) {args : Option (List Expr)}
    {annots : Option (List JSString)} :
    readTree host (.seq []) (.typed (.prim p args annots)) = .ok (.seq []) := by
  simp only [List.mem_cons, List.not_mem_nil, or_false] at hp
  obtain rfl | rfl | rfl := hp <;> rfl

/-- The types of collections, the transform of their items, and whether these are map elements. -/
inductive Collects : Expr → Transform → Bool → Prop where
  | items {p : String} (collection : p ∈ ["list", "set"]) (a : Expr)
      (annots : Option (List JSString)) : Collects (.prim p (some [a]) annots) (.typed a) false
  | entries (args : Option (List Expr)) (annots : Option (List JSString)) :
      Collects (.prim "map" args annots) (.elt (.prim "map" args annots)) true

section

variable {t : Expr} {item : Transform} {b : Bool}

theorem Collects.supply (h : Collects t item b) (es : List Expr) :
    readSupply (.typed t) (.seq es) = .ok (.forever (.ok item)) := by
  cases h with
  | @items p hp a annots =>
    simp only [List.mem_cons, List.not_mem_nil, or_false] at hp
    obtain rfl | rfl := hp <;> rfl
  | entries => rfl

theorem Collects.result (h : Collects t item b) (d : Expr) : readResult host (.typed t) d = .ok d := by
  cases h with
  | @items p hp a annots =>
    simp only [List.mem_cons, List.not_mem_nil, or_false] at hp
    obtain rfl | rfl := hp <;> rfl
  | entries => rfl

/-- The items of the kind are accepted as entries. -/
theorem Collects.accepted (h : Collects t item b) {x : Expr} (hx : isElt x = b) :
    AcceptedAs item x ↔ dataEntry assertMichelsonData x = .ok () := by
  cases h with
  | items =>
    rw [dataEntry_of_notElt hx]
    exact Iff.rfl
  | entries => exact Iff.rfl

end

/-- The members of a collection, one after the other. -/
theorem readTree_collection {t : Expr} {item : Transform} {b : Bool} (h : Collects t item b)
    {n : Node} {ns : List Node} {e : Expr} :
    readTree host (.seq (n :: ns)) (.typed t) = .ok e ↔
      (∃ e, readTree host n .passThrough = .ok e) ∧ ∃ ex es, readTree host n item = .ok ex ∧
        readTree host (.seq ns) (.typed t) = .ok (.seq es) ∧ e = .seq (ex :: es) := by
  simp only [readTree_seq h.supply fun es => h.result (.seq es), passesAll_cons]
  constructor
  · rintro ⟨⟨hn, hpass⟩, es, hes, rfl⟩
    obtain ⟨tf, s, ex, es', hnext, hex, hes, rfl⟩ := readTrees_cons_eq_ok.mp hes
    cases hnext
    exact ⟨hn, ex, es', hex, ⟨hpass, es', hes, rfl⟩, rfl⟩
  · rintro ⟨hn, ex, es, hex, ⟨hpass, es', hes, heq⟩, rfl⟩
    cases heq
    exact ⟨⟨hn, hpass⟩, ex :: es, readTrees_cons_eq_ok.mpr ⟨_, _, ex, es, rfl, hex, hes, rfl⟩, rfl⟩

/-- A map element is read if its key and its value are. -/
theorem readTree_elt {a b x y : Expr} {annots annots' : Option (List JSString)} {ns : List Node}
    (hlen : 2 ≤ ns.length) {e : Expr} :
    readTree host (nodeWith (.prim "Elt" (some [x, y]) annots') ns)
        (.elt (.prim "map" (some [a, b]) annots)) = .ok e ↔ ∃ n m ex ey, ns = [n, m] ∧
      PassesAll host ns ∧ readTree host n (.typed a) = .ok ex ∧
      readTree host m (.typed b) = .ok ey ∧
      e = exprWith (.prim "Elt" (some [x, y]) annots') [ex, ey] := by
  have hcode : primTags "Elt" = some 4 := by decide
  refine readTree_two (.prim _ _ (by decide) hcode) (fun d' h => ?_) (fun d' _ => rfl) hlen
  cases d' with
  | prim q args annots' =>
    obtain rfl : "Elt" = q := h
    rfl
  | _ => cases h

/-- The key and the value of a map element are data. -/
theorem accepted_elt {t x y : Expr} {annots : Option (List JSString)} {ex ey : Expr} :
    AcceptedAs (.elt t) (exprWith (.prim "Elt" (some [x, y]) annots) [ex, ey]) ↔
      assertMichelsonData ex = .ok () ∧ assertMichelsonData ey = .ok () := by
  show (do assertMichelsonData ex; assertMichelsonData ey) = .ok () ↔ _
  cases assertMichelsonData ex with
  | error err => exact ⟨fun h => (by cases h), fun h => (by cases h.1)⟩
  | ok u => exact ⟨fun h => ⟨rfl, h⟩, fun h => h.2⟩

/-- The rest of accepted data is accepted. -/
theorem isData_cons {x : Expr} {es : List Expr} (h : assertMichelsonData (.seq (x :: es)) = .ok ()) :
    dataEntry assertMichelsonData x = .ok () ∧ assertMichelsonData (.seq es) = .ok () := by
  rw [isData_seq, List.forall_mem_cons] at h
  obtain ⟨⟨hx, hes⟩, hkind⟩ := h
  refine ⟨hx, isData_seq.mpr ⟨hes, fun hany => ?_⟩⟩
  have hall := hkind (by rw [List.any_cons, hany, Bool.or_true])
  rw [List.all_cons, Bool.and_eq_true] at hall
  exact hall.2

/-- Entries of one kind are data. -/
theorem isData_of_kind {b : Bool} {x : Expr} {es : List Expr} (hx : isElt x = b)
    (hkind : ∀ y ∈ es, isElt y = b) (hdata : dataEntry assertMichelsonData x = .ok ())
    (hes : assertMichelsonData (.seq es) = .ok ()) :
    assertMichelsonData (.seq (x :: es)) = .ok () := by
  have hall : ∀ y ∈ x :: es, isElt y = b := List.forall_mem_cons.mpr ⟨hx, hkind⟩
  refine isData_seq.mpr ⟨List.forall_mem_cons.mpr ⟨hdata, (isData_seq.mp hes).1⟩, fun hany => ?_⟩
  obtain ⟨y, hy, helt⟩ := List.any_eq_true.mp hany
  have hb : b = true := (hall y hy).symm.trans helt
  exact List.all_eq_true.mpr fun z hz => (hall z hz).trans hb

/-! ## The reader -/

section

variable {split : Expr → Option (Expr × Expr)}

/-- Data are no map elements. -/
theorem notElt_of_denotes (hsplit : ∀ d c, split d = some c → isComb "Pair" d = true) {t d : Expr}
    {v : Meaning} (h : Denotes split (.typed t) d v) : isElt d = false := by
  cases h with
  | leaf hleaf helt => exact helt
  | pair htype hdata =>
    have hcomb := hsplit _ _ hdata
    cases d with
    | prim p args annots =>
      obtain rfl : p = "Pair" := by simpa [isComb] using hcomb
      rfl
    | seq items => rfl
    | _ => rfl
  | _ => rfl

/-- The items of a list or a set are no map elements. -/
theorem items_of_denotes (hsplit : ∀ d c, split d = some c → isComb "Pair" d = true) {p : String}
    (hp : p ∈ ["list", "set"]) {args : Option (List Expr)} {annots : Option (List JSString)}
    {xs : List Expr} {v : Meaning} (h : Denotes split (.typed (.prim p args annots)) (.seq xs) v) :
    ∀ x ∈ xs, isElt x = false := by
  simp only [List.mem_cons, List.not_mem_nil, or_false] at hp
  induction xs generalizing v with
  | nil => exact List.forall_mem_nil _
  | cons x xs ih =>
    cases h with
    | leaf hleaf => obtain rfl | rfl := hp <;> exact absurd (by decide) hleaf
    | pair htype => obtain rfl | rfl := hp <;> cases isComb_of_components htype
    | item _ head tail => exact List.forall_mem_cons.mpr ⟨notElt_of_denotes hsplit head, ih tail⟩
    | entry => obtain hp | hp := hp <;> exact absurd hp (by decide)

/-- The items of a map are map elements. -/
theorem entries_of_denotes {p : String} (hp : p = "map") {args : Option (List Expr)}
    {annots : Option (List JSString)} {xs : List Expr} {v : Meaning}
    (h : Denotes split (.typed (.prim p args annots)) (.seq xs) v) : ∀ x ∈ xs, isElt x = true := by
  induction xs generalizing v with
  | nil => exact List.forall_mem_nil _
  | cons x xs ih =>
    cases h with
    | leaf hleaf =>
      rw [hp] at hleaf
      exact absurd (by decide) hleaf
    | pair htype =>
      rw [hp] at htype
      cases isComb_of_components htype
    | item hcollection =>
      rw [hp] at hcollection
      exact absurd hcollection (by decide)
    | entry head tail =>
      refine List.forall_mem_cons.mpr ⟨?_, ih tail⟩
      cases head
      rfl

end

theorem isComb_of_twoMembers {id : String} {d : Expr} {c : Expr × Expr}
    (h : twoMembers id d = some c) : isComb id d = true :=
  isComb_of_components (components_of_twoMembers h)

theorem twoMembers_eq_some {id : String} {d x y : Expr} :
    twoMembers id d = some (x, y) ↔ isComb id d = true ∧ d.children = [x, y] := by
  rw [twoMembers]
  by_cases hd : isComb id d = true
  · rw [if_pos hd]
    match d.children with
    | [] | [_] | _ :: _ :: _ :: _ => simp
    | [a, b] => simp [hd]
  · rw [if_neg hd]
    simp [hd]

theorem two_le_of_components {id : String} {d : Expr} {c : Expr × Expr}
    (h : components id d = some c) : 2 ≤ d.children.length := by
  rw [components, if_pos (isComb_of_components h)] at h
  match hc : d.children with
  | [] | [_] =>
    rw [hc] at h
    cases h
  | _ :: _ :: _ => simp

theorem forall₂_pair {α β : Type} {R : α → β → Prop} {as : List α} {n m : β}
    (h : List.Forall₂ R as [n, m]) : ∃ x y, as = [x, y] ∧ R x n ∧ R y m := by
  obtain ⟨x, l, hx, hl, rfl⟩ := List.forall₂_cons_right_iff.mp h
  obtain ⟨y, l', hy, hl', rfl⟩ := List.forall₂_cons_right_iff.mp hl
  obtain rfl := List.forall₂_nil_right_iff.mp hl'
  exact ⟨x, y, rfl, hx, hy⟩

theorem forall₂_singleton {α β : Type} {R : α → β → Prop} {a : α} {bs : List β}
    (h : List.Forall₂ R [a] bs) : ∃ b, R a b ∧ bs = [b] := by
  obtain ⟨b, l, hb, hl, rfl⟩ := List.forall₂_cons_left_iff.mp h
  obtain rfl := List.forall₂_nil_left_iff.mp hl
  exact ⟨b, hb, rfl⟩

theorem isComb_of_split (d : Expr) (c : Expr × Expr) (h : twoMembers "Pair" d = some c) :
    isComb "Pair" d = true := isComb_of_twoMembers h

theorem leafRead_eq_some {t d e : Expr} : leafRead host t d = some e ↔ ∃ n, Written host d n ∧
    readTree host n (.typed t) = .ok e ∧ assertMichelsonData e = .ok () := by
  simp only [leafRead, Written]
  cases writeTree host d.weight .passThrough d with
  | error err => simp [Except.toOption, bind, Except.bind]
  | ok n =>
    rw [Except.ok_bind]
    cases hread : readTree host n (.typed t) with
    | error err => simp [Except.toOption, bind, Except.bind, hread]
    | ok e' =>
      rw [Except.ok_bind]
      cases hdata : assertMichelsonData e' with
      | error err =>
        constructor
        · intro h
          cases h
        · rintro ⟨n', hn, he, hok⟩
          cases hn
          rw [hread] at he
          cases he
          rw [hdata] at hok
          cases hok
      | ok u =>
        constructor
        · intro h
          cases h
          exact ⟨n, rfl, hread, hdata⟩
        · rintro ⟨n', hn, he, hok⟩
          cases hn
          rw [hread] at he
          cases he
          rfl

/-- The argument of a constructor is read at its type. -/
theorem argument_of_readTree {t a x : Expr} {q : String} {annots : Option (List JSString)}
    (hc : Contains t q a) {n₀ : Node} {e : Expr} (hw : Written host (.prim q (some [x]) annots) n₀)
    (he : readTree host n₀ (.typed t) = .ok e) (hok : assertMichelsonData e = .ok ()) :
    ∃ n ex, Written host x n ∧ readTree host n (.typed a) = .ok ex ∧
      assertMichelsonData ex = .ok () ∧ e = exprWith (.prim q (some [x]) annots) [ex] := by
  obtain ⟨ns, hns, rfl⟩ := (written_branch hc.branch).mp hw
  obtain ⟨n, hn, rfl⟩ := forall₂_singleton hns
  obtain ⟨-, ex, hex, rfl⟩ := (readTree_contains hc).mp he
  exact ⟨n, ex, hn, hex, (isData_contains hc ex).symm.trans hok, rfl⟩

/-- **What is read was written with two members in each pair, and is read leaf by leaf.** -/
theorem denotes_of_readTree {tf : Transform} {d : Expr} {v : Meaning}
    (hd : Denotes (components "Pair") tf d v) : ∀ {n : Node} {e : Expr}, Written host d n →
      readTree host n tf = .ok e → AcceptedAs tf e → Denotes (twoMembers "Pair") tf d v ∧
        ∃ w, v.read host = some w ∧ Denotes (twoMembers "Pair") tf e w := by
  have hcombs (d : Expr) (c : Expr × Expr) : components "Pair" d = some c → isComb "Pair" d = true :=
    isComb_of_components
  induction hd with
  | @leaf p args annots d hleaf helt =>
    intro n₀ e hw he hok
    have hread := leafRead_eq_some.mpr ⟨n₀, hw, he, hok⟩
    refine ⟨.leaf hleaf helt, .leaf _ e, ?_, .leaf hleaf ((isElt_readTree hw he).trans helt)⟩
    rw [Meaning.read, hread]
    rfl
  | @pair t a b d x y v w htype hdata hx hy ihx ihy =>
    intro n₀ e hw he hok
    have hcomb := isComb_of_components hdata
    obtain ⟨ns, hns, rfl⟩ := (written_branch (branch_of_isComb hcomb)).mp hw
    have hlen : 2 ≤ ns.length := hns.length_eq ▸ two_le_of_components hdata
    obtain ⟨n, m, ex, ey, rfl, -, hex, hey, rfl⟩ := (readTree_pair htype hcomb hlen).mp he
    -- so the data have two members, and these are the components
    obtain ⟨x', y', hchildren, hn, hm⟩ := forall₂_pair hns
    have htwo := twoMembers_eq_some.mpr ⟨hcomb, hchildren⟩
    obtain ⟨rfl, rfl⟩ : x' = x ∧ y' = y := by
      simpa using (components_of_twoMembers htwo).symm.trans hdata
    have heltx := (isElt_readTree hn hex).trans (notElt_of_denotes hcombs hx)
    have helty := (isElt_readTree hm hey).trans (notElt_of_denotes hcombs hy)
    obtain ⟨hokx, hoky⟩ := (isData_comb hcomb heltx helty).mp hok
    obtain ⟨hdx, vx, hvx, hex⟩ := ihx hn hex hokx
    obtain ⟨hdy, vy, hvy, hey⟩ := ihy hm hey hoky
    refine ⟨.pair htype htwo hdx hdy, .pair vx vy, ?_,
      .pair htype (twoMembers_exprWith hcomb ex ey) hex hey⟩
    rw [Meaning.read, hvx, hvy]
    rfl
  | @left a b x annots annots' v hx ih =>
    intro n₀ e hw he hok
    obtain ⟨n, ex, hn, hex, hokx, rfl⟩ := argument_of_readTree (.left a b annots) hw he hok
    obtain ⟨hdx, vx, hvx, hex⟩ := ih hn hex hokx
    refine ⟨.left hdx, .left vx, ?_, .left hex⟩
    rw [Meaning.read, hvx]
    rfl
  | @right a b x annots annots' v hx ih =>
    intro n₀ e hw he hok
    obtain ⟨n, ex, hn, hex, hokx, rfl⟩ := argument_of_readTree (.right a b annots) hw he hok
    obtain ⟨hdx, vx, hvx, hex⟩ := ih hn hex hokx
    refine ⟨.right hdx, .right vx, ?_, .right hex⟩
    rw [Meaning.read, hvx]
    rfl
  | @none a args annots annots' hargs =>
    intro n₀ e hw he hok
    have hbranch : Branch (.prim "None" args annots') :=
      .prim _ _ (by decide) (show primTags "None" = some 6 by decide)
    obtain ⟨ns, hns, rfl⟩ := (written_branch hbranch).mp hw
    rw [Expr.children, hargs] at hns
    obtain rfl := List.forall₂_nil_left_iff.mp hns
    cases he
    exact ⟨.none hargs, .none, by rw [Meaning.read]; rfl, .none rfl⟩
  | @some a x annots annots' v hx ih =>
    intro n₀ e hw he hok
    obtain ⟨n, ex, hn, hex, hokx, rfl⟩ := argument_of_readTree (.content a annots) hw he hok
    obtain ⟨hdx, vx, hvx, hex⟩ := ih hn hex hokx
    refine ⟨.some hdx, .some vx, ?_, .some hex⟩
    rw [Meaning.read, hvx]
    rfl
  | @nil p args annots hp =>
    intro n₀ e hw he hok
    obtain ⟨ns₀, hns, rfl⟩ := written_seq.mp hw
    obtain rfl := List.forall₂_nil_left_iff.mp hns
    rw [readTree_nil hp] at he
    cases he
    exact ⟨.nil hp, .nil, by rw [Meaning.read]; rfl, .nil hp⟩
  | @item p a x annots xs v vs hp hx hxs ihx ihxs =>
    intro n₀ e hw he hok
    obtain ⟨ns₀, hns, rfl⟩ := written_seq.mp hw
    obtain ⟨n, ns, hn, htail, rfl⟩ := List.forall₂_cons_left_iff.mp hns
    have hc := Collects.items hp a annots
    obtain ⟨-, ex, es, hex, hes, rfl⟩ := (readTree_collection hc).mp he
    obtain ⟨hokx, hoks⟩ := isData_cons hok
    have helt := (isElt_readTree hn hex).trans (notElt_of_denotes hcombs hx)
    obtain ⟨hdx, vx, hvx, hex⟩ := ihx hn hex ((hc.accepted helt).mpr hokx)
    obtain ⟨hdxs, vxs, hvxs, hes⟩ := ihxs (written_seq.mpr ⟨ns, htail, rfl⟩) hes hoks
    refine ⟨.item hp hdx hdxs, .cons vx vxs, ?_, .item hp hex hes⟩
    rw [Meaning.read, hvx, hvxs]
    rfl
  | @entry a b x annots xs v vs hx hxs ihx ihxs =>
    intro n₀ e hw he hok
    obtain ⟨ns₀, hns, rfl⟩ := written_seq.mp hw
    obtain ⟨n, ns, hn, htail, rfl⟩ := List.forall₂_cons_left_iff.mp hns
    obtain ⟨-, ex, es, hex, hes, rfl⟩ := (readTree_collection (.entries _ _)).mp he
    obtain ⟨hokx, hoks⟩ := isData_cons hok
    obtain ⟨hdx, vx, hvx, hex⟩ := ihx hn hex hokx
    obtain ⟨hdxs, vxs, hvxs, hes⟩ := ihxs (written_seq.mpr ⟨ns, htail, rfl⟩) hes hoks
    refine ⟨.entry hdx hdxs, .cons vx vxs, ?_, .entry hex hes⟩
    rw [Meaning.read, hvx, hvxs]
    rfl
  | @elt a b x y annots annots' v w hx hy ihx ihy =>
    intro n₀ e hw he hok
    have hbranch : Branch (.prim "Elt" (some [x, y]) annots') :=
      .prim _ _ (by decide) (show primTags "Elt" = some 4 by decide)
    obtain ⟨ns, hns, rfl⟩ := (written_branch hbranch).mp hw
    obtain ⟨n, m, ex, ey, rfl, -, hex, hey, rfl⟩ := (readTree_elt hns.length_eq.le).mp he
    obtain ⟨x', y', hchildren, hn, hm⟩ := forall₂_pair hns
    cases hchildren
    obtain ⟨hokx, hoky⟩ := accepted_elt.mp hok
    obtain ⟨hdx, vx, hvx, hex⟩ := ihx hn hex hokx
    obtain ⟨hdy, vy, hvy, hey⟩ := ihy hm hey hoky
    refine ⟨.elt hdx hdy, .elt vx vy, ?_, .elt hex hey⟩
    rw [Meaning.read, hvx, hvy]
    rfl

/-- The node is written of the data, read at the type and without one, and accepted. -/
def ReadBack (host : Host) (tf : Transform) (d : Expr) : Prop :=
  ∃ n e, Written host d n ∧ readTree host n tf = .ok e ∧
    (∃ e, readTree host n .passThrough = .ok e) ∧ AcceptedAs tf e

theorem readBack_contains {t a x : Expr} {q : String} (hc : Contains t q a)
    (annots : Option (List JSString)) (h : ReadBack host (.typed a) x) :
    ReadBack host (.typed t) (.prim q (some [x]) annots) := by
  obtain ⟨n, ex, hn, hex, hpass, hok⟩ := h
  have hw : Written host (.prim q (some [x]) annots) (nodeWith (.prim q (some [x]) annots) [n]) :=
    (written_branch hc.branch).mpr ⟨[n], .cons hn .nil, rfl⟩
  refine ⟨_, _, hw, (readTree_contains hc).mpr ⟨hpass, ex, hex, rfl⟩, ?_, ?_⟩
  · exact (passes_branch hc.branch).mpr (passesAll_cons.mpr ⟨hpass, passesAll_nil⟩)
  · exact (isData_contains hc ex).trans hok

/-- The children keep their kind. -/
theorem kinds_of_readTrees {b : Bool} {xs : List Expr} {ns : List Node} {s : Supply} {es : List Expr}
    (hns : List.Forall₂ (Written host) xs ns) (hes : readTrees host ns s = .ok es)
    (hkind : ∀ x ∈ xs, isElt x = b) : ∀ e ∈ es, isElt e = b := by
  induction hns generalizing s es with
  | nil =>
    cases hes
    exact List.forall_mem_nil _
  | cons hn _ ih =>
    obtain ⟨tf, s', e, es', -, he, htail, rfl⟩ := readTrees_cons_eq_ok.mp hes
    obtain ⟨hx, hkind⟩ := List.forall_mem_cons.mp hkind
    exact List.forall_mem_cons.mpr ⟨(isElt_readTree hn he).trans hx, ih htail hkind⟩

theorem readBack_cons {t : Expr} {item : Transform} {b : Bool} (hc : Collects t item b) {x : Expr}
    {xs : List Expr} (helt : isElt x = b) (hkind : ∀ y ∈ xs, isElt y = b)
    (hx : ReadBack host item x) (hxs : ReadBack host (.typed t) (.seq xs)) :
    ReadBack host (.typed t) (.seq (x :: xs)) := by
  obtain ⟨n, ex, hn, hex, hpass, hokx⟩ := hx
  obtain ⟨m, es, hm, hread, hpasses, hoks⟩ := hxs
  obtain ⟨ns, hns, rfl⟩ := written_seq.mp hm
  obtain ⟨-, es, hes, rfl⟩ := (readTree_seq hc.supply fun es => hc.result (.seq es)).mp hread
  have hx := (isElt_readTree hn hex).trans helt
  refine ⟨.seq (n :: ns), .seq (ex :: es), written_seq.mpr ⟨n :: ns, .cons hn hns, rfl⟩, ?_, ?_, ?_⟩
  · exact (readTree_collection hc).mpr ⟨hpass, ex, es, hex, hread, rfl⟩
  · exact passes_seq.mpr (passesAll_cons.mpr ⟨hpass, passes_seq.mp hpasses⟩)
  · exact isData_of_kind hx (kinds_of_readTrees hns hes hkind) ((hc.accepted hx).mp hokx) hoks

/-- **Data with two members in each pair are read back if their leaves are.** -/
theorem readBack_of_denotes {tf : Transform} {d : Expr} {v : Meaning}
    (hd : Denotes (twoMembers "Pair") tf d v) : ∀ {w : Meaning}, v.read host = some w →
      ReadBack host tf d := by
  induction hd with
  | leaf hleaf helt =>
    intro w hw
    obtain ⟨e, he, -⟩ := Option.map_eq_some_iff.mp hw
    obtain ⟨n, hn, he, hok⟩ := leafRead_eq_some.mp he
    exact ⟨n, e, hn, he, passes_leaf hleaf he, hok⟩
  | @pair t a b d x y v w htype hdata hx hy ihx ihy =>
    intro z hz
    obtain ⟨vx, hvx, hz⟩ := Option.bind_eq_some_iff.mp hz
    obtain ⟨vy, hvy, -⟩ := Option.bind_eq_some_iff.mp hz
    obtain ⟨n, ex, hn, hex, hpassx, hokx⟩ := ihx hvx
    obtain ⟨m, ey, hm, hey, hpassy, hoky⟩ := ihy hvy
    obtain ⟨hcomb, hchildren⟩ := twoMembers_eq_some.mp hdata
    have hbranch := branch_of_isComb hcomb
    have hpass : PassesAll host [n, m] :=
      passesAll_cons.mpr ⟨hpassx, passesAll_cons.mpr ⟨hpassy, passesAll_nil⟩⟩
    have helt : isElt ex = false ∧ isElt ey = false :=
      ⟨(isElt_readTree hn hex).trans (notElt_of_denotes isComb_of_split hx),
        (isElt_readTree hm hey).trans (notElt_of_denotes isComb_of_split hy)⟩
    refine ⟨nodeWith d [n, m], exprWith d [ex, ey], ?_, ?_, ?_, ?_⟩
    · exact (written_branch hbranch).mpr ⟨[n, m], hchildren ▸ .cons hn (.cons hm .nil), rfl⟩
    · exact (readTree_pair htype hcomb le_rfl).mpr ⟨n, m, ex, ey, rfl, hpass, hex, hey, rfl⟩
    · exact (passes_branch hbranch).mpr hpass
    · exact (isData_comb hcomb helt.1 helt.2).mpr ⟨hokx, hoky⟩
  | left _ ih =>
    intro w hw
    obtain ⟨vx, hvx, -⟩ := Option.bind_eq_some_iff.mp hw
    exact readBack_contains (.left _ _ _) _ (ih hvx)
  | right _ ih =>
    intro w hw
    obtain ⟨vx, hvx, -⟩ := Option.bind_eq_some_iff.mp hw
    exact readBack_contains (.right _ _ _) _ (ih hvx)
  | @none a args annots annots' hargs =>
    intro w hw
    have hbranch : Branch (.prim "None" args annots') :=
      .prim _ _ (by decide) (show primTags "None" = some 6 by decide)
    refine ⟨nodeWith (.prim "None" args annots') [], _, (written_branch hbranch).mpr ⟨[], ?_, rfl⟩,
      rfl, (passes_branch hbranch).mpr passesAll_nil, ?_⟩
    · rw [Expr.children, hargs]
      exact .nil
    · show assertMichelsonData (.prim "None" none _) = .ok ()
      rw [isData_prim]
      rfl
  | some _ ih =>
    intro w hw
    obtain ⟨vx, hvx, -⟩ := Option.bind_eq_some_iff.mp hw
    exact readBack_contains (.content _ _) _ (ih hvx)
  | nil hp =>
    intro w hw
    refine ⟨.seq [], .seq [], written_seq.mpr ⟨[], .nil, rfl⟩, readTree_nil hp,
      passes_seq.mpr passesAll_nil, ?_⟩
    exact isData_seq.mpr ⟨List.forall_mem_nil _, fun _ => rfl⟩
  | @item p a x annots xs v vs hp hx hxs ihx ihxs =>
    intro z hz
    obtain ⟨vx, hvx, hz⟩ := Option.bind_eq_some_iff.mp hz
    obtain ⟨vxs, hvxs, -⟩ := Option.bind_eq_some_iff.mp hz
    have hkind := items_of_denotes isComb_of_split hp hxs
    exact readBack_cons (.items hp a annots) (notElt_of_denotes isComb_of_split hx) hkind (ihx hvx)
      (ihxs hvxs)
  | @entry a b x annots xs v vs hx hxs ihx ihxs =>
    intro z hz
    obtain ⟨vx, hvx, hz⟩ := Option.bind_eq_some_iff.mp hz
    obtain ⟨vxs, hvxs, -⟩ := Option.bind_eq_some_iff.mp hz
    have hkind := entries_of_denotes rfl hxs
    have helt : isElt x = true := by
      cases hx
      rfl
    exact readBack_cons (.entries _ annots) helt hkind (ihx hvx) (ihxs hvxs)
  | @elt a b x y annots annots' v w hx hy ihx ihy =>
    intro z hz
    obtain ⟨vx, hvx, hz⟩ := Option.bind_eq_some_iff.mp hz
    obtain ⟨vy, hvy, -⟩ := Option.bind_eq_some_iff.mp hz
    obtain ⟨n, ex, hn, hex, hpassx, hokx⟩ := ihx hvx
    obtain ⟨m, ey, hm, hey, hpassy, hoky⟩ := ihy hvy
    have hbranch : Branch (.prim "Elt" (some [x, y]) annots') :=
      .prim _ _ (by decide) (show primTags "Elt" = some 4 by decide)
    have hpass : PassesAll host [n, m] :=
      passesAll_cons.mpr ⟨hpassx, passesAll_cons.mpr ⟨hpassy, passesAll_nil⟩⟩
    refine ⟨nodeWith (.prim "Elt" (some [x, y]) annots') [n, m], _, ?_,
      (readTree_elt le_rfl).mpr ⟨n, m, ex, ey, rfl, hpass, hex, hey, rfl⟩, ?_, ?_⟩
    · exact (written_branch hbranch).mpr ⟨[n, m], .cons hn (.cons hm .nil), rfl⟩
    · exact (passes_branch hbranch).mpr hpass
    · exact accepted_elt.mpr ⟨hokx, hoky⟩

/-! ## Packing and unpacking -/

/-- Data that fit into an array come back exactly if the node is accepted. -/
theorem unpacks_iff {t d e : Expr}
    (hsize : ∀ bytes, packData host d none = .ok bytes → bytes.length < 2 ^ 32) :
    Unpacks host t d e ↔ ∃ n, Written host d n ∧ readTree host n (.typed t) = .ok e ∧
      assertMichelsonData e = .ok () := by
  have hwire (n : Node) (hn : Written host d n) : unpackData host (5 :: wire n) (some t) = (do
      let ex ← readTree host n (.typed t)
      assertMichelsonData ex
      return ex) := by
    have hlen := hsize _ (packData_written.mpr ⟨n, hn, rfl⟩)
    rw [List.length_cons] at hlen
    exact unpackData_wire host (fits_of_length (by omega)) (some t)
  constructor
  · rintro ⟨bytes, hpack, hunpack⟩
    obtain ⟨n, hn, rfl⟩ := packData_written.mp hpack
    rw [hwire n hn] at hunpack
    obtain ⟨ex, hread, hunpack⟩ := Except.bind_eq_ok.mp hunpack
    obtain ⟨u, hok, hunpack⟩ := Except.bind_eq_ok.mp hunpack
    cases hunpack
    exact ⟨n, hn, hread, hok⟩
  · rintro ⟨n, hn, hread, hok⟩
    refine ⟨5 :: wire n, packData_written.mpr ⟨n, hn, rfl⟩, ?_⟩
    rw [hwire n hn, hread, Except.ok_bind, hok]
    rfl

/-- **Two forms of a value unpack to one value exactly if both write each pair with two members and
every leaf is read back.** Octets are held in an array, which has less than `2 ^ 32` of them. -/
theorem unpackData_packData_iff {t d d' : Expr} {v : Meaning}
    (hd : Denotes (components "Pair") (.typed t) d v)
    (hd' : Denotes (components "Pair") (.typed t) d' v)
    (hsize : ∀ x ∈ [d, d'], ∀ bytes, packData host x none = .ok bytes → bytes.length < 2 ^ 32) :
    (∃ e e' w, Unpacks host t d e ∧ Unpacks host t d' e' ∧
      Denotes (components "Pair") (.typed t) e w ∧ Denotes (components "Pair") (.typed t) e' w) ↔
      Denotes (twoMembers "Pair") (.typed t) d v ∧ Denotes (twoMembers "Pair") (.typed t) d' v ∧
        (v.read host).isSome := by
  obtain ⟨hs, hs'⟩ := List.forall_mem_cons.mp hsize
  have hs' := List.forall_mem_singleton.mp hs'
  simp only [unpacks_iff hs, unpacks_iff hs']
  constructor
  · rintro ⟨e, e', w, ⟨n, hn, he, hok⟩, ⟨n', hn', he', hok'⟩, -, -⟩
    obtain ⟨htwo, u, hu, -⟩ := denotes_of_readTree hd hn he hok
    obtain ⟨htwo', -⟩ := denotes_of_readTree hd' hn' he' hok'
    exact ⟨htwo, htwo', Option.isSome_iff_exists.mpr ⟨u, hu⟩⟩
  · rintro ⟨htwo, htwo', hsome⟩
    obtain ⟨u, hu⟩ := Option.isSome_iff_exists.mp hsome
    obtain ⟨n, e, hn, he, -, hok⟩ := readBack_of_denotes htwo hu
    obtain ⟨n', e', hn', he', -, hok'⟩ := readBack_of_denotes htwo' hu
    -- both are read as the value with its leaves read
    obtain ⟨-, w, hw, hew⟩ := denotes_of_readTree hd hn he hok
    obtain ⟨-, w', hw', hew'⟩ := denotes_of_readTree hd' hn' he' hok'
    obtain rfl : w = w' := Option.some.inj (hw.symm.trans hw')
    have hmono (d : Expr) (c : Expr × Expr) (h : twoMembers "Pair" d = some c) :=
      components_of_twoMembers h
    exact ⟨e, e', w, ⟨n, hn, he, hok⟩, ⟨n', hn', he', hok'⟩, denotes_mono hmono hew,
      denotes_mono hmono hew'⟩

section

/-- The type of integers. -/
private def intType : Expr := .prim "int" none none

private def digit (s : String) : Expr := .int (js s)

private def triple : Meaning :=
  .pair (.leaf intType (digit "1")) (.pair (.leaf intType (digit "2")) (.leaf intType (digit "3")))

private theorem denotes_digit {split : Expr → Option (Expr × Expr)} (s : String) :
    Denotes split (.typed intType) (digit s) (.leaf intType (digit s)) := .leaf (by decide) rfl

/-- `pair int int int`, and `Pair 1 (Pair 2 3)` and `{1; {2; 3}}`. -/
theorem unpackData_packData_triple : ∃ e e' w,
    Unpacks Host.plain (.prim "pair" (some [intType, intType, intType]) none)
      (.prim "Pair" (some [digit "1", .prim "Pair" (some [digit "2", digit "3"]) none]) none) e ∧
    Unpacks Host.plain (.prim "pair" (some [intType, intType, intType]) none)
      (.seq [digit "1", .seq [digit "2", digit "3"]]) e' ∧
    Denotes (components "Pair") (.typed (.prim "pair" (some [intType, intType, intType]) none)) e w ∧
    Denotes (components "Pair") (.typed (.prim "pair" (some [intType, intType, intType]) none)) e' w := by
  have hpair : Denotes (twoMembers "Pair")
      (.typed (.prim "pair" (some [intType, intType, intType]) none))
      (.prim "Pair" (some [digit "1", .prim "Pair" (some [digit "2", digit "3"]) none]) none)
      triple := .pair rfl rfl (denotes_digit _) (.pair rfl rfl (denotes_digit _) (denotes_digit _))
  have hseq : Denotes (twoMembers "Pair")
      (.typed (.prim "pair" (some [intType, intType, intType]) none))
      (.seq [digit "1", .seq [digit "2", digit "3"]]) triple :=
    .pair rfl rfl (denotes_digit _) (.pair rfl rfl (denotes_digit _) (denotes_digit _))
  have hmono (d : Expr) (c : Expr × Expr) (h : twoMembers "Pair" d = some c) :=
    components_of_twoMembers h
  refine (unpackData_packData_iff (denotes_mono hmono hpair) (denotes_mono hmono hseq) ?_).mpr
    ⟨hpair, hseq, by decide⟩
  rw [List.forall_mem_cons, List.forall_mem_singleton]
  refine ⟨fun bytes h => ?_, fun bytes h => ?_⟩
  · cases h.symm.trans (show _ = .ok [5, 7, 7, 0, 1, 7, 7, 0, 2, 0, 3] from rfl)
    decide
  · cases h.symm.trans
      (show _ = .ok [5, 2, 0, 0, 0, 11, 0, 1, 2, 0, 0, 0, 4, 0, 2, 0, 3] from rfl)
    decide

/-- `Pair 1 2 3` is not unpacked at `pair int (pair int int)`, where `Pair 1 (Pair 2 3)` is. -/
theorem unpackData_packData_nary : ∃ t d d' v,
    Denotes (components "Pair") (.typed t) d v ∧ Denotes (components "Pair") (.typed t) d' v ∧
    (∃ e, Unpacks Host.plain t d e) ∧ ¬ ∃ e', Unpacks Host.plain t d' e' := by
  refine ⟨.prim "pair" (some [intType, .prim "pair" (some [intType, intType]) none]) none,
    .prim "Pair" (some [digit "1", .prim "Pair" (some [digit "2", digit "3"]) none]) none,
    .prim "Pair" (some [digit "1", digit "2", digit "3"]) none, triple, ?_, ?_, ?_, ?_⟩
  · exact .pair rfl rfl (denotes_digit _) (.pair rfl rfl (denotes_digit _) (denotes_digit _))
  · exact .pair rfl rfl (denotes_digit _) (.pair rfl rfl (denotes_digit _) (denotes_digit _))
  · exact ⟨.prim "Pair" (some [digit "1", .prim "Pair" (some [digit "2", digit "3"]) none]) none,
      [5, 7, 7, 0, 1, 7, 7, 0, 2, 0, 3], rfl, rfl⟩
  · rintro ⟨e', bytes, hpack, hunpack⟩
    cases hpack.symm.trans
      (show _ = .ok [5, 9, 7, 0, 0, 0, 6, 0, 1, 0, 2, 0, 3, 0, 0, 0, 0] from rfl)
    have hdone : unpackData Host.plain [5, 9, 7, 0, 0, 0, 6, 0, 1, 0, 2, 0, 3, 0, 0, 0, 0]
        (some (.prim "pair" (some [intType, .prim "pair" (some [intType, intType]) none]) none)) =
        .error (.error (js "REPORT ME: iterator is done")) := rfl
    cases hdone.symm.trans hunpack

end

end MichelCodec
