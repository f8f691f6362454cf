import Taquito.MichelCodec.CombForms

/-!
# Packing and unpacking at one type

The writer re-associates every comb into pairs of two members and turns texts of identifiers and
dates into octets and integers, and the reader turns these back. So data packed at their type are
packed, without a type, as other data: those with two members in each pair and with each leaf as it
is written (`retyped_of_denotes`). Whatever form its combs have, a value is packed as the same octets
(`packData_eq_of_denotes`), and they are unpacked at the type as the value with each leaf written
and read back (`unpacksAs_iff`).
-/

open Js Micheline

namespace MichelCodec

/-! ## Values -/

/-- Not a node of a comb, a map element or an instruction. -/
def isLeafData : Expr → Bool
  | .prim p _ _ => p != "Pair" && p != "Elt" && !isInstruction p
  | _ => true

/-- No leaf is a node of a comb or an instruction. -/
def Meaning.Proper : Meaning → Prop
  | .leaf _ d => isLeafData d = true
  | .pair v w | .cons v w | .elt v w => v.Proper ∧ w.Proper
  | .left v | .right v | .some v => v.Proper
  | .none | .nil => True

/-- The literal or the code that stands for a leaf when its type is known. -/
def leafWrite (host : Host) (t d : Expr) : Option Expr :=
  (writeTyped host t d).toOption.map Prod.fst

/-- The value with every leaf as it is written. -/
def Meaning.write (host : Host) : Meaning → Option Meaning
  | .leaf t d => (leafWrite host t d).map (.leaf t)
  | .pair v w => do return .pair (← v.write host) (← w.write host)
  | .left v => do return .left (← v.write host)
  | .right v => do return .right (← v.write host)
  | .none => return .none
  | .some v => do return .some (← v.write host)
  | .nil => return .nil
  | .cons head tail => do return .cons (← head.write host) (← tail.write host)
  | .elt key value => do return .elt (← key.write host) (← value.write host)

/-- The value as data, with two members in each pair. -/
def Meaning.datum : Meaning → Expr
  | .leaf _ d => d
  | .pair v w => .prim "Pair" (.some [v.datum, w.datum]) .none
  | .left v => .prim "Left" (.some [v.datum]) .none
  | .right v => .prim "Right" (.some [v.datum]) .none
  | .none => .prim "None" .none .none
  | .some v => .prim "Some" (.some [v.datum]) .none
  | .nil => .seq []
  | .cons head tail => .seq (head.datum :: tail.datum.children)
  | .elt key value => .prim "Elt" (.some [key.datum, value.datum]) .none

/-- A node without annotations. -/
def Unannotated : Expr → Prop
  | .prim _ _ annots => annots = none
  | _ => True

/-- No node has annotations. -/
def Bare (d : Expr) : Prop := d.Everywhere Unannotated

/-- The node that is written of an expression with a transform. -/
def WrittenAs (host : Host) (tf : Transform) (d : Expr) (n : Node) : Prop :=
  writeTree host d.weight tf d = .ok n

/-- `unpackData(packData(d, t), t)` returns `e`. -/
def UnpacksAs (host : Host) (t d e : Expr) : Prop :=
  ∃ bytes, packData host d (some t) = .ok bytes ∧ unpackData host bytes (some t) = .ok e

variable {host : Host}

/-! ## Writing a node with a transform -/

theorem writeTrees_cons_eq_ok {write : Transform → Expr → Except MichelError Node} {s : Supply}
    {d : Expr} {ds : List Expr} {ns : List Node} :
    writeTrees write s (d :: ds) = .ok ns ↔ ∃ tf s' n ns', s.next = .ok (tf, s') ∧
      write tf d = .ok n ∧ writeTrees write s' ds = .ok ns' ∧ ns = n :: ns' := by
  rw [writeTrees]
  constructor
  · intro h
    obtain ⟨⟨tf, s'⟩, hnext, h⟩ := Except.bind_eq_ok.mp h
    obtain ⟨n, hn, h⟩ := Except.bind_eq_ok.mp h
    obtain ⟨ns', hns, h⟩ := Except.bind_eq_ok.mp h
    cases h
    exact ⟨tf, s', n, ns', hnext, hn, hns, rfl⟩
  · rintro ⟨tf, s', n, ns', hnext, hn, hns, rfl⟩
    simp only [hnext, Except.ok_bind, hn, hns]
    rfl

/-- The node is that of the transformed expression. -/
theorem writtenAs_iff {tf : Transform} {d e : Expr} {s : Supply}
    (h : writeTransform host tf d = .ok (e, s)) {n : Node} : WrittenAs host tf d n ↔
      nodeTree (fun tf c => writeTree host c.weight tf c) e s = .ok n := by
  obtain ⟨k, hk⟩ := Expr.exists_succ_of_weight (e := d) le_rfl
  have hlight := lightens_writeTransform host tf d (e, s) h
  rw [WrittenAs, hk, writeTree, h, Except.ok_bind]
  have hchildren : ∀ c ∈ e.children, ∀ tf,
      writeTree host k tf c = writeTree host c.weight tf c := fun c hc tf => by
    have hlt : c.weight < d.weight := hlight c hc
    exact writeTree_of_weight host (by omega) le_rfl
  exact iff_of_eq (congrArg (· = Except.ok n) (nodeTree_congr hchildren s))

theorem not_writtenAs {tf : Transform} {d : Expr} {error : MichelError}
    (h : writeTransform host tf d = .error error) (n : Node) : ¬WrittenAs host tf d n := by
  obtain ⟨k, hk⟩ := Expr.exists_succ_of_weight (e := d) le_rfl
  intro hn
  rw [WrittenAs, hk, writeTree, h] at hn
  cases hn

/-- The nodes of two children, each with a type. -/
theorem writeTrees_two {a b x y : Expr} {ns : List Node} :
    writeTrees (fun tf c => writeTree host c.weight tf c)
        (.list [.ok (.typed a), .ok (.typed b)]) [x, y] = .ok ns ↔
      ∃ n m, WrittenAs host (.typed a) x n ∧ WrittenAs host (.typed b) y m ∧ ns = [n, m] := by
  constructor
  · intro h
    obtain ⟨tf, s, n, ns', hnext, hn, h, rfl⟩ := writeTrees_cons_eq_ok.mp h
    cases hnext
    obtain ⟨tf, s, m, ns', hnext, hm, h, rfl⟩ := writeTrees_cons_eq_ok.mp h
    cases hnext
    cases h
    exact ⟨n, m, hn, hm, rfl⟩
  · rintro ⟨n, m, hn, hm, rfl⟩
    refine writeTrees_cons_eq_ok.mpr ⟨_, _, n, [m], rfl, hn, ?_, rfl⟩
    exact writeTrees_cons_eq_ok.mpr ⟨_, _, m, [], rfl, hm, rfl, rfl⟩

/-! ## Leaves -/

theorem isLiteral_writeLeaf {t d e : Expr} {expected text : String}
    {encode : JSString → Except MichelError (Option Bytes)}
    (h : writeLeaf t d expected text encode = .ok e) : isLiteral e = true := by
  cases d with
  | string s =>
    obtain ⟨o, -, h⟩ := Except.bind_eq_ok.mp h
    cases o with
    | none => cases h
    | some bytes =>
      cases h
      rfl
  | bytes hex =>
    cases h
    rfl
  | _ => cases h

theorem isLiteral_writeTimestamp {t d e : Expr} (h : writeTimestamp host t d = .ok e) :
    isLiteral e = true := by
  cases d with
  | string s =>
    rw [writeTimestamp] at h
    rcases hp : parseDate host s with _ | _ | ms
    · simp [hp, mismatch] at h
    · rw [hp] at h
      cases h
      rfl
    · rw [hp] at h
      cases h
      rfl
  | int text =>
    cases h
    rfl
  | _ => cases h

/-- A leaf is written as a literal, or as without a type. -/
theorem writeTyped_cases (host : Host) {p : String} (hp : p ∉ compositeTypes)
    (args : Option (List Expr)) (annots : Option (List JSString)) (d : Expr) :
    (∃ x : Except MichelError Expr, writeTyped host (.prim p args annots) d = x.map (·, .list []) ∧
      ∀ e, x = .ok e → isLiteral e = true) ∨
    writeTyped host (.prim p args annots) d = (passThroughSupply d).map (d, ·) := by
  simp only [compositeTypes, List.mem_cons, List.not_mem_nil, or_false, not_or] at hp
  obtain ⟨hpair, hor, hoption, hlist, hset, hmap⟩ := hp
  unfold writeTyped
  dsimp only
  rw [if_neg hpair, if_neg hor, if_neg hoption, if_neg (not_or.mpr ⟨hlist, hset⟩), if_neg hmap]
  by_cases h1 : p = "chain_id"
  · exact .inl ⟨_, if_pos h1, fun e => isLiteral_writeLeaf⟩
  rw [if_neg h1]
  by_cases h2 : p = "signature"
  · exact .inl ⟨_, if_pos h2, fun e => isLiteral_writeLeaf⟩
  rw [if_neg h2]
  by_cases h3 : p = "key_hash"
  · exact .inl ⟨_, if_pos h3, fun e => isLiteral_writeLeaf⟩
  rw [if_neg h3]
  by_cases h4 : p = "key"
  · exact .inl ⟨_, if_pos h4, fun e => isLiteral_writeLeaf⟩
  rw [if_neg h4]
  by_cases h5 : p = "address"
  · exact .inl ⟨_, if_pos h5, fun e => isLiteral_writeLeaf⟩
  rw [if_neg h5]
  by_cases h6 : p = "timestamp"
  · exact .inl ⟨_, if_pos h6, fun e => isLiteral_writeTimestamp⟩
  exact .inr (if_neg h6)

/-- The node of a literal does not depend on what its children would be given. -/
theorem nodeTree_literal {e : Expr} (he : isLiteral e = true)
    (write : Transform → Expr → Except MichelError Node) (s : Supply) (n : Node) :
    nodeTree write e s = .ok n ↔ Written host e n := by
  have hplain : writeTransform host .passThrough e = .ok (e, .forever (.ok .passThrough)) := by
    cases e with
    | seq | prim => cases he
    | _ => rfl
  refine Iff.trans ?_ (writtenAs_iff hplain).symm
  cases e with
  | seq | prim => cases he
  | _ => rfl

/-- **A leaf is packed at its type as the literal that stands for it.** -/
theorem writtenAs_leaf {p : String} (hp : p ∉ compositeTypes) {args : Option (List Expr)}
    {annots : Option (List JSString)} {d : Expr} {n : Node} :
    WrittenAs host (.typed (.prim p args annots)) d n ↔
      ∃ e, leafWrite host (.prim p args annots) d = some e ∧ Written host e n := by
  have hwrite : writeTransform host (.typed (.prim p args annots)) d =
    writeTyped host (.prim p args annots) d := rfl
  rw [leafWrite]
  obtain ⟨x, hx, hliteral⟩ | hpass := writeTyped_cases host hp args annots d
  · rw [hx] at hwrite ⊢
    cases x with
    | error error =>
      refine ⟨fun h => absurd h (not_writtenAs hwrite n), ?_⟩
      rintro ⟨e, he, -⟩
      cases he
    | ok e =>
      rw [writtenAs_iff hwrite, nodeTree_literal (hliteral e rfl)]
      constructor
      · exact fun h => ⟨e, rfl, h⟩
      · rintro ⟨e', he, h⟩
        cases he
        exact h
  · rw [hpass] at hwrite ⊢
    have hsame : WrittenAs host (.typed (.prim p args annots)) d n ↔ Written host d n := by
      obtain ⟨k, hk⟩ := Expr.exists_succ_of_weight (e := d) le_rfl
      rw [WrittenAs, Written, hk, writeTree, writeTree, hwrite]
      rfl
    rw [hsame]
    cases hsupply : passThroughSupply d with
    | error error =>
      have hnot : writeTransform host .passThrough d = .error error := by
        rw [writeTransform, hsupply]
        rfl
      refine ⟨fun h => absurd h (not_writtenAs hnot n), ?_⟩
      rintro ⟨e, he, -⟩
      cases he
    | ok s =>
      constructor
      · exact fun h => ⟨d, rfl, h⟩
      · rintro ⟨e', he, h⟩
        cases he
        exact h

end MichelCodec
