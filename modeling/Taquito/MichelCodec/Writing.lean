import Taquito.MichelCodec.Binary

/-!
# What `writeExpr` emits

One lemma for each form of a transformed node (`writeNode_*`) says that it is written as the layout
of the format; `Children` pairs the children of a node with the transforms a supply yields for them.
Without a type, and without a `PUSH`, every expression with a node is written as the layout of that
node (`writeExpr_passThrough`).
-/

open BigEndian Varint Js Micheline Reader

namespace MichelCodec

/-! ## Literals -/

private theorem intOctets_succ {fuel val : ℕ} (h : val < 2 ^ fuel) {i : ℕ} :
    intOctets false (fuel + 1) (i + 1) val = natBytes val ∧
      intOctets true (fuel + 1) (i + 1) val = natBytes val := by
  have key : ∀ sign, intOctets sign (fuel + 1) (i + 1) val = natBytes val := by
    intro sign
    induction fuel generalizing val i with
    | zero =>
      obtain rfl : val = 0 := by simpa using h
      rw [natBytes_of_lt (by omega), intOctets]
      simp
    | succ fuel ih =>
      rw [intOctets]
      simp only [Nat.succ_ne_zero, if_false, false_and]
      rcases Nat.lt_or_ge val 128 with hlt | hge
      · rw [natBytes_of_lt hlt, if_neg (by omega), if_neg (by omega)]
        simp [Nat.mod_eq_of_lt hlt]
      · have hdiv : val / 2 ^ 7 < 2 ^ fuel := by
          rw [pow_succ] at h
          omega
        rw [natBytes_of_le hge, if_pos (by omega), if_pos (by omega), ih hdiv]
        rfl
  exact ⟨key false, key true⟩

private theorem intOctets_zero (sign : Bool) (fuel m : ℕ) :
    intOctets sign (fuel + 1) 0 m =
      UInt8.ofNat (m % 64 + (if m / 64 ≠ 0 then 128 else 0) + (if sign then 64 else 0)) ::
        if m / 64 ≠ 0 then intOctets sign fuel 1 (m / 64) else [] := by
  simp [intOctets]

/-- The loop writes the minimal signed numeral. -/
theorem writeInt_eq (z : ℤ) : writeInt z = intBytes z := by
  unfold writeInt intBytes
  generalize decide (z < 0) = sign
  generalize z.natAbs = m
  rw [intOctets_zero, signedBytes]
  by_cases h : m < 64
  · have hdiv : m / 64 = 0 := by omega
    rw [if_pos h, Nat.mod_eq_of_lt h]
    cases sign <;> simp [hdiv]
  · have hdiv : m / 64 ≠ 0 := by omega
    obtain ⟨k, rfl⟩ : ∃ k, m = k + 1 := ⟨m - 1, by omega⟩
    have hk : (k + 1) / 64 < 2 ^ k := by
      have := Nat.lt_two_pow_self (n := k)
      omega
    rw [if_neg h, if_pos hdiv, if_pos hdiv]
    cases sign with
    | false =>
      rw [(intOctets_succ hk (i := 0)).1]
      simp
    | true =>
      rw [(intOctets_succ hk (i := 0)).2]
      simp [Nat.add_assoc]

theorem octet_natCast (n : ℕ) : octet n = UInt8.ofNat n := by
  have h : ((n : ℤ) % 256).toNat = n % 256 := by omega
  rw [octet, h, ← UInt8.toNat_inj]
  simp

/-- `parseHex` reads a text of hexadecimal pairs as `Buffer.from` does. -/
theorem parseHex_eq : ∀ {hex : JSString}, isHexPairs hex = true →
    ∃ xs, parseHex hex = .ok xs ∧ xs.map octet = bufferFromHex hex
  | [], _ => ⟨[], rfl, rfl⟩
  | [_], h => by simp [isHexPairs] at h
  | c :: d :: s, h => by
    have hs : isHexPairs s = true := by
      simp only [isHexPairs, List.length_cons, List.all_cons, Bool.and_eq_true, beq_iff_eq] at h ⊢
      exact ⟨by omega, h.2.2.2⟩
    simp only [isHexPairs, List.all_cons, Bool.and_eq_true] at h
    obtain ⟨x, hx⟩ := Option.isSome_iff_exists.mp h.2.1
    obtain ⟨y, hy⟩ := Option.isSome_iff_exists.mp h.2.2.1
    obtain ⟨xs, hxs, hmap⟩ := parseHex_eq hs
    refine ⟨((16 * x + y : ℕ) : ℤ) :: xs, ?_, ?_⟩
    · rw [parseHex, parseInt_pair hx hy, hxs]
      rfl
    · rw [List.map_cons, hmap, bufferFromHex, hx, hy, octet_natCast]

/-! ## Nodes -/

/-- The children of a node beside the transforms of a supply: the `i`-th expression, with the `i`-th
transform, has the `i`-th node. -/
inductive Children (R : Transform → Expr → Node → Prop) : Supply → List Expr → List Node → Prop
  | nil (s : Supply) : Children R s [] []
  | cons {s s' : Supply} {tf : Transform} {e : Expr} {n : Node} {es : List Expr} {ns : List Node} :
    s.next = .ok (tf, s') → R tf e n → Children R s' es ns → Children R s (e :: es) (n :: ns)

theorem Children.length_eq {R : Transform → Expr → Node → Prop} {s : Supply} {es : List Expr}
    {ns : List Node} (h : Children R s es ns) : es.length = ns.length := by
  induction h with
  | nil => rfl
  | cons _ _ _ ih => rw [List.length_cons, List.length_cons, ih]

theorem Children.mono {R S : Transform → Expr → Node → Prop} {s : Supply} {es : List Expr}
    {ns : List Node} (h : Children R s es ns) :
    (∀ tf, ∀ e ∈ es, ∀ n ∈ ns, R tf e n → S tf e n) → Children S s es ns := by
  induction h with
  | nil s => exact fun _ => .nil s
  | cons hn hr _ ih =>
    intro hrs
    refine .cons hn (hrs _ _ (by simp) _ (by simp) hr) (ih fun tf e he n hn => ?_)
    exact hrs tf e (List.mem_cons_of_mem _ he) n (List.mem_cons_of_mem _ hn)

/-- Children under a constant supply. -/
theorem children_forever {R : Transform → Expr → Node → Prop} {tf : Transform} {es : List Expr}
    {ns : List Node} (h : List.Forall₂ (R tf) es ns) : Children R (.forever (.ok tf)) es ns := by
  induction h with
  | nil => exact .nil _
  | cons hr _ ih => exact .cons rfl hr ih

section

variable {write : Transform → Expr → Except MichelError Bytes} {s : Supply}

theorem writeChildren_eq {es : List Expr} {ns : List Node}
    (h : Children (fun tf e n => write tf e = .ok (wire n)) s es ns) :
    writeChildren write s es = .ok (wires ns) := by
  induction h with
  | nil => rfl
  | cons hn hr _ ih =>
    rw [writeChildren, hn]
    simp only [Except.ok_bind, hr, ih, wires]
    rfl

theorem writeNode_seq {items : List Expr} {ns : List Node}
    (h : Children (fun tf e n => write tf e = .ok (wire n)) s items ns) :
    writeNode write (.seq items) s = .ok (wire (.seq ns)) := by
  rw [writeNode, writeChildren_eq h]
  rfl

theorem writeNode_string (text : JSString) :
    writeNode write (.string text) s = .ok (wire (.string (utf8Encode text))) := rfl

theorem writeNode_int {text : JSString} {z : ℤ} (h : bigInt text = some z) :
    writeNode write (.int text) s = .ok (wire (.int z)) := by
  simp only [writeNode, h, writeInt_eq, wire]

theorem writeNode_bytes {hex : JSString} (h : isHexPairs hex = true) :
    writeNode write (.bytes hex) s = .ok (wire (.bytes (bufferFromHex hex))) := by
  obtain ⟨xs, hxs, hmap⟩ := parseHex_eq h
  have hlen : xs.length = (bufferFromHex hex).length := by rw [← hmap, List.length_map]
  simp only [writeNode, hxs, Except.ok_bind, hlen, hmap, wire, writeUint32, lengthPrefixed]
  rfl

theorem writeAnnots_eq (args : Option (List Expr)) (annots : Option (List JSString)) :
    writeAnnots args annots =
      if (args.getD []).length < 3 then (annotBytes annots).elim [] lengthPrefixed
      else lengthPrefixed ((annotBytes annots).getD []) := by
  rcases annots with _ | _ | ⟨w, ws⟩
  all_goals
    by_cases h : (args.getD []).length < 3
    · simp [writeAnnots, annotBytes, Expr.normOption, lengthPrefixed, writeUint32, h]
    · simp [writeAnnots, annotBytes, Expr.normOption, lengthPrefixed, writeUint32, h, Nat.le_of_not_lt h]

theorem tagOf_eq {k : ℕ} (h : k < 3) (annots : Option (List JSString)) :
    tagOf k annots = primTag k (annotBytes annots).isSome := by
  rw [tagOf, if_pos h, primTag]
  rcases annots with _ | _ | ⟨w, ws⟩ <;> simp [annotBytes, Expr.normOption, Nat.mul_comm]

theorem writeNode_prim {p : String} {code : ℕ} {args : Option (List Expr)}
    {annots : Option (List JSString)} {ns : List Node} (hp : primTags p = some code)
    (h : Children (fun tf e n => write tf e = .ok (wire n)) s (args.getD []) ns) :
    writeNode write (.prim p args annots) s =
      .ok (wire (.prim (UInt8.ofNat code) ns (annotBytes annots))) := by
  have hlen := h.length_eq
  simp only [writeNode, hp, writeChildren_eq h, Except.ok_bind, Except.pure_eq_ok, writeAnnots_eq, hlen,
    wire]
  by_cases h3 : ns.length < 3
  · simp only [h3, if_true, tagOf_eq h3]
  · simp [h3, tagOf, lengthPrefixed, writeUint32]

end

/-! ## Without a type -/

mutual

/-- No `PUSH` anywhere in the expression. -/
def Pushless : Expr → Prop
  | .seq items => PushlessAll items
  | .prim p none _ => p ≠ "PUSH"
  | .prim p (some args) _ => p ≠ "PUSH" ∧ PushlessAll args
  | _ => True

/-- `Pushless`, of every expression. -/
def PushlessAll : List Expr → Prop
  | [] => True
  | e :: es => Pushless e ∧ PushlessAll es

end

theorem pushlessAll_iff (es : List Expr) : PushlessAll es ↔ ∀ e ∈ es, Pushless e := by
  induction es with
  | nil => simp [PushlessAll]
  | cons e es ih => simp [PushlessAll, ih]

theorem pushless_prim {p : String} {args : Option (List Expr)} {annots : Option (List JSString)} :
    Pushless (.prim p args annots) ↔ p ≠ "PUSH" ∧ ∀ e ∈ args.getD [], Pushless e := by
  cases args <;> simp [Pushless, pushlessAll_iff]

theorem pushless_norm {e : Expr} (h : Pushless e) : Pushless e.norm := by
  induction e with
  | int | string | bytes => trivial
  | seq items ih =>
    rw [Pushless, pushlessAll_iff] at h
    rw [Expr.norm_seq, Pushless, pushlessAll_iff, List.forall_mem_map]
    exact fun e he => ih e he (h e he)
  | prim p args annots ih =>
    obtain ⟨hp, hargs⟩ := pushless_prim.mp h
    rw [Expr.norm_prim, pushless_prim, Expr.normOption_map_norm_getD, List.forall_mem_map]
    exact ⟨hp, fun e he => ih e he (hargs e he)⟩

private theorem passThroughSupply_eq {e : Expr} (h : Pushless e) :
    passThroughSupply e = .ok (.forever (.ok .passThrough)) := by
  cases e with
  | prim p args annots =>
    rw [passThroughSupply, if_neg (pushless_prim.mp h).1]
    rfl
  | _ => rfl

/-- Without a type and a `PUSH`, an expression is written as the layout of its node. -/
theorem writeExpr_passThrough (host : Host) {e : Expr} (hpush : Pushless e) :
    ∀ {n : Node}, node bigInt e = some n → ∀ {fuel : ℕ}, e.weight ≤ fuel →
      writeExpr host fuel .passThrough e = .ok (wire n) := by
  have step : ∀ {e : Expr}, Pushless e → ∀ k, writeExpr host (k + 1) .passThrough e =
      writeNode (writeExpr host k) e (.forever (.ok .passThrough)) := by
    intro e he k
    rw [writeExpr, writeTransform, passThroughSupply_eq he]
    rfl
  -- the children of a node, each written by the recursive call
  have all : ∀ {es : List Expr} {ns : List Node} {k : ℕ}, nodes bigInt es = some ns →
      (∀ e ∈ es, ∀ n, node bigInt e = some n → writeExpr host k .passThrough e = .ok (wire n)) →
      Children (fun tf e n => writeExpr host k tf e = .ok (wire n)) (.forever (.ok .passThrough))
        es ns := by
    intro es ns k hns h
    have hpairs : List.Forall₂ (fun e n => .passThrough = Transform.passThrough ∧
        node bigInt e = some n) es ns := (nodes_eq_some.mp hns).imp fun _ _ hn => ⟨rfl, hn⟩
    have hc : Children (fun tf e n => tf = .passThrough ∧ node bigInt e = some n)
        (.forever (.ok .passThrough)) es ns := children_forever hpairs
    refine hc.mono fun tf e he n _ hen => ?_
    obtain ⟨rfl, hen⟩ := hen
    exact h e he n hen
  induction e with
  | int text =>
    intro n hn fuel hf
    obtain ⟨k, rfl⟩ := Expr.exists_succ_of_weight hf
    obtain ⟨z, hz, rfl⟩ := Option.map_eq_some_iff.mp hn
    rw [step hpush, writeNode_int hz]
  | string text =>
    intro n hn fuel hf
    obtain ⟨k, rfl⟩ := Expr.exists_succ_of_weight hf
    cases hn
    rw [step hpush, writeNode_string]
  | bytes hex =>
    intro n hn fuel hf
    obtain ⟨k, rfl⟩ := Expr.exists_succ_of_weight hf
    rw [node] at hn
    split at hn
    · next hhex =>
      cases hn
      rw [step hpush, writeNode_bytes hhex]
    · cases hn
  | seq items ih =>
    intro n hn fuel hf
    obtain ⟨k, rfl⟩ := Expr.exists_succ_of_weight hf
    obtain ⟨ns, hns, rfl⟩ := Option.map_eq_some_iff.mp hn
    rw [step hpush]
    rw [Pushless, pushlessAll_iff] at hpush
    rw [Expr.weight] at hf
    refine writeNode_seq (all hns fun e he n hen => ih e he (hpush e he) hen ?_)
    have := Expr.weight_lt_weights he
    omega
  | prim p args annots ih =>
    intro n hn fuel hf
    obtain ⟨k, rfl⟩ := Expr.exists_succ_of_weight hf
    obtain ⟨code, ns, hcode, hns, rfl⟩ := node_prim_eq_some.mp hn
    rw [step hpush]
    rw [Expr.weight_prim] at hf
    refine writeNode_prim hcode (all hns fun e he n hen => ?_)
    refine ih e he ((pushless_prim.mp hpush).2 e he) hen ?_
    have := Expr.weight_lt_weights he
    omega

/-- **`packData` without a type.** -/
theorem packData_untyped (host : Host) {e : Expr} {n : Node} (hpush : Pushless e)
    (hn : node bigInt e = some n) : packData host e none = .ok (5 :: wire n) := by
  rw [packData, transformOf, writeExpr_passThrough host hpush hn le_rfl]
  rfl

end MichelCodec
