import Taquito.LocalForging.IntEncoding
import Taquito.Micheline.Reading

/-!
# What the Micheline encoder of the forger emits

`forgedWire` is the layout `valueEncoder` gives a node. It is the layout of the format except at a
primitive whose arguments the encoder frames by name: `LAMBDA`, `LAMBDA_REC` and `view` always carry
the two lengths, the second one zero even when annotations follow, and any other primitive of more
than two arguments except a pair carries neither. `valueEncoder_spec` says so for every expression
with a node: the encoder emits that layout, or throws because a length in it does not fit.
-/

open BigEndian Varint Js Micheline

namespace LocalForging

/-- How the forger reads the text of an integer. -/
def intOf (lib : BigNumberLib) (text : JSString) : Option ℤ :=
  match lib.parse text with
  | .finite q => if q.den = 1 then some q.num else none
  | _ => none

theorem intOf_eq_some {lib : BigNumberLib} {text : JSString} {z : ℤ} (h : intOf lib text = some z) :
    lib.parse text = .finite z := by
  unfold intOf at h
  split at h
  · next q hq =>
    split at h
    · next hden =>
      cases h
      rw [hq, BigNumber.finite.injEq]
      exact (Rat.den_eq_one_iff q).mp hden |>.symm
    · cases h
  · cases h

theorem intOf_of_decimal {lib : BigNumberLib} (h : lib.Lawful) {text : JSString} {z : ℤ}
    (hz : decimalValue text = some z) : intOf lib text = some z := by
  simp [intOf, h.parse_decimal hz]

/-! ## The layout -/

/-- The primitives whose arguments are always framed. -/
def isFramed (p : String) (args : ℕ) : Bool := (isLambda p || p == "view") && args != 0

/-- The name of a code. -/
def nameOf (code : UInt8) : String := MichelCodec.primitives.getD code.toNat ""

mutual

/-- The octets the forger gives a node. -/
def forgedWire : Node → Bytes
  | .int z => 0 :: intBytes z
  | .string text => 1 :: lengthPrefixed text
  | .bytes content => 10 :: lengthPrefixed content
  | .seq items => 2 :: lengthPrefixed (forgedWires items)
  | .prim code args annots =>
    UInt8.ofNat (min (2 * args.length + annots.isSome.toNat + 3) 9) :: code ::
      (if isFramed (nameOf code) args.length then
        lengthPrefixed (forgedWires args) ++ lengthPrefixed [] ++ annots.elim [] lengthPrefixed
      else if isPair (nameOf code) && 2 < args.length then
        lengthPrefixed (forgedWires args) ++ lengthPrefixed (annots.getD [])
      else forgedWires args ++ annots.elim [] lengthPrefixed)

/-- The octets of a list of nodes, end to end. -/
def forgedWires : List Node → Bytes
  | [] => []
  | n :: ns => forgedWire n ++ forgedWires ns

end

mutual

/-- Every length the forger computes for the node fits on four octets. -/
def ForgedFits : Node → Prop
  | .int _ => True
  | .string text => text.length < 2 ^ 32
  | .bytes content => content.length < 2 ^ 32
  | .seq items => ForgedFitsAll items ∧ (forgedWires items).length < 2 ^ 32
  | .prim code args annots =>
    ForgedFitsAll args ∧ (annots.getD []).length < 2 ^ 32 ∧
      ((isFramed (nameOf code) args.length || (isPair (nameOf code) && 2 < args.length)) = true →
        (forgedWires args).length < 2 ^ 32)

/-- `ForgedFits`, of every node. -/
def ForgedFitsAll : List Node → Prop
  | [] => True
  | n :: ns => ForgedFits n ∧ ForgedFitsAll ns

end

theorem forgedFitsAll_iff (ns : List Node) : ForgedFitsAll ns ↔ ∀ n ∈ ns, ForgedFits n := by
  induction ns with
  | nil => simp [ForgedFitsAll]
  | cons n ns ih => simp [ForgedFitsAll, ih]

/-! ## Where it is the layout of the format -/

/-- The tag, arguments and annotations of a primitive are laid out as the format has them: a framed
primitive has at least three arguments and no annotations, any other one at most two unless it is a
pair. -/
def AlignedPrim (p : String) (args : ℕ) (annotated : Bool) : Prop :=
  if isFramed p args then 3 ≤ args ∧ annotated = false else isPair p = true ∨ args < 3

/-- An annotation list that is neither absent nor empty. -/
def annotated (annots : Option (List JSString)) : Bool := !(annots.getD []).isEmpty

theorem annotBytes_isSome (annots : Option (List JSString)) :
    (annotBytes annots).isSome = annotated annots := by
  rcases annots with _ | _ | _ <;> simp [annotBytes, Expr.normOption, annotated]

mutual

/-- `AlignedPrim`, of every primitive of the expression. -/
def Aligned : Expr → Prop
  | .seq items => AlignedAll items
  | .prim p none annots => AlignedPrim p 0 (annotated annots)
  | .prim p (some args) annots => AlignedPrim p args.length (annotated annots) ∧ AlignedAll args
  | _ => True

/-- `Aligned`, of every expression. -/
def AlignedAll : List Expr → Prop
  | [] => True
  | e :: es => Aligned e ∧ AlignedAll es

end

theorem alignedAll_iff (es : List Expr) : AlignedAll es ↔ ∀ e ∈ es, Aligned e := by
  induction es with
  | nil => simp [AlignedAll]
  | cons e es ih => simp [AlignedAll, ih]

theorem aligned_prim {p : String} {args : Option (List Expr)} {annots : Option (List JSString)} :
    Aligned (.prim p args annots) ↔ AlignedPrim p (args.getD []).length (annotated annots) ∧
      ∀ e ∈ args.getD [], Aligned e := by
  cases args <;> simp [Aligned, alignedAll_iff]

private theorem tag_of_lt {k : ℕ} (h : k < 3) (annots : Option Bytes) :
    UInt8.ofNat (min (2 * k + annots.isSome.toNat + 3) 9) = primTag k annots.isSome := by
  have hb := Bool.toNat_le annots.isSome
  have hsum : 2 * k + annots.isSome.toNat + 3 = 3 + 2 * k + annots.isSome.toNat := by omega
  rw [primTag, min_eq_left (by omega), hsum]

private theorem tag_of_le {k : ℕ} (h : 3 ≤ k) (annots : Option Bytes) :
    UInt8.ofNat (min (2 * k + annots.isSome.toNat + 3) 9) = 9 := by
  rw [min_eq_right (by omega)]
  rfl

private theorem forgedWire_prim {code : UInt8} {ns : List Node} {annots : Option Bytes}
    (h : AlignedPrim (nameOf code) ns.length annots.isSome) (hw : forgedWires ns = wires ns)
    (hf : ForgedFitsAll ns ↔ FitsAll ns) :
    forgedWire (.prim code ns annots) = wire (.prim code ns annots) ∧
      (ForgedFits (.prim code ns annots) ↔ Fits (.prim code ns annots)) := by
  rw [forgedWire, wire, ForgedFits, Fits, hw, hf]
  unfold AlignedPrim at h
  split_ifs at h with hframed
  · obtain ⟨h3, hann⟩ := h
    obtain rfl : annots = none := by simpa using hann
    rw [tag_of_le h3, if_pos hframed, if_neg (by omega)]
    simp [hframed, h3]
  · simp only [Bool.not_eq_true] at hframed
    simp only [hframed, Bool.false_eq_true, if_false, Bool.false_or]
    by_cases h3 : ns.length < 3
    · have hpair : (isPair (nameOf code) && decide (2 < ns.length)) = false := by
        simp
        omega
      rw [tag_of_lt h3, hpair, if_pos h3]
      refine ⟨rfl, ?_⟩
      simp only [Bool.false_eq_true, false_imp_iff, and_true]
      constructor
      · rintro ⟨h₁, h₂⟩
        exact ⟨h₁, fun h => absurd h (by omega), h₂⟩
      · rintro ⟨h₁, -, h₂⟩
        exact ⟨h₁, h₂⟩
    · have hpair : (isPair (nameOf code) && decide (2 < ns.length)) = true := by
        rcases h with h | h
        · simp [h]
          omega
        · exact absurd h h3
      rw [tag_of_le (by omega), hpair, if_neg h3]
      refine ⟨rfl, ?_⟩
      simp only [forall_const]
      constructor
      · rintro ⟨h₁, h₂, h₃⟩
        exact ⟨h₁, fun _ => h₃, h₂⟩
      · rintro ⟨h₁, h₃, h₂⟩
        exact ⟨h₁, h₂, h₃ (by omega)⟩

theorem nameOf_primTags {p : String} {code : ℕ} (h : MichelCodec.primTags p = some code) :
    nameOf (UInt8.ofNat code) = p := by
  have hlt := MichelCodec.primTags_lt h
  have hc : (UInt8.ofNat code).toNat = code := by simp; omega
  rw [nameOf, hc, List.getD_eq_getElem?_getD, MichelCodec.primTags_eq_some h]
  rfl

/-- The layout of an aligned expression is that of the format. -/
theorem forgedWire_eq {f : JSString → Option ℤ} {e : Expr} (h : Aligned e) :
    ∀ {n : Node}, node f e = some n → forgedWire n = wire n ∧ (ForgedFits n ↔ Fits n) := by
  have all : ∀ {es : List Expr} {ns : List Node}, (∀ e ∈ es, ∀ {n : Node}, node f e = some n →
        forgedWire n = wire n ∧ (ForgedFits n ↔ Fits n)) → nodes f es = some ns →
        forgedWires ns = wires ns ∧ (ForgedFitsAll ns ↔ FitsAll ns) := by
    intro es ns ih hns
    induction nodes_eq_some.mp hns with
    | nil => exact ⟨rfl, Iff.rfl⟩
    | cons hn hrest ihes =>
      obtain ⟨hw, hf⟩ := ih _ (by simp) hn
      obtain ⟨hws, hfs⟩ := ihes (fun x hx => ih x (by simp [hx])) (nodes_eq_some.mpr hrest)
      exact ⟨by rw [forgedWires, wires, hw, hws], by rw [ForgedFitsAll, FitsAll, hf, hfs]⟩
  induction e with
  | int text =>
    intro n hn
    obtain ⟨z, -, rfl⟩ := Option.map_eq_some_iff.mp hn
    exact ⟨rfl, Iff.rfl⟩
  | string text =>
    intro n hn
    cases hn
    exact ⟨rfl, Iff.rfl⟩
  | bytes hex =>
    intro n hn
    rw [node] at hn
    split at hn
    · cases hn
      exact ⟨rfl, Iff.rfl⟩
    · cases hn
  | seq items ih =>
    intro n hn
    obtain ⟨ns, hns, rfl⟩ := Option.map_eq_some_iff.mp hn
    rw [Aligned, alignedAll_iff] at h
    obtain ⟨hw, hf⟩ := all (fun e he => ih e he (h e he)) hns
    exact ⟨by rw [forgedWire, wire, hw], by rw [ForgedFits, Fits, hw, hf]⟩
  | prim p args annots ih =>
    intro n hn
    obtain ⟨code, ns, hcode, hns, rfl⟩ := node_prim_eq_some.mp hn
    obtain ⟨hprim, hargs⟩ := aligned_prim.mp h
    obtain ⟨hw, hf⟩ := all (fun e he => ih e he (hargs e he)) hns
    rw [nodes_length hns, ← nameOf_primTags hcode, ← annotBytes_isSome] at hprim
    exact forgedWire_prim hprim hw hf

/-! ## The encoder emits the layout -/

/-- A result that is text of `bs`, or an error exactly when `fits` fails. -/
def Emits (fits : Prop) (bs : Bytes) (x : Except ForgeError JSString) : Prop :=
  (fits ∧ ∃ s, x = .ok s ∧ HexOf s bs) ∨ (¬ fits ∧ ∃ e, x = .error e)

/-- A length and its text, glued after a prefix. -/
private theorem emits_lengthPrefixed {s : JSString} {bs : Bytes} (h : HexOf s bs) (pre : JSString)
    {b : UInt8} (hpre : pre = hexByte b) :
    Emits (bs.length < 2 ^ 32) (b :: lengthPrefixed bs)
      (do let len ← pad s.length 8; return pre ++ len ++ s) := by
  rcases Nat.lt_or_ge bs.length (2 ^ 32) with hl | hl
  · refine .inl ⟨hl, pre ++ toHex (beBytes 4 bs.length) ++ s, ?_, ?_⟩
    · rw [h.pad_eq (k := 4) (by omega) (by simpa using hl)]
      rfl
    · rw [hpre, List.append_assoc]
      exact (hexOf_toHex [b]).append ((hexOf_toHex _).append h)
  · obtain ⟨m, hm⟩ := h.pad_eq_error (k := 4) (by omega) (by simpa using hl)
    exact .inr ⟨by omega, _, by rw [hm]; rfl⟩

private theorem intercalate_space : ∀ ws : List JSString,
    List.intercalate (js "20") (ws.map fun x => toHex (utf8Encode x)) =
      toHex (utf8Encode (joinWords ws))
  | [] => rfl
  | [w] => by simp [List.intercalate, joinWords]
  | w :: v :: ws => by
    have ih := intercalate_space (v :: ws)
    rw [List.map_cons] at ih
    rw [List.map_cons, List.map_cons, joinWords_cons_cons, utf8Encode_space, toHex_append, toHex_cons,
      ← ih]
    simp only [List.intercalate, List.intersperse_cons_cons, List.flatten_cons]
    rfl

private theorem emits_encodeAnnots (ws : List JSString) :
    Emits ((utf8Encode (joinWords ws)).length < 2 ^ 32) (lengthPrefixed (utf8Encode (joinWords ws)))
      (encodeAnnots ws) := by
  have h := hexOf_toHex (utf8Encode (joinWords ws))
  unfold encodeAnnots
  rw [intercalate_space]
  dsimp only
  rcases Nat.lt_or_ge (utf8Encode (joinWords ws)).length (2 ^ 32) with hl | hl
  · refine .inl ⟨hl, _, ?_, (hexOf_toHex _).append h⟩
    rw [h.pad_eq (k := 4) (by omega) (by simpa using hl)]
    rfl
  · obtain ⟨m, hm⟩ := h.pad_eq_error (k := 4) (by omega) (by simpa using hl)
    exact .inr ⟨by omega, _, by rw [hm]; rfl⟩

mutual

/-- No annotation list is empty, and a `view` without arguments has no argument list. -/
def Plain : Expr → Prop
  | .seq items => PlainAll items
  | .prim _ none annots => annots ≠ some []
  | .prim p (some args) annots => annots ≠ some [] ∧ (p = "view" → args ≠ []) ∧ PlainAll args
  | _ => True

/-- `Plain`, of every expression. -/
def PlainAll : List Expr → Prop
  | [] => True
  | e :: es => Plain e ∧ PlainAll es

end

theorem plainAll_iff (es : List Expr) : PlainAll es ↔ ∀ e ∈ es, Plain e := by
  induction es with
  | nil => simp [PlainAll]
  | cons e es ih => simp [PlainAll, ih]

private theorem normOption_eq {annots : Option (List JSString)} (h : annots ≠ some []) :
    Expr.normOption annots = annots := by
  rcases annots with _ | _ | _
  · rfl
  · exact absurd rfl h
  · rfl

private theorem hexOf_bytes {hex : JSString} (h : isHexPairs hex = true) :
    HexOf hex (bufferFromHex hex) := ⟨h, rfl⟩

private theorem preamble_eq (args : ℕ) (annots : Bool) :
    pad (2 * min (2 * args + annots.toNat + 3) 9) 2 =
      .ok (hexByte (UInt8.ofNat (min (2 * args + annots.toNat + 3) 9))) := by
  have hlt : min (2 * args + annots.toNat + 3) 9 < 256 ^ 1 := by omega
  have h := pad_two_mul (k := 1) (by omega) hlt
  rw [beBytes, fixedDigits, fixedDigits, Nat.mod_eq_of_lt (by omega)] at h
  simpa [toHex] using h

private theorem pad_zero : pad 0 8 = .ok (toHex (beBytes 4 0)) :=
  pad_two_mul (k := 4) (n := 0) (by omega) (by omega)

private theorem emits_framedArgs {s : JSString} {bs : Bytes} (h : HexOf s bs) :
    Emits (bs.length < 2 ^ 32) (lengthPrefixed bs ++ lengthPrefixed []) (framedArgs s) := by
  unfold framedArgs
  rcases Nat.lt_or_ge bs.length (2 ^ 32) with hl | hl
  · refine .inl ⟨hl, toHex (beBytes 4 bs.length) ++ s ++ toHex (beBytes 4 0), ?_, ?_⟩
    · rw [h.pad_eq (k := 4) (by omega) (by simpa using hl), pad_zero]
      rfl
    · exact ((hexOf_toHex _).append h).append (by simpa [lengthPrefixed] using hexOf_toHex (beBytes 4 0))
  · obtain ⟨m, hm⟩ := h.pad_eq_error (k := 4) (by omega) (by simpa using hl)
    exact .inr ⟨by omega, _, by rw [hm]; rfl⟩

private theorem emits_len {s : JSString} {bs : Bytes} (h : HexOf s bs) :
    Emits (bs.length < 2 ^ 32) (lengthPrefixed bs) (do let len ← pad s.length 8; return len ++ s) := by
  rcases Nat.lt_or_ge bs.length (2 ^ 32) with hl | hl
  · refine .inl ⟨hl, toHex (beBytes 4 bs.length) ++ s, ?_, (hexOf_toHex _).append h⟩
    rw [h.pad_eq (k := 4) (by omega) (by simpa using hl)]
    rfl
  · obtain ⟨m, hm⟩ := h.pad_eq_error (k := 4) (by omega) (by simpa using hl)
    exact .inr ⟨by omega, _, by rw [hm]; rfl⟩

/-- The arguments' part of the text, without the annotations of an unframed pair. -/
private theorem emits_frameArgs {p : String} {args : Option ℕ} {n : ℕ} {s t : JSString} {bs : Bytes}
    {annots : Option Bytes} (h : HexOf s bs) (hlen : args.getD 0 = n)
    (hview : p = "view" → args.isSome = true → n ≠ 0) (ht : t = [] ↔ annots = none) :
    Emits ((isFramed p n || (isPair p && 2 < n)) = true → bs.length < 2 ^ 32)
      (if isFramed p n then lengthPrefixed bs ++ lengthPrefixed []
        else if isPair p && 2 < n then lengthPrefixed bs ++ (if annots.isSome then [] else lengthPrefixed [])
        else bs)
      (frameArgs p args s t) := by
  unfold frameArgs
  rw [hlen]
  cases hlam : (isLambda p && n != 0) with
  | true =>
    have hf : isFramed p n = true := by
      simp only [Bool.and_eq_true] at hlam
      simp [isFramed, hlam.1, hlam.2]
    simpa [hf] using emits_framedArgs h
  | false =>
  cases hpair : (isPair p && decide (2 < n)) with
  | true =>
    have hf : isFramed p n = false := by
      simp only [Bool.and_eq_true, isPair, Bool.or_eq_true, beq_iff_eq] at hpair
      rcases hpair.1 with rfl | rfl <;> simp [isFramed, isLambda]
    cases annots with
    | none =>
      have hnil : t = [] := ht.mpr rfl
      simpa [hf, hnil] using emits_framedArgs h
    | some a =>
      have hne : ¬ t = [] := by simp [ht]
      simpa [hf, hne] using emits_len h
  | false =>
  cases hv : (p == "view" && args.isSome) with
  | true =>
    have hf : isFramed p n = true := by
      simp only [Bool.and_eq_true, beq_iff_eq] at hv
      simp [isFramed, hv.1, hview hv.1 hv.2]
    simpa [hf] using emits_framedArgs h
  | false =>
    have hf : isFramed p n = false := by
      rw [isFramed, Bool.and_eq_false_iff]
      by_cases hn : n = 0
      · exact .inr (by simp [hn])
      · have hsome : args.isSome = true := by
          cases args with
          | none => simp at hlen; omega
          | some k => rfl
        rw [hsome, Bool.and_true] at hv
        rw [bne_iff_ne.mpr hn, Bool.and_true] at hlam
        exact .inl (by simp [hlam, hv])
    simp only [hf, Bool.or_self, Bool.false_eq_true, if_false]
    exact .inl ⟨fun he => absurd he (by simp), s, rfl, h⟩

/-- The annotations' part of the text. -/
private theorem emits_annots (annots : Option (List JSString)) :
    Emits (((annots.map fun ws => utf8Encode (joinWords ws)).getD []).length < 2 ^ 32)
      ((annots.map fun ws => utf8Encode (joinWords ws)).elim [] lengthPrefixed)
      (encodedAnnots annots) := by
  cases annots with
  | none => exact .inl ⟨by simp, [], rfl, hexOf_toHex []⟩
  | some ws => exact emits_encodeAnnots ws

/-- `primEncoder`, given what the arguments encode to. -/
theorem emits_primEncoder {p : String} {code : ℕ} (hp : MichelCodec.primTags p = some code)
    {args : Option ℕ} {x : Except ForgeError JSString} {ns : List Node}
    {annots : Option (List JSString)} (hx : Emits (ForgedFitsAll ns) (forgedWires ns) x)
    (hlen : args.getD 0 = ns.length) (hview : p = "view" → args.isSome = true → ns.length ≠ 0)
    (hann : annots ≠ some []) :
    Emits (ForgedFits (.prim (UInt8.ofNat code) ns (annotBytes annots)))
      (forgedWire (.prim (UInt8.ofNat code) ns (annotBytes annots)))
      (primEncoder p args x annots) := by
  have hsome : annots.isSome = (annotBytes annots).isSome := by
    rw [annotBytes, normOption_eq hann, Option.isSome_map]
  have hparts := emits_annots annots
  rw [show (annots.map fun ws => utf8Encode (joinWords ws)) = annotBytes annots by
    rw [annotBytes, normOption_eq hann]] at hparts
  unfold primEncoder
  rw [hlen, hsome, preamble_eq, opMappingReverse_eq, hp, ForgedFits, forgedWire,
    nameOf_primTags hp]
  simp only [Except.ok_bind, Option.map_some]
  generalize UInt8.ofNat (min (2 * ns.length + (annotBytes annots).isSome.toNat + 3) 9) = tag
  rcases hx with ⟨hfits, s, rfl, hs⟩ | ⟨hfits, e, rfl⟩
  · rcases hparts with ⟨hafits, t, hteq, ht⟩ | ⟨hafits, e, hteq⟩
    · have hnil : t = [] ↔ annotBytes annots = none := by
        constructor
        · rintro rfl
          have := ht.length
          cases hab : annotBytes annots with
          | none => rfl
          | some a => simp [hab] at this
        · intro hab
          rw [hab] at ht
          exact List.eq_nil_of_length_eq_zero ht.length
      rcases emits_frameArgs hs hlen hview hnil with ⟨hffits, u, hu, huhex⟩ | ⟨hffits, e, he⟩
      · refine .inl ⟨⟨hfits, hafits, hffits⟩, hexByte tag ++ hexByte (UInt8.ofNat code) ++ u ++ t,
          by simp [hteq, hu], ?_⟩
        have hall := (((hexOf_toHex [tag]).append (hexOf_toHex [UInt8.ofNat code])).append
          huhex).append ht
        simp only [toHex, List.flatMap_cons, List.flatMap_nil, List.append_nil] at hall
        refine Eq.mp (congrArg _ ?_) hall
        cases annotBytes annots with
        | none =>
          simp only [Option.isSome_none, Bool.false_eq_true, if_false, Option.elim_none,
            Option.getD_none]
          split_ifs <;> simp
        | some a =>
          simp only [Option.isSome_some, if_true, Option.elim_some, Option.getD_some]
          split_ifs <;> simp
      · exact .inr ⟨fun h => hffits h.2.2, e, by simp [hteq, he]⟩
    · exact .inr ⟨fun h => hafits h.2.1, e, by simp [hteq]⟩
  · exact .inr ⟨fun h => hfits h.1, e, rfl⟩

/-- **What the encoder emits**, for every expression with a node. -/
theorem valueEncoder_spec (lib : BigNumberLib) {e : Expr} (hplain : Plain e) :
    ∀ {n : Node}, node (intOf lib) e = some n → Emits (ForgedFits n) (forgedWire n) (valueEncoder lib e) := by
  have all : ∀ es : List Expr, (∀ e ∈ es, Plain e) →
      (∀ e ∈ es, Plain e → ∀ {n : Node}, node (intOf lib) e = some n →
        Emits (ForgedFits n) (forgedWire n) (valueEncoder lib e)) →
      ∀ {ns : List Node}, nodes (intOf lib) es = some ns →
        Emits (ForgedFitsAll ns) (forgedWires ns) (valueEncoders lib es) := by
    intro es hpl ih
    induction es with
    | nil =>
      intro ns hns
      cases hns
      exact .inl ⟨trivial, [], rfl, hexOf_toHex []⟩
    | cons e es ihes =>
      intro ns hns
      obtain ⟨n, hn, ns', hns', rfl⟩ := (by
        simpa [nodes, Option.bind_eq_some_iff] using hns :
          ∃ n, node (intOf lib) e = some n ∧ ∃ ns', nodes (intOf lib) es = some ns' ∧ n :: ns' = ns)
      have hrest := ihes (fun x hx => hpl x (by simp [hx])) (fun x hx => ih x (by simp [hx])) hns'
      rw [valueEncoders, ForgedFitsAll, forgedWires]
      rcases ih e (by simp) (hpl e (by simp)) hn with ⟨hf, s, hs, hhex⟩ | ⟨hf, err, hs⟩
      · rcases hrest with ⟨hf', s', hs', hhex'⟩ | ⟨hf', err, hs'⟩
        · exact .inl ⟨⟨hf, hf'⟩, s ++ s', by rw [hs, hs']; rfl, hhex.append hhex'⟩
        · exact .inr ⟨fun h => hf' h.2, err, by rw [hs, hs']; rfl⟩
      · exact .inr ⟨fun h => hf h.1, err, by rw [hs]; rfl⟩
  induction e with
  | int text =>
    intro n hn
    obtain ⟨z, hz, rfl⟩ := Option.map_eq_some_iff.mp hn
    exact .inl ⟨trivial, _, intEncoder_of_parse (intOf_eq_some hz), hexOf_toHex _⟩
  | string text =>
    intro n hn
    cases hn
    have h := emits_lengthPrefixed (hexOf_toHex (utf8Encode text)) (js "01") (b := 1) (by decide)
    simpa [valueEncoder, stringEncoder, ForgedFits, forgedWire] using h
  | bytes hex =>
    intro n hn
    rw [node] at hn
    split at hn
    · next hhex =>
      cases hn
      have h := emits_lengthPrefixed (hexOf_bytes hhex) (js "0a") (b := 10) (by decide)
      simpa [valueEncoder, bytesEncoder, hhex, ForgedFits, forgedWire] using h
    · cases hn
  | seq items ih =>
    intro n hn
    obtain ⟨ns, hns, rfl⟩ := Option.map_eq_some_iff.mp hn
    rw [Plain, plainAll_iff] at hplain
    rw [valueEncoder, ForgedFits, forgedWire]
    rcases all items hplain ih hns with ⟨hf, s, hs, hhex⟩ | ⟨hf, err, hs⟩
    · rw [hs]
      rcases emits_lengthPrefixed hhex (js "02") (b := 2) (by decide) with ⟨hl, h⟩ | ⟨hl, h⟩
      · exact .inl ⟨⟨hf, hl⟩, h⟩
      · exact .inr ⟨fun h => hl h.2, h⟩
    · exact .inr ⟨fun h => hf h.1, err, by rw [hs]; rfl⟩
  | prim p args annots ih =>
    intro n hn
    obtain ⟨code, ns, hcode, hns, rfl⟩ := node_prim_eq_some.mp hn
    have hlen := nodes_length hns
    cases args with
    | none =>
      obtain rfl : ns = [] := by simpa using hlen.symm
      exact emits_primEncoder hcode (.inl ⟨trivial, [], rfl, hexOf_toHex []⟩) rfl
        (fun _ h => by cases h) hplain
    | some args =>
      obtain ⟨hann, hview, hargs⟩ := hplain
      refine emits_primEncoder hcode (all args ((plainAll_iff _).mp hargs) ih hns) hlen
        (fun hv _ he => hview hv ?_) hann
      rw [Option.getD_some] at hlen
      exact List.eq_nil_of_length_eq_zero (hlen.trans he)

end LocalForging
