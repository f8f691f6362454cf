import Taquito.Lib.Varint
import Taquito.Micheline.Primitives

/-!
# The binary form of Micheline

What the codecs of both packages are about, stated once and without their code. A `Node` is an
expression with its literals and names resolved to what they denote: an integer, octets, the code
of a primitive. `wire` lays a node out, `node` resolves an expression (each codec has its own
reading of integer texts, so that is a parameter) and `expr` writes a node back as an expression.
`expr_node` says the two conversions undo each other on expressions in canonical form, up to absent
and empty lists.
-/

open BigEndian Varint Js

namespace Micheline

/-- A Micheline node: literals as what they denote, the annotations as their joined text. -/
inductive Node where
  | int (z : ℤ)
  | string (text : Bytes)
  | bytes (content : Bytes)
  | seq (items : List Node)
  | prim (code : UInt8) (args : List Node) (annots : Option Bytes)
  deriving Repr

/-- Induction with one hypothesis for every member of a sequence or argument list. -/
@[elab_as_elim, induction_eliminator]
theorem Node.induct {P : Node → Prop} (int : ∀ z, P (.int z)) (string : ∀ t, P (.string t))
    (bytes : ∀ b, P (.bytes b)) (seq : ∀ items, (∀ n ∈ items, P n) → P (.seq items))
    (prim : ∀ code args annots, (∀ n ∈ args, P n) → P (.prim code args annots)) (n : Node) : P n :=
  @Node.rec P (fun items => ∀ n ∈ items, P n) int string bytes seq prim (by simp)
    (fun _ _ hd tl => by simpa using ⟨hd, tl⟩) n

/-! ## Layout -/

/-- Octets behind their length on four octets. -/
def lengthPrefixed (bs : Bytes) : Bytes := beBytes 4 bs.length ++ bs

/-- The tag of a primitive with `args` arguments. -/
def primTag (args : ℕ) (annots : Bool) : UInt8 := UInt8.ofNat (3 + 2 * args + annots.toNat)

mutual

/-- The octets of a node. -/
def wire : Node → Bytes
  | .int z => 0 :: intBytes z
  | .string text => 1 :: lengthPrefixed text
  | .bytes content => 10 :: lengthPrefixed content
  | .seq items => 2 :: lengthPrefixed (wires items)
  | .prim code args annots =>
    if args.length < 3 then
      primTag args.length annots.isSome :: code :: (wires args ++ annots.elim [] lengthPrefixed)
    else 9 :: code :: (lengthPrefixed (wires args) ++ lengthPrefixed (annots.getD []))

/-- The octets of a list of nodes, end to end. -/
def wires : List Node → Bytes
  | [] => []
  | n :: ns => wire n ++ wires ns

end

theorem wires_eq_flatMap (ns : List Node) : wires ns = ns.flatMap wire := by
  induction ns with
  | nil => rfl
  | cons n ns ih => rw [wires, ih, List.flatMap_cons]

theorem wire_ne_nil (n : Node) : wire n ≠ [] := by
  cases n <;> simp [wire]
  split <;> simp

@[simp] theorem lengthPrefixed_length (bs : Bytes) : (lengthPrefixed bs).length = bs.length + 4 := by
  simp [lengthPrefixed]
  omega

mutual

/-- Every length the node announces fits on four octets. -/
def Fits : Node → Prop
  | .int _ => True
  | .string text => text.length < 2 ^ 32
  | .bytes content => content.length < 2 ^ 32
  | .seq items => FitsAll items ∧ (wires items).length < 2 ^ 32
  | .prim _ args annots =>
    FitsAll args ∧ (3 ≤ args.length → (wires args).length < 2 ^ 32) ∧
      (annots.getD []).length < 2 ^ 32

/-- `Fits`, of every node. -/
def FitsAll : List Node → Prop
  | [] => True
  | n :: ns => Fits n ∧ FitsAll ns

end

theorem fitsAll_iff (ns : List Node) : FitsAll ns ↔ ∀ n ∈ ns, Fits n := by
  induction ns with
  | nil => simp [FitsAll]
  | cons n ns ih => simp [FitsAll, ih]

theorem wire_length_le_wires {n : Node} {ns : List Node} (h : n ∈ ns) :
    (wire n).length ≤ (wires ns).length := by
  rw [wires_eq_flatMap]
  exact (List.sublist_flatten_of_mem (List.mem_map_of_mem h)).length_le

/-- A node of at most `2 ^ 32` octets announces no length that does not fit. -/
theorem fits_of_length {n : Node} (h : (wire n).length ≤ 2 ^ 32) : Fits n := by
  induction n with
  | int z => trivial
  | string t | bytes t =>
    rw [wire, List.length_cons, lengthPrefixed_length] at h
    rw [Fits]
    omega
  | seq items ih =>
    rw [wire, List.length_cons, lengthPrefixed_length] at h
    rw [Fits, fitsAll_iff]
    refine ⟨fun n hn => ih n hn ?_, by omega⟩
    have := wire_length_le_wires hn
    omega
  | prim code args annots ih =>
    have hw : (wires args).length ≤ (wire (.prim code args annots)).length := by
      rw [wire]
      split <;> simp only [List.length_cons, List.length_append, lengthPrefixed_length] <;> omega
    rw [Fits, fitsAll_iff]
    refine ⟨fun n hn => ih n hn ?_, fun h3 => ?_, ?_⟩
    · have := wire_length_le_wires hn
      omega
    · rw [wire, if_neg (by omega)] at h
      simp only [List.length_cons, List.length_append, lengthPrefixed_length] at h
      omega
    · rw [wire] at h
      cases annots with
      | none => simp
      | some a =>
        split at h <;> simp only [List.length_cons, List.length_append, lengthPrefixed_length,
          Option.elim_some, Option.getD_some] at h ⊢ <;> omega

mutual

/-- Nesting, counting the node itself. -/
def depth : Node → ℕ
  | .seq items => depths items + 1
  | .prim _ args _ => depths args + 1
  | _ => 1

/-- The deepest of a list. -/
def depths : List Node → ℕ
  | [] => 0
  | n :: ns => max (depth n) (depths ns)

end

theorem depth_pos (n : Node) : 0 < depth n := by
  cases n <;> simp [depth]

theorem depth_le_depths {n : Node} {ns : List Node} (h : n ∈ ns) : depth n ≤ depths ns := by
  induction ns with
  | nil => simp at h
  | cons m ns ih =>
    rw [depths]
    rcases List.mem_cons.mp h with rfl | h
    · exact le_max_left _ _
    · exact (ih h).trans (le_max_right _ _)

theorem depths_le {ns : List Node} {k : ℕ} (h : ∀ n ∈ ns, depth n ≤ k) : depths ns ≤ k := by
  induction ns with
  | nil => exact Nat.zero_le _
  | cons n ns ih => exact max_le (h n (by simp)) (ih fun m hm => h m (by simp [hm]))

/-- A node is no deeper than it is long. -/
theorem depth_le_length (n : Node) : depth n ≤ (wire n).length := by
  induction n with
  | int z | string t | bytes t => simp [depth, wire]
  | seq items ih =>
    have := depths_le fun n hn => (ih n hn).trans (wire_length_le_wires hn)
    rw [depth, wire, List.length_cons, lengthPrefixed_length]
    omega
  | prim code args annots ih =>
    have := depths_le fun n hn => (ih n hn).trans (wire_length_le_wires hn)
    rw [depth, wire]
    split <;> simp only [List.length_cons, List.length_append, lengthPrefixed_length] <;> omega

/-! ## Expressions and nodes -/

/-- Annotation words as one text. -/
def joinWords (words : List JSString) : JSString := List.intercalate [0x20] words

/-- The annotation words of a text. -/
def splitWords (text : JSString) : List JSString := text.splitOn 0x20

/-- The octets of an annotation list; an empty list is the same as an absent one. -/
def annotBytes (annots : Option (List JSString)) : Option Bytes :=
  (Expr.normOption annots).map fun words => utf8Encode (joinWords words)

section

variable (intOf : JSString → Option ℤ)

mutual

/-- The node of an expression whose integers are read by `intOf`: `none` if one of them is not a
number for it, octets are not hexadecimal pairs, or a primitive has no code. -/
def node : Expr → Option Node
  | .int text => (intOf text).map .int
  | .string text => some (.string (utf8Encode text))
  | .bytes hex => if isHexPairs hex then some (.bytes (bufferFromHex hex)) else none
  | .seq items => (nodes items).map .seq
  | .prim p none annots => do
    let code ← MichelCodec.primTags p
    return .prim (UInt8.ofNat code) [] (annotBytes annots)
  | .prim p (some args) annots => do
    let code ← MichelCodec.primTags p
    let args ← nodes args
    return .prim (UInt8.ofNat code) args (annotBytes annots)

/-- The nodes of a list of expressions. -/
def nodes : List Expr → Option (List Node)
  | [] => some []
  | e :: es => do
    let n ← node e
    let ns ← nodes es
    return n :: ns

end

end

variable {intOf : JSString → Option ℤ}

theorem nodes_eq_some {es : List Expr} {ns : List Node} :
    nodes intOf es = some ns ↔ List.Forall₂ (fun e n => node intOf e = some n) es ns := by
  induction es generalizing ns with
  | nil => simp [nodes, eq_comm]
  | cons e es ih =>
    simp only [nodes, Option.bind_eq_bind, Option.bind_eq_some_iff, Option.pure_def,
      Option.some.injEq, List.forall₂_cons_left_iff, ih]
    constructor
    · rintro ⟨n, hn, ms, hms, rfl⟩
      exact ⟨n, ms, hn, hms, rfl⟩
    · rintro ⟨n, ms, hn, hms, rfl⟩
      exact ⟨n, hn, ms, hms, rfl⟩

theorem nodes_length {es : List Expr} {ns : List Node} (h : nodes intOf es = some ns) :
    es.length = ns.length := (nodes_eq_some.mp h).length_eq

theorem node_prim_eq_some {p : String} {args : Option (List Expr)}
    {annots : Option (List JSString)} {n : Node} :
    node intOf (.prim p args annots) = some n ↔
      ∃ code ns, MichelCodec.primTags p = some code ∧ nodes intOf (args.getD []) = some ns ∧
        n = .prim (UInt8.ofNat code) ns (annotBytes annots) := by
  cases args with
  | none => simp [node, nodes, Option.bind_eq_some_iff, @eq_comm _ n]
  | some args => simp [node, Option.bind_eq_some_iff, @eq_comm _ n]

/-- A reading of integers that extends another one finds the same node. -/
theorem node_mono {f g : JSString → Option ℤ} (hfg : ∀ t z, f t = some z → g t = some z) {e : Expr} :
    ∀ {n : Node}, node f e = some n → node g e = some n := by
  have all : ∀ {es : List Expr} {ns : List Node},
      (∀ e ∈ es, ∀ {n : Node}, node f e = some n → node g e = some n) →
      nodes f es = some ns → nodes g es = some ns := by
    intro es ns ih h
    rw [nodes_eq_some] at h ⊢
    induction h with
    | nil => exact .nil
    | cons hn _ ihes => exact .cons (ih _ (by simp) hn) (ihes fun e he => ih e (by simp [he]))
  induction e with
  | int text =>
    intro n hn
    obtain ⟨z, hz, rfl⟩ := Option.map_eq_some_iff.mp hn
    rw [node, hfg _ _ hz, Option.map_some]
  | string text | bytes hex => exact fun hn => hn
  | seq items ih =>
    intro n hn
    obtain ⟨ns, hns, rfl⟩ := Option.map_eq_some_iff.mp hn
    rw [node, all ih hns, Option.map_some]
  | prim p args annots ih =>
    intro n hn
    obtain ⟨code, ns, hcode, hns, rfl⟩ := node_prim_eq_some.mp hn
    exact node_prim_eq_some.mpr ⟨code, ns, hcode, all ih hns, rfl⟩

/-- Empty and absent lists have the same node. -/
theorem node_norm {f : JSString → Option ℤ} (e : Expr) : node f e.norm = node f e := by
  have all : ∀ es : List Expr, (∀ e ∈ es, node f e.norm = node f e) →
      nodes f (es.map Expr.norm) = nodes f es := by
    intro es ih
    induction es with
    | nil => rfl
    | cons e es ihes =>
      rw [List.map_cons, nodes, nodes, ih e (by simp), ihes fun x hx => ih x (by simp [hx])]
  induction e with
  | int text | string text | bytes hex => rfl
  | seq items ih => rw [Expr.norm_seq, node, node, all items ih]
  | prim p args annots ih =>
    have hann : annotBytes (Expr.normOption annots) = annotBytes annots := by
      rw [annotBytes, annotBytes, Expr.normOption_normOption]
    rw [Expr.norm_prim]
    ext n
    rw [node_prim_eq_some, node_prim_eq_some, hann, Expr.normOption_map_norm_getD, all _ ih]

mutual

/-- The expression of a node. -/
def expr : Node → Expr
  | .int z => .int (intText z)
  | .string text => .string (utf8Decode text)
  | .bytes content => .bytes (toHex content)
  | .seq items => .seq (exprs items)
  | .prim code args annots =>
    .prim (MichelCodec.primitives.getD code.toNat "")
      (if args.length = 0 then none else some (exprs args))
      (annots.map fun text => splitWords (utf8Decode text))

/-- The expressions of a list of nodes. -/
def exprs : List Node → List Expr
  | [] => []
  | n :: ns => expr n :: exprs ns

end

theorem exprs_eq_map (ns : List Node) : exprs ns = ns.map expr := by
  induction ns with
  | nil => rfl
  | cons n ns ih => rw [exprs, ih, List.map_cons]

/-! ## Canonical expressions -/

/-- A word of an annotation list: a non-empty text without spaces or control characters. -/
def IsWord (w : JSString) : Prop := w ≠ [] ∧ wellFormed w = true ∧ ∀ c ∈ w, 0x20 < c.toNat

/-- A word, from a test of it. -/
theorem isWord_of_test {w : JSString}
    (h : (!w.isEmpty && wellFormed w && w.all fun c => 0x20 < c.toNat) = true) : IsWord w := by
  simp only [Bool.and_eq_true, Bool.not_eq_true', List.isEmpty_eq_false_iff, List.all_eq_true,
    decide_eq_true_eq] at h
  exact ⟨h.1.1, h.1.2, h.2⟩

mutual

/-- Canonical literals, known primitives, and annotations that are lists of words. -/
def Canonical : Expr → Prop
  | .int text => ∃ z, text = intText z
  | .string text => wellFormed text = true
  | .bytes hex => ∃ bs, hex = toHex bs
  | .seq items => CanonicalAll items
  | .prim p none annots => (MichelCodec.primTags p).isSome ∧ ∀ w ∈ annots.getD [], IsWord w
  | .prim p (some args) annots =>
    (MichelCodec.primTags p).isSome ∧ CanonicalAll args ∧ ∀ w ∈ annots.getD [], IsWord w

/-- `Canonical`, of every expression. -/
def CanonicalAll : List Expr → Prop
  | [] => True
  | e :: es => Canonical e ∧ CanonicalAll es

end

theorem canonicalAll_iff (es : List Expr) : CanonicalAll es ↔ ∀ e ∈ es, Canonical e := by
  induction es with
  | nil => simp [CanonicalAll]
  | cons e es ih => simp [CanonicalAll, ih]

theorem canonical_prim {p : String} {args : Option (List Expr)} {annots : Option (List JSString)} :
    Canonical (.prim p args annots) ↔ (MichelCodec.primTags p).isSome ∧
      (∀ e ∈ args.getD [], Canonical e) ∧ ∀ w ∈ annots.getD [], IsWord w := by
  cases args <;> simp [Canonical, canonicalAll_iff]

theorem joinWords_cons_cons (w v : JSString) (ws : List JSString) :
    joinWords (w :: v :: ws) = w ++ 0x20 :: joinWords (v :: ws) := by
  simp [joinWords, List.intercalate]

theorem joinWords_singleton (w : JSString) : joinWords [w] = w := by
  simp [joinWords, List.intercalate]

theorem utf8Decode_utf8Encode_joinWords : ∀ {ws : List JSString},
    (∀ w ∈ ws, wellFormed w = true) → utf8Decode (utf8Encode (joinWords ws)) = joinWords ws
  | [], _ => rfl
  | [w], h => by
    rw [joinWords_singleton, utf8Decode_utf8Encode (h w (by simp))]
  | w :: v :: ws, h => by
    have ih : utf8Decode (utf8Encode (joinWords (v :: ws))) = joinWords (v :: ws) :=
      utf8Decode_utf8Encode_joinWords fun x hx => h x (by simp [hx])
    rw [joinWords_cons_cons, utf8Encode_space, utf8Decode_space,
      utf8Decode_utf8Encode (h w (by simp)), ih]

theorem splitWords_joinWords {ws : List JSString} (hne : ws ≠ [])
    (h : ∀ w ∈ ws, (0x20 : UInt16) ∉ w) : splitWords (joinWords ws) = ws :=
  List.splitOn_intercalate _ h hne

theorem IsWord.space {w : JSString} (h : IsWord w) : (0x20 : UInt16) ∉ w := fun hm =>
  absurd (h.2.2 _ hm) (by decide)

/-- The words of an annotation list, through their octets. -/
theorem splitWords_annotBytes {annots : Option (List JSString)}
    (h : ∀ w ∈ annots.getD [], IsWord w) :
    (annotBytes annots).map (fun text => splitWords (utf8Decode text)) =
      Expr.normOption annots := by
  rcases annots with _ | _ | ⟨w, ws⟩
  · rfl
  · rfl
  · rw [Option.getD_some] at h
    simp only [annotBytes, Expr.normOption, Option.map_some, Option.some.injEq]
    rw [utf8Decode_utf8Encode_joinWords fun x hx => (h x hx).2.1,
      splitWords_joinWords (by simp) fun x hx => (h x hx).space]

/-- A canonical expression has a node, and is its expression up to empty lists. -/
theorem expr_node (hint : ∀ z, intOf (intText z) = some z) {e : Expr} (h : Canonical e) :
    ∃ n, node intOf e = some n ∧ expr n = e.norm := by
  have all : ∀ es : List Expr, (∀ e ∈ es, Canonical e) →
      (∀ e ∈ es, Canonical e → ∃ n, node intOf e = some n ∧ expr n = e.norm) →
      ∃ ns, nodes intOf es = some ns ∧ exprs ns = es.map Expr.norm := by
    intro es hc ih
    induction es with
    | nil => exact ⟨[], rfl, rfl⟩
    | cons e es ihes =>
      obtain ⟨n, hn, he⟩ := ih e (by simp) (hc e (by simp))
      obtain ⟨ns, hns, hes⟩ := ihes (fun x hx => hc x (by simp [hx])) fun x hx =>
        ih x (by simp [hx])
      exact ⟨n :: ns, by simp [nodes, hn, hns], by simp [exprs, he, hes]⟩
  induction e with
  | int text =>
    obtain ⟨z, rfl⟩ := h
    exact ⟨.int z, by simp [node, hint], rfl⟩
  | string text =>
    exact ⟨_, rfl, by simp [expr, Expr.norm, utf8Decode_utf8Encode h]⟩
  | bytes hex =>
    obtain ⟨bs, rfl⟩ := h
    exact ⟨.bytes bs, by simp [node, isHexPairs_toHex], by simp [expr, Expr.norm]⟩
  | seq items ih =>
    rw [Canonical, canonicalAll_iff] at h
    obtain ⟨ns, hns, hes⟩ := all items h ih
    exact ⟨.seq ns, by simp [node, hns], by rw [expr, hes, Expr.norm_seq]⟩
  | prim p args annots ih =>
    obtain ⟨hp, hargs, hw⟩ := canonical_prim.mp h
    obtain ⟨code, hcode⟩ := Option.isSome_iff_exists.mp hp
    obtain ⟨ns, hns, hes⟩ := all _ hargs ih
    refine ⟨_, node_prim_eq_some.mpr ⟨code, ns, hcode, hns, rfl⟩, ?_⟩
    have hlt := MichelCodec.primTags_lt hcode
    have hname : MichelCodec.primitives.getD (UInt8.ofNat code).toNat "" = p := by
      have hc : (UInt8.ofNat code).toNat = code := by simp; omega
      rw [hc, List.getD_eq_getElem?_getD, MichelCodec.primTags_eq_some hcode]
      rfl
    rw [expr, hname, Expr.norm_prim, splitWords_annotBytes hw, hes]
    have hlen := nodes_length hns
    rcases args with _ | _ | ⟨a, as⟩
    · simp_all [Expr.normOption]
    · simp_all [Expr.normOption]
    · simp only [Option.getD_some, List.length_cons] at hlen
      simp [Expr.normOption, show ns.length ≠ 0 by omega]

end Micheline
