import Taquito.LocalForging.MichelsonDecoding
import Taquito.LocalForging.MichelsonEncoding

/-!
# Round trip of the Micheline codec of the forger

On the expressions whose arity and annotations the codec has a rule for (`ForgerShape`), what the
encoder emits is the layout of the format (`aligned_of_forgerShape`), and the node is regular
(`regular_of_forgerShape`), so the decoder reads it back (`valueDecode_valueEncoder`).
-/

open BigEndian Varint Js Micheline Reader

namespace LocalForging

/-! ## Annotation texts -/

private theorem le_of_mem_joinWords {k : ℕ} (hk : k ≤ 0x20) : ∀ {ws : List JSString},
    (∀ w ∈ ws, ∀ c ∈ w, k ≤ c.toNat) → ∀ c ∈ joinWords ws, k ≤ c.toNat
  | [], _, c, hc => by simp [joinWords] at hc
  | [w], h, c, hc => by
    rw [joinWords_singleton] at hc
    exact h w (by simp) c hc
  | w :: v :: ws, h, c, hc => by
    rw [joinWords_cons_cons] at hc
    rcases List.mem_append.mp hc with hc | hc
    · exact h w (by simp) c hc
    rcases List.mem_cons.mp hc with rfl | hc
    · exact hk
    · exact le_of_mem_joinWords hk (fun x hx => h x (by simp [List.mem_cons.mp hx])) c hc

private theorem misaligned_of_le : ∀ {t : Bytes}, (∀ b ∈ t, 0x10 ≤ b.toNat) → misaligned t = false
  | [], _ => rfl
  | [_], _ => rfl
  | b :: c :: t, h => by
    have hc := h c (by simp)
    rw [misaligned, misaligned_of_le fun x hx => h x (List.mem_cons_of_mem _ hx), Bool.or_false,
      Bool.and_eq_false_iff]
    exact .inr (by rw [decide_eq_false_iff_not]; omega)

/-- The text of a list of words is one the decoders agree on, and does not start with a space. -/
theorem regularAnnots_words {ws : List JSString} (hne : ws ≠ []) (h : ∀ w ∈ ws, IsWord w) :
    regularAnnots false (utf8Encode (joinWords ws)) = true ∧
      (utf8Encode (joinWords ws)).head? ≠ some 0x20 := by
  obtain ⟨w, ws, rfl⟩ := List.exists_cons_of_ne_nil hne
  have hw := h w (by simp)
  obtain ⟨b, bs, hb⟩ := List.exists_cons_of_ne_nil fun he => hw.1 (utf8Encode_eq_nil he)
  have hlt : 0x21 ≤ b.toNat :=
    le_of_mem_utf8Encode (by omega) (fun c hc => hw.2.2 c hc) (hb ▸ List.mem_cons_self)
  obtain ⟨tail, htail⟩ : ∃ tail, utf8Encode (joinWords (w :: ws)) = b :: tail := by
    cases ws with
    | nil => exact ⟨bs, by rw [joinWords_singleton, hb]⟩
    | cons v ws => exact ⟨_, by rw [joinWords_cons_cons, utf8Encode_space, hb, List.cons_append]⟩
  have hal : misaligned (utf8Encode (joinWords (w :: ws))) = false := by
    refine misaligned_of_le fun x hx => ?_
    refine le_of_mem_utf8Encode (k := 0x10) (by omega) ?_ hx
    exact le_of_mem_joinWords (by omega) fun v hv c hc => by have := (h v hv).2.2 c hc; omega
  rw [htail] at hal ⊢
  refine ⟨by simp [regularAnnots, hal], ?_⟩
  rw [List.head?_cons, ne_eq, Option.some.injEq]
  rintro rfl
  simp at hlt

/-! ## The expressions the codec has a rule for -/

/-- The arities and annotations of a primitive. -/
def ForgerArity (p : String) (args : ℕ) (annots : Option (List JSString)) : Prop :=
  if isPair p then True
  else if isLambda p then args = 3 ∧ annots = none
  else if p = "view" then args = 4 ∧ annots = none
  else args ≤ 2

mutual

/-- Pairs of any arity, `LAMBDA` and `LAMBDA_REC` of three arguments, `view` of four, these three
without annotations, any other primitive of at most two; annotations absent or not empty. -/
def ForgerShape : Expr → Prop
  | .seq items => ForgerShapes items
  | .prim p none annots => ForgerArity p 0 annots ∧ annots ≠ some []
  | .prim p (some args) annots =>
    ForgerArity p args.length annots ∧ annots ≠ some [] ∧ ForgerShapes args
  | _ => True

/-- `ForgerShape`, of every expression. -/
def ForgerShapes : List Expr → Prop
  | [] => True
  | e :: es => ForgerShape e ∧ ForgerShapes es

end

theorem forgerShapes_iff (es : List Expr) : ForgerShapes es ↔ ∀ e ∈ es, ForgerShape e := by
  induction es with
  | nil => simp [ForgerShapes]
  | cons e es ih => simp [ForgerShapes, ih]

theorem forgerShape_prim {p : String} {args : Option (List Expr)} {annots : Option (List JSString)} :
    ForgerShape (.prim p args annots) ↔ ForgerArity p (args.getD []).length annots ∧
      annots ≠ some [] ∧ ∀ e ∈ args.getD [], ForgerShape e := by
  cases args <;> simp [ForgerShape, forgerShapes_iff]

theorem plain_of_forgerShape {e : Expr} (h : ForgerShape e) : Plain e := by
  induction e with
  | int | string | bytes => trivial
  | seq items ih =>
    rw [ForgerShape, forgerShapes_iff] at h
    rw [Plain, plainAll_iff]
    exact fun e he => ih e he (h e he)
  | prim p args annots ih =>
    obtain ⟨har, hann, hargs⟩ := forgerShape_prim.mp h
    cases args with
    | none => exact hann
    | some args =>
      refine ⟨hann, ?_, (plainAll_iff _).mpr fun e he => ih e he (hargs e he)⟩
      rintro rfl rfl
      simp [ForgerArity, isPair, isLambda] at har

/-! ## Layout and regularity -/

private theorem regularAnnots_annotBytes {annots : Option (List JSString)}
    (hw : ∀ w ∈ annots.getD [], IsWord w) :
    ∀ t, annotBytes annots = some t →
      regularAnnots false t = true ∧ t.head? ≠ some 0x20 := by
  intro t ht
  rcases annots with _ | _ | ⟨w, ws⟩
  · cases ht
  · cases ht
  · cases ht
    exact regularAnnots_words (by simp) hw

private theorem regularPrim_of_arity {p : String} {args : ℕ} {annots : Option (List JSString)}
    (har : ForgerArity p args annots) (hw : ∀ w ∈ annots.getD [], IsWord w) :
    RegularPrim false p args (annotBytes annots) := by
  have hreg := regularAnnots_annotBytes hw
  have hlam_pair : isLambda p = true → isPair p = false := fun hl => by
    simp only [isLambda, Bool.or_eq_true, beq_iff_eq] at hl
    rcases hl with rfl | rfl <;> rfl
  unfold ForgerArity at har
  rw [RegularPrim]
  split_ifs with h3
  · split_ifs at har with hpair hlam hview
    · refine ⟨fun hl => ?_, ?_, fun t ht => (hreg t ht).1⟩
      · rw [hlam_pair hl] at hpair
        cases hpair
      · rintro rfl
        cases hpair
    · omega
    · omega
    · exact ⟨fun hl => absurd hl hlam, fun hv => absurd hv hview, fun t ht => (hreg t ht).1⟩
  · split_ifs at har with hpair hlam hview
    · exact .inl ⟨hpair, hreg⟩
    · obtain ⟨rfl, rfl⟩ := har
      exact .inr (.inl ⟨hlam, rfl, rfl⟩)
    · obtain ⟨rfl, rfl⟩ := har
      exact .inr (.inr ⟨hview, rfl, rfl⟩)
    · omega

theorem aligned_of_forgerShape {e : Expr} (h : ForgerShape e) : Aligned e := by
  induction e with
  | int | string | bytes => trivial
  | seq items ih =>
    rw [ForgerShape, forgerShapes_iff] at h
    rw [Aligned, alignedAll_iff]
    exact fun e he => ih e he (h e he)
  | prim p args annots ih =>
    obtain ⟨har, -, hargs⟩ := forgerShape_prim.mp h
    refine aligned_prim.mpr ⟨?_, fun e he => ih e he (hargs e he)⟩
    generalize (args.getD []).length = k at har
    unfold ForgerArity at har
    unfold AlignedPrim
    split_ifs at har with hpair hlam hview
    · have hframed : isFramed p k = false := by
        simp only [isPair, Bool.or_eq_true, beq_iff_eq] at hpair
        rcases hpair with rfl | rfl <;> simp [isFramed, isLambda]
      simp [hframed, hpair]
    · obtain ⟨rfl, rfl⟩ := har
      simp [isFramed, hlam, annotated]
    · obtain ⟨rfl, rfl⟩ := har
      simp [isFramed, hview, annotated]
    · have hframed : isFramed p k = false := by simp [isFramed, hlam, hview]
      rw [hframed]
      exact .inr (by omega)

section

variable {lib : BigNumberLib}

/-- The node of such an expression is one every decoder reads in the same way. -/
theorem regular_of_forgerShape {e : Expr} (hc : Canonical e) (hs : ForgerShape e) :
    ∀ {n : Node}, node (intOf lib) e = some n → Regular false n := by
  have all : ∀ {es : List Expr} {ns : List Node}, (∀ e ∈ es, ∀ {n : Node},
      node (intOf lib) e = some n → Regular false n) → nodes (intOf lib) es = some ns →
      RegularAll false ns := by
    intro es ns ih hns
    induction nodes_eq_some.mp hns with
    | nil => trivial
    | cons hn hrest ihes =>
      exact ⟨ih _ (by simp) hn, ihes (fun x hx => ih x (by simp [hx])) (nodes_eq_some.mpr hrest)⟩
  induction e with
  | int text =>
    intro n hn
    obtain ⟨z, -, rfl⟩ := Option.map_eq_some_iff.mp hn
    trivial
  | string text =>
    intro n hn
    cases hn
    exact fun h => by cases h
  | bytes hex =>
    intro n hn
    rw [node] at hn
    split at hn
    · cases hn
      trivial
    · cases hn
  | seq items ih =>
    intro n hn
    obtain ⟨ns, hns, rfl⟩ := Option.map_eq_some_iff.mp hn
    rw [Canonical, canonicalAll_iff] at hc
    rw [ForgerShape, forgerShapes_iff] at hs
    exact all (fun e he => ih e he (hc e he) (hs e he)) hns
  | prim p args annots ih =>
    intro n hn
    obtain ⟨code, ns, hcode, hns, rfl⟩ := node_prim_eq_some.mp hn
    obtain ⟨-, hcargs, hwords⟩ := canonical_prim.mp hc
    obtain ⟨har, -, hsargs⟩ := forgerShape_prim.mp hs
    refine ⟨⟨p, ?_, by simp, ?_⟩, all (fun e he => ih e he (hcargs e he) (hsargs e he)) hns⟩
    · have hlt := MichelCodec.primTags_lt hcode
      rw [show (UInt8.ofNat code).toNat = code by simp; omega]
      exact MichelCodec.primTags_eq_some hcode
    · rw [nodes_length hns] at har
      exact regularPrim_of_arity har hwords

/-! ## The round trip -/

/-- **The forger decodes what it encodes**, and leaves what follows it. -/
theorem valueDecode_valueEncoder (hlib : lib.Lawful) {e : Expr} {n : Node} (hc : Canonical e)
    (hs : ForgerShape e) (hn : node (intOf lib) e = some n) (hfit : Fits n) :
    ∃ hex, valueEncoder lib e = .ok hex ∧ HexOf hex (wire n) ∧
      ∀ rest, ∃ e', valueDecode (wire n ++ rest) = .ok (e', rest) ∧ e'.norm = e.norm := by
  obtain ⟨hwire, hfits⟩ := forgedWire_eq (aligned_of_forgerShape hs) hn
  have hreg := regular_of_forgerShape hc hs hn
  have hexpr : expr n = e.norm := by
    have hint : ∀ z, intOf lib (intText z) = some z := fun z =>
      intOf_of_decimal hlib (decimalValue_intText z)
    obtain ⟨m, hm, he⟩ := expr_node hint hc
    rw [hn] at hm
    cases hm
    exact he
  rcases valueEncoder_spec lib (plain_of_forgerShape hs) hn with ⟨-, hex, hok, hhex⟩ | ⟨hnot, -⟩
  · refine ⟨hex, hok, hwire ▸ hhex, fun rest => ?_⟩
    have hdepth : depth n ≤ (wire n ++ rest).length + 1 := by
      have := depth_le_length n
      rw [List.length_append]
      omega
    have hread := readNode_wire hfit hreg hdepth rest
    obtain ⟨e', he', hnorm⟩ := (follows_readNode false _ _).1 _ _ hread
    exact ⟨e', he', by rw [hnorm, hexpr]⟩
  · exact absurd (hfits.mpr hfit) hnot

end

/-- A comb with annotations, through both sides. -/
theorem valueDecode_valueEncoder_comb : ∃ hex,
    valueEncoder .decimal (.prim "Pair" (some [.int (js "-1"), .string (js "a"), .bytes (js "00")])
        (some [js ":p", js "%f"])) = .ok hex ∧
      HexOf hex (wire (.prim 7 [.int (-1), .string [97], .bytes [0]]
        (some [58, 112, 32, 37, 102]))) ∧
      ∀ rest, ∃ e', valueDecode (wire (.prim 7 [.int (-1), .string [97], .bytes [0]]
            (some [58, 112, 32, 37, 102])) ++ rest) = .ok (e', rest) ∧
        e'.norm = Expr.norm (.prim "Pair" (some [.int (js "-1"), .string (js "a"), .bytes (js "00")])
          (some [js ":p", js "%f"])) := by
  refine valueDecode_valueEncoder BigNumberLib.lawful_decimal ?_ ?_ rfl ?_
  · refine ⟨by decide, ⟨⟨-1, rfl⟩, (by decide : wellFormed _ = true), ⟨[0], rfl⟩, trivial⟩, fun w hw => ?_⟩
    rcases List.mem_cons.mp hw with rfl | hw
    · exact isWord_of_test (by decide)
    · rw [List.mem_singleton.mp hw]
      exact isWord_of_test (by decide)
  · exact ⟨by simp [ForgerArity, isPair], by simp, trivial, trivial, trivial, trivial⟩
  · exact fits_of_length (by decide)

/-- A lone surrogate comes back as the replacement character. -/
theorem valueDecode_surrogate :
    valueEncoder .decimal (.string [0xD800]) = .ok (js "0100000003efbfbd") ∧
      valueDecode (bufferFromHex (js "0100000003efbfbd")) = .ok (.string [0xFFFD], []) ∧
      ¬ ∃ e' : Expr, valueDecode (bufferFromHex (js "0100000003efbfbd")) = .ok (e', []) ∧
        e'.norm = Expr.norm (.string [0xD800]) := by
  have h : valueDecode (bufferFromHex (js "0100000003efbfbd")) = .ok (.string [0xFFFD], []) := rfl
  refine ⟨rfl, h, ?_⟩
  rintro ⟨e', he', hn⟩
  rw [h] at he'
  cases he'
  exact absurd (Expr.string.inj hn) (by decide)

end LocalForging
