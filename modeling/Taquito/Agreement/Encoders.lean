import Taquito.LocalForging.MichelsonEncoding
import Taquito.MichelCodec.Writing

/-!
# The two Micheline encoders

The forger's `valueEncoder` emits `forgedWire` of a node and untyped `packData` emits `wire` of it,
so the two agree where these layouts coincide. `Aligned` says where: no `LAMBDA`, `LAMBDA_REC` or
`view` with arguments is annotated or has fewer than three of them, and no other primitive but a
pair has more than two. On expressions with the arities of Michelson, where only the first can
fail, a misaligned node makes the forged text longer, so the condition is necessary as well.
-/

open BigEndian Varint Js Micheline LocalForging MichelCodec

namespace Agreement

/-! ## Arities -/

mutual

/-- The arities of Michelson code, types and data: only a pair, `LAMBDA`, `LAMBDA_REC` and `view`
have more than two arguments. -/
def MichelsonArity : Expr → Prop
  | .seq items => MichelsonArities items
  | .prim p (some args) _ =>
    (isPair p = true ∨ isFramed p args.length = true ∨ args.length < 3) ∧ MichelsonArities args
  | _ => True

/-- `MichelsonArity`, of every expression. -/
def MichelsonArities : List Expr → Prop
  | [] => True
  | e :: es => MichelsonArity e ∧ MichelsonArities es

end

theorem michelsonArities_iff (es : List Expr) :
    MichelsonArities es ↔ ∀ e ∈ es, MichelsonArity e := by
  induction es with
  | nil => simp [MichelsonArities]
  | cons e es ih => simp [MichelsonArities, ih]

theorem michelsonArity_prim {p : String} {args : Option (List Expr)}
    {annots : Option (List JSString)} : MichelsonArity (.prim p args annots) ↔
      (isPair p = true ∨ isFramed p (args.getD []).length = true ∨ (args.getD []).length < 3) ∧
        ∀ e ∈ args.getD [], MichelsonArity e := by
  cases args <;> simp [MichelsonArity, michelsonArities_iff]

/-! ## A misaligned node is longer -/

/-- Of the layouts of a primitive, given those of its arguments. -/
private theorem length_le_prim {code : UInt8} {ns : List Node} (annots : Option Bytes)
    (harity : isPair (nameOf code) = true ∨ isFramed (nameOf code) ns.length = true ∨ ns.length < 3)
    (hle : (wires ns).length ≤ (forgedWires ns).length) :
    (wire (.prim code ns annots)).length ≤ (forgedWire (.prim code ns annots)).length ∧
      ((forgedWire (.prim code ns annots)).length ≤ (wire (.prim code ns annots)).length →
        AlignedPrim (nameOf code) ns.length annots.isSome ∧
          (forgedWires ns).length ≤ (wires ns).length) := by
  rw [wire, forgedWire, AlignedPrim]
  by_cases hframed : isFramed (nameOf code) ns.length = true
  · rw [if_pos hframed, if_pos hframed]
    by_cases h3 : ns.length < 3
    · rw [if_pos h3]
      simp only [List.length_cons, List.length_append, lengthPrefixed_length]
      exact ⟨by omega, fun h => by omega⟩
    · rw [if_neg h3]
      cases annots with
      | none => simp; omega
      | some a =>
        simp only [List.length_cons, List.length_append, lengthPrefixed_length, Option.elim_some,
          Option.getD_some, List.length_nil]
        exact ⟨by omega, fun h => by omega⟩
  · rw [if_neg hframed, if_neg hframed]
    by_cases h3 : ns.length < 3
    · have hpair : (isPair (nameOf code) && decide (2 < ns.length)) = false := by
        simp
        omega
      rw [if_pos h3, hpair]
      simp only [Bool.false_eq_true, if_false, List.length_cons, List.length_append]
      exact ⟨by omega, fun h => ⟨.inr h3, by omega⟩⟩
    · have hname : isPair (nameOf code) = true := by
        rcases harity with h | h | h
        · exact h
        · exact absurd h hframed
        · exact absurd h h3
      have hpair : (isPair (nameOf code) && decide (2 < ns.length)) = true := by
        simp [hname]
        omega
      rw [if_neg h3, hpair]
      simp only [if_true, List.length_cons, List.length_append, lengthPrefixed_length]
      exact ⟨by omega, fun h => ⟨.inl hname, by omega⟩⟩

/-- On expressions with the arities of Michelson the forged layout is at least as long, and longer
if a primitive is misaligned. -/
theorem aligned_of_length {f : JSString → Option ℤ} {e : Expr} (har : MichelsonArity e) :
    ∀ {n : Node}, node f e = some n → (wire n).length ≤ (forgedWire n).length ∧
      ((forgedWire n).length ≤ (wire n).length → Aligned e) := by
  have all : ∀ {es : List Expr} {ns : List Node}, (∀ e ∈ es, ∀ {n : Node}, node f e = some n →
        (wire n).length ≤ (forgedWire n).length ∧
          ((forgedWire n).length ≤ (wire n).length → Aligned e)) → nodes f es = some ns →
      (wires ns).length ≤ (forgedWires ns).length ∧
        ((forgedWires ns).length ≤ (wires ns).length → ∀ e ∈ es, Aligned e) := by
    intro es ns ih hns
    induction nodes_eq_some.mp hns with
    | nil => simp [wires, forgedWires]
    | cons hn hrest ihes =>
      obtain ⟨hle, hal⟩ := ih _ (by simp) hn
      obtain ⟨hles, hals⟩ := ihes (fun x hx => ih x (by simp [hx])) (nodes_eq_some.mpr hrest)
      simp only [wires, forgedWires, List.length_append]
      refine ⟨by omega, fun h e he => ?_⟩
      rcases List.mem_cons.mp he with rfl | he
      · exact hal (by omega)
      · exact hals (by omega) e he
  induction e with
  | int text =>
    intro n hn
    obtain ⟨z, -, rfl⟩ := Option.map_eq_some_iff.mp hn
    exact ⟨le_rfl, fun _ => trivial⟩
  | string text =>
    intro n hn
    cases hn
    exact ⟨le_rfl, fun _ => trivial⟩
  | bytes hex =>
    intro n hn
    rw [node] at hn
    split at hn
    · cases hn
      exact ⟨le_rfl, fun _ => trivial⟩
    · cases hn
  | seq items ih =>
    intro n hn
    obtain ⟨ns, hns, rfl⟩ := Option.map_eq_some_iff.mp hn
    rw [MichelsonArity, michelsonArities_iff] at har
    obtain ⟨hle, hal⟩ := all (fun e he => ih e he (har e he)) hns
    simp only [wire, forgedWire, List.length_cons, lengthPrefixed_length]
    refine ⟨by omega, fun h => ?_⟩
    rw [Aligned, alignedAll_iff]
    exact hal (by omega)
  | prim p args annots ih =>
    intro n hn
    obtain ⟨code, ns, hcode, hns, rfl⟩ := node_prim_eq_some.mp hn
    obtain ⟨hp, hargs⟩ := michelsonArity_prim.mp har
    obtain ⟨hle, hal⟩ := all (fun e he => ih e he (hargs e he)) hns
    have hlen := nodes_length hns
    rw [hlen, ← nameOf_primTags hcode] at hp
    obtain ⟨hle', hal'⟩ := length_le_prim (annotBytes annots) hp hle
    refine ⟨hle', fun h => ?_⟩
    obtain ⟨hprim, hchildren⟩ := hal' h
    rw [nameOf_primTags hcode, ← hlen, annotBytes_isSome] at hprim
    exact aligned_prim.mpr ⟨hprim, hal hchildren⟩

/-! ## Agreement -/

private theorem plain_norm (e : Expr) : Plain e.norm := by
  induction e with
  | int | string | bytes => trivial
  | seq items ih =>
    rw [Expr.norm_seq, Plain, plainAll_iff]
    intro e he
    obtain ⟨x, hx, rfl⟩ := List.mem_map.mp he
    exact ih x hx
  | prim p args annots ih =>
    have hann : Expr.normOption annots ≠ some [] := by
      rcases annots with _ | _ | _ <;> simp [Expr.normOption]
    rw [Expr.norm_prim]
    rcases args with _ | _ | ⟨a, as⟩
    · exact hann
    · exact hann
    · refine ⟨hann, fun _ => by simp, (plainAll_iff _).mpr fun e he => ?_⟩
      obtain ⟨x, hx, rfl⟩ := List.mem_map.mp he
      exact ih x hx

private theorem aligned_norm {e : Expr} : Aligned e.norm ↔ Aligned e := by
  have hann : ∀ annots, annotated (Expr.normOption annots) = annotated annots := by
    rintro (_ | _ | _) <;> rfl
  induction e with
  | int | string | bytes => rfl
  | seq items ih =>
    rw [Expr.norm_seq, Aligned, Aligned, alignedAll_iff, alignedAll_iff, List.forall_mem_map]
    exact forall₂_congr fun e he => ih e he
  | prim p args annots ih =>
    rw [Expr.norm_prim, aligned_prim, aligned_prim, Expr.normOption_map_norm_getD, List.length_map,
      hann, List.forall_mem_map]
    exact and_congr_right fun _ => forall₂_congr fun e he => ih e he

/-- What the encoders have to do to agree: both return, and what the forger returns is the text of
the octets of the other, without the byte `05` in front. -/
def EncodersAgree (lib : BigNumberLib) (host : Host) (e : Expr) : Prop :=
  ∃ hex, valueEncoder lib e.norm = .ok hex ∧
    packData host e.norm none = .ok (5 :: bufferFromHex hex)

/-- **Where the two encoders agree.** Literals are decimal numerals and hexadecimal pairs, and every
length fits on four octets. -/
theorem encodersAgree_iff {lib : BigNumberLib} (hlib : lib.Lawful) (host : Host) {e : Expr} {n : Node}
    (hn : node decimalValue e = some n) (hpush : Pushless e) (hfit : Fits n) :
    (Aligned e → EncodersAgree lib host e) ∧
      (MichelsonArity e → EncodersAgree lib host e → Aligned e) := by
  have hforger : node (intOf lib) e.norm = some n := by
    rw [node_norm]
    exact node_mono (fun _ _ h => intOf_of_decimal hlib h) hn
  have hpack : packData host e.norm none = .ok (5 :: wire n) := by
    refine packData_untyped host (pushless_norm hpush) ?_
    rw [node_norm]
    exact node_mono (fun _ _ h => bigInt_of_decimal h) hn
  have hemits := valueEncoder_spec lib (plain_norm e) hforger
  constructor
  · intro hal
    obtain ⟨hwire, hfits⟩ := forgedWire_eq (aligned_norm.mpr hal) hforger
    rcases hemits with ⟨-, hex, hok, hhex⟩ | ⟨hnot, -⟩
    · exact ⟨hex, hok, by rw [hpack, hhex.2, hwire]⟩
    · exact absurd (hfits.mpr hfit) hnot
  · rintro har ⟨hex, hok, hag⟩
    rcases hemits with ⟨-, hex', hok', hhex⟩ | ⟨-, err, herr⟩
    · rw [hok] at hok'
      cases hok'
      have hwire : wire n = forgedWire n := by
        rw [hpack, hhex.2] at hag
        simpa using hag
      exact (aligned_of_length har hn).2 (by rw [hwire])
    · rw [hok] at herr
      cases herr

/-- An instruction pushing a lambda. -/
private def lambdaOf (annots : Option (List JSString)) : Expr :=
  .prim "LAMBDA" (some [.prim "unit" none none, .prim "unit" none none, .seq []]) annots

/-- Without annotations, both write a lambda in the same way. -/
theorem encodersAgree_lambda :
    (Aligned (lambdaOf none) → EncodersAgree .decimal .plain (lambdaOf none)) ∧
      (MichelsonArity (lambdaOf none) → EncodersAgree .decimal .plain (lambdaOf none) →
        Aligned (lambdaOf none)) := by
  refine encodersAgree_iff BigNumberLib.lawful_decimal .plain (n := .prim 49 [.prim 108 [] none,
    .prim 108 [] none, .seq []] none) rfl ?_ (fits_of_length (by decide))
  simp [lambdaOf, Pushless, PushlessAll]

/-- The annotations of a lambda follow a length of zero in the forged text only. -/
theorem encodersAgree_annotated : (assertMichelsonInstruction (lambdaOf (some [js "@f"]))).isOk = true ∧
    valueEncoder .decimal (lambdaOf (some [js "@f"])) =
      .ok (js "093100000009036c036c020000000000000000000000024066") ∧
    packData .plain (lambdaOf (some [js "@f"])) none =
      .ok (5 :: bufferFromHex (js "093100000009036c036c0200000000000000024066")) ∧
    ¬ EncodersAgree .decimal .plain (lambdaOf (some [js "@f"])) := by
  refine ⟨by decide, rfl, rfl, ?_⟩
  rintro ⟨hex, hok, hag⟩
  have h : valueEncoder .decimal (lambdaOf (some [js "@f"])).norm =
      .ok (js "093100000009036c036c020000000000000000000000024066") := rfl
  rw [h] at hok
  cases hok
  have h' : packData .plain (lambdaOf (some [js "@f"])).norm none =
      .ok (5 :: bufferFromHex (js "093100000009036c036c0200000000000000024066")) := rfl
  rw [h'] at hag
  exact absurd (Except.ok.inj hag) (by decide)

end Agreement
