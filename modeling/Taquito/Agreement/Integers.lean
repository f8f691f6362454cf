import Taquito.LocalForging.IntEncoding
import Taquito.LocalForging.MichelsonDecoding
import Taquito.MichelCodec.Decoding
import Taquito.MichelCodec.Writing

/-!
# The two integer codecs

`intEncoder` of the forger cuts the digits in base two, and the loop of `writeExpr` shifts the
integer; both write the tag 0 and then `intBytes`, of which no shorter octets stand for the same
integer. `intDecoder` starts behind the tag, which is consumed by `valueDecoder`; `readExpr` reads
the tag itself.
-/

open Varint Js Micheline LocalForging MichelCodec Reader

namespace Agreement

/-! ## Reading -/

theorem intDecoder_reads {u : Bytes} (h : Chunk u) :
    Reads intDecoder u (.int (intText (intValue u))) := by
  have hchunk : Reads (chunk (notEnough 1 0)) u u := chunk_reads h
  have hread := hchunk.bind_pure (f := fun bs => (pure (chunkInt bs) : Decoder Expr))
    (b := chunkInt u) (fun _ => rfl)
  rwa [chunkInt_eq h.ne_nil] at hread

/-- Octets that are read as an integer are one numeral, of that integer. -/
theorem intDecoder_eq_ok {bs rest : Bytes} {z : ℤ}
    (h : intDecoder bs = .ok (.int (intText z), rest)) :
    ∃ u, bs = u ++ rest ∧ Chunk u ∧ intValue u = z := by
  obtain ⟨u, mid, hu, hv⟩ := bind_eq_ok.mp h
  obtain ⟨hchunk, rfl⟩ := chunk_eq_ok hu
  have hread := Prod.mk.inj (Except.ok.inj hv)
  obtain rfl := hread.2
  have htext := hread.1
  rw [chunkInt_eq hchunk.ne_nil] at htext
  exact ⟨u, rfl, hchunk, intText_injective (Expr.int.inj htext)⟩

/-- The types at which the transforms of michel-codec leave an integer literal alone. -/
def isIntegerTransform : Transform → Bool
  | .passThrough => true
  | .typed (.prim p _ _) => ["int", "nat", "mutez"].contains p
  | _ => false

section

variable {host : Host} {tf : Transform}

private theorem integerTransform_cases (h : isIntegerTransform tf) :
    tf = .passThrough ∨ ∃ p args annots, tf = .typed (.prim p args annots) ∧
      (p = "int" ∨ p = "nat" ∨ p = "mutez") := by
  unfold isIntegerTransform at h
  split at h
  · exact .inl rfl
  · next p args annots =>
    refine .inr ⟨p, args, annots, rfl, ?_⟩
    simpa using h
  · cases h

theorem writeTransform_int (h : isIntegerTransform tf) (s : JSString) :
    writeTransform host tf (.int s) = .ok (.int s, .forever (.ok .passThrough)) := by
  obtain rfl | ⟨p, args, annots, rfl, rfl | rfl | rfl⟩ := integerTransform_cases h <;> rfl

theorem readResult_int (h : isIntegerTransform tf) (s : JSString) :
    readResult host tf (.int s) = .ok (.int s) := by
  obtain rfl | ⟨p, args, annots, rfl, rfl | rfl | rfl⟩ := integerTransform_cases h <;> rfl

theorem writeExpr_int (h : isIntegerTransform tf) {s : JSString} {z : ℤ}
    (hs : decimalValue s = some z) (fuel : ℕ) :
    writeExpr host (fuel + 1) tf (.int s) = .ok (0 :: intBytes z) := by
  rw [writeExpr, writeTransform_int h, Except.ok_bind]
  dsimp only
  rw [writeNode, bigInt_of_decimal hs]
  dsimp only
  rw [writeInt_eq]

theorem readExpr_int (h : isIntegerTransform tf) (z : ℤ) (fuel : ℕ) :
    Reads (readExpr host (fuel + 1) tf) (0 :: intBytes z) (.int (intText z)) := by
  have htag : Reads readUint8 [0] 0 := fun _ => rfl
  refine htag.bind (v := intBytes z) ?_
  rw [if_pos rfl]
  have hchunk : Reads (chunk boundsErr) (intBytes z) (intBytes z) := chunk_reads (intBytes_chunk z)
  have hresult := lift_reads (τ := UInt8) (@readResult_int host tf h (intText z))
  rw [← List.append_nil (intBytes z)]
  refine hchunk.bind ?_
  rw [intOfOctets_eq (intBytes_chunk z).ne_nil, intValue_intBytes]
  exact hresult

end

/-! ## The codecs -/

/-- **The integer codecs agree**: a decimal integer of any size is written by both encoders as the
same octets; behind the tag they are read back, whatever follows, and no fewer octets are read as
that integer. -/
theorem intCodecs {lib : BigNumberLib} (hlib : lib.Lawful) (host : Host) {s : JSString} {z : ℤ}
    (hs : decimalValue s = some z) : ∃ u : Bytes,
    intEncoder lib s = .ok (toHex (0 :: u)) ∧
      Reads intDecoder u (.int (intText z)) ∧ Reads valueDecode (0 :: u) (.int (intText z)) ∧
      (∀ v rest, intDecoder (v ++ rest) = .ok (.int (intText z), rest) → u.length ≤ v.length) ∧
      ∀ tf, isIntegerTransform tf → ∀ fuel,
        writeExpr host (fuel + 1) tf (.int s) = .ok (0 :: u) ∧
          Reads (readExpr host (fuel + 1) tf) (0 :: u) (.int (intText z)) := by
  have hread := intDecoder_reads (intBytes_chunk z)
  rw [intValue_intBytes] at hread
  refine ⟨intBytes z, intEncoder_of_parse (hlib.parse_decimal hs), hread, ?_, ?_, ?_⟩
  · -- the tag selects `intDecoder`, whatever fuel is left
    intro rest
    show valueDecoder (_ + 1) (0 :: (intBytes z ++ rest)) = _
    rw [valueDecoder]
    exact hread rest
  · intro v rest hv
    obtain ⟨w, hw, hchunk, hvalue⟩ := intDecoder_eq_ok hv
    obtain rfl := List.append_cancel_right hw
    rw [← hvalue]
    exact intBytes_shortest hchunk.ne_nil
  · exact fun tf htf fuel => ⟨writeExpr_int htf hs fuel, readExpr_int htf z fuel⟩

theorem intCodecs_decimal : ∃ u : Bytes,
    intEncoder .decimal (js "-8192") = .ok (toHex (0 :: u)) ∧
      Reads intDecoder u (.int (intText (-8192))) ∧
      Reads valueDecode (0 :: u) (.int (intText (-8192))) ∧
      (∀ v rest, intDecoder (v ++ rest) = .ok (.int (intText (-8192)), rest) →
        u.length ≤ v.length) ∧
      ∀ tf, isIntegerTransform tf → ∀ fuel,
        writeExpr .plain (fuel + 1) tf (.int (js "-8192")) = .ok (0 :: u) ∧
          Reads (readExpr .plain (fuel + 1) tf) (0 :: u) (.int (intText (-8192))) :=
  intCodecs BigNumberLib.lawful_decimal .plain (by decide)

/-- `intDecoder` does not consume the tag that `intEncoder` writes: with it, 5 is read as 0. -/
theorem not_intDecoder_intEncoder : ¬∃ bytes, intEncoder .decimal (js "5") = .ok (toHex bytes) ∧
    Reads intDecoder bytes (.int (js "5")) := by
  rintro ⟨bytes, hbytes, hread⟩
  have hparse := BigNumberLib.lawful_decimal.parse_decimal
    (show decimalValue (js "5") = some 5 by decide)
  have hencode := intEncoder_of_parse hparse
  obtain rfl := toHex_injective (Except.ok.inj (hencode.symm.trans hbytes))
  have htag : intDecoder (0 :: intBytes 5) = .ok (.int (js "0"), [5]) := rfl
  have hrest := Prod.mk.inj (Except.ok.inj (htag.symm.trans hread.run))
  cases hrest.2

end Agreement
