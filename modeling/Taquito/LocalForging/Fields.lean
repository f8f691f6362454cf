import Taquito.LocalForging.CallParameters
import Taquito.LocalForging.Zarith

/-!
# The fields of operations

For every codec the values that are canonical in an operation (`CODEC.Canonical`), and that what is
written for one is read back, whatever octets follow (`field_reads`). The proposals of an operation
are the exception: their decoder takes everything that is left (`proposals_read`), so they are only
read back where nothing follows.

The numbers of `INT32` and `INT16` go through text, the bit operations of 32 bits and octets;
`octetAt` is the octet of a number at a position.
-/

open Js BigEndian Varint Reader Micheline

namespace Js.Double

theorem le_roundNat {v : ℕ} (h : 2 ^ 53 ≤ v) : 2 ^ 53 ≤ roundNat v := by
  rw [roundNat, if_neg (by omega)]
  have hlog : 53 ≤ v.log2 := (Nat.le_log2 (by omega)).mpr h
  have hunit : 2 ^ v.log2 ≤ v := Nat.log2_self_le (by omega)
  have hsplit : 2 ^ v.log2 = 2 ^ 52 * 2 ^ (v.log2 - 52) := by
    rw [← pow_add]
    congr 1
    omega
  have hpos : 0 < 2 ^ (v.log2 - 52) := by positivity
  have hq : 2 ^ 52 ≤ v / 2 ^ (v.log2 - 52) := by
    rw [Nat.le_div_iff_mul_le hpos, ← hsplit]
    exact hunit
  have htwo : 2 ≤ 2 ^ (v.log2 - 52) := by
    calc 2 = 2 ^ 1 := rfl
      _ ≤ 2 ^ (v.log2 - 52) := Nat.pow_le_pow_right (by omega) (by omega)
  unfold nearestMultiple
  dsimp only
  split
  · calc 2 ^ 53 = 2 ^ 52 * 2 := by norm_num
      _ ≤ (v / 2 ^ (v.log2 - 52) + 1) * 2 ^ (v.log2 - 52) := Nat.mul_le_mul (by omega) htwo
  · calc 2 ^ 53 = 2 ^ 52 * 2 := by norm_num
      _ ≤ v / 2 ^ (v.log2 - 52) * 2 ^ (v.log2 - 52) := Nat.mul_le_mul hq htwo

/-- A number below `2^53` is its own shortest numeral. -/
theorem shortest_of_lt {n : ℕ} (h : n < 2 ^ 53) : shortest n = n := by
  unfold shortest
  dsimp only
  cases hfind : ((List.range (natText n).length).map fun k =>
      nearestMultiple (10 ^ ((natText n).length - 1 - k)) n).find? fun v => roundNat v = n with
  | none => rfl
  | some v =>
    have hv : roundNat v = n := by simpa using List.find?_some hfind
    have hlt : v < 2 ^ 53 := by
      by_contra hge
      have := le_roundNat (not_lt.mp hge)
      omega
    rw [roundNat, if_pos hlt] at hv
    exact hv

/-- A small integer is the number that its text is parsed to. -/
theorem parse_text {z : ℤ} (h : z.natAbs < 2 ^ 53) : parse (text (.finite z)) = .finite z := by
  have hexp : (2 : ℕ) ^ 53 ≤ 10 ^ 21 := by norm_num
  have habs : absText z.natAbs = natText z.natAbs := by
    rw [absText, if_pos (by omega), shortest_of_lt h]
  have hofInt : ofInt z = .finite z := by
    unfold ofInt
    dsimp only
    have hround : roundNat z.natAbs = z.natAbs := by rw [roundNat, if_pos h]
    have hpow : ∀ k, 53 ≤ k → (2 : ℕ) ^ 53 ≤ 2 ^ k := fun k hk =>
      Nat.pow_le_pow_right (by omega) hk
    have hfits : ¬ 2 ^ 1024 ≤ z.natAbs := not_le.mpr (lt_of_lt_of_le h (hpow 1024 (by omega)))
    rw [hround, if_neg hfits]
    congr 1
    split <;> omega
  have hparse : parseInt 10 (text (.finite z)) = some z := by
    apply parseInt_of_decimal
    have htext : text (.finite z) = intText z := by
      rw [text, habs]
      rfl
    rw [htext]
    exact decimalValue_intText z
  rw [parse, hparse]
  exact hofInt
end Js.Double

namespace LocalForging

/-- The octet of a number of 32 bits at a position. -/
def octetAt (num : BitVec 32) (s : ℕ) : UInt8 := UInt8.ofBitVec (num.extractLsb' s 8)

theorem ofNat_octetAt (num : BitVec 32) (s : ℕ) :
    BitVec.ofNat 32 (octetAt num s).toNat = (num.extractLsb' s 8).setWidth 32 :=
  BitVec.ofNat_toNat 32 (num.extractLsb' s 8)

/-- One octet of a number of 32 bits. -/
theorem octet_of_shift (num : BitVec 32) {s : ℕ} (hs : s ≤ 24) :
    UInt8.ofNat ((num &&& (0xff#32 <<< s)).sshiftRight s).toNat = octetAt num s := by
  have hbits : ((num &&& (0xff#32 <<< s)).sshiftRight s).setWidth 8 = num.extractLsb' s 8 := by
    apply BitVec.eq_of_getLsbD_eq
    intro i hi
    have hone : (0xff#32).getLsbD i = true := by
      have : ∀ i : Fin 8, (0xff#32).getLsbD i = true := by decide
      exact this ⟨i, hi⟩
    simp only [BitVec.getLsbD_setWidth, BitVec.getLsbD_sshiftRight, BitVec.getLsbD_and,
      BitVec.getLsbD_shiftLeft, BitVec.getLsbD_extractLsb', Nat.add_sub_cancel_left, hone]
    simp [hi, show i < 32 by omega, show s + i < 32 by omega]
  rw [octetAt, ← hbits]
  apply UInt8.toNat_inj.mp
  simp

theorem int32Encoder_octets (val : NumberField) : int32Encoder val =
    let num := toInt32 (Double.parse val.toText)
    toHex [octetAt num 24, octetAt num 16, octetAt num 8, octetAt num 0] := by
  simp only [int32Encoder, intFieldEncoder]
  rw [← octet_of_shift _ (s := 24) (by omega), ← octet_of_shift _ (s := 16) (by omega),
    ← octet_of_shift _ (s := 8) (by omega), ← octet_of_shift _ (s := 0) (by omega)]
  rfl

theorem int16Encoder_octets (val : NumberField) : int16Encoder val =
    let num := toInt32 (Double.parse val.toText)
    toHex [octetAt num 8, octetAt num 0] := by
  simp only [int16Encoder, intFieldEncoder]
  rw [← octet_of_shift _ (s := 8) (by omega), ← octet_of_shift _ (s := 0) (by omega)]
  rfl

theorem getLsbD_octet (num : BitVec 32) (s i : ℕ) (hi : i < 32) :
    (BitVec.ofNat 32 (octetAt num s).toNat <<< s).getLsbD i =
      (decide (s ≤ i ∧ i < s + 8) && num.getLsbD i) := by
  rw [ofNat_octetAt, BitVec.getLsbD_shiftLeft, BitVec.getLsbD_setWidth, BitVec.getLsbD_extractLsb']
  by_cases hs : s ≤ i
  · rw [Nat.add_sub_cancel' hs]
    by_cases h8 : i < s + 8
    · simp [hs, h8, hi, show ¬ i < s by omega, show i - s < 8 by omega, show i - s < 32 by omega]
    · simp [h8, show ¬ i - s < 8 by omega]
  · simp [hs, show i < s by omega]

theorem int32Decoder_reads (num : BitVec 32) : Reader.Reads int32Decoder
    [octetAt num 24, octetAt num 16, octetAt num 8, octetAt num 0]
    (.number (.finite num.toInt)) := by
  have htake : Reader.Reads (consume 4)
      [octetAt num 24, octetAt num 16, octetAt num 8, octetAt num 0] _ := Reader.take_reads rfl
  refine htake.bind_pure ?_
  have hnum : 0#32 ||| BitVec.ofNat 32 (octetAt num 24).toNat <<< 24 |||
      BitVec.ofNat 32 (octetAt num 16).toNat <<< 16 |||
      BitVec.ofNat 32 (octetAt num 8).toNat <<< 8 |||
      BitVec.ofNat 32 (octetAt num 0).toNat <<< 0 = num := by
    apply BitVec.eq_of_getLsbD_eq
    intro i hi
    simp only [BitVec.getLsbD_or, getLsbD_octet _ _ _ hi, BitVec.getLsbD_zero, Bool.false_or,
      ← Bool.and_or_distrib_right]
    have hin : (decide (24 ≤ i ∧ i < 24 + 8) || decide (16 ≤ i ∧ i < 16 + 8) ||
        decide (8 ≤ i ∧ i < 8 + 8) || decide (0 ≤ i ∧ i < 0 + 8)) = true := by
      simp only [Bool.or_eq_true, decide_eq_true_eq]
      omega
    rw [hin, Bool.true_and]
  conv => rhs; rw [← hnum]
  exact Reader.Reads.pure _

theorem int16Decoder_reads (num : BitVec 32) (h : num.toNat < 2 ^ 16) : Reader.Reads int16Decoder
    [octetAt num 8, octetAt num 0] (.number (.finite num.toInt)) := by
  have htake : Reader.Reads (consume 2) [octetAt num 8, octetAt num 0] _ := Reader.take_reads rfl
  refine htake.bind_pure ?_
  have hnum : 0#32 ||| BitVec.ofNat 32 (octetAt num 8).toNat <<< 8 |||
      BitVec.ofNat 32 (octetAt num 0).toNat <<< 0 = num := by
    apply BitVec.eq_of_getLsbD_eq
    intro i hi
    simp only [BitVec.getLsbD_or, getLsbD_octet _ _ _ hi, BitVec.getLsbD_zero, Bool.false_or,
      ← Bool.and_or_distrib_right]
    by_cases hlow : i < 16
    · have hin : (decide (8 ≤ i ∧ i < 8 + 8) || decide (0 ≤ i ∧ i < 0 + 8)) = true := by
        simp only [Bool.or_eq_true, decide_eq_true_eq]
        omega
      rw [hin, Bool.true_and]
    · have hhigh : num.getLsbD i = false :=
        Nat.testBit_lt_two_pow (lt_of_lt_of_le h (Nat.pow_le_pow_right (by omega) (by omega)))
      rw [hhigh, Bool.and_false]
  conv => rhs; rw [← hnum]
  exact Reader.Reads.pure _

/-! ## Canonical values -/

variable (lib : Libraries)

/-- An identifier of a kind that its decoder knows, with a payload of the length of the kind. -/
def Identifier.Canonical (b58 : Base58Check) (codec : Identifier) (s : JSString) : Prop :=
  ∃ p payload, codec.chosen s = some p ∧ p ≠ .TZ4 ∧ payload.length = p.payload ∧
    b58.decode s = some (p.bytes ++ payload)

/-- Lower-case text of octets. -/
def IsHexText (s : JSString) (n : ℕ) : Prop :=
  s.length = 2 * n ∧ ∀ c ∈ s, isLowerHexDigit c = true

/-- The text of a natural number that `bignumber.js` writes without an exponent. -/
def IsNaturalText (s : JSString) : Prop := ∃ n < 10 ^ 21, s = natText n

/-- A Micheline value that the value codec gives back, of less than `2^32` octets. -/
def IsInverted (big : BigNumberLib) (e : Expr) : Prop :=
  ∃ hex bytes, valueEncoder big e = .ok hex ∧ HexOf hex bytes ∧
    valueDecode bytes = .ok (e, []) ∧ bytes.length < 2 ^ 32

/-- Proposals whose octets can be counted. -/
def ProposalsCanonical (b58 : Base58Check) (proposals : List JSString) : Prop :=
  (∀ s ∈ proposals, Identifier.PROPOSAL.Canonical b58 s) ∧ 32 * proposals.length < 2 ^ 32

/-- Messages in lower case whose octets, with those of their lengths, can be counted. -/
def MessagesCanonical (val : List JSString) : Prop :=
  (∀ m ∈ val, ∃ n, IsHexText m n) ∧ messagesLength val < 2 ^ 32

/-- A name of at most 31 octets that no object inherits, with a value that is given back. The
value `Unit` of the default entrypoint has nothing below or beside it. -/
structure Parameters.Canonical (big : BigNumberLib) (val : Parameters) : Prop where
  name : val.entrypoint ∉ objectPrototype
  wellFormed : wellFormed val.entrypoint = true
  short : (utf8Encode val.entrypoint).length ≤ ENTRYPOINT_MAX_LENGTH
  value : IsInverted big val.value
  plain : val.isDefaultUnit = true → val.isPlainDefault = true

namespace CODEC

/-- The values of a field that are canonical. -/
def Canonical : (c : CODEC) → Option c.Value → Prop
  | DELEGATE, none | PARAMETERS, none | BURN_LIMIT, none | DEPOSITS_LIMIT, none => True
  | identifier codec, some val => codec.Canonical lib.b58 val
  | DELEGATE, some val => Identifier.PKH.Canonical lib.b58 val
  | PARAMETERS, some val => val.Canonical lib.big
  | BURN_LIMIT, some val | DEPOSITS_LIMIT, some val | ZARITH, some val => IsNaturalText val
  | SECRET, some val => IsHexText val 20
  | RAW, some val => IsHexText val 32
  | SCRIPT, some val => IsInverted lib.big val.code ∧ IsInverted lib.big val.storage
  | BALLOT_STATEMENT, some val => val = js "yay" ∨ val = js "nay" ∨ val = js "pass"
  | PVM_KIND, some val => val = js "arith" ∨ val = js "wasm_2_0_0"
  | PROPOSAL_ARR, some val =>
    ProposalsCanonical lib.b58 val
  | INT32, some val => ∃ z : ℤ, -2 ^ 31 ≤ z ∧ z < 2 ^ 31 ∧ val = .number (.finite z)
  | INT16, some val => ∃ z : ℤ, 0 ≤ z ∧ z < 2 ^ 16 ∧ val = .number (.finite z)
  | VALUE, some val => IsInverted lib.big val
  | PADDED_BYTES, some val | TX_ROLLUP_BATCH_CONTENT, some val => ∃ n < 2 ^ 32, IsHexText val n
  | SMART_ROLLUP_MESSAGE, some val =>
    MessagesCanonical val
  | ENTRYPOINT, some val => wellFormed val = true ∧ (utf8Encode val).length < 2 ^ 32
  | TX_ROLLUP_ORIGINATION_PARAM, some _ => True
  | _, none => False

/-- What is to be read where a value is written: nothing for the parameters that nothing stands
for. -/
def decoded : (c : CODEC) → Option c.Value → Option c.Value
  | PARAMETERS, some val => val.decoded
  | _, val => val

/-- What is written for a value is read back, whatever octets follow. -/
def Inverted (c : CODEC) (val : Option c.Value) : Prop :=
  ∃ hex bytes, c.encoder lib val = .ok hex ∧ HexOf hex bytes ∧
    Reads (c.decoder lib) bytes (c.decoded val)

end CODEC

/-! ## Identifiers and texts of octets -/

variable {lib}

theorem identifier_reads {b58 : Base58Check} (hb : b58.Lawful) {codec : Identifier} {s : JSString}
    (h : codec.Canonical b58 s) : ∃ hex bytes, codec.encoder b58 s = .ok hex ∧ HexOf hex bytes ∧
      Reads (codec.decoder b58) bytes s := by
  obtain ⟨p, payload, hchosen, hTZ4, hlength, hdecode⟩ := h
  have hprefix : prefixEncoder b58 p s = .ok (toHex payload) := by
    rw [prefixEncoder, hdecode]
    exact congrArg (fun bs => Except.ok (toHex bs)) List.drop_left
  refine ⟨toHex (codec.leading p) ++ toHex payload ++ toHex (codec.trailing p),
    codec.leading p ++ (payload ++ codec.trailing p), ?_, ?_, fun rest => ?_⟩
  · rw [Identifier.encoder_of_chosen hchosen, hprefix]
    rfl
  · rw [← List.append_assoc]
    exact ((hexOf_toHex _).append (hexOf_toHex _)).append (hexOf_toHex _)
  · rw [List.append_assoc, Identifier.decoder_leading hchosen hTZ4]
    exact Identifier.bodyDecoder_reads hchosen hlength (hb.encode_decode hdecode) rest

theorem IsHexText.exists_toHex {s : JSString} {n : ℕ} (h : IsHexText s n) :
    ∃ bs : Bytes, s = toHex bs ∧ bs.length = n := by
  obtain ⟨bs, rfl⟩ := Js.exists_toHex (by rw [h.1]; omega) h.2
  have hlength := h.1
  rw [toHex_length] at hlength
  exact ⟨bs, rfl, by omega⟩

/-- Octets of a fixed number. -/
theorem fixedLength_reads {s : JSString} {n : ℕ} (h : IsHexText s n) : ∃ hex bytes,
    passthroughFixedLengthDecoder n s = .ok hex ∧ HexOf hex bytes ∧
      Reads (fixedLengthDecoder n) bytes s := by
  obtain ⟨bs, rfl, rfl⟩ := h.exists_toHex
  have hdigits : (toHex bs).all isHexDigit = true := by
    have := isHexPairs_toHex bs
    rw [isHexPairs, Bool.and_eq_true] at this
    exact this.2
  refine ⟨toHex bs, bs, ?_, hexOf_toHex bs, ?_⟩
  · rw [passthroughFixedLengthDecoder, hdigits, if_neg (by decide), if_neg]
    rw [toHex_length]
    omega
  · refine (take_reads rfl).bind_pure ?_
    rw [toHexString_eq]
    exact Reads.pure _

theorem paddedBytes_reads {s : JSString} {n : ℕ} (h : IsHexText s n) (hn : n < 2 ^ 32) :
    ∃ hex bytes, paddedBytesEncoder s = .ok hex ∧ HexOf hex bytes ∧
      Reads paddedBytesDecoder bytes s := by
  obtain ⟨bs, rfl, rfl⟩ := h.exists_toHex
  obtain ⟨hex, hencode, hof⟩ := paddedBytesEncoder_of_hexOf (hexOf_toHex bs) hn
  exact ⟨hex, _, hencode, hof, (extractRequiredLen_reads hn).bind_pure (Reads.pure _)⟩

theorem messages_read {val : List JSString} (h : MessagesCanonical val) : ∃ hex bytes,
      smartRollupMessageEncoder val = .ok hex ∧ HexOf hex bytes ∧
        Reads smartRollupMessageDecoder bytes val := by
  have hsegments : ∃ segments : List Bytes, val = segments.map toHex := by
    have hall := h.1
    clear h
    induction val with
    | nil => exact ⟨[], rfl⟩
    | cons m val ih =>
      obtain ⟨segments, rfl⟩ := ih fun x hx => hall x (List.mem_cons_of_mem _ hx)
      obtain ⟨n, hm⟩ := hall m List.mem_cons_self
      obtain ⟨bs, rfl, -⟩ := hm.exists_toHex
      exact ⟨bs :: segments, rfl⟩
  obtain ⟨segments, rfl⟩ := hsegments
  have hof : List.Forall₂ HexOf (segments.map toHex) segments :=
    List.forall₂_map_left_iff.mpr (List.forall₂_same.mpr fun bs _ => hexOf_toHex bs)
  have hframed : (framed segments).length < 2 ^ 32 := by
    rw [framed_length hof]
    exact h.2
  obtain ⟨message, hmessage, hmof⟩ :=
    (smartRollupMessages_of_hexOf hof).1 (framable_of_length hframed)
  obtain ⟨hex, hencode, hhex⟩ := paddedBytesEncoder_of_hexOf hmof hframed
  refine ⟨hex, _, ?_, hhex, smartRollupMessageDecoder_reads hframed⟩
  rw [smartRollupMessageEncoder, hmessage]
  exact hencode

/-! ## Numbers -/

theorem zarith_reads {big : BigNumberLib} (hbig : big.Lawful) {s : JSString} (h : IsNaturalText s) :
    ∃ bytes, zarithEncoder big s = .ok (toHex bytes) ∧ Reads (zarithDecoder big) bytes s := by
  obtain ⟨n, hn, rfl⟩ := h
  have hdigits : digitsValue 10 (natText n) = some n :=
    digitsValue_numberText (by omega) (by omega) n
  refine ⟨natBytes n, zarithEncoder_of_digits hbig hdigits, ?_⟩
  have hreads := @zarithDecoder_reads big (natBytes n) (natBytes_chunk n)
  rw [natValue_natBytes, (text_eq_natText_iff n).mpr hn] at hreads
  exact hreads

theorem limit_reads {big : BigNumberLib} (hbig : big.Lawful) {val : Option JSString}
    (h : ∀ s ∈ val, IsNaturalText s) : ∃ hex bytes, limitEncoder big val = .ok hex ∧
      HexOf hex bytes ∧ Reads (limitDecoder big) bytes val := by
  cases val with
  | none => exact ⟨_, [0], rfl, hexOf_toHex [0], (consumeByte_reads 0).bind_pure (Reads.pure none)⟩
  | some s =>
    have hs := h s rfl
    obtain ⟨bytes, hencode, hreads⟩ := zarith_reads hbig hs
    have hne : s ≠ [] := by
      obtain ⟨n, -, rfl⟩ := hs
      exact numberText_ne_nil 10 n
    obtain ⟨c, t, rfl⟩ := List.exists_cons_of_ne_nil hne
    refine ⟨js "ff" ++ toHex bytes, [0xff] ++ bytes, ?_,
      (hexOf_toHex [0xff]).append (hexOf_toHex bytes), ?_⟩
    · rw [limitEncoder, hencode]
      · rfl
      · intro hnil
        cases hnil
    · refine (consumeByte_reads 0xff).bind ?_
      exact hreads.bind_pure (Reads.pure _)

theorem int32_reads {z : ℤ} (hlow : -2 ^ 31 ≤ z) (hhigh : z < 2 ^ 31) : ∃ bytes,
    int32Encoder (.number (.finite z)) = toHex bytes ∧
      Reads int32Decoder bytes (.number (.finite z)) := by
  have hparse : Double.parse (NumberField.number (.finite z)).toText = .finite z :=
    Double.parse_text (by omega)
  have hnum : (toInt32 (.finite z)).toInt = z := by
    rw [toInt32, BitVec.toInt_ofInt]
    exact Int.bmod_eq_of_le (by omega) (by omega)
  refine ⟨_, ?_, hnum ▸ int32Decoder_reads (toInt32 (.finite z))⟩
  rw [int32Encoder_octets, hparse]

theorem int16_reads {z : ℤ} (hlow : 0 ≤ z) (hhigh : z < 2 ^ 16) : ∃ bytes,
    int16Encoder (.number (.finite z)) = toHex bytes ∧
      Reads int16Decoder bytes (.number (.finite z)) := by
  have hparse : Double.parse (NumberField.number (.finite z)).toText = .finite z :=
    Double.parse_text (by omega)
  have hnum : (toInt32 (.finite z)).toInt = z := by
    rw [toInt32, BitVec.toInt_ofInt]
    exact Int.bmod_eq_of_le (by omega) (by omega)
  have hsmall : (toInt32 (.finite z)).toNat < 2 ^ 16 := by
    have := BitVec.toInt_eq_toNat_cond (toInt32 (.finite z))
    split at this <;> omega
  refine ⟨_, ?_, hnum ▸ int16Decoder_reads (toInt32 (.finite z)) hsmall⟩
  rw [int16Encoder_octets, hparse]

/-! ## Micheline -/

theorem segmentValue_of_inverted {e : Expr} {bytes : Bytes}
    (h : valueDecode bytes = .ok (e, [])) : segmentValue bytes = .ok e := by
  rw [segmentValue, h]
  rfl

theorem valueParameter_reads {big : BigNumberLib} {e : Expr} (h : IsInverted big e) :
    ∃ hex bytes, valueParameterEncoder big e = .ok hex ∧ HexOf hex bytes ∧
      Reads valueParameterDecoder bytes e := by
  obtain ⟨hex, bytes, hencode, hof, hdecode, hlt⟩ := h
  refine ⟨toHex (beBytes 4 bytes.length) ++ hex, lengthPrefixed bytes, ?_,
    (hexOf_toHex _).append hof, ?_⟩
  · rw [valueParameterEncoder, hencode, Except.ok_bind,
      hof.pad_eq (k := 4) (by omega) (by simpa using hlt)]
    rfl
  · exact (extractRequiredLen_reads hlt).bind_pure (lift_reads (segmentValue_of_inverted hdecode))

theorem script_reads {big : BigNumberLib} {script : Script} (hcode : IsInverted big script.code)
    (hstorage : IsInverted big script.storage) : ∃ hex bytes,
      scriptEncoder big script = .ok hex ∧ HexOf hex bytes ∧ Reads scriptDecoder bytes script := by
  obtain ⟨code, bytes, hencode, hof, hdecode, hlt⟩ := hcode
  obtain ⟨storage, bytes', hencode', hof', hdecode', hlt'⟩ := hstorage
  refine ⟨toHex (beBytes 4 bytes.length) ++ code ++ toHex (beBytes 4 bytes'.length) ++ storage,
    lengthPrefixed bytes ++ lengthPrefixed bytes', ?_, ?_, ?_⟩
  · rw [scriptEncoder, hencode, Except.ok_bind, hencode', Except.ok_bind,
      hof.pad_eq (k := 4) (by omega) (by simpa using hlt), Except.ok_bind,
      hof'.pad_eq (k := 4) (by omega) (by simpa using hlt')]
    rfl
  · rw [List.append_assoc]
    exact ((hexOf_toHex _).append hof).append ((hexOf_toHex _).append hof')
  · refine (extractRequiredLen_reads hlt).bind ?_
    refine (extractRequiredLen_reads hlt').bind_pure ?_
    refine (lift_reads (segmentValue_of_inverted hdecode)).bind_pure ?_
    exact (lift_reads (segmentValue_of_inverted hdecode')).bind_pure (Reads.pure _)

theorem entrypointName_reads {big : BigNumberLib} {val : JSString} (hwell : wellFormed val = true)
    (hlt : (utf8Encode val).length < 2 ^ 32) : ∃ hex bytes,
      entrypointNameEncoder big val = .ok hex ∧ HexOf hex bytes ∧
        Reads entrypointNameDecoder bytes val := by
  have hpad : pad (toHex (utf8Encode val)).length 8 =
      .ok (toHex (beBytes 4 (utf8Encode val).length)) :=
    (hexOf_toHex _).pad_eq (k := 4) (by omega) (by simpa using hlt)
  refine ⟨toHex (lengthPrefixed (utf8Encode val)), lengthPrefixed (utf8Encode val), ?_,
    hexOf_toHex _, ?_⟩
  · rw [entrypointNameEncoder, valueEncoder, stringEncoder, hpad, lengthPrefixed, toHex_append]
    rfl
  · refine (extractRequiredLen_reads hlt).bind_pure ?_
    rw [utf8Decode_utf8Encode hwell]
    exact Reads.pure _

/-- A name is written as its code, or as its octets. -/
theorem entrypoint_reads {big : BigNumberLib} {entrypoint : JSString}
    (hname : entrypoint ∉ objectPrototype) (hwell : wellFormed entrypoint = true)
    (hshort : (utf8Encode entrypoint).length ≤ ENTRYPOINT_MAX_LENGTH) : ∃ name,
      entrypointEncoder big entrypoint = .ok (toHex name) ∧
        Reads entrypointDecoder name entrypoint := by
  rcases entrypointKind entrypoint with ⟨tag, hcode, hread, -, -, -⟩ | ⟨hmem, -⟩ | ⟨-, hlookup⟩
  · refine ⟨[tag], ?_, hread⟩
    rw [entrypointEncoder, hcode]
  · exact absurd hmem hname
  · have hunits := (utf8Encode_length entrypoint).1
    exact ⟨freeName entrypoint, entrypointEncoder_free hlookup (by omega),
      (entrypointDecoder_free_reads_iff hshort).mpr hwell⟩

theorem parameters_read {big : BigNumberLib} {val : Parameters} (h : val.Canonical big) :
    ∃ hex bytes, parametersEncoder big (some val) = .ok hex ∧ HexOf hex bytes ∧
      Reads parametersDecoder bytes val.decoded := by
  by_cases hunit : val.isDefaultUnit = true
  · refine ⟨js "00", [0], ?_, hexOf_toHex [0], ?_⟩
    · rw [parametersEncoder, if_pos hunit]
    · rw [Parameters.decoded, if_pos (h.plain hunit)]
      exact (consumeByte_reads 0).bind_pure (Reads.pure none)
  · rw [Bool.not_eq_true] at hunit
    have hplain : ¬ val.isPlainDefault = true := by
      intro hplain
      rw [(Parameters.isDefaultUnit_of_plain hplain).1] at hunit
      cases hunit
    obtain ⟨hex, bytes, hencode, hof, hdecode, hlt⟩ := h.value
    obtain ⟨name, hcode, hname⟩ := @entrypoint_reads big _ h.name h.wellFormed h.short
    rw [Parameters.decoded, if_neg hplain]
    exact parametersCodec_reads hunit hcode hencode hof hdecode hlt hname

/-! ## Delegates, ballots and proposals -/

theorem delegate_reads {b58 : Base58Check} (hb : b58.Lawful) {val : Option JSString}
    (h : ∀ s ∈ val, Identifier.PKH.Canonical b58 s) : ∃ hex bytes,
      delegateEncoder b58 val = .ok hex ∧ HexOf hex bytes ∧
        Reads (delegateDecoder b58) bytes val := by
  cases val with
  | none =>
    have hbool : Reads boolDecoder [0] false := (consumeByte_reads 0).bind_pure (Reads.pure _)
    exact ⟨_, [0], rfl, hexOf_toHex [0], hbool.bind_pure (Reads.pure none)⟩
  | some s =>
    have hs := h s rfl
    have hne : s ≠ [] := by
      rintro rfl
      obtain ⟨p, payload, hchosen, -⟩ := hs
      cases hchosen
    obtain ⟨hex, bytes, hencode, hof, hreads⟩ := identifier_reads hb hs
    obtain ⟨c, t, rfl⟩ := List.exists_cons_of_ne_nil hne
    have hbool : Reads boolDecoder [0xff] true := (consumeByte_reads 0xff).bind_pure (Reads.pure _)
    refine ⟨js "ff" ++ hex, [0xff] ++ bytes, ?_, (hexOf_toHex [0xff]).append hof, ?_⟩
    · have hpkh : pkhEncoder b58 (c :: t) = .ok hex := hencode
      rw [delegateEncoder, hpkh]
      · rfl
      · intro hnil
        cases hnil
    · refine hbool.bind ?_
      exact Reads.bind_pure (r := pkhDecoder b58) hreads (Reads.pure _)

theorem ballot_reads {val : JSString} (h : val = js "yay" ∨ val = js "nay" ∨ val = js "pass") :
    ∃ bytes, ballotEncoder val = .ok (toHex bytes) ∧ Reads ballotDecoder bytes val := by
  rcases h with rfl | rfl | rfl
  · exact ⟨[0], rfl, (consumeByte_reads 0).bind_pure (Reads.pure _)⟩
  · exact ⟨[1], rfl, (consumeByte_reads 1).bind_pure (Reads.pure _)⟩
  · exact ⟨[2], rfl, (consumeByte_reads 2).bind_pure (Reads.pure _)⟩

theorem pvmKind_reads {val : JSString} (h : val = js "arith" ∨ val = js "wasm_2_0_0") :
    ∃ bytes, pvmKindEncoder val = .ok (toHex bytes) ∧ Reads pvmKindDecoder bytes val := by
  rcases h with rfl | rfl
  · exact ⟨[0], rfl, (consumeByte_reads 0).bind_pure (Reads.pure _)⟩
  · exact ⟨[1], rfl, (consumeByte_reads 1).bind_pure (Reads.pure _)⟩

/-- Proposals are read back where nothing follows. -/
theorem proposals_read {b58 : Base58Check} (hb : b58.Lawful) {proposals : List JSString}
    (h : ProposalsCanonical b58 proposals) : ∃ hex bytes, proposalsEncoder b58 proposals = .ok hex ∧
      HexOf hex bytes ∧ proposalsDecoder b58 bytes = .ok (proposals, []) := by
  have hmany : ∃ texts us, proposals.mapM (prefixEncoder b58 .P) = .ok texts ∧
      HexOf texts.flatten us ∧ ReadsMany (prefixDecoder b58 .P) us proposals := by
    have hall := h.1
    clear h
    induction proposals with
    | nil => exact ⟨[], [], rfl, hexOf_toHex [], .nil⟩
    | cons s proposals ih =>
      obtain ⟨texts, us, htexts, hof, hreads⟩ := ih fun x hx => hall x (List.mem_cons_of_mem _ hx)
      have hs := hall s List.mem_cons_self
      obtain ⟨hex, bytes, hencode, hbytes, hread⟩ := identifier_reads hb hs
      have hencode' : prefixEncoder b58 .P s = .ok hex := hencode
      have hread' : Reads (prefixDecoder b58 .P) bytes s := hread
      have hne : bytes ≠ [] := by
        rintro rfl
        -- the decoder needs the octets of the payload
        have hrun := hread'.run
        obtain ⟨u, hu, hlen, -⟩ := Identifier.prefixDecoder_eq_ok hrun
        rw [List.append_nil] at hu
        rw [← hu] at hlen
        exact absurd hlen (by decide)
      refine ⟨hex :: texts, bytes ++ us, ?_, hbytes.append hof, .cons hne hread' hreads⟩
      rw [List.mapM_cons, hencode', htexts]
      rfl
  obtain ⟨texts, us, htexts, hof, hreads⟩ := hmany
  refine ⟨toHex (beBytes 4 (32 * proposals.length)) ++ texts.flatten,
    beBytes 4 (32 * proposals.length) ++ us, ?_, (hexOf_toHex _).append hof, ?_⟩
  · have hpad := @pad_two_mul 4 (32 * proposals.length) (by omega) (by simpa using h.2)
    rw [proposalsEncoder, hpad, Except.ok_bind, htexts]
    rfl
  · have hlength : Reads (consume 4) (beBytes 4 (32 * proposals.length)) _ :=
      take_reads (beBytes_length 4 _)
    rw [proposalsDecoder, bind_of_ok (hlength us), readAll_of_readsMany hreads hreads.length_le]
    rfl

/-! ## Every field -/

/-- The libraries do what their documentation says: base58check is invertible, and `bignumber.js`
parses decimal numerals. -/
structure Libraries.Lawful (lib : Libraries) : Prop where
  b58 : lib.b58.Lawful
  big : lib.big.Lawful

/-- A field that has to be there: its codec reads it back behind `some`. -/
theorem exists_some_reads {α : Type} {x : Except ForgeError JSString} {r : Decoder α} {a : α}
    (h : ∃ hex bytes, x = .ok hex ∧ HexOf hex bytes ∧ Reads r bytes a) :
    ∃ hex bytes, x = .ok hex ∧ HexOf hex bytes ∧ Reads (some <$> r) bytes (some a) := by
  obtain ⟨hex, bytes, hencode, hof, hreads⟩ := h
  have hmap : Reads (r >>= fun a => pure (some a)) bytes (some a) := hreads.bind_pure (Reads.pure _)
  exact ⟨hex, bytes, hencode, hof, hmap⟩

/-- Text that is lower-case already. -/
theorem exists_hexOf {α : Type} {x : Except ForgeError JSString} {r : Decoder α} {a : α}
    (h : ∃ bytes, x = .ok (toHex bytes) ∧ Reads r bytes a) :
    ∃ hex bytes, x = .ok hex ∧ HexOf hex bytes ∧ Reads r bytes a := by
  obtain ⟨bytes, hencode, hreads⟩ := h
  exact ⟨toHex bytes, bytes, hencode, hexOf_toHex bytes, hreads⟩

/-- **What is written for a canonical field is read back, whatever octets follow.** -/
theorem CODEC.inverted (hlib : lib.Lawful) {c : CODEC} (hc : c ≠ .PROPOSAL_ARR)
    {val : Option c.Value} (h : c.Canonical lib val) : c.Inverted lib val := by
  cases c with
  | PROPOSAL_ARR => exact absurd rfl hc
  | DELEGATE =>
    refine delegate_reads hlib.b58 ?_
    rintro s rfl
    exact h
  | PARAMETERS =>
    cases val with
    | none =>
      have hread : Reads parametersDecoder [0] none :=
        (consumeByte_reads 0).bind_pure (Reads.pure none)
      exact ⟨_, [0], rfl, hexOf_toHex [0], hread⟩
    | some val => exact parameters_read h
  | BURN_LIMIT | DEPOSITS_LIMIT =>
    refine limit_reads hlib.big ?_
    rintro s rfl
    exact h
  | TX_ROLLUP_ORIGINATION_PARAM =>
    cases val with
    | none => exact False.elim h
    | some val => exact ⟨_, [], rfl, hexOf_toHex [], Reads.pure _⟩
  | identifier codec =>
    cases val with
    | none => exact False.elim h
    | some val => exact exists_some_reads (identifier_reads hlib.b58 h)
  | SECRET | RAW =>
    cases val with
    | none => exact False.elim h
    | some val => exact exists_some_reads (fixedLength_reads h)
  | ZARITH =>
    cases val with
    | none => exact False.elim h
    | some val => exact exists_some_reads (exists_hexOf (zarith_reads hlib.big h))
  | SCRIPT =>
    cases val with
    | none => exact False.elim h
    | some val => exact exists_some_reads (script_reads h.1 h.2)
  | BALLOT_STATEMENT =>
    cases val with
    | none => exact False.elim h
    | some val => exact exists_some_reads (exists_hexOf (ballot_reads h))
  | PVM_KIND =>
    cases val with
    | none => exact False.elim h
    | some val => exact exists_some_reads (exists_hexOf (pvmKind_reads h))
  | INT32 =>
    cases val with
    | none => exact False.elim h
    | some val =>
      obtain ⟨z, hlow, hhigh, rfl⟩ := h
      obtain ⟨bytes, hencode, hreads⟩ := int32_reads hlow hhigh
      exact exists_some_reads (exists_hexOf ⟨bytes, congrArg Except.ok hencode, hreads⟩)
  | INT16 =>
    cases val with
    | none => exact False.elim h
    | some val =>
      obtain ⟨z, hlow, hhigh, rfl⟩ := h
      obtain ⟨bytes, hencode, hreads⟩ := int16_reads hlow hhigh
      exact exists_some_reads (exists_hexOf ⟨bytes, congrArg Except.ok hencode, hreads⟩)
  | VALUE =>
    cases val with
    | none => exact False.elim h
    | some val => exact exists_some_reads (valueParameter_reads h)
  | PADDED_BYTES | TX_ROLLUP_BATCH_CONTENT =>
    cases val with
    | none => exact False.elim h
    | some val =>
      obtain ⟨n, hn, htext⟩ := h
      exact exists_some_reads (paddedBytes_reads htext hn)
  | SMART_ROLLUP_MESSAGE =>
    cases val with
    | none => exact False.elim h
    | some val => exact exists_some_reads (messages_read h)
  | ENTRYPOINT =>
    cases val with
    | none => exact False.elim h
    | some val => exact exists_some_reads (entrypointName_reads h.1 h.2)

end LocalForging
