import Mathlib.Data.List.DropRight
import Taquito.Js.Utf8
import Taquito.Sapling.Transactions
import Taquito.Utils.Hex

/-!
# The plaintext of a note

The builder has a note forged to octets: the diversifier, the amount, the trapdoor, a length and the
memo, padded with zeros. The viewer cuts a decrypted plaintext at fixed positions and takes the
padding off the memo.

Whatever fits is read back (`plaintext_recovered`): a well-formed memo whose UTF-8 fits the memo
size and does not end in zeros. The length, however, is that of the memo in hexadecimal digits, and
so it is right only for memos of size zero (`transactionPlaintext_meets_iff`).
-/

open Js BigEndian Utils

namespace Sapling

/-- `SaplingTransactionPlaintext`. -/
structure SaplingTransactionPlaintext where
  diversifier : Bytes
  amount : ℕ
  randomCommitmentTrapdoor : Bytes
  memoSize : ℕ
  memo : JSString

/-- `s.padEnd(n, c)`. -/
def padEnd (n : ℕ) (c : UInt16) (s : JSString) : JSString := s ++ List.replicate (n - s.length) c

/-- `forgeTransactionPlaintext`. -/
def forgeTransactionPlaintext (txPlainText : SaplingTransactionPlaintext) : Bytes :=
  let encodedMemo :=
    bufferFromHex (padEnd txPlainText.memoSize (digitChar 0) (char2Bytes txPlainText.memo))
  txPlainText.diversifier ++ toHexBuf txPlainText.amount 64 ++
    txPlainText.randomCommitmentTrapdoor ++ toHexBuf txPlainText.memoSize 32 ++ encodedMemo

/-- The plaintext of `encryptCiphertext`, for contracts of a memo size. -/
def transactionPlaintext (memoSize : ℕ) (diversifier : Bytes) (amount : ℕ)
    (randomCommitmentTrapdoor : Bytes) (memo : JSString) : Bytes :=
  forgeTransactionPlaintext
    { diversifier, amount, randomCommitmentTrapdoor, memoSize := memoSize * 2, memo }

/-- `s.slice(start, end)`. -/
def slice (start stop : ℕ) (bs : Bytes) : Bytes := (bs.take stop).drop start

/-- What `extractTransactionProperties` returns. -/
structure TransactionProperties where
  diversifier : Bytes
  value : Bytes
  randomCommitmentTrapdoor : Bytes
  memoSize : Bytes
  memo : Bytes

/-- `extractTransactionProperties`. -/
def extractTransactionProperties (decrypted : Bytes) : TransactionProperties where
  diversifier := slice 0 11 decrypted
  value := slice 11 19 decrypted
  randomCommitmentTrapdoor := slice 19 51 decrypted
  memoSize := slice 51 55 decrypted
  memo := decrypted.drop 55

/-- `(00)+`. -/
def isZeroPairs : JSString → Bool
  | [48, 48] => true
  | 48 :: 48 :: s => isZeroPairs s
  | _ => false

/-- `removeZeroPaddedBytesRight`: the shortest text that `00` can follow up to the end. -/
def removeZeroPaddedBytesRight : JSString → JSString
  | [] => []
  | c :: memo => if isZeroPairs (c :: memo) then [] else c :: removeZeroPaddedBytesRight memo

/-- `memoHexToUtf8`. -/
def memoHexToUtf8 (memo : JSString) : Except UtilsError JSString :=
  let memoNoPadding := removeZeroPaddedBytesRight memo
  if memoNoPadding = [] then .ok memoNoPadding else bytes2Char memoNoPadding

/-- The viewer finds in a plaintext what was forged. -/
structure Recovers (decrypted : Bytes) (amount : ℕ) (randomCommitmentTrapdoor : Bytes)
    (memo : JSString) : Prop where
  value : convertValueToBigNumber (extractTransactionProperties decrypted).value = amount
  randomCommitmentTrapdoor :
    (extractTransactionProperties decrypted).randomCommitmentTrapdoor = randomCommitmentTrapdoor
  memo : memoHexToUtf8 (toHex (extractTransactionProperties decrypted).memo) = .ok memo

/-- A plaintext has the length of its fields, tells that of the memo, and is read back. -/
structure PlaintextMeets (memoSize : ℕ) (decrypted : Bytes) (amount : ℕ)
    (randomCommitmentTrapdoor : Bytes) (memo : JSString) : Prop where
  length : decrypted.length = 11 + 8 + 32 + 4 + memoSize
  memoSize : beValue (extractTransactionProperties decrypted).memoSize = memoSize
  recovers : Recovers decrypted amount randomCommitmentTrapdoor memo

/-! ## Padding -/

theorem isZeroPairs_cons {c d : UInt16} {s : JSString} :
    isZeroPairs (c :: d :: s) = true ↔ (c = 48 ∧ d = 48) ∧ (s = [] ∨ isZeroPairs s = true) := by
  by_cases hzeros : c = 48 ∧ d = 48
  · obtain ⟨rfl, rfl⟩ := hzeros
    cases s with
    | nil => exact iff_of_true rfl ⟨⟨rfl, rfl⟩, .inl rfl⟩
    | cons e s => simp [isZeroPairs]
  · refine iff_of_false (fun h => hzeros ?_) fun h => hzeros h.1
    rw [isZeroPairs.eq_def] at h
    split at h
    · next heq =>
      cases heq
      exact ⟨rfl, rfl⟩
    · next heq =>
      cases heq
      exact ⟨rfl, rfl⟩
    · cases h

theorem isZeroPairs_even {s : JSString} (h : isZeroPairs s = true) : s.length % 2 = 0 := by
  fun_induction isZeroPairs s with
  | case1 => rfl
  | case2 s _ ih =>
    have := ih h
    rw [List.length_cons, List.length_cons]
    omega
  | case3 => cases h

theorem hexByte_zero_iff {b : UInt8} :
    (digitChar (b.toNat / 16) = 48 ∧ digitChar (b.toNat % 16) = 48) ↔ b = 0 := by
  constructor
  · rintro ⟨hhigh, hlow⟩
    have hhex : toHex [b] = toHex [0] := by
      rw [toHex_cons, hexByte, hhigh, hlow]
      rfl
    exact List.singleton_inj.mp (toHex_injective hhex)
  · rintro rfl
    exact ⟨rfl, rfl⟩

/-- The hexadecimal text of zeros. -/
theorem isZeroPairs_toHex {bs : Bytes} :
    isZeroPairs (toHex bs) = true ↔ bs ≠ [] ∧ ∀ b ∈ bs, b = 0 := by
  induction bs with
  | nil => exact iff_of_false Bool.false_ne_true fun h => h.1 rfl
  | cons b bs ih =>
    have hnil : toHex bs = [] ↔ bs = [] := by
      rw [← List.length_eq_zero_iff, toHex_length, ← List.length_eq_zero_iff]
      omega
    have hcons : toHex (b :: bs) =
        digitChar (b.toNat / 16) :: digitChar (b.toNat % 16) :: toHex bs := rfl
    rw [hcons, isZeroPairs_cons, hexByte_zero_iff, hnil, ih, List.forall_mem_cons]
    by_cases hbs : bs = [] <;> simp [hbs]

/-- The octets before the zeros are left. -/
theorem removeZeroPaddedBytesRight_toHex {bs : Bytes} (hlast : ∀ cs, bs ≠ cs ++ [0]) (k : ℕ) :
    removeZeroPaddedBytesRight (toHex (bs ++ List.replicate k 0)) = toHex bs := by
  induction bs with
  | nil =>
    cases k with
    | zero => rfl
    | succ k =>
      have hzeros : isZeroPairs (toHex (List.replicate (k + 1) 0)) = true :=
        isZeroPairs_toHex.mpr ⟨by simp, fun b hb => List.eq_of_mem_replicate hb⟩
      rw [List.nil_append, List.replicate_succ, toHex_cons, hexByte, List.cons_append] at *
      rw [removeZeroPaddedBytesRight, if_pos hzeros]
      rfl
  | cons b bs ih =>
    have hrest : ∀ cs, bs ≠ cs ++ [0] := fun cs h => hlast (b :: cs) (by rw [h]; rfl)
    -- what follows the first octet begins with a whole octet, or with half of it
    have heven : ¬ isZeroPairs (toHex (b :: (bs ++ List.replicate k 0))) = true := by
      rw [isZeroPairs_toHex]
      rintro ⟨-, hall⟩
      obtain ⟨cs, c, hconcat⟩ := List.eq_nil_or_concat (b :: bs) |>.resolve_left (by simp)
      have hc : c = 0 := hall c (by
        rw [← List.cons_append, hconcat]
        simp)
      rw [hc, List.concat_eq_append] at hconcat
      exact hlast cs hconcat
    have hodd : ¬ isZeroPairs (digitChar (b.toNat % 16) :: toHex (bs ++ List.replicate k 0)) =
        true := by
      intro h
      have := isZeroPairs_even h
      rw [List.length_cons, toHex_length] at this
      omega
    have hcons (cs : Bytes) : toHex (b :: cs) =
        digitChar (b.toNat / 16) :: digitChar (b.toNat % 16) :: toHex cs := rfl
    rw [hcons] at heven
    rw [List.cons_append, hcons, removeZeroPaddedBytesRight, if_neg heven,
      removeZeroPaddedBytesRight, if_neg hodd, ih hrest, hcons]

theorem toHex_replicate_zero (k : ℕ) :
    toHex (List.replicate k 0) = List.replicate (2 * k) (digitChar 0) := by
  induction k with
  | zero => rfl
  | succ k ih =>
    rw [List.replicate_succ, toHex_cons, ih, Nat.mul_succ, List.replicate_succ,
      List.replicate_succ]
    rfl

/-- A memo is padded with zeros to the memo size. -/
theorem bufferFromHex_padEnd (memoSize : ℕ) (bs : Bytes) :
    bufferFromHex (padEnd (memoSize * 2) (digitChar 0) (toHex bs)) =
      bs ++ List.replicate (memoSize - bs.length) 0 := by
  rw [padEnd, toHex_length, show memoSize * 2 - 2 * bs.length = 2 * (memoSize - bs.length) by omega,
    ← toHex_replicate_zero, ← toHex_append, bufferFromHex_toHex]

theorem transactionPlaintext_eq (memoSize : ℕ) (diversifier : Bytes) {amount : ℕ}
    (hamount : amount < 2 ^ 64) (rcm : Bytes) (memo : JSString) :
    transactionPlaintext memoSize diversifier amount rcm memo =
      diversifier ++ beBytes 8 amount ++ rcm ++ toHexBuf (memoSize * 2) 32 ++
        (utf8Encode memo ++ List.replicate (memoSize - (utf8Encode memo).length) 0) := by
  have hvalue : toHexBuf amount 64 = beBytes 8 amount :=
    toHexBuf_eq (show 64 = 8 * 8 by decide) (by decide)
      (show amount < 256 ^ 8 by norm_num at hamount ⊢; exact hamount)
  simp only [transactionPlaintext, forgeTransactionPlaintext, char2Bytes, bufferFromHex_padEnd,
    hvalue]

theorem slice_append {start stop : ℕ} {bs cs ds : Bytes} (hstart : bs.length = start)
    (hstop : start + cs.length = stop) : slice start stop (bs ++ cs ++ ds) = cs := by
  have hlen : (bs ++ cs).length = stop := by
    rw [List.length_append, hstart, hstop]
  rw [slice, List.take_left' hlen, List.drop_left' hstart]

/-- The fields of a plaintext of the right lengths. -/
theorem extractTransactionProperties_append {diversifier value rcm size memo : Bytes}
    (hdiversifier : diversifier.length = 11) (hvalue : value.length = 8) (hrcm : rcm.length = 32)
    (hsize : size.length = 4) :
    extractTransactionProperties (diversifier ++ value ++ rcm ++ size ++ memo) =
      ⟨diversifier, value, rcm, size, memo⟩ := by
  have hfirst := @slice_append 0 11 [] diversifier (value ++ rcm ++ size ++ memo) rfl
    (by rw [hdiversifier])
  have hsecond := @slice_append 11 19 diversifier value (rcm ++ size ++ memo) hdiversifier
    (by rw [hvalue])
  have hthird := @slice_append 19 51 (diversifier ++ value) rcm (size ++ memo)
    (by rw [List.length_append, hdiversifier, hvalue]) (by rw [hrcm])
  have hfourth := @slice_append 51 55 (diversifier ++ value ++ rcm) size memo
    (by rw [List.length_append, List.length_append, hdiversifier, hvalue, hrcm]) (by rw [hsize])
  have hlast : (diversifier ++ value ++ rcm ++ size ++ memo).drop 55 = memo := by
    apply List.drop_left'
    simp only [List.length_append, hdiversifier, hvalue, hrcm, hsize]
  simp only [List.append_assoc, List.nil_append] at hfirst hsecond hthird hfourth hlast ⊢
  rw [extractTransactionProperties, hfirst, hsecond, hthird, hfourth, hlast]

/-! ## What is read back -/

/-- A memo whose text can be read back: its UTF-8 fits, stands for it and does not end in zeros. -/
structure MemoFits (memoSize : ℕ) (memo : JSString) : Prop where
  length : (utf8Encode memo).length ≤ memoSize
  wellFormed : wellFormed memo = true
  last (s : JSString) : memo ≠ s ++ [0]

/-- The UTF-8 of a text ends in zero only where the text does. -/
theorem MemoFits.utf8Encode_last {memoSize : ℕ} {memo : JSString} (h : MemoFits memoSize memo)
    (bs : Bytes) : utf8Encode memo ≠ bs ++ [0] := by
  intro hbs
  apply h.last (utf8Decode bs)
  rw [← utf8Decode_utf8Encode h.wellFormed, hbs]
  exact @utf8Decode_ascii 0 (by decide) bs []

theorem memoHexToUtf8_padded {memoSize : ℕ} {memo : JSString} (h : MemoFits memoSize memo) (k : ℕ) :
    memoHexToUtf8 (toHex (utf8Encode memo ++ List.replicate k 0)) = .ok memo := by
  rw [memoHexToUtf8, removeZeroPaddedBytesRight_toHex h.utf8Encode_last]
  by_cases hnil : utf8Encode memo = []
  · rw [utf8Encode_eq_nil hnil]
    rfl
  · have hhex : toHex (utf8Encode memo) ≠ [] := by
      have hpos := List.length_pos_iff_ne_nil.mpr hnil
      apply List.length_pos_iff_ne_nil.mp
      rw [toHex_length]
      omega
    show (if toHex (utf8Encode memo) = [] then _ else bytes2Char _) = _
    rw [if_neg hhex, bytes2Char, hex2buf_eq_ok hhex (isHexPairs_toHex _), bufferFromHex_toHex,
      Except.ok_bind, utf8Decode_utf8Encode h.wellFormed]
    rfl

/-- **Whatever fits is read back**, from a plaintext of the expected length. -/
theorem plaintext_recovered {memoSize : ℕ} (hmemoSize : memoSize < 2 ^ 31) {diversifier : Bytes}
    (hdiversifier : diversifier.length = 11) {amount : ℕ} (hamount : amount < 2 ^ 64) {rcm : Bytes}
    (hrcm : rcm.length = 32) {memo : JSString} (hmemo : MemoFits memoSize memo) :
    (transactionPlaintext memoSize diversifier amount rcm memo).length =
        11 + 8 + 32 + 4 + memoSize ∧
      beValue (extractTransactionProperties
        (transactionPlaintext memoSize diversifier amount rcm memo)).memoSize = memoSize * 2 ∧
      Recovers (transactionPlaintext memoSize diversifier amount rcm memo) amount rcm memo := by
  have hsize : toHexBuf (memoSize * 2) 32 = beBytes 4 (memoSize * 2) :=
    toHexBuf_eq (show 32 = 8 * 4 by decide) (by decide)
      (show memoSize * 2 < 256 ^ 4 by norm_num at hmemoSize ⊢; omega)
  have hlength := hmemo.length
  rw [transactionPlaintext_eq memoSize diversifier hamount rcm memo, hsize]
  have hextract := @extractTransactionProperties_append diversifier (beBytes 8 amount) rcm
    (beBytes 4 (memoSize * 2))
    (utf8Encode memo ++ List.replicate (memoSize - (utf8Encode memo).length) 0) hdiversifier
    (beBytes_length 8 amount) hrcm (beBytes_length 4 _)
  have hlen : (diversifier ++ beBytes 8 amount ++ rcm ++ beBytes 4 (memoSize * 2) ++
      (utf8Encode memo ++ List.replicate (memoSize - (utf8Encode memo).length) 0)).length =
      11 + 8 + 32 + 4 + memoSize := by
    simp only [List.length_append, beBytes_length, List.length_replicate, hdiversifier, hrcm]
    omega
  have hsizeValue : beValue (beBytes 4 (memoSize * 2)) = memoSize * 2 :=
    beValue_beBytes (by norm_num at hmemoSize ⊢; omega)
  have hamountValue : beValue (beBytes 8 amount) = amount :=
    beValue_beBytes (by norm_num at hamount ⊢; exact hamount)
  refine ⟨hlen, ?_, ?_⟩
  · rw [hextract]
    exact hsizeValue
  · constructor <;> rw [hextract]
    · exact congrArg (Nat.cast : ℕ → ℚ) hamountValue
    · exact memoHexToUtf8_padded hmemo _

/-- A plaintext whose length and length field are right is one for memos of size zero. -/
theorem memoSize_eq_zero {memoSize : ℕ} {diversifier : Bytes}
    (hdiversifier : diversifier.length = 11) {amount : ℕ} (hamount : amount < 2 ^ 64) {rcm : Bytes}
    (hrcm : rcm.length = 32) {memo : JSString}
    (h : PlaintextMeets memoSize (transactionPlaintext memoSize diversifier amount rcm memo) amount
      rcm memo) : memoSize = 0 := by
  obtain ⟨hlength, hfield, -⟩ := h
  rw [transactionPlaintext_eq memoSize diversifier hamount rcm memo] at hlength hfield
  obtain ⟨k, hk, hk4, hlt, htext, hleast⟩ := exists_num2PaddedHex (memoSize * 2) 32
  have hsize : toHexBuf (memoSize * 2) 32 = beBytes k (memoSize * 2) := by
    rw [toHexBuf, htext, bufferFromHex_toHex]
  rw [hsize] at hlength hfield
  -- a field of more octets than four makes the plaintext too long
  have hk : k = 4 := by
    simp only [List.length_append, beBytes_length, List.length_replicate, hdiversifier, hrcm]
      at hlength
    omega
  subst hk
  rw [extractTransactionProperties_append hdiversifier (beBytes_length 8 amount) hrcm
    (beBytes_length 4 _)] at hfield
  have hvalue : beValue (beBytes 4 (memoSize * 2)) = memoSize * 2 := beValue_beBytes hlt
  have hfield : beValue (beBytes 4 (memoSize * 2)) = memoSize := hfield
  omega

/-! ## What the toolkit accepts -/

/-- The memos of formatted parameters have at most the memo size in code units. -/
theorem length_memo_of_format {C : Type} {toolkit : SaplingToolkit C}
    {validateDestination : JSString → Except SaplingError Unit} {params : List Params}
    {outputs formated : List Output} {totalAmount total : ℚ}
    (h : formatTransactionParams toolkit validateDestination params outputs totalAmount =
      .ok (formated, total))
    (houtputs : ∀ output ∈ outputs, output.memo.length ≤ toolkit.memoSize) :
    ∀ output ∈ formated, output.memo.length ≤ toolkit.memoSize := by
  induction params generalizing outputs totalAmount with
  | nil =>
    cases h
    exact houtputs
  | cons param params ih =>
    rw [formatTransactionParams] at h
    obtain ⟨_, -, h⟩ := Except.bind_eq_ok.mp h
    by_cases hlong : (param.memo.getD []).length > toolkit.memoSize
    · rw [if_pos hlong] at h
      cases h
    · rw [if_neg hlong] at h
      refine ih h fun output houtput => ?_
      obtain houtput | houtput := List.mem_append.mp houtput
      · exact houtputs output houtput
      · rw [List.mem_singleton.mp houtput]
        exact Nat.le_of_not_lt hlong

/-- **The plaintext of an accepted memo meets its form only for memos of size zero.** -/
theorem transactionPlaintext_meets_iff {C : Type} (toolkit : SaplingToolkit C)
    (validateDestination : JSString → Except SaplingError Unit) (params : List Params)
    (outputs : List Output) (total : ℚ)
    (hformat : formatTransactionParams toolkit validateDestination params [] 0 =
      .ok (outputs, total))
    (output : Output) (houtput : output ∈ outputs) (amount : ℕ)
    (hamount : amount < 2 ^ 64) (diversifier : Bytes) (hdiversifier : diversifier.length = 11)
    (rcm : Bytes) (hrcm : rcm.length = 32) :
    PlaintextMeets toolkit.memoSize
        (transactionPlaintext toolkit.memoSize diversifier amount rcm output.memo) amount rcm
        output.memo ↔
      toolkit.memoSize = 0 := by
  refine ⟨memoSize_eq_zero hdiversifier hamount hrcm, fun hzero => ?_⟩
  have hmemo : output.memo = [] := by
    have hle := length_memo_of_format hformat (fun _ h => absurd h List.not_mem_nil) output
      houtput
    rw [hzero] at hle
    exact List.length_eq_zero_iff.mp (Nat.le_zero.mp hle)
  have hfits : MemoFits 0 [] := ⟨Nat.le_refl 0, rfl, fun s h => by simp at h⟩
  rw [hzero, hmemo]
  obtain ⟨hlength, hfield, hrecovers⟩ :=
    plaintext_recovered (by decide) hdiversifier hamount hrcm hfits
  exact ⟨hlength, hfield, hrecovers⟩

/-- A toolkit of contracts of a memo size, without cryptography. -/
def plainToolkit (memoSize : ℕ) : SaplingToolkit Unit where
  b58 := ⟨fun _ => [], fun _ => none⟩
  viewer :=
    { decryptCiphertextAsReceiver := fun _ => none
      decryptCiphertextAsSender := fun _ => none
      computeNullifier := fun _ _ => none }
  prover :=
    { address := []
      spend := fun _ => true
      output := fun _ => true
      sign := fun _ _ _ => true }
  memoSize := memoSize

/-- A payment of a mutez without a memo, at size zero. -/
theorem transactionPlaintext_meets_zero :
    PlaintextMeets 0 (transactionPlaintext 0 (List.replicate 11 7) 1 (List.replicate 32 9) []) 1
        (List.replicate 32 9) [] ↔ (0 : ℕ) = 0 :=
  transactionPlaintext_meets_iff (plainToolkit 0) (fun _ => .ok ())
    [{ «to» := js "zet1", amount := 1, memo := none, mutez := true }]
    [{ «to» := js "zet1", amount := 1, memo := [] }] (0 + 1) rfl _ (List.mem_singleton.mpr rfl) 1
    (by decide) (List.replicate 11 7) (by decide) (List.replicate 32 9) (by decide)

/-- A memo of two octets for contracts of memo size two is accepted, and has four for its length. -/
theorem transactionPlaintext_two_octets :
    formatTransactionParams (plainToolkit 2) (fun _ => .ok ())
        [{ «to» := js "zet1", amount := 1, memo := some (js "ab"), mutez := true }] [] 0 =
      .ok ([{ «to» := js "zet1", amount := 1, memo := js "ab" }], 0 + 1) ∧
    ¬ PlaintextMeets 2 (transactionPlaintext 2 (List.replicate 11 7) 1 (List.replicate 32 9)
      (js "ab")) 1 (List.replicate 32 9) (js "ab") := by
  refine ⟨rfl, fun h => ?_⟩
  exact absurd h.memoSize (by decide)

end Sapling
