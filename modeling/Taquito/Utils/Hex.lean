import Taquito.Js.Utf8
import Taquito.Utils.VerifySignature

/-!
# Numbers and texts in hexadecimal

The helpers of `taquito-utils` that the Sapling package writes numbers and memos with. A natural
number that fits is written as its big-endian octets (`toHexBuf_eq`).
-/

open Js BigEndian

namespace Utils

/-! ## Numbers -/

/-- `num2PaddedHex`, of a number that is not negative. -/
def num2PaddedHex (val bitLength : ℕ) : JSString :=
  let nibbleLength := (bitLength + 3) / 4
  let hex := numberText 16 val
  let targetLength := if nibbleLength ≤ hex.length then hex.length else nibbleLength
  let targetLength := if targetLength % 2 = 0 then targetLength else targetLength + 1
  padStart targetLength (digitChar 0) hex

/-- `toHexBuf`. -/
def toHexBuf (val bitLength : ℕ) : Bytes := bufferFromHex (num2PaddedHex val bitLength)

/-- The text is padded to whole octets. -/
theorem exists_num2PaddedHex (n bitLength : ℕ) :
    ∃ k, 0 < k ∧ (bitLength + 7) / 8 ≤ k ∧ n < 256 ^ k ∧ num2PaddedHex n bitLength = toHex (beBytes k n) ∧
      (∀ j, 0 < j → n < 256 ^ j → (bitLength + 7) / 8 ≤ j → k ≤ j) := by
  have hpos : 0 < (numberText 16 n).length := List.length_pos_of_ne_nil (numberText_ne_nil _ _)
  obtain ⟨k, hk, hmax⟩ : ∃ k,
      num2PaddedHex n bitLength = padStart (2 * k) (digitChar 0) (numberText 16 n) ∧ k = (max (numberText 16 n).length ((bitLength + 3) / 4) + 1) / 2 := by
    refine ⟨_, ?_, rfl⟩
    rw [num2PaddedHex]
    congr 1
    split_ifs <;> omega
  have hk0 : 0 < k := by omega
  have hlt : n < 256 ^ k := (numberText_hex_length_le hk0).mp (by omega)
  refine ⟨k, hk0, by omega, hlt, ?_, fun j hj hnj hbits => ?_⟩
  · rw [hk, padStart_hexText hk0 hlt]
  · have := (numberText_hex_length_le hj).mpr hnj
    omega

/-- The text of the octets. -/
theorem num2PaddedHex_eq_toHex (n bitLength : ℕ) :
    num2PaddedHex n bitLength = toHex (toHexBuf n bitLength) := by
  obtain ⟨k, -, -, -, h, -⟩ := exists_num2PaddedHex n bitLength
  rw [toHexBuf, h, bufferFromHex_toHex]

/-- A number that fits is written as its octets. -/
theorem toHexBuf_eq {bitLength k n : ℕ} (hbits : bitLength = 8 * k) (hk : 0 < k)
    (h : n < 256 ^ k) : toHexBuf n bitLength = beBytes k n := by
  subst hbits
  obtain ⟨m, -, hm, -, htext, hleast⟩ := exists_num2PaddedHex n (8 * k)
  have hmk : m = k := by
    have := hleast k hk h (by omega)
    omega
  rw [toHexBuf, htext, bufferFromHex_toHex, hmk]

theorem toHexBuf_ne_nil (n bitLength : ℕ) : toHexBuf n bitLength ≠ [] := by
  obtain ⟨k, hk, -, -, h, -⟩ := exists_num2PaddedHex n bitLength
  rw [toHexBuf, h, bufferFromHex_toHex, ← List.length_pos_iff_ne_nil, beBytes_length]
  exact hk

/-! ## Octets -/

/-- `hex2Bytes`. -/
def hex2Bytes (hex : JSString) : Except UtilsError Bytes := hex2buf hex

theorem hex2Bytes_toHex {bs : Bytes} (h : bs ≠ []) : hex2Bytes (toHex bs) = .ok bs := by
  have hne : toHex bs ≠ [] := by
    obtain ⟨b, bs, rfl⟩ := List.exists_cons_of_ne_nil h
    exact List.cons_ne_nil _ _
  rw [hex2Bytes, hex2buf_eq_ok hne (isHexPairs_toHex bs), bufferFromHex_toHex]

/-- The pairs of characters of a text. -/
def charPairs : JSString → List JSString
  | c :: d :: s => [c, d] :: charPairs s
  | _ => []

/-- `changeEndianness`. -/
def changeEndianness (hex : JSString) : JSString :=
  let hex := if hex.length % 2 ≠ 0 then 48 :: hex else hex
  (charPairs hex).reverse.flatten

theorem charPairs_toHex (bs : Bytes) : charPairs (toHex bs) = bs.map hexByte := by
  induction bs with
  | nil => rfl
  | cons b bs ih =>
    rw [toHex_cons, hexByte, List.cons_append, List.cons_append, List.nil_append, charPairs, ih]
    rfl

theorem changeEndianness_toHex (bs : Bytes) : changeEndianness (toHex bs) = toHex bs.reverse := by
  have heven : ¬ (toHex bs).length % 2 ≠ 0 := by
    rw [toHex_length]
    omega
  rw [changeEndianness, if_neg heven, charPairs_toHex, ← List.map_reverse, toHex, List.flatMap]

/-- The octets of a number, the lowest first. -/
theorem hex2Bytes_changeEndianness (n bitLength : ℕ) :
    hex2Bytes (changeEndianness (num2PaddedHex n bitLength)) =
      .ok (toHexBuf n bitLength).reverse := by
  rw [num2PaddedHex_eq_toHex, changeEndianness_toHex, hex2Bytes_toHex]
  exact mt List.reverse_eq_nil_iff.mp (toHexBuf_ne_nil n bitLength)

/-! ## Texts -/

/-- `char2Bytes`. -/
def char2Bytes (str : JSString) : JSString := toHex (utf8Encode str)

/-- `bytes2Char`. -/
def bytes2Char (hex : JSString) : Except UtilsError JSString := do
  return utf8Decode (← hex2buf hex)

end Utils
