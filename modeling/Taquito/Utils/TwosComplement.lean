import Mathlib.Tactic.Linarith
import Mathlib.Tactic.Ring
import Taquito.Utils.Hex

/-!
# Integers of a fixed width

`num2PaddedHex` writes what is not negative padded with zeros, and what is negative as the number
that a power of two leaves. The power is not padded, and need not be: within half of the width its
first digit is not zero. So both cases give the octets of the integer modulo the power
(`num2PaddedHexInt_octets`), which `changeEndianness` puts in the opposite order.
-/

open Js BigEndian

namespace Utils

/-- `x.toString(16)`, of an integer. -/
def hexText (x : ℤ) : JSString := (if x < 0 then js "-" else []) ++ numberText 16 x.natAbs

/-- `num2PaddedHex`, of any integer: a `BigNumber`, or a number up to `2^53`; zero has no sign. -/
def num2PaddedHexInt (val : ℤ) (bitLength : ℕ) : JSString :=
  if 0 ≤ val then num2PaddedHex val.toNat bitLength
  else
    let twosCompliment := 2 ^ bitLength - |val|
    hexText twosCompliment

/-- The octets of an integer modulo the power of two of the width, the highest first. -/
def twosComplement (k : ℕ) (val : ℤ) : Bytes := beBytes k (val % 256 ^ k).toNat

/-! ## Widths of whole octets -/

theorem two_pow_eq (k : ℕ) : (2 : ℤ) ^ (8 * k) = 256 ^ k := by
  rw [pow_mul]
  norm_num

/-- A number with its first digit in the width needs no padding. -/
theorem numberText_eq_toHex {k n : ℕ} (hk : 0 < k) (hlo : 2 ^ (8 * k - 1) ≤ n) (hhi : n < 256 ^ k) :
    numberText 16 n = toHex (beBytes k n) := by
  have hlong : 2 * k ≤ (numberText 16 n).length := by
    by_contra hshort
    have hle : (leadingDigits 16 n).length ≤ 2 * k - 1 := by
      rw [← @List.length_map _ _ (leadingDigits 16 n) digitChar]
      exact Nat.le_sub_one_of_lt (Nat.not_le.mp hshort)
    have hlt : n < 16 ^ (2 * k - 1) := (leadingDigits_length_le (by omega) (by omega)).mp hle
    have hpow : (16 : ℕ) ^ (2 * k - 1) ≤ 2 ^ (8 * k - 1) := by
      rw [show (16 : ℕ) = 2 ^ 4 by norm_num, ← pow_mul]
      exact Nat.pow_le_pow_right (by omega) (by omega)
    omega
  rw [← padStart_hexText hk hhi, padStart, Nat.sub_eq_zero_of_le hlong]
  rfl

/-- **An integer of the width** is written as its octets. -/
theorem num2PaddedHexInt_octets {k : ℕ} {val : ℤ} (hk : 0 < k) (hlo : -2 ^ (8 * k - 1) ≤ val)
    (hhi : val < 2 ^ (8 * k)) : num2PaddedHexInt val (8 * k) = toHex (twosComplement k val) := by
  have hhalf : (2 : ℤ) ^ (8 * k) = 2 * 2 ^ (8 * k - 1) := by
    rw [← pow_succ', Nat.sub_add_cancel (by omega)]
  unfold num2PaddedHexInt twosComplement
  by_cases h : 0 ≤ val
  · obtain ⟨n, rfl⟩ := Int.eq_ofNat_of_zero_le h
    rw [two_pow_eq] at hhi
    have hlt : n < 256 ^ k := by exact_mod_cast hhi
    rw [if_pos h, Int.emod_eq_of_lt h hhi, Int.toNat_natCast, num2PaddedHex_eq_toHex,
      toHexBuf_eq rfl hk hlt]
  · have hneg : val < 0 := Int.not_le.mp h
    have hmod : val % 256 ^ k = 2 ^ (8 * k) + val := by
      rw [← two_pow_eq, ← Int.add_emod_left, Int.emod_eq_of_lt (by linarith) (by linarith)]
    obtain ⟨n, hn⟩ := Int.eq_ofNat_of_zero_le (show 0 ≤ 2 ^ (8 * k) + val by linarith)
    have hn : (2 : ℤ) ^ (8 * k) + val = n := hn
    have hlow : 2 ^ (8 * k - 1) ≤ n := by
      have hint : ((2 ^ (8 * k - 1) : ℕ) : ℤ) ≤ n := by
        rw [← hn, Nat.cast_pow, Nat.cast_ofNat]
        linarith
      exact_mod_cast hint
    have hhigh : n < 256 ^ k := by
      have hint : (n : ℤ) < ((256 ^ k : ℕ) : ℤ) := by
        rw [← hn, Nat.cast_pow, Nat.cast_ofNat, ← two_pow_eq]
        linarith
      exact_mod_cast hint
    rw [if_neg h, hmod, abs_of_neg hneg, sub_neg_eq_add, hn, Int.toNat_natCast]
    show hexText (n : ℤ) = _
    rw [hexText, if_neg (by omega), List.nil_append, Int.natAbs_natCast]
    exact numberText_eq_toHex hk hlow hhigh

/-! ## The order of the octets -/

/-- The pairs of a text of even length are all of it. -/
theorem flatten_charPairs : ∀ {s : JSString}, s.length % 2 = 0 → (charPairs s).flatten = s
  | [], _ => rfl
  | [_], h => absurd h (by simp)
  | c :: d :: s, h => by
    have hs : s.length % 2 = 0 := by
      rw [List.length_cons, List.length_cons] at h
      omega
    rw [charPairs, List.flatten_cons, flatten_charPairs hs]
    rfl

theorem charPairs_flatten {pairs : List JSString} (h : ∀ p ∈ pairs, p.length = 2) :
    charPairs pairs.flatten = pairs := by
  induction pairs with
  | nil => rfl
  | cons p pairs ih =>
    obtain ⟨hp, hpairs⟩ := List.forall_mem_cons.mp h
    obtain ⟨c, d, rfl⟩ := List.length_eq_two.mp hp
    rw [List.flatten_cons, List.cons_append, List.cons_append, List.nil_append, charPairs,
      ih hpairs]

theorem length_of_mem_charPairs : ∀ {s p : JSString}, p ∈ charPairs s → p.length = 2
  | c :: d :: s, p, h => by
    rcases List.mem_cons.mp h with rfl | h
    · rfl
    · exact length_of_mem_charPairs h

/-- **The opposite order of the opposite order** is the order itself. -/
theorem changeEndianness_changeEndianness {s : JSString} (h : s.length % 2 = 0) :
    changeEndianness (changeEndianness s) = s := by
  have hpairs : ∀ p ∈ (charPairs s).reverse, p.length = 2 := fun p hp =>
    length_of_mem_charPairs (List.mem_reverse.mp hp)
  have heven : ¬ (charPairs s).reverse.flatten.length % 2 ≠ 0 := by
    rw [List.length_flatten, List.map_reverse, List.sum_reverse, ← List.length_flatten,
      flatten_charPairs h]
    omega
  rw [changeEndianness, changeEndianness, if_neg (not_not.mpr h), if_neg heven,
    charPairs_flatten hpairs, List.reverse_reverse, flatten_charPairs h]

/-! ## Numbers of a fixed width -/

end Utils
