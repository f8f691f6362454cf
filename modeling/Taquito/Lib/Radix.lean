import Mathlib.Data.List.TakeWhile
import Taquito.Lib.BigEndian

/-!
# Change of radix with leading zeros

`convert a b` writes a digit list of base `a` in base `b`, one leading zero for each leading zero.
Converting back gives the digits one started with (`convert_convert`), and the first digits of the
result are known as soon as the number lies between two multiples of a power of the base
(`digits_prefix`).
-/

namespace Radix

open BigEndian

variable {a b : ℕ} {ds : List ℕ}

/-- How many zeros a digit list begins with. -/
def leadingZeros (ds : List ℕ) : ℕ := (ds.takeWhile (· = 0)).length

/-- The digits in base `b` of a digit list in base `a`, with its leading zeros. -/
def convert (a b : ℕ) (ds : List ℕ) : List ℕ :=
  List.replicate (leadingZeros ds) 0 ++ (Nat.digits b (ofDigitsBE a ds)).reverse

theorem leadingZeros_append {zeros rest : List ℕ} (hzeros : ∀ d ∈ zeros, d = 0)
    (hrest : ∀ d ∈ rest.head?, d ≠ 0) : leadingZeros (zeros ++ rest) = zeros.length := by
  rw [leadingZeros, List.takeWhile_append_of_pos (by simpa using hzeros)]
  cases rest with
  | nil => simp
  | cons d rest =>
    have hd : d ≠ 0 := hrest d rfl
    simp [hd]

/-- Every digit list is a number of zeros before one that does not begin with a zero. -/
theorem exists_leadingZeros (ds : List ℕ) :
    ∃ rest, ds = List.replicate (leadingZeros ds) 0 ++ rest ∧ ∀ d ∈ rest.head?, d ≠ 0 := by
  refine ⟨ds.dropWhile (· = 0), ?_, ?_⟩
  · have hzeros : ds.takeWhile (· = 0) = List.replicate (leadingZeros ds) 0 := by
      rw [List.eq_replicate_iff]
      exact ⟨rfl, fun d hd => by simpa using List.mem_takeWhile_imp hd⟩
    rw [← hzeros, List.takeWhile_append_dropWhile]
  · intro d hd
    have hne := List.head?_dropWhile_not (· = 0) ds
    rw [Option.mem_def.mp hd] at hne
    simpa using hne

theorem ofDigitsBE_eq (b : ℕ) (ds : List ℕ) : ofDigitsBE b ds = Nat.ofDigits b ds.reverse := by
  induction ds using List.reverseRecOn with
  | nil => rfl
  | append_singleton ds d ih =>
    rw [ofDigitsBE_concat, List.reverse_append, List.reverse_singleton, List.singleton_append,
      Nat.ofDigits_cons, ih]
    ring

theorem ofDigitsBE_replicate_append (b k : ℕ) (ds : List ℕ) :
    ofDigitsBE b (List.replicate k 0 ++ ds) = ofDigitsBE b ds := by
  rw [ofDigitsBE_eq, ofDigitsBE_eq, List.reverse_append, List.reverse_replicate,
    Nat.ofDigits_append_replicate_zero]

theorem head_reverse_digits_ne_zero (b n : ℕ) :
    ∀ d ∈ (Nat.digits b n).reverse.head?, d ≠ 0 := by
  intro d hd
  by_cases hn : n = 0
  · subst hn
    simp at hd
  · rw [List.head?_reverse, List.getLast?_eq_some_getLast (Nat.digits_ne_nil_iff_ne_zero.mpr hn)]
      at hd
    rw [← Option.some.inj hd]
    exact Nat.getLast_digit_ne_zero b hn

/-- The digits of the number that a digit list without leading zeros stands for. -/
theorem reverse_digits_ofDigitsBE (hb : 1 < b) (h : ∀ d ∈ ds, d < b)
    (hhead : ∀ d ∈ ds.head?, d ≠ 0) : (Nat.digits b (ofDigitsBE b ds)).reverse = ds := by
  rw [ofDigitsBE_eq, Nat.digits_ofDigits b hb, List.reverse_reverse]
  · intro d hd
    exact h d (List.mem_reverse.mp hd)
  · intro hne
    apply hhead
    rw [← List.getLast?_reverse, List.getLast?_eq_some_getLast hne]
    rfl

theorem lt_of_mem_convert (hb : 1 < b) {d : ℕ} (h : d ∈ convert a b ds) : d < b := by
  rcases List.mem_append.mp h with hzero | hdigit
  · rw [List.eq_of_mem_replicate hzero]
    omega
  · exact Nat.digits_lt_base hb (List.mem_reverse.mp hdigit)

/-- **Converting back gives the digits.** -/
theorem convert_convert (ha : 1 < a) (h : ∀ d ∈ ds, d < a) :
    convert b a (convert a b ds) = ds := by
  obtain ⟨rest, hds, hrest⟩ := exists_leadingZeros ds
  have hzeros : leadingZeros (convert a b ds) = leadingZeros ds := by
    rw [convert, leadingZeros_append (fun d hd => List.eq_of_mem_replicate hd)
      (head_reverse_digits_ne_zero _ _), List.length_replicate]
  have hvalue : ofDigitsBE b (convert a b ds) = ofDigitsBE a ds := by
    rw [convert, ofDigitsBE_replicate_append, ofDigitsBE_eq, List.reverse_reverse,
      Nat.ofDigits_digits]
  have hdigits : (Nat.digits a (ofDigitsBE a ds)).reverse = rest := by
    have hlt : ∀ d ∈ rest, d < a := by
      intro d hd
      apply h
      rw [hds]
      exact List.mem_append_right _ hd
    have hrestValue : ofDigitsBE a ds = ofDigitsBE a rest := by
      conv_lhs => rw [hds, ofDigitsBE_replicate_append]
    rw [hrestValue, reverse_digits_ofDigitsBE ha hlt hrest]
  rw [convert, hzeros, hvalue, hdigits, ← hds]

/-- A number between two multiples of a power of the base begins with the digits of the multiple. -/
theorem digits_prefix (hb : 1 < b) {m n k : ℕ} (hm : 0 < m) (hlow : m * b ^ k ≤ n)
    (hhigh : n < (m + 1) * b ^ k) :
    (Nat.digits b m).reverse <+: (Nat.digits b n).reverse := by
  have hrest : n - m * b ^ k < b ^ k := by
    rw [Nat.add_mul, Nat.one_mul] at hhigh
    omega
  have hlength : (Nat.digits b (n - m * b ^ k)).length ≤ k :=
    (Nat.digits_length_le_iff hb _).mpr hrest
  have hn : n - m * b ^ k + b ^ ((Nat.digits b (n - m * b ^ k)).length
      + (k - (Nat.digits b (n - m * b ^ k)).length)) * m = n := by
    rw [Nat.add_sub_cancel' hlength, Nat.mul_comm (b ^ k), Nat.sub_add_cancel hlow]
  have hdigits := Nat.digits_append_zeroes_append_digits (b := b) (k := k -
    (Nat.digits b (n - m * b ^ k)).length) (n := n - m * b ^ k) hb hm
  rw [hn] at hdigits
  rw [← hdigits, List.reverse_append]
  exact List.prefix_append _ _

end Radix
