import Mathlib.Data.Nat.Digits.Lemmas
import Mathlib.Tactic.Ring

/-!
# Positional numerals, most significant digit first

`fixedDigits b k n` writes the last `k` base-`b` digits of `n` and `ofDigitsBE b` reads a digit list
back; below `b ^ k` they are mutually inverse. `leadingDigits b n` is the numeral without leading
zeros (`[0]` for zero), and padding it on the left gives the fixed-width one. `beBytes` and
`beValue` are the base-256 instance over octets.
-/

namespace BigEndian

/-! ## Digits of a fixed width -/

/-- The last `k` digits of `n` in base `b`, most significant first. -/
def fixedDigits (b : ℕ) : ℕ → ℕ → List ℕ
  | 0, _ => []
  | k + 1, n => fixedDigits b k (n / b) ++ [n % b]

/-- The number a digit list stands for. -/
def ofDigitsBE (b : ℕ) (ds : List ℕ) : ℕ := ds.foldl (fun acc d => acc * b + d) 0

@[simp] theorem fixedDigits_length (b k n : ℕ) : (fixedDigits b k n).length = k := by
  induction k generalizing n with
  | zero => rfl
  | succ k ih => simp [fixedDigits, ih]

theorem fixedDigits_lt {b : ℕ} (hb : 0 < b) {k n d : ℕ} (h : d ∈ fixedDigits b k n) : d < b := by
  induction k generalizing n with
  | zero => simp [fixedDigits] at h
  | succ k ih =>
    rcases List.mem_append.mp h with h | h
    · exact ih h
    · rw [List.mem_singleton.mp h]
      exact Nat.mod_lt _ hb

@[simp] theorem ofDigitsBE_nil (b : ℕ) : ofDigitsBE b [] = 0 := rfl

theorem ofDigitsBE_concat (b : ℕ) (ds : List ℕ) (d : ℕ) :
    ofDigitsBE b (ds ++ [d]) = ofDigitsBE b ds * b + d := by
  simp [ofDigitsBE]

/-- Reading back what was written, below the capacity of the width. -/
theorem ofDigitsBE_fixedDigits (b k n : ℕ) :
    ofDigitsBE b (fixedDigits b k n) = n % b ^ k := by
  induction k generalizing n with
  | zero => simp [fixedDigits, Nat.mod_one]
  | succ k ih =>
    rw [fixedDigits, ofDigitsBE_concat, ih, pow_succ', Nat.mod_mul]
    ring

theorem ofDigitsBE_lt {b : ℕ} {ds : List ℕ} (h : ∀ d ∈ ds, d < b) :
    ofDigitsBE b ds < b ^ ds.length := by
  induction ds using List.reverseRecOn with
  | nil => simp
  | append_singleton ds d ih =>
    have hd : d < b := h d (by simp)
    have ih := ih fun x hx => h x (by simp [hx])
    rw [ofDigitsBE_concat, List.length_append, List.length_singleton, pow_succ]
    calc ofDigitsBE b ds * b + d < ofDigitsBE b ds * b + b := by omega
      _ = (ofDigitsBE b ds + 1) * b := by ring
      _ ≤ b ^ ds.length * b := Nat.mul_le_mul_right _ ih

/-- Writing back what was read. -/
theorem fixedDigits_ofDigitsBE {b : ℕ} {ds : List ℕ} (h : ∀ d ∈ ds, d < b) :
    fixedDigits b ds.length (ofDigitsBE b ds) = ds := by
  induction ds using List.reverseRecOn with
  | nil => rfl
  | append_singleton ds d ih =>
    have hd : d < b := h d (by simp)
    have hdiv : (ofDigitsBE b ds * b + d) / b = ofDigitsBE b ds := by
      rw [Nat.add_comm, Nat.add_mul_div_right _ _ (by omega), Nat.div_eq_of_lt hd, Nat.zero_add]
    have hmod : (ofDigitsBE b ds * b + d) % b = d := by
      rw [Nat.add_comm, Nat.add_mul_mod_self_right, Nat.mod_eq_of_lt hd]
    rw [ofDigitsBE_concat, List.length_append, List.length_singleton, fixedDigits, hdiv, hmod,
      ih fun x hx => h x (by simp [hx])]

/-- A fixed-width numeral splits at any digit. -/
theorem fixedDigits_add (b k j n : ℕ) :
    fixedDigits b (k + j) n = fixedDigits b k (n / b ^ j) ++ fixedDigits b j n := by
  induction j generalizing n with
  | zero => simp [fixedDigits]
  | succ j ih =>
    rw [← Nat.add_assoc, fixedDigits, ih, fixedDigits, Nat.div_div_eq_div_mul, ← pow_succ',
      List.append_assoc]

/-! ## Numerals without leading zeros -/

/-- The digits of `n` with no leading zero; a single zero for `0`. -/
def leadingDigits (b n : ℕ) : List ℕ := if n = 0 then [0] else (Nat.digits b n).reverse

theorem leadingDigits_ne_nil (b n : ℕ) : leadingDigits b n ≠ [] := by
  unfold leadingDigits
  split
  · simp
  · next h => simp [Nat.digits_ne_nil_iff_ne_zero.mpr h]

private theorem replicate_digits {b : ℕ} (hb : 1 < b) (k n : ℕ) (h : n < b ^ k) :
    List.replicate (k - (Nat.digits b n).length) 0 ++ (Nat.digits b n).reverse =
      fixedDigits b k n := by
  induction k generalizing n with
  | zero =>
    obtain rfl : n = 0 := by simpa using h
    simp [fixedDigits]
  | succ k ih =>
    rcases Nat.eq_zero_or_pos n with rfl | hn
    · have := ih 0 (Nat.pow_pos (by omega))
      simp only [Nat.digits_zero, List.length_nil, Nat.sub_zero, List.reverse_nil,
        List.append_nil] at this ⊢
      rw [fixedDigits, Nat.zero_div, Nat.zero_mod, ← this, ← List.replicate_succ']
    · have hdiv : n / b < b ^ k := by
        rw [Nat.div_lt_iff_lt_mul (by omega), ← pow_succ]
        exact h
      rw [fixedDigits, ← ih _ hdiv, Nat.digits_def' hb hn]
      simp

/-- Padding on the left with zeros gives the fixed-width numeral. -/
theorem replicate_leadingDigits {b : ℕ} (hb : 1 < b) {k n : ℕ} (hk : 0 < k) (h : n < b ^ k) :
    List.replicate (k - (leadingDigits b n).length) 0 ++ leadingDigits b n =
      fixedDigits b k n := by
  unfold leadingDigits
  split
  · next hn =>
    subst hn
    have := replicate_digits hb k 0 h
    simp only [Nat.digits_zero, List.length_nil, Nat.sub_zero, List.reverse_nil,
      List.append_nil] at this
    rw [← this, List.length_singleton, ← List.replicate_succ', Nat.sub_add_cancel hk]
  · simpa using replicate_digits hb k n h

/-- The width a number needs. -/
theorem leadingDigits_length_le {b : ℕ} (hb : 1 < b) {k n : ℕ} (hk : 0 < k) :
    (leadingDigits b n).length ≤ k ↔ n < b ^ k := by
  unfold leadingDigits
  split
  · next hn =>
    subst hn
    simp only [List.length_singleton]
    exact ⟨fun _ => Nat.pow_pos (by omega), fun _ => hk⟩
  · rw [List.length_reverse, Nat.digits_length_le_iff hb]

theorem leadingDigits_lt {b : ℕ} (hb : 1 < b) {n d : ℕ} (h : d ∈ leadingDigits b n) : d < b := by
  unfold leadingDigits at h
  split at h
  · rw [List.mem_singleton.mp h]
    omega
  · exact Nat.digits_lt_base hb (List.mem_reverse.mp h)

theorem ofDigitsBE_leadingDigits {b : ℕ} (hb : 1 < b) (n : ℕ) :
    ofDigitsBE b (leadingDigits b n) = n := by
  unfold leadingDigits
  split
  · next h => simp [ofDigitsBE, h]
  · next h =>
    have key := replicate_digits hb (Nat.digits b n).length n (Nat.lt_base_pow_length_digits hb)
    simp only [Nat.sub_self, List.replicate_zero, List.nil_append] at key
    rw [key, ofDigitsBE_fixedDigits, Nat.mod_eq_of_lt (Nat.lt_base_pow_length_digits hb)]

/-! ## Octets -/

/-- The last `k` octets of `n`, most significant first. -/
def beBytes (k n : ℕ) : List UInt8 := (fixedDigits 256 k n).map UInt8.ofNat

/-- The number a list of octets stands for. -/
def beValue (bs : List UInt8) : ℕ := ofDigitsBE 256 (bs.map UInt8.toNat)

@[simp] theorem beBytes_length (k n : ℕ) : (beBytes k n).length = k := by simp [beBytes]

private theorem map_toNat_ofNat {ds : List ℕ} (h : ∀ d ∈ ds, d < 256) :
    (ds.map UInt8.ofNat).map UInt8.toNat = ds := by
  rw [List.map_map, List.map_congr_left (g := id), List.map_id]
  intro d hd
  simpa using h d hd

theorem beValue_beBytes {k n : ℕ} (h : n < 256 ^ k) : beValue (beBytes k n) = n := by
  rw [beValue, beBytes, map_toNat_ofNat fun d hd => fixedDigits_lt (by omega) hd,
    ofDigitsBE_fixedDigits, Nat.mod_eq_of_lt h]

theorem beValue_lt (bs : List UInt8) : beValue bs < 256 ^ bs.length := by
  have h : ∀ d ∈ bs.map UInt8.toNat, d < 256 := by
    intro d hd
    obtain ⟨b, -, rfl⟩ := List.mem_map.mp hd
    exact b.toNat_lt
  simpa [beValue] using ofDigitsBE_lt h

theorem beBytes_beValue (bs : List UInt8) : beBytes bs.length (beValue bs) = bs := by
  have h : ∀ d ∈ bs.map UInt8.toNat, d < 256 := by
    intro d hd
    obtain ⟨b, -, rfl⟩ := List.mem_map.mp hd
    exact b.toNat_lt
  have := fixedDigits_ofDigitsBE h
  rw [List.length_map] at this
  rw [beBytes, beValue, this, List.map_map, List.map_congr_left (g := id), List.map_id]
  intro b _
  simp

theorem beValue_injective {bs cs : List UInt8} (hl : bs.length = cs.length)
    (h : beValue bs = beValue cs) : bs = cs := by
  rw [← beBytes_beValue bs, ← beBytes_beValue cs, hl, h]

end BigEndian
