import Mathlib.Data.Nat.Digits.Lemmas
import Taquito.Lib.Reader
import Taquito.MichelCodec.Utils

/-!
# The arbitrary-length integers

The buffer of a `LongInteger` is the list of the digits of the magnitude in base 256, without
superfluous limbs, whatever zeros the numeral starts with (`parse_of_decimal`); so `cmp`, which
compares the numbers of limbs and then the limbs from the last one, compares the magnitudes. The
sign is kept beside them, also that of `-0`, and no digit at all is read as zero; `numerals_iff`
says that nothing else goes wrong.
-/

open Js BigEndian

namespace MichelCodec

namespace LongInteger

/-! ## Comparison -/

/-- The loop of `cmp`: limbs from the last one on, of buffers of one length. -/
def cmpLimbs : List ℕ → List ℕ → ℤ
  | a :: as, b :: bs => if a = b then cmpLimbs as bs else if a < b then -1 else 1
  | _, _ => 0

/-- `cmp`. -/
def cmp (n arg : LongInteger) : ℤ :=
  if n.neg ≠ arg.neg then (if arg.neg then 1 else 0) - (if n.neg then 1 else 0)
  else
    let ret :=
      if n.buf.length ≠ arg.buf.length then (if n.buf.length < arg.buf.length then -1 else 1)
      else cmpLimbs n.buf.reverse arg.buf.reverse
    if !n.neg then ret else if ret = 0 then 0 else -ret

/-- The integer that the object stands for. -/
def value (n : LongInteger) : ℤ :=
  let magnitude : ℕ := Nat.ofDigits 256 n.buf
  if n.neg then -magnitude else magnitude

/-! ## Limbs -/

theorem carry_eq_digits {fuel c : ℕ} (h : c ≤ fuel) : carry fuel c = Nat.digits 256 c := by
  induction fuel generalizing c with
  | zero =>
    obtain rfl : c = 0 := by omega
    rw [carry, Nat.digits_zero]
  | succ fuel ih =>
    rw [carry]
    by_cases hc : c = 0
    · rw [if_pos hc, hc, Nat.digits_zero]
    · rw [if_neg hc, ih (by omega), Nat.digits_def' (by omega) (Nat.pos_of_ne_zero hc)]

/-- `append` adds a digit and no superfluous limb. -/
theorem append_digits (m c : ℕ) : append (Nat.digits 256 m) c = Nat.digits 256 (10 * m + c) := by
  induction m using Nat.strong_induction_on generalizing c with
  | _ m ih =>
    by_cases hm : m = 0
    · rw [hm, Nat.digits_zero, append, carry_eq_digits le_rfl, Nat.mul_zero, Nat.zero_add]
    · rw [Nat.digits_def' (by omega) (Nat.pos_of_ne_zero hm), append, ih (m / 256) (by omega),
        Nat.digits_def' (n := 10 * m + c) (by omega) (by omega)]
      congr 1
      · omega
      · congr 1
        omega

theorem digits_digits {ds : List ℕ} (h : ∀ d ∈ ds, d < 10) (m : ℕ) :
    digits (Nat.digits 256 m) (ds.map digitChar) =
      .ok (Nat.digits 256 (ds.foldl (fun acc d => acc * 10 + d) m)) := by
  induction ds generalizing m with
  | nil => rfl
  | cons d ds ih =>
    have hd : d < 10 := h d List.mem_cons_self
    have hchar : (digitChar d).toNat = 48 + d := by rw [digitChar_toNat (by omega), if_pos hd]
    rw [List.map_cons, digits, if_neg (by omega), hchar, Nat.add_sub_cancel_left, append_digits,
      ih (fun x hx => h x (List.mem_cons_of_mem d hx)), List.foldl_cons, Nat.mul_comm 10]

/-- Limbs of one number compare like the numbers. -/
theorem cmpLimbs_eq_sign : ∀ {as bs : List ℕ}, as.length = bs.length → (∀ a ∈ as, a < 256) →
    (∀ b ∈ bs, b < 256) →
    cmpLimbs as bs = Int.sign ((Nat.ofDigits 256 as.reverse : ℕ) - (Nat.ofDigits 256 bs.reverse : ℕ))
  | [], [], _, _, _ => rfl
  | a :: as, b :: bs, hlength, has, hbs => by
    have hlength' : as.length = bs.length := Nat.succ.inj hlength
    have ih := @cmpLimbs_eq_sign as bs hlength' (fun x hx => has x (List.mem_cons_of_mem a hx))
      fun x hx => hbs x (List.mem_cons_of_mem b hx)
    have hvalue {l : List ℕ} (h : ∀ x ∈ l, x < 256) :
        Nat.ofDigits 256 l.reverse < 256 ^ l.length := by
      have hlt := @Nat.ofDigits_lt_base_pow_length 256 l.reverse (by omega)
        fun x hx => h x (List.mem_reverse.mp hx)
      rwa [List.length_reverse] at hlt
    have ha := hvalue fun x hx => has x (List.mem_cons_of_mem a hx)
    have hb := hvalue fun x hx => hbs x (List.mem_cons_of_mem b hx)
    rw [cmpLimbs, Nat.ofDigits_reverse_cons, Nat.ofDigits_reverse_cons, ← hlength']
    rw [← hlength'] at hb
    generalize 256 ^ as.length = place at ha hb ⊢
    by_cases hab : a = b
    · rw [if_pos hab, ih, hab]
      congr 1
      omega
    · rw [if_neg hab]
      by_cases hlt : a < b
      · have hmul := Nat.mul_le_mul_left place (Nat.succ_le_of_lt hlt)
        rw [Nat.mul_succ] at hmul
        rw [if_pos hlt, Int.sign_eq_neg_one_of_neg (by omega)]
      · have hmul := Nat.mul_le_mul_left place (Nat.succ_le_of_lt (show b < a by omega))
        rw [Nat.mul_succ] at hmul
        rw [if_neg hlt, Int.sign_eq_one_of_pos (by omega)]

/-- The magnitudes are compared. -/
theorem cmp_digits (neg : Bool) (m k : ℕ) :
    cmp ⟨neg, Nat.digits 256 m⟩ ⟨neg, Nat.digits 256 k⟩ =
      if neg then Int.sign (k - m) else Int.sign (m - k) := by
  have hret : (if (Nat.digits 256 m).length ≠ (Nat.digits 256 k).length then
        (if (Nat.digits 256 m).length < (Nat.digits 256 k).length then (-1 : ℤ) else 1)
      else cmpLimbs (Nat.digits 256 m).reverse (Nat.digits 256 k).reverse) =
      Int.sign (m - k) := by
    by_cases hlength : (Nat.digits 256 m).length = (Nat.digits 256 k).length
    · have hlimb {n x : ℕ} (hx : x ∈ (Nat.digits 256 n).reverse) : x < 256 :=
        Nat.digits_lt_base (by omega) (List.mem_reverse.mp hx)
      rw [if_neg (not_not_intro hlength), cmpLimbs_eq_sign (by simpa using hlength)
        (fun _ => hlimb) fun _ => hlimb, List.reverse_reverse, List.reverse_reverse,
        Nat.ofDigits_digits, Nat.ofDigits_digits]
    · rw [if_pos hlength]
      by_cases hlt : (Nat.digits 256 m).length < (Nat.digits 256 k).length
      · have hmk : m < k := by
          by_contra hle
          exact absurd (Nat.le_length_digits_le 256 k m (Nat.not_lt.mp hle)) (Nat.not_le.mpr hlt)
        rw [if_pos hlt, Int.sign_eq_neg_one_of_neg (by omega)]
      · have hkm : k < m := by
          by_contra hle
          have := Nat.le_length_digits_le 256 m k (Nat.not_lt.mp hle)
          omega
        rw [if_neg hlt, Int.sign_eq_one_of_pos (by omega)]
  unfold cmp
  dsimp only
  rw [if_neg (not_not_intro rfl), hret]
  cases neg with
  | false => rfl
  | true =>
    have hneg : (k : ℤ) - m = -(m - k) := by omega
    rw [hneg, Int.sign_neg]
    by_cases hzero : Int.sign (m - k) = 0
    · rw [hzero]
      rfl
    · exact if_neg hzero

/-! ## Reading -/

theorem mem_of_digits {buf buf' : List ℕ} {s : JSString} (h : digits buf s = .ok buf')
    {c : UInt16} (hc : c ∈ s) : 48 ≤ c.toNat ∧ c.toNat ≤ 57 := by
  induction s generalizing buf with
  | nil => exact absurd hc List.not_mem_nil
  | cons d s ih =>
    rw [digits] at h
    by_cases hd : d.toNat < 0x30 ∨ 0x39 < d.toNat
    · rw [if_pos hd] at h
      cases h
    · rw [if_neg hd] at h
      rcases List.mem_cons.mp hc with rfl | hc
      · omega
      · exact ih h hc

/-- What a numeral has after its first character is digits. -/
theorem mem_of_parse {c : UInt16} {s : JSString} {n : LongInteger} (h : parse (c :: s) = .ok n)
    {d : UInt16} (hd : d ∈ s) : 48 ≤ d.toNat ∧ d.toNat ≤ 57 := by
  by_cases hc : c = 45
  · rw [hc, parse.eq_1] at h
    cases hbuf : digits [] s with
    | error e =>
      rw [hbuf] at h
      cases h
    | ok buf => exact mem_of_digits hbuf hd
  · rw [parse.eq_2 _ fun s' heq => hc (List.cons.inj heq).1] at h
    cases hbuf : digits [] (c :: s) with
    | error e =>
      rw [hbuf] at h
      cases h
    | ok buf => exact mem_of_digits hbuf (List.mem_cons_of_mem c hd)

theorem isDecimalDigit_iff {c : UInt16} :
    isDecimalDigit c = true ↔ 48 ≤ c.toNat ∧ c.toNat ≤ 57 := by
  unfold isDecimalDigit radixValue digitValue
  split_ifs with h₁ h₂ h₃
  · have : c.toNat - 48 < 10 := by omega
    simp [h₁, this]
  all_goals
    simp
    omega

theorem exists_map_digitChar {s : JSString} (h : ∀ c ∈ s, isDecimalDigit c = true) :
    ∃ ds : List ℕ, s = ds.map digitChar ∧ ∀ d ∈ ds, d < 10 := by
  induction s with
  | nil => exact ⟨[], rfl, fun d hd => absurd hd List.not_mem_nil⟩
  | cons c s ih =>
    obtain ⟨ds, rfl, hds⟩ := ih fun x hx => h x (List.mem_cons_of_mem c hx)
    obtain ⟨hlow, hhigh⟩ := isDecimalDigit_iff.mp (h c List.mem_cons_self)
    refine ⟨(c.toNat - 48) :: ds, ?_, ?_⟩
    · rw [List.map_cons]
      congr 1
      apply UInt16.toNat_inj.mp
      rw [digitChar_toNat (by omega), if_pos (by omega)]
      omega
    · intro d hd
      rcases List.mem_cons.mp hd with rfl | hd
      · omega
      · exact hds d hd

theorem digits_of_digitsValue {s : JSString} {n : ℕ} (h : digitsValue 10 s = some n) :
    digits [] s = .ok (Nat.digits 256 n) := by
  obtain ⟨hne, hall⟩ := Js.digits_of_digitsValue h
  obtain ⟨ds, rfl, hds⟩ := exists_map_digitChar hall
  have hne' : ds ≠ [] := fun hnil => hne (by rw [hnil, List.map_nil])
  rw [digitsValue_map (by omega) hne' hds] at h
  obtain rfl := Option.some.inj h
  have hdigits := digits_digits hds 0
  rw [Nat.digits_zero] at hdigits
  exact hdigits

theorem digitsValue_of_digits {s : JSString} {buf buf' : List ℕ} (h : digits buf s = .ok buf')
    (hne : s ≠ []) : ∃ n, digitsValue 10 s = some n := by
  have hall : ∀ c ∈ s, isDecimalDigit c = true := fun c hc =>
    isDecimalDigit_iff.mpr (mem_of_digits h hc)
  obtain ⟨ds, rfl, hds⟩ := exists_map_digitChar hall
  have hne' : ds ≠ [] := fun hnil => hne (by rw [hnil, List.map_nil])
  exact ⟨_, digitsValue_map (by omega) hne' hds⟩

/-- A text with a sign, and any other text. -/
theorem sign_cases (s : JSString) :
    (∃ ds, s = 45 :: ds ∧ parse s = (digits [] ds).map (⟨true, ·⟩) ∧
      decimalValue s = (digitsValue 10 ds).map fun n : ℕ => -(n : ℤ)) ∨
    (s.head? ≠ some 45 ∧ parse s = (digits [] s).map (⟨false, ·⟩) ∧
      decimalValue s = (digitsValue 10 s).map fun n : ℕ => (n : ℤ)) := by
  by_cases hs : s.head? = some 45
  · obtain ⟨ds, rfl⟩ := List.head?_eq_some_iff.mp hs
    exact .inl ⟨ds, rfl, rfl, rfl⟩
  · have hne : ∀ ds, s ≠ 45 :: ds := by
      rintro ds rfl
      exact hs rfl
    exact .inr ⟨hs, parse.eq_2 s hne, decimalValue.eq_2 s hne⟩

/-- **A numeral is read as its sign and its magnitude**, whatever zeros it starts with. -/
theorem parse_of_decimal {s : JSString} {z : ℤ} (h : decimalValue s = some z) :
    parse s = .ok ⟨decide (s.head? = some 45), Nat.digits 256 z.natAbs⟩ ∧
      (s.head? = some 45 → z ≤ 0) ∧ (s.head? ≠ some 45 → 0 ≤ z) := by
  rcases sign_cases s with ⟨ds, rfl, hparse, hvalue⟩ | ⟨hs, hparse, hvalue⟩
  · rw [hvalue] at h
    obtain ⟨n, hn, rfl⟩ := Option.map_eq_some_iff.mp h
    refine ⟨?_, fun _ => by omega, fun hne => absurd rfl hne⟩
    rw [hparse, digits_of_digitsValue hn, Int.natAbs_neg, Int.natAbs_natCast]
    rfl
  · rw [hvalue] at h
    obtain ⟨n, hn, rfl⟩ := Option.map_eq_some_iff.mp h
    refine ⟨?_, fun he => absurd he hs, fun _ => Int.natCast_nonneg n⟩
    rw [hparse, digits_of_digitsValue hn, Int.natAbs_natCast, decide_eq_false hs]
    rfl

/-- A text that is read is a numeral, or has no digits. -/
theorem decimal_of_parse {s : JSString} {n : LongInteger} (h : parse s = .ok n) (hempty : s ≠ [])
    (hminus : s ≠ js "-") : ∃ z, decimalValue s = some z := by
  rcases sign_cases s with ⟨ds, rfl, hparse, hvalue⟩ | ⟨hs, hparse, hvalue⟩
  · obtain ⟨buf, hbuf, -⟩ := Except.map_eq_ok.mp (hparse.symm.trans h)
    have hne : ds ≠ [] := fun hnil => hminus (by rw [hnil]; rfl)
    obtain ⟨m, hm⟩ := digitsValue_of_digits hbuf hne
    exact ⟨-(m : ℤ), by rw [hvalue, hm]; rfl⟩
  · obtain ⟨buf, hbuf, -⟩ := Except.map_eq_ok.mp (hparse.symm.trans h)
    obtain ⟨m, hm⟩ := digitsValue_of_digits hbuf hempty
    exact ⟨(m : ℤ), by rw [hvalue, hm]; rfl⟩

theorem value_of_decimal {s : JSString} {z : ℤ} (h : decimalValue s = some z) :
    value ⟨decide (s.head? = some 45), Nat.digits 256 z.natAbs⟩ = z ∧
      sign ⟨decide (s.head? = some 45), Nat.digits 256 z.natAbs⟩ = z.sign := by
  obtain ⟨-, hminus, hplus⟩ := parse_of_decimal h
  have hempty : (Nat.digits 256 z.natAbs).isEmpty = decide (z = 0) := by
    rw [Bool.eq_iff_iff, List.isEmpty_iff, Nat.digits_eq_nil_iff_eq_zero, Int.natAbs_eq_zero,
      decide_eq_true_iff]
  unfold value sign
  dsimp only
  rw [Nat.ofDigits_digits, hempty]
  by_cases hs : s.head? = some 45
  · have hle := hminus hs
    rw [decide_eq_true hs]
    refine ⟨by simp only [if_true]; omega, ?_⟩
    by_cases hz : z = 0
    · rw [decide_eq_true hz, hz]
      rfl
    · rw [decide_eq_false hz, Int.sign_eq_neg_one_of_neg (by omega)]
      rfl
  · have hle := hplus hs
    rw [decide_eq_false hs]
    refine ⟨by simp only [Bool.false_eq_true, if_false]; omega, ?_⟩
    by_cases hz : z = 0
    · rw [decide_eq_true hz, hz]
      rfl
    · rw [decide_eq_false hz, Int.sign_eq_one_of_pos (by omega)]
      rfl

/-- A numeral with a sign comes before one without, also where both are zero. -/
theorem cmp_of_ne {x y : ℤ} (hx : x ≤ 0) (hy : 0 ≤ y) (buf buf' : List ℕ) :
    (cmp ⟨true, buf⟩ ⟨false, buf'⟩ = Int.sign (x - y) ↔ ¬(x = 0 ∧ y = 0)) ∧
      (cmp ⟨false, buf'⟩ ⟨true, buf⟩ = Int.sign (y - x) ↔ ¬(x = 0 ∧ y = 0)) := by
  have hcmp : cmp ⟨true, buf⟩ ⟨false, buf'⟩ = -1 := rfl
  have hcmp' : cmp ⟨false, buf'⟩ ⟨true, buf⟩ = 1 := rfl
  rw [hcmp, hcmp']
  by_cases hz : x = 0 ∧ y = 0
  · obtain ⟨rfl, rfl⟩ := hz
    exact ⟨iff_of_false (by decide) fun hn => hn ⟨rfl, rfl⟩,
      iff_of_false (by decide) fun hn => hn ⟨rfl, rfl⟩⟩
  · rw [Int.sign_eq_neg_one_of_neg (by omega), Int.sign_eq_one_of_pos (by omega)]
    exact ⟨iff_of_true rfl hz, iff_of_true rfl hz⟩

/-- Numerals are compared as integers, unless they are two texts of zero with different signs. -/
theorem cmp_of_decimal {s t : JSString} {x y : ℤ} (hs : decimalValue s = some x)
    (ht : decimalValue t = some y) :
    cmp ⟨decide (s.head? = some 45), Nat.digits 256 x.natAbs⟩
        ⟨decide (t.head? = some 45), Nat.digits 256 y.natAbs⟩ = Int.sign (x - y) ↔
      ¬(x = 0 ∧ y = 0 ∧ ¬(s.head? = some 45 ↔ t.head? = some 45)) := by
  obtain ⟨-, hminus, hplus⟩ := parse_of_decimal hs
  obtain ⟨-, hminus', hplus'⟩ := parse_of_decimal ht
  by_cases h : s.head? = some 45 <;> by_cases h' : t.head? = some 45
  · rw [decide_eq_true h, decide_eq_true h', cmp_digits, if_pos rfl]
    refine iff_of_true ?_ fun hn => hn.2.2 (iff_of_true h h')
    have hle := hminus h
    have hle' := hminus' h'
    congr 1
    omega
  · have hcmp := cmp_of_ne (hminus h) (hplus' h') (Nat.digits 256 x.natAbs) (Nat.digits 256 y.natAbs)
    rw [decide_eq_true h, decide_eq_false h', hcmp.1, not_iff_not]
    exact ⟨fun hz => ⟨hz.1, hz.2, fun hiff => h' (hiff.mp h)⟩, fun hz => ⟨hz.1, hz.2.1⟩⟩
  · have hcmp := cmp_of_ne (hminus' h') (hplus h) (Nat.digits 256 y.natAbs) (Nat.digits 256 x.natAbs)
    rw [decide_eq_false h, decide_eq_true h', hcmp.2, not_iff_not]
    exact ⟨fun hz => ⟨hz.2, hz.1, fun hiff => h (hiff.mpr h')⟩, fun hz => ⟨hz.2.1, hz.1⟩⟩
  · rw [decide_eq_false h, decide_eq_false h', cmp_digits, if_neg Bool.false_ne_true]
    refine iff_of_true ?_ fun hn => hn.2.2 (iff_of_false h h')
    have hle := hplus h
    have hle' := hplus' h'
    congr 1
    omega

end LongInteger

/-! ## Numerals and only numerals -/

open LongInteger in
/-- What the class and its two checks are to do on texts. -/
structure NumeralsSpec (s t : JSString) : Prop where
  represents : ∀ z, decimalValue s = some z → ∃ n, parse s = .ok n ∧ n.value = z ∧ n.sign = z.sign
  ordered : ∀ x y, decimalValue s = some x → decimalValue t = some y →
    ∃ n m, parse s = .ok n ∧ parse t = .ok m ∧ n.cmp m = Int.sign (x - y)
  decimal : isDecimal s = true ↔ ∃ z, decimalValue s = some z
  natural : isNatural s = true ↔ ∃ z, decimalValue s = some z ∧ 0 ≤ z

theorem isDecimal_of_decimal {s : JSString} {z : ℤ} (h : decimalValue s = some z) :
    isDecimal s = true := by
  rw [isDecimal, (LongInteger.parse_of_decimal h).1]
  rfl

theorem isNatural_of_decimal {s : JSString} {z : ℤ} (h : decimalValue s = some z) :
    isNatural s = true ↔ 0 ≤ z := by
  rw [isNatural, (LongInteger.parse_of_decimal h).1]
  dsimp only
  rw [(LongInteger.value_of_decimal h).2, decide_eq_true_iff, Int.sign_nonneg_iff]

theorem isDecimal_intText (z : ℤ) : isDecimal (intText z) = true :=
  isDecimal_of_decimal (decimalValue_intText z)

theorem isNatural_intText (z : ℤ) : isNatural (intText z) = true ↔ 0 ≤ z :=
  isNatural_of_decimal (decimalValue_intText z)

/-- A hyphen after the first character is not part of a numeral. -/
theorem isNatural_of_hyphen {c : UInt16} {s : JSString} (h : 45 ∈ s) : isNatural (c :: s) = false := by
  rw [isNatural]
  cases hn : LongInteger.parse (c :: s) with
  | ok n => exact absurd (LongInteger.mem_of_parse hn h).1 (by decide)
  | error e => rfl

/-- The two checks hold of numerals only, apart from two texts without digits. -/
theorem checks_of_ne {s : JSString} (hempty : s ≠ []) (hminus : s ≠ js "-") :
    (isDecimal s = true ↔ ∃ z, decimalValue s = some z) ∧
      (isNatural s = true ↔ ∃ z, decimalValue s = some z ∧ 0 ≤ z) := by
  cases hparse : LongInteger.parse s with
  | error e =>
    have hnone : ¬∃ z, decimalValue s = some z := by
      rintro ⟨z, hz⟩
      rw [(LongInteger.parse_of_decimal hz).1] at hparse
      cases hparse
    rw [isDecimal, isNatural, hparse]
    exact ⟨iff_of_false Bool.false_ne_true hnone,
      iff_of_false Bool.false_ne_true fun ⟨z, hz, _⟩ => hnone ⟨z, hz⟩⟩
  | ok n =>
    obtain ⟨z, hz⟩ := LongInteger.decimal_of_parse hparse hempty hminus
    rw [isNatural_of_decimal hz]
    refine ⟨iff_of_true (isDecimal_of_decimal hz) ⟨z, hz⟩, fun hle => ⟨z, hz, hle⟩, ?_⟩
    rintro ⟨z', hz', hle⟩
    obtain rfl := Option.some.inj (hz.symm.trans hz')
    exact hle

/-- **`LongInteger` is right** on all numerals and all other texts but those without digits, and on
all pairs of numerals but two texts of zero of which one has a sign. -/
theorem numerals_iff (s t : JSString) : NumeralsSpec s t ↔
    s ≠ [] ∧ s ≠ js "-" ∧
      ¬(decimalValue s = some 0 ∧ decimalValue t = some 0 ∧
        ¬(s.head? = some 45 ↔ t.head? = some 45)) := by
  constructor
  · intro h
    refine ⟨?_, ?_, ?_⟩
    · rintro rfl
      obtain ⟨z, hz⟩ := h.decimal.mp rfl
      cases hz
    · rintro rfl
      obtain ⟨z, hz⟩ := h.decimal.mp rfl
      cases hz
    · rintro ⟨hs, ht, hsigns⟩
      obtain ⟨n, m, hn, hm, hcmp⟩ := h.ordered 0 0 hs ht
      obtain rfl := Except.ok.inj (hn.symm.trans (LongInteger.parse_of_decimal hs).1)
      obtain rfl := Except.ok.inj (hm.symm.trans (LongInteger.parse_of_decimal ht).1)
      exact (LongInteger.cmp_of_decimal hs ht).mp hcmp ⟨rfl, rfl, hsigns⟩
  · rintro ⟨hempty, hminus, hzero⟩
    obtain ⟨hdecimal, hnatural⟩ := checks_of_ne hempty hminus
    refine ⟨fun z hz => ?_, fun x y hx hy => ?_, hdecimal, hnatural⟩
    · obtain ⟨hvalue, hsign⟩ := LongInteger.value_of_decimal hz
      exact ⟨_, (LongInteger.parse_of_decimal hz).1, hvalue, hsign⟩
    · refine ⟨_, _, (LongInteger.parse_of_decimal hx).1, (LongInteger.parse_of_decimal hy).1, ?_⟩
      apply (LongInteger.cmp_of_decimal hx hy).mpr
      rintro ⟨rfl, rfl, hsigns⟩
      exact hzero ⟨hx, hy, hsigns⟩

/-- `-0` comes before `0`, and the empty text is a natural number. -/
theorem not_numerals : ¬NumeralsSpec (js "-0") (js "0") ∧ ¬NumeralsSpec [] [] := by
  constructor
  · intro h
    obtain ⟨n, m, hn, hm, hcmp⟩ := h.ordered 0 0 (by decide) (by decide)
    obtain rfl : ⟨true, []⟩ = n := Except.ok.inj hn
    obtain rfl : ⟨false, []⟩ = m := Except.ok.inj hm
    exact absurd hcmp (by decide)
  · intro h
    obtain ⟨z, hz, -⟩ := h.natural.mp rfl
    cases hz

end MichelCodec
