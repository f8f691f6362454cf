import Mathlib.Tactic.Ring
import Taquito.Lib.Reader

/-!
# Base-128 numerals, least significant group first

A number is cut into groups of seven bits, lowest first; every octet but the last carries the
continuation bit `128`. The signed form spends bit `64` of its first octet on the sign, so that
octet holds six bits of magnitude.

`natBytes` and `signedBytes` write, `chunk` reads the octets of one numeral off a list, and
`natValue` and `signedValue` say what a chunk stands for. Reading is more generous than writing:
`natBytes_natValue` and `signedBytes_signedValue` say that the written form is the one chunk
without a superfluous last octet (and, signed, without a negative zero).
-/

namespace Varint

open Reader

/-! ## Writing -/

private def natBytesAux : ℕ → ℕ → List UInt8
  | 0, n => [UInt8.ofNat (n % 128)]
  | fuel + 1, n =>
    if n < 128 then [UInt8.ofNat n] else UInt8.ofNat (n % 128 + 128) :: natBytesAux fuel (n / 128)

/-- The base-128 numeral of `n`. -/
def natBytes (n : ℕ) : List UInt8 := natBytesAux (Nat.log2 n) n

private theorem natBytesAux_eq {f g n : ℕ} (hf : n < 128 ^ (f + 1)) (hg : n < 128 ^ (g + 1)) :
    natBytesAux f n = natBytesAux g n := by
  induction f generalizing g n with
  | zero =>
    have hn : n < 128 := by simpa using hf
    cases g <;> simp [natBytesAux, hn, Nat.mod_eq_of_lt hn]
  | succ f ih =>
    by_cases hn : n < 128
    · cases g <;> simp [natBytesAux, hn, Nat.mod_eq_of_lt hn]
    · cases g with
      | zero => simp at hg; omega
      | succ g =>
        rw [natBytesAux, natBytesAux, if_neg hn, if_neg hn, ih (g := g)]
        · rw [Nat.div_lt_iff_lt_mul (by omega), ← pow_succ]
          exact hf
        · rw [Nat.div_lt_iff_lt_mul (by omega), ← pow_succ]
          exact hg

private theorem lt_pow_log2 (n : ℕ) : n < 128 ^ (Nat.log2 n + 1) :=
  calc n < 2 ^ (Nat.log2 n + 1) := Nat.lt_log2_self
    _ ≤ 128 ^ (Nat.log2 n + 1) := Nat.pow_le_pow_left (by omega) _

private theorem natBytes_eq_aux {f n : ℕ} (h : n < 128 ^ (f + 1)) :
    natBytes n = natBytesAux f n := natBytesAux_eq (lt_pow_log2 n) h

theorem natBytes_of_lt {n : ℕ} (h : n < 128) : natBytes n = [UInt8.ofNat n] := by
  rw [natBytes_eq_aux (f := 0) (by simpa using h), natBytesAux, Nat.mod_eq_of_lt h]

theorem natBytes_of_le {n : ℕ} (h : 128 ≤ n) :
    natBytes n = UInt8.ofNat (n % 128 + 128) :: natBytes (n / 128) := by
  have hn := lt_pow_log2 n
  rw [natBytes_eq_aux (f := Nat.log2 n + 1) (hn.trans (Nat.pow_lt_pow_right (by omega) (by omega))),
    natBytesAux, if_neg (by omega), natBytes_eq_aux (n := n / 128) (f := Nat.log2 n)]
  exact lt_of_le_of_lt (Nat.div_le_self _ _) hn

/-- The signed numeral of magnitude `m`, negative when `neg`. -/
def signedBytes (neg : Bool) (m : ℕ) : List UInt8 :=
  if m < 64 then [UInt8.ofNat (m + neg.toNat * 64)]
  else UInt8.ofNat (m % 64 + neg.toNat * 64 + 128) :: natBytes (m / 64)

/-- The numeral of an integer. -/
def intBytes (z : ℤ) : List UInt8 := signedBytes (decide (z < 0)) z.natAbs

/-! ## What a chunk stands for -/

/-- The number a chunk stands for. -/
def natValue : List UInt8 → ℕ
  | [] => 0
  | b :: bs => b.toNat % 128 + 128 * natValue bs

/-- The sign and the magnitude a chunk stands for. -/
def signedValue : List UInt8 → Bool × ℕ
  | [] => (false, 0)
  | b :: bs => (decide (64 ≤ b.toNat % 128), b.toNat % 64 + 64 * natValue bs)

/-- The integer a chunk stands for. -/
def intValue (bs : List UInt8) : ℤ :=
  let (neg, m) := signedValue bs
  if neg then -(m : ℤ) else m

/-- Octets of one numeral: all but the last carry the continuation bit. -/
inductive Chunk : List UInt8 → Prop
  | last {b : UInt8} : b.toNat < 128 → Chunk [b]
  | more {b : UInt8} {bs : List UInt8} : 128 ≤ b.toNat → Chunk bs → Chunk (b :: bs)

/-- No superfluous last octet. -/
def Minimal (bs : List UInt8) : Prop := bs.length = 1 ∨ bs.getLast? ≠ some 0

instance (bs : List UInt8) : Decidable (Minimal bs) := inferInstanceAs (Decidable (_ ∨ _))

theorem Chunk.ne_nil {bs : List UInt8} (h : Chunk bs) : bs ≠ [] := by
  cases h <;> simp

private theorem toNat_ofNat {n : ℕ} (h : n < 256) : (UInt8.ofNat n).toNat = n := by
  simpa using h

theorem natBytes_chunk (n : ℕ) : Chunk (natBytes n) := by
  induction n using Nat.strong_induction_on with
  | _ n ih =>
    by_cases h : n < 128
    · rw [natBytes_of_lt h]
      exact .last (by rw [toNat_ofNat (by omega)]; exact h)
    · rw [natBytes_of_le (by omega)]
      exact .more (by rw [toNat_ofNat (by omega)]; omega) (ih _ (by omega))

/-- The writer and the reader of unsigned numerals agree. -/
theorem natValue_natBytes (n : ℕ) : natValue (natBytes n) = n := by
  induction n using Nat.strong_induction_on with
  | _ n ih =>
    by_cases h : n < 128
    · rw [natBytes_of_lt h, natValue, toNat_ofNat (by omega), natValue]
      omega
    · rw [natBytes_of_le (by omega), natValue, ih _ (by omega), toNat_ofNat (by omega)]
      omega

theorem signedBytes_chunk (neg : Bool) (m : ℕ) : Chunk (signedBytes neg m) := by
  have hs : neg.toNat ≤ 1 := Bool.toNat_le neg
  unfold signedBytes
  split
  · exact .last (by rw [toNat_ofNat (by omega)]; omega)
  · exact .more (by rw [toNat_ofNat (by omega)]; omega) (natBytes_chunk _)

/-- The writer and the reader of signed numerals agree. -/
theorem signedValue_signedBytes (neg : Bool) (m : ℕ) :
    signedValue (signedBytes neg m) = (neg, m) := by
  unfold signedBytes
  split
  · cases neg <;> simp [signedValue, natValue] <;> omega
  · rw [signedValue, natValue_natBytes]
    cases neg <;> simp <;> omega

theorem intBytes_chunk (z : ℤ) : Chunk (intBytes z) := signedBytes_chunk _ _

theorem intValue_intBytes (z : ℤ) : intValue (intBytes z) = z := by
  simp only [intValue, intBytes, signedValue_signedBytes, decide_eq_true_eq]
  split <;> omega

/-! ## Minimal chunks are the written ones -/

private theorem getLast?_cons_chunk (b : UInt8) {bs : List UInt8} (h : Chunk bs) :
    (b :: bs).getLast? = bs.getLast? := by
  obtain ⟨c, cs, rfl⟩ := List.exists_cons_of_ne_nil h.ne_nil
  exact List.getLast?_cons_cons

private theorem natBytes_getLast? {n : ℕ} (hn : n ≠ 0) : (natBytes n).getLast? ≠ some 0 := by
  induction n using Nat.strong_induction_on with
  | _ n ih =>
    by_cases h : n < 128
    · rw [natBytes_of_lt h, List.getLast?_singleton, ne_eq, Option.some.injEq, ← UInt8.toNat_inj,
        toNat_ofNat (by omega)]
      exact hn
    · rw [natBytes_of_le (by omega), getLast?_cons_chunk _ (natBytes_chunk _)]
      exact ih _ (by omega) (by omega)

theorem natBytes_minimal (n : ℕ) : Minimal (natBytes n) := by
  rcases Nat.eq_zero_or_pos n with rfl | hn
  · exact .inl (by rw [natBytes_of_lt (by omega)]; rfl)
  · exact .inr (natBytes_getLast? (by omega))

theorem signedBytes_minimal (neg : Bool) (m : ℕ) : Minimal (signedBytes neg m) := by
  unfold signedBytes
  split
  · exact .inl rfl
  · refine .inr ?_
    rw [getLast?_cons_chunk _ (natBytes_chunk _)]
    exact natBytes_getLast? (by omega)

private theorem natValue_pos {bs : List UInt8} (h : Chunk bs) (hl : bs.getLast? ≠ some 0) :
    0 < natValue bs := by
  induction h with
  | @last b hb =>
    rw [List.getLast?_singleton, ne_eq, Option.some.injEq, ← UInt8.toNat_inj] at hl
    have : b.toNat ≠ 0 := hl
    simp only [natValue]
    omega
  | @more b bs _ hbs ih =>
    rw [getLast?_cons_chunk _ hbs] at hl
    have := ih hl
    simp only [natValue]
    omega

private theorem ofNat_eq (b : UInt8) {n : ℕ} (h : n = b.toNat) : UInt8.ofNat n = b := by
  rw [h, UInt8.ofNat_toNat]

/-- **The written form is the minimal chunk** of a natural number. -/
theorem natBytes_natValue {bs : List UInt8} (h : Chunk bs) (hm : Minimal bs) :
    natBytes (natValue bs) = bs := by
  induction h with
  | @last b hb =>
    rw [natValue, natValue, natBytes_of_lt (by omega), ofNat_eq b (by omega)]
  | @more b bs hb hbs ih =>
    have hl : bs.getLast? ≠ some 0 := by
      rcases hm with hm | hm
      · have := List.length_pos_of_ne_nil hbs.ne_nil
        simp only [List.length_cons] at hm
        omega
      · rwa [getLast?_cons_chunk _ hbs] at hm
    have hpos := natValue_pos hbs hl
    have hlt := b.toNat_lt
    have hdiv : (b.toNat % 128 + 128 * natValue bs) / 128 = natValue bs := by omega
    rw [natValue, natBytes_of_le (by omega), hdiv, ih (.inr hl), ofNat_eq b (by omega)]

/-- **The written form is the minimal chunk** of a signed number. -/
theorem signedBytes_signedValue {bs : List UInt8} (h : Chunk bs) (hm : Minimal bs) :
    signedBytes (signedValue bs).1 (signedValue bs).2 = bs := by
  cases h with
  | @last b hb =>
    simp only [signedValue, natValue, Nat.mul_zero, Nat.add_zero]
    rw [signedBytes, if_pos (by omega), ofNat_eq b]
    by_cases h64 : 64 ≤ b.toNat % 128 <;> simp [h64] <;> omega
  | @more b bs hb hbs =>
    have hl : bs.getLast? ≠ some 0 := by
      rcases hm with hm | hm
      · have := List.length_pos_of_ne_nil hbs.ne_nil
        simp only [List.length_cons] at hm
        omega
      · rwa [getLast?_cons_chunk _ hbs] at hm
    have hpos := natValue_pos hbs hl
    have hlt := b.toNat_lt
    have hdiv : (b.toNat % 64 + 64 * natValue bs) / 64 = natValue bs := by omega
    simp only [signedValue]
    rw [signedBytes, if_neg (by omega), hdiv, natBytes_natValue hbs (.inr hl), ofNat_eq b]
    by_cases h64 : 64 ≤ b.toNat % 128 <;> simp [h64] <;> omega

/-- A chunk that is not a negative zero says the same as the integer it stands for. -/
theorem intBytes_intValue {bs : List UInt8} (h : Chunk bs) (hm : Minimal bs)
    (hz : signedValue bs ≠ (true, 0)) : intBytes (intValue bs) = bs := by
  have key := signedBytes_signedValue h hm
  generalize hv : signedValue bs = v at key hz
  obtain ⟨neg, m⟩ := v
  have hneg : decide (intValue bs < 0) = neg := by
    cases neg <;> simp only [intValue, hv] <;> simp at hz ⊢
    omega
  have habs : (intValue bs).natAbs = m := by
    cases neg <;> simp [intValue, hv]
  rw [intBytes, hneg, habs, key]

/-! ## Written numerals are the shortest -/

theorem natValue_lt (bs : List UInt8) : natValue bs < 128 ^ bs.length := by
  induction bs with
  | nil => rw [natValue, List.length_nil, pow_zero]; omega
  | cons b bs ih =>
    rw [natValue, List.length_cons, pow_succ]
    omega

theorem natBytes_length_le {k n : ℕ} (h : n < 128 ^ (k + 1)) : (natBytes n).length ≤ k + 1 := by
  induction k generalizing n with
  | zero => rw [natBytes_of_lt (by simpa using h), List.length_singleton]
  | succ k ih =>
    by_cases hn : n < 128
    · rw [natBytes_of_lt hn, List.length_singleton]
      omega
    · have hdiv : n / 128 < 128 ^ (k + 1) := by
        rw [Nat.div_lt_iff_lt_mul (by omega), ← pow_succ]
        exact h
      rw [natBytes_of_le (by omega), List.length_cons]
      exact Nat.succ_le_succ (ih hdiv)

/-- No octets that stand for a number are fewer than those that are written. -/
theorem natBytes_shortest {bs : List UInt8} (h : bs ≠ []) :
    (natBytes (natValue bs)).length ≤ bs.length := by
  obtain ⟨k, hk⟩ := Nat.exists_eq_succ_of_ne_zero (mt List.length_eq_zero_iff.mp h)
  have hlt := natValue_lt bs
  rw [hk] at hlt ⊢
  exact natBytes_length_le hlt

theorem intValue_natAbs (bs : List UInt8) : (intValue bs).natAbs = (signedValue bs).2 := by
  rw [intValue]
  dsimp only
  split
  · rw [Int.natAbs_neg, Int.natAbs_natCast]
  · rw [Int.natAbs_natCast]

theorem intBytes_shortest {bs : List UInt8} (h : bs ≠ []) :
    (intBytes (intValue bs)).length ≤ bs.length := by
  obtain ⟨b, bs, rfl⟩ := List.exists_cons_of_ne_nil h
  rw [intBytes, intValue_natAbs, signedBytes]
  by_cases hsmall : (signedValue (b :: bs)).2 < 64
  · rw [if_pos hsmall, List.length_singleton, List.length_cons]
    omega
  · have hvalue : (signedValue (b :: bs)).2 / 64 = natValue bs := by
      rw [signedValue]
      omega
    have hne : bs ≠ [] := by
      rintro rfl
      rw [signedValue, natValue] at hsmall
      omega
    rw [if_neg hsmall, hvalue, List.length_cons, List.length_cons]
    exact Nat.succ_le_succ (natBytes_shortest hne)

/-! ## Reading one chunk -/

/-- The octets of the next numeral; `short` is the error for an input that ends inside it. -/
def chunk {ε : Type*} (short : ε) : Reader UInt8 ε (List UInt8)
  | [] => .error short
  | b :: bs =>
    if b.toNat < 128 then .ok ([b], bs)
    else do
      let p ← chunk short bs
      pure (b :: p.1, p.2)

variable {ε : Type*} {short : ε}

theorem chunk_reads {bs : List UInt8} (h : Chunk bs) : Reads (chunk short) bs bs := by
  intro rest
  induction h with
  | last hb => simp [chunk, hb]
  | more hb _ ih => simp [chunk, ih, Nat.not_lt.mpr hb]

theorem chunk_eq_ok {bs rest c : List UInt8} (h : chunk short bs = .ok (c, rest)) :
    Chunk c ∧ bs = c ++ rest := by
  induction bs generalizing c with
  | nil => cases h
  | cons b bs ih =>
    rw [chunk] at h
    split at h
    · next hb =>
      cases h
      exact ⟨.last hb, rfl⟩
    · next hb =>
      obtain ⟨⟨c', rest'⟩, h₁, h₂⟩ := Except.bind_eq_ok.mp h
      cases h₂
      obtain ⟨hc, rfl⟩ := ih h₁
      exact ⟨.more (by omega) hc, rfl⟩

/-- A chunk fails only for want of octets. -/
theorem chunk_ne_error {e : ε} (h : short ≠ e) {bs : List UInt8} : chunk short bs ≠ .error e := by
  induction bs with
  | nil => exact fun he => h (Except.error.inj he)
  | cons b bs ih =>
    rw [chunk]
    split
    · exact fun he => by cases he
    · intro he
      rcases Except.bind_eq_error.mp he with he | ⟨p, -, he⟩
      · exact ih he
      · cases he

theorem local_chunk : Local (chunk short) := by
  intro bs c rest h
  obtain ⟨hc, rfl⟩ := chunk_eq_ok h
  exact ⟨c, rfl, chunk_reads hc⟩

end Varint
