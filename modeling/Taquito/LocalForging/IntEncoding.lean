import Taquito.LocalForging.MichelsonCodec

/-!
# The integer encoder of the forger

`intEncoder` works on the text of the number in base two: it pads the text to six digits and a
multiple of seven more, cuts it with a pattern, reverses the pieces, puts a sign digit before the
first and a continuation digit before each, and prints every piece as an octet.
`intEncoder_of_parse` says that the octets are `intBytes`, whatever the size of the integer.
-/

open BigEndian Varint Js

namespace LocalForging

/-- The text of binary digits. -/
private abbrev text (ds : List ℕ) : JSString := ds.map digitChar

/-! ## Cutting -/

private theorem isDecimalDigit_text {ds : List ℕ} (h : ∀ d ∈ ds, d < 2) :
    (text ds).all isDecimalDigit = true := by
  rw [List.all_eq_true]
  intro c hc
  obtain ⟨d, hd, rfl⟩ := List.mem_map.mp hc
  have := h d hd
  simp [isDecimalDigit, radixValue_digitChar (r := 10) (by omega) (show d < 10 by omega)]

private theorem text_append (ds es : List ℕ) : text (ds ++ es) = text ds ++ text es :=
  List.map_append

private theorem digitChunksAux_seven {x rest : JSString} (hl : x.length = 7)
    (h : x.all isDecimalDigit = true) (fuel : ℕ) :
    digitChunksAux (fuel + 1) (x ++ rest) = x :: digitChunksAux fuel rest := by
  cases hx : x ++ rest with
  | nil => simp [(List.append_eq_nil_iff.mp hx).1] at hl
  | cons c s =>
    have htake : (c :: s).take 7 = x := by rw [← hx, ← hl, List.take_left]
    have hdrop : (c :: s).drop 7 = rest := by rw [← hx, ← hl, List.drop_left]
    have hlen : 7 ≤ (c :: s).length := by rw [← hx, List.length_append]; omega
    rw [digitChunksAux, htake, hdrop, if_pos ⟨hlen, h⟩]
    simp

private theorem digitChunksAux_six {x : JSString} (hl : x.length = 6)
    (h : x.all isDecimalDigit = true) (fuel : ℕ) : digitChunksAux (fuel + 1) x = [x] := by
  cases x with
  | nil => simp at hl
  | cons c s =>
    have htake : (c :: s).take 6 = c :: s := List.take_of_length_le (by omega)
    have hdrop : (c :: s).drop 6 = [] := List.drop_of_length_le (by omega)
    rw [digitChunksAux, htake, hdrop, if_neg (by omega), if_pos ⟨by omega, h⟩]
    · cases fuel <;> rfl
    · simp

/-- Pieces of seven digits and a last one of six are found again. -/
private theorem digitChunksAux_pieces {pieces : List (List ℕ)} {six : List ℕ}
    (h7 : ∀ p ∈ pieces, p.length = 7) (h6 : six.length = 6) (hp : ∀ p ∈ pieces, ∀ d ∈ p, d < 2)
    (hs : ∀ d ∈ six, d < 2) : ∀ {fuel : ℕ}, pieces.length < fuel →
      digitChunksAux fuel (text (pieces.flatten ++ six)) = (pieces ++ [six]).map text := by
  induction pieces with
  | nil =>
    intro fuel hf
    obtain ⟨k, rfl⟩ : ∃ k, fuel = k + 1 := ⟨fuel - 1, by simp at hf; omega⟩
    exact digitChunksAux_six (by simpa using h6) (isDecimalDigit_text hs) k
  | cons p ps ih =>
    intro fuel hf
    obtain ⟨k, rfl⟩ : ∃ k, fuel = k + 1 := ⟨fuel - 1, by simp at hf; omega⟩
    have hk : ps.length < k := by simp at hf; omega
    rw [List.flatten_cons, List.append_assoc, text_append,
      digitChunksAux_seven (by simpa using h7 p (by simp)) (isDecimalDigit_text (hp p (by simp))) k,
      ih (fun q hq => h7 q (by simp [hq])) (fun q hq => hp q (by simp [hq])) hk]
    rfl

/-! ## Groups of seven -/

/-- The groups of seven digits of `n`, lowest first. -/
private def groups7 : ℕ → ℕ → List (List ℕ)
  | 0, _ => []
  | k + 1, n => fixedDigits 2 7 n :: groups7 k (n / 128)

private theorem pow_seven : (2 : ℕ) ^ 7 = 128 := by norm_num

private theorem groups7_spec {k n : ℕ} {p : List ℕ} (h : p ∈ groups7 k n) :
    p.length = 7 ∧ ∀ d ∈ p, d < 2 := by
  induction k generalizing n with
  | zero => simp [groups7] at h
  | succ k ih =>
    rcases List.mem_cons.mp h with rfl | h
    · exact ⟨by simp, fun d hd => fixedDigits_lt (by omega) hd⟩
    · exact ih h

private theorem fixedDigits_groups7 (k n : ℕ) :
    fixedDigits 2 (7 * k) n = (groups7 k n).reverse.flatten := by
  induction k generalizing n with
  | zero => rfl
  | succ k ih =>
    rw [Nat.mul_succ, fixedDigits_add, ih, groups7, List.reverse_cons, List.flatten_append,
      List.flatten_singleton, pow_seven]

private theorem groups7_length (k n : ℕ) : (groups7 k n).length = k := by
  induction k generalizing n with
  | zero => rfl
  | succ k ih => rw [groups7, List.length_cons, ih]

/-- The octets of groups, with their continuation bits. -/
private def marked : List (List ℕ) → Bytes
  | [] => []
  | [ds] => [UInt8.ofNat (ofDigitsBE 2 ds)]
  | ds :: es :: l => UInt8.ofNat (ofDigitsBE 2 ds + 128) :: marked (es :: l)

private theorem hexText_octet {n : ℕ} (h : n < 256) :
    padStart 2 (digitChar 0) (numberText 16 n) = hexByte (UInt8.ofNat n) := by
  have hn : (UInt8.ofNat n).toNat = n := by simpa using h
  rw [← padStart_byte, hn]

private theorem ofDigitsBE_cons (b d : ℕ) (ds : List ℕ) :
    ofDigitsBE b (d :: ds) = d * b ^ ds.length + ofDigitsBE b ds := by
  induction ds using List.reverseRecOn with
  | nil => simp [ofDigitsBE]
  | append_singleton l x ih =>
    rw [← List.cons_append, ofDigitsBE_concat, ih, ofDigitsBE_concat, List.length_append,
      List.length_singleton, pow_succ]
    ring

private theorem chunkHex_eq {bit : ℕ} (hbit : bit < 2) {ds : List ℕ} (hl : ds.length = 7)
    (h : ∀ d ∈ ds, d < 2) :
    chunkHex [digitChar bit] (text ds) = hexByte (UInt8.ofNat (ofDigitsBE 2 ds + bit * 128)) := by
  have hlt := ofDigitsBE_lt h
  rw [hl, pow_seven] at hlt
  have hd : ∀ d ∈ bit :: ds, d < 2 := fun d hd => (List.mem_cons.mp hd).elim (· ▸ hbit) (h d)
  have hp := parseInt_map (r := 2) (by omega) (List.cons_ne_nil bit ds) hd
  rw [ofDigitsBE_cons, hl, pow_seven, List.map_cons] at hp
  rw [chunkHex, List.singleton_append, hp]
  dsimp only
  rw [if_neg (by omega), List.nil_append, Int.natAbs_natCast, hexText_octet (by omega),
    Nat.add_comm]

private theorem chunksHex_eq : ∀ {l : List (List ℕ)}, (∀ p ∈ l, p.length = 7 ∧ ∀ d ∈ p, d < 2) →
    chunksHex (l.map text) = toHex (marked l)
  | [], _ => rfl
  | [ds], h => by
    have := chunkHex_eq (show 0 < 2 by omega) (h ds (by simp)).1 (h ds (by simp)).2
    rw [List.map_cons, List.map_nil, chunksHex, show js "0" = [digitChar 0] by decide, this]
    simp [marked, toHex]
  | ds :: es :: l, h => by
    have := chunkHex_eq (show 1 < 2 by omega) (h ds (by simp)).1 (h ds (by simp)).2
    have ih := chunksHex_eq (l := es :: l) fun p hp => h p (by simp [hp])
    rw [List.map_cons] at ih
    rw [List.map_cons, List.map_cons, chunksHex, show js "1" = [digitChar 1] by decide, this, ih,
      marked, toHex_cons, Nat.one_mul]

private theorem marked_groups7 {k n : ℕ} (hlt : n < 128 ^ (k + 1)) (hle : k = 0 ∨ 128 ^ k ≤ n) :
    marked (groups7 (k + 1) n) = natBytes n := by
  induction k generalizing n with
  | zero =>
    have hn : n < 128 := by simpa using hlt
    rw [natBytes_of_lt hn, groups7, groups7, marked, ofDigitsBE_fixedDigits, pow_seven,
      Nat.mod_eq_of_lt hn]
  | succ k ih =>
    have hle : 128 ^ (k + 1) ≤ n := hle.resolve_left (by omega)
    have h128 : 128 ≤ n := le_trans (by rw [pow_succ]; exact Nat.le_mul_of_pos_left _ (by positivity)) hle
    have hdiv : n / 128 < 128 ^ (k + 1) := by
      rw [Nat.div_lt_iff_lt_mul (by omega), ← pow_succ]
      exact hlt
    have hdiv' : k = 0 ∨ 128 ^ k ≤ n / 128 := by
      right
      rw [Nat.le_div_iff_mul_le (by omega), ← pow_succ]
      exact hle
    have ih := ih hdiv hdiv'
    rw [groups7] at ih
    rw [natBytes_of_le h128, groups7, groups7, marked, ih, ofDigitsBE_fixedDigits, pow_seven]

/-- The octets of the first six digits behind the sign, and of the groups above them. -/
private theorem marked_signed {m k : ℕ} (neg : Bool) (hlt : m < 2 ^ (7 * k + 6))
    (hle : 0 < k → 2 ^ (7 * (k - 1) + 6) ≤ m) :
    marked ((neg.toNat :: fixedDigits 2 6 m) :: groups7 k (m / 64)) = signedBytes neg m := by
  have hsix : ofDigitsBE 2 (neg.toNat :: fixedDigits 2 6 m) = m % 64 + neg.toNat * 64 := by
    rw [ofDigitsBE_cons, ofDigitsBE_fixedDigits, fixedDigits_length, Nat.add_comm]
    rfl
  have hpow : ∀ j, 2 ^ (7 * j + 6) = 128 ^ j * 64 := fun j => by
    rw [pow_add, pow_mul, pow_seven]
    rfl
  cases k with
  | zero =>
    have hm : m < 64 := by simpa using hlt
    rw [groups7, marked, hsix, signedBytes, if_pos hm, Nat.mod_eq_of_lt hm]
  | succ k =>
    have hle := hle (by omega)
    rw [Nat.add_sub_cancel, hpow] at hle
    rw [hpow] at hlt
    have h64 : ¬ m < 64 := by
      have : 64 ≤ 128 ^ k * 64 := Nat.le_mul_of_pos_left _ (by positivity)
      omega
    have hgroups := marked_groups7 (k := k) (n := m / 64)
      (by rw [Nat.div_lt_iff_lt_mul (by omega)]; exact hlt)
      (.inr (by rw [Nat.le_div_iff_mul_le (by omega)]; exact hle))
    rw [groups7] at hgroups
    rw [groups7, marked, hgroups, hsix, signedBytes, if_neg h64]

/-! ## The encoder -/

/-- The width the text is padded to. -/
private theorem width_spec {m L W : ℕ} (hL : L = (leadingDigits 2 m).length)
    (hW : W = if L ≤ 6 then 6 else if (L - 6) % 7 ≠ 0 then L + 7 - (L - 6) % 7 else L) :
    ∃ k, W = 7 * k + 6 ∧ m < 2 ^ W ∧ (0 < k → 2 ^ (7 * (k - 1) + 6) ≤ m) := by
  have hle : L ≤ W := by
    split_ifs at hW <;> omega
  have hm : m < 2 ^ W := (leadingDigits_length_le (by omega) (by split_ifs at hW <;> omega)).mp
    (by rw [← hL]; exact hle)
  obtain ⟨k, hk⟩ : ∃ k, W = 7 * k + 6 := ⟨(W - 6) / 7, by split_ifs at hW <;> omega⟩
  refine ⟨k, hk, hm, fun hpos => ?_⟩
  by_contra hlt
  have := (leadingDigits_length_le (b := 2) (by omega) (by omega)).mpr (Nat.not_le.mp hlt)
  rw [← hL] at this
  split_ifs at hW <;> omega

private theorem mem_numberText_ne_minus {n : ℕ} {c : UInt16} (h : c ∈ numberText 2 n) : c ≠ 45 := by
  obtain ⟨d, hd, rfl⟩ := numberText_digits (by omega) h
  intro he
  have := congrArg UInt16.toNat he
  rw [digitChar_toNat (by omega)] at this
  simp at this
  split at this <;> omega

/-- **The octets of an integer** are those of the signed numeral, for every integer. -/
theorem intEncoder_of_parse {lib : BigNumberLib} {s : JSString} {z : ℤ}
    (h : lib.parse s = .finite z) : intEncoder lib s = .ok (toHex (0 :: intBytes z)) := by
  generalize hm : z.natAbs = m
  have hbinary : ((BigNumber.finite z).toText lib 2).filter (· ≠ 45) = numberText 2 m := by
    rw [BigNumber.toText_int, hm, List.filter_append]
    have h₁ : (if z < 0 then js "-" else []).filter (· ≠ 45) = [] := by
      split
      · decide
      · rfl
    rw [h₁, List.nil_append, List.filter_eq_self]
    exact fun c hc => by simpa using mem_numberText_ne_minus hc
  have hsign : (((BigNumber.finite z).toText lib 2).head? = some 45) ↔ z < 0 := by
    rw [BigNumber.toText_int, hm]
    split
    · next hz => simp [js, hz]
    · next hz =>
      simp only [hz, iff_false, List.nil_append]
      intro he
      have hmem := List.mem_of_mem_head? (Option.mem_def.mpr he)
      exact mem_numberText_ne_minus hmem rfl
  rw [intEncoder, h, hbinary]
  generalize hwidth : (if (numberText 2 m).length ≤ 6 then 6
    else if ((numberText 2 m).length - 6) % 7 ≠ 0 then
      (numberText 2 m).length + 7 - ((numberText 2 m).length - 6) % 7
    else (numberText 2 m).length) = W
  obtain ⟨k, hW, hmW, hkpos⟩ :=
    width_spec (m := m) (L := (numberText 2 m).length) (by simp [numberText]) hwidth.symm
  have hpad : padStart W (digitChar 0) (numberText 2 m) = text (fixedDigits 2 W m) := by
    rw [padStart, numberText, List.length_map, ← List.map_replicate, ← List.map_append,
      replicate_leadingDigits (by omega) (by omega) hmW]
  have hpieces : digitChunks (text (fixedDigits 2 W m)) =
      ((groups7 k (m / 64)).reverse ++ [fixedDigits 2 6 m]).map text := by
    rw [hW, fixedDigits_add, fixedDigits_groups7, show (2 : ℕ) ^ 6 = 64 by norm_num]
    refine digitChunksAux_pieces (fun p hp => (groups7_spec (List.mem_reverse.mp hp)).1) (by simp)
      (fun p hp => (groups7_spec (List.mem_reverse.mp hp)).2)
      (fun d hd => fixedDigits_lt (by omega) hd) ?_
    rw [List.length_map, List.length_append, ← fixedDigits_groups7, fixedDigits_length,
      fixedDigits_length, List.length_reverse, groups7_length]
    omega
  rw [hpad, hpieces, List.map_append, List.reverse_append, List.map_reverse, List.reverse_reverse]
  have hmark : (if ((BigNumber.finite z).toText lib 2).head? = some 45 then js "1" else js "0") =
      text [(decide (z < 0)).toNat] := by
    by_cases hz : z < 0
    · rw [if_pos (hsign.mpr hz), decide_eq_true hz]
      decide
    · rw [if_neg (hsign.not.mpr hz), decide_eq_false hz]
      decide
  have hzero : toHex (0 :: intBytes z) = js "00" ++ toHex (intBytes z) := by
    rw [toHex_cons]
    rfl
  have hchunks : ∀ p ∈ ((decide (z < 0)).toNat :: fixedDigits 2 6 m) :: groups7 k (m / 64),
      p.length = 7 ∧ ∀ d ∈ p, d < 2 := by
    intro p hp
    rcases List.mem_cons.mp hp with rfl | hp
    · refine ⟨by simp, fun d hd => ?_⟩
      rcases List.mem_cons.mp hd with rfl | hd
      · exact Nat.lt_succ_of_le (Bool.toNat_le _)
      · exact fixedDigits_lt (by omega) hd
    · exact groups7_spec hp
  rw [hmark, hzero, intBytes, hm, ← marked_signed _ (hW ▸ hmW) hkpos, ← chunksHex_eq hchunks]
  rfl

end LocalForging
