import Taquito.LocalForging.Codecs

/-!
# The codec of natural numbers

`zarithEncoder` writes a natural number in groups of seven bits, the lowest first, in as few octets
as can stand for it, and `zarithDecoder` reads one numeral and leaves what follows. The number comes
back through `toString` of the library, which writes an exponent from 10^21 on; and a text that the
library reads as a number at all is not refused. The codec does what it is for exactly where neither
happens (`zarithCodec_iff`).
-/

open Js BigEndian Varint Reader

namespace LocalForging

/-! ## Octets -/

theorem and_seven_bits (b : UInt8) : (b &&& 0x7f).toNat = b.toNat % 128 := by
  rw [UInt8.toNat_and]
  exact Nat.and_two_pow_sub_one_eq_mod b.toNat 7

theorem and_mark (b : UInt8) : b &&& 128 ≠ 0 ↔ 128 ≤ b.toNat := by
  have hlt := b.toNat_lt
  have hall : ∀ i : Fin 256, i.val &&& 128 = i.val / 128 * 128 := by decide +kernel
  have hand : (b &&& 128).toNat = b.toNat / 128 * 128 := by
    rw [UInt8.toNat_and]
    exact hall ⟨b.toNat, hlt⟩
  rw [ne_eq, ← UInt8.toNat_inj, hand, UInt8.toNat_zero]
  omega

variable {big : BigNumberLib}

/-! ## Writing -/

theorem toText_natCast (n : ℕ) : (BigNumber.finite (n : ℚ)).toText big 16 = numberText 16 n := by
  have h := BigNumber.toText_int big 16 (n : ℤ)
  rw [if_neg (by omega), List.nil_append, Int.natAbs_natCast] at h
  exact_mod_cast h

/-- One octet as the loop writes it. -/
theorem zarithLast_natCast {n : ℕ} (h : n < 128) :
    zarithLast big n = toHex [UInt8.ofNat n] := by
  have hbyte := padStart_byte (UInt8.ofNat n)
  have hn : (UInt8.ofNat n).toNat = n := UInt8.toNat_ofNat_of_lt' (by rw [UInt8.size]; omega)
  rw [hn] at hbyte
  rw [zarithLast, toText_natCast, toHex_cons, toHex_nil, List.append_nil, ← hbyte]
  by_cases h16 : n < 16
  · have hall : ∀ m : Fin 16, js "0" ++ numberText 16 m.val =
        padStart 2 (digitChar 0) (numberText 16 m.val) := by decide
    rw [if_pos (by exact_mod_cast h16)]
    exact hall ⟨n, h16⟩
  · have hall : ∀ m : Fin 112, numberText 16 (m.val + 16) =
        padStart 2 (digitChar 0) (numberText 16 (m.val + 16)) := by decide
    rw [if_neg (by exact_mod_cast h16), List.nil_append]
    have hm := hall ⟨n - 16, by omega⟩
    rwa [show n - 16 + 16 = n by omega] at hm

theorem numberText_marked {r : ℕ} (h : r < 128) :
    numberText 16 (r + 128) = toHex [UInt8.ofNat (r + 128)] := by
  have hall : ∀ m : Fin 128, numberText 16 (m.val + 128) = toHex [UInt8.ofNat (m.val + 128)] := by
    decide
  exact hall ⟨r, h⟩

/-- The loop writes a natural number in groups of seven bits. -/
theorem zarithLoop_natCast {fuel n : ℕ} (h : n < 128 ^ (fuel + 1)) :
    zarithLoop big fuel n = toHex (natBytes n) := by
  induction fuel generalizing n with
  | zero =>
    have hn : n < 128 := by simpa using h
    rw [zarithLoop, zarithLast_natCast hn, natBytes_of_lt hn]
  | succ fuel ih =>
    by_cases hn : n < 128
    · rw [zarithLoop, if_pos (by exact_mod_cast hn), zarithLast_natCast hn, natBytes_of_lt hn]
    · have hquotient : ⌊(n : ℚ) / 128⌋.toNat = n / 128 := by
        have hfloor := Rat.floor_natCast_div_natCast n 128
        simp only [Nat.cast_ofNat] at hfloor
        rw [hfloor]
        omega
      have hrest : (n : ℚ) - 128 * ((n / 128 : ℕ) : ℚ) + 128 = ((n % 128 + 128 : ℕ) : ℚ) := by
        have hmod : ((128 * (n / 128) + n % 128 : ℕ) : ℚ) = n := by rw [Nat.div_add_mod]
        simp only [Nat.cast_add, Nat.cast_mul, Nat.cast_ofNat] at hmod ⊢
        linarith
      rw [zarithLoop, if_neg (by exact_mod_cast hn)]
      dsimp only
      rw [hquotient, hrest, toText_natCast, numberText_marked (Nat.mod_lt _ (by omega)),
        ih (by rw [Nat.div_lt_iff_lt_mul (by omega), ← pow_succ]; exact h),
        natBytes_of_le (Nat.not_lt.mp hn), toHex_cons, toHex_cons, toHex_nil, List.append_nil]

/-- `zarithEncoder` of a natural number. -/
theorem zarithEncoder_of_parse {s : JSString} {n : ℕ} (h : big.parse s = .finite n) :
    zarithEncoder big s = .ok (toHex (natBytes n)) := by
  have hfuel : n < 128 ^ (n.log2 + 1) :=
    calc n < 2 ^ (n.log2 + 1) := Nat.lt_log2_self
      _ ≤ 128 ^ (n.log2 + 1) := Nat.pow_le_pow_left (by omega) _
  rw [zarithEncoder, h]
  simp only [Int.floor_natCast, Int.toNat_natCast]
  rw [zarithLoop_natCast hfuel]

/-! ## Reading -/

theorem takeWhile_chunk {u : Bytes} (h : Chunk u) (rest : Bytes) :
    ((u ++ rest).takeWhile fun b => b &&& 128 ≠ 0).length + 1 = u.length := by
  induction h with
  | @last b hb =>
    have hmark : ¬ (b &&& 128 ≠ 0) := by
      rw [and_mark]
      omega
    rw [List.singleton_append, List.takeWhile_cons, if_neg (by simpa using hmark)]
    rfl
  | @more b bs hb _ ih =>
    have hmark : b &&& 128 ≠ 0 := (and_mark b).mpr hb
    rw [List.cons_append, List.takeWhile_cons, if_pos (by simpa using hmark), List.length_cons, ih,
      List.length_cons]

theorem foldl_groups (u rest : Bytes) : ((List.range u.length).reverse.map fun i =>
    ((u ++ rest).getD i 0 &&& 0x7f).toNat).foldl (fun num tmp => num * 128 + tmp) 0 =
      natValue u := by
  induction u with
  | nil => rfl
  | cons b u ih =>
    rw [List.length_cons, List.range_succ_eq_map, List.reverse_cons, List.map_append,
      List.foldl_append, ← List.map_reverse, List.map_map, natValue]
    have hrest : ((List.range u.length).reverse.map ((fun i =>
        ((b :: u ++ rest).getD i 0 &&& 0x7f).toNat) ∘ Nat.succ)) =
        (List.range u.length).reverse.map fun i => ((u ++ rest).getD i 0 &&& 0x7f).toNat := rfl
    rw [hrest, ih]
    show natValue u * 128 + (b &&& 0x7f).toNat = _
    rw [and_seven_bits]
    omega

/-- `zarithDecoder` reads the octets of one numeral. -/
theorem zarithDecoder_reads {u : Bytes} (h : Chunk u) :
    Reads (zarithDecoder big) u ((BigNumber.finite (natValue u)).text big) := by
  intro rest
  have hlength := takeWhile_chunk h rest
  rw [zarithDecoder]
  simp only [hlength, foldl_groups]
  have hconsume : Reads (consume u.length) u u := take_reads rfl
  have hpure : Reads (pure ((BigNumber.finite (natValue u)).text big) : Decoder JSString) [] _ :=
    Reads.pure _
  exact hconsume.bind_pure hpure rest

theorem chunk_of_takeWhile {bs u rest : Bytes}
    (h : bs = u ++ rest) (hlength : (bs.takeWhile fun b => b &&& 128 ≠ 0).length + 1 = u.length) :
    Chunk u := by
  subst h
  induction u with
  | nil => cases hlength
  | cons b u ih =>
    rw [List.cons_append, List.takeWhile_cons] at hlength
    by_cases hb : b &&& 128 ≠ 0
    · rw [if_pos (by simpa using hb), List.length_cons, List.length_cons] at hlength
      exact .more ((and_mark b).mp hb) (ih (by omega))
    · rw [if_neg (by simpa using hb), List.length_cons, List.length_nil] at hlength
      obtain rfl : u = [] := List.length_eq_zero_iff.mp (by omega)
      have hlt := (not_congr (and_mark b)).mp hb
      exact .last (by omega)

theorem local_zarithDecoder : Local (zarithDecoder big) := by
  intro bs s rest h
  obtain ⟨u, mid, hu, hs⟩ := bind_eq_ok.mp h
  obtain ⟨rfl, hlength⟩ := take_eq_ok hu
  obtain rfl : mid = rest := (Prod.mk.inj (Except.ok.inj hs)).2
  have hchunk : Chunk u := chunk_of_takeWhile rfl hlength.symm
  have hread := @zarithDecoder_reads big u hchunk mid
  obtain rfl := (Prod.mk.inj (Except.ok.inj (hread.symm.trans h))).1
  exact ⟨u, rfl, zarithDecoder_reads hchunk⟩

/-! ## The codec -/

/-- The codec on a text: a decimal natural number is written in the fewest octets and read back,
whatever follows, and any other text is refused. -/
structure ZarithCodec (big : BigNumberLib) (s : JSString) : Prop where
  roundTrip : ∀ n, digitsValue 10 s = some n → ∃ bytes,
    zarithEncoder big s = .ok (toHex bytes) ∧ Reads (zarithDecoder big) bytes (natText n) ∧
      ∀ u, Chunk u → natValue u = n → bytes.length ≤ u.length
  refused : digitsValue 10 s = none → ∃ e, zarithEncoder big s = .error e ∧ e ≠ .neverReturns

theorem decimalValue_of_digitsValue {s : JSString} {n : ℕ} (h : digitsValue 10 s = some n) :
    decimalValue s = some (n : ℤ) := by
  unfold decimalValue
  split
  · next ds =>
    have hminus := (digits_of_digitsValue h).2 45 List.mem_cons_self
    exact absurd hminus (by decide)
  · rw [h]
    rfl

theorem zarithEncoder_of_digits (hbig : big.Lawful) {s : JSString} {n : ℕ}
    (h : digitsValue 10 s = some n) : zarithEncoder big s = .ok (toHex (natBytes n)) := by
  apply zarithEncoder_of_parse
  rw [hbig.parse_decimal (decimalValue_of_digitsValue h)]
  rfl

/-- The text of a number is its numeral below 10^21, and no numeral from there on. -/
theorem text_eq_natText_iff (n : ℕ) :
    (BigNumber.finite (n : ℚ)).text big = natText n ↔ n < 10 ^ 21 := by
  have htext : (BigNumber.finite (n : ℚ)).text big =
      if n < 10 ^ 21 then natText n else BigNumber.exponentText n := by
    have hint := BigNumber.text_int big (n : ℤ)
    rw [Int.natAbs_natCast, if_neg (show ¬(n : ℤ) < 0 by omega), List.nil_append, intText,
      if_neg (show ¬(n : ℤ) < 0 by omega), Int.natAbs_natCast] at hint
    exact hint
  rw [htext]
  constructor
  · intro h
    by_contra hn
    rw [if_neg hn] at h
    obtain ⟨d, ds, hd⟩ := List.exists_cons_of_ne_nil (numberText_ne_nil 10 n)
    have hmem : (101 : UInt16) ∈ natText n := by
      rw [← h, BigNumber.exponentText_eq (n := n) hd]
      simp
    exact (BigNumber.ne_of_mem_natText hmem).2.2 rfl
  · intro hn
    rw [if_pos hn]

/-- **The codec of natural numbers** is one exactly on the decimal natural numbers below 10^21, and on
the texts that the library does not read as a number. -/
theorem zarithCodec_iff (hbig : big.Lawful) (s : JSString) : ZarithCodec big s ↔
    (∃ n, digitsValue 10 s = some n ∧ n < 10 ^ 21) ∨
      (digitsValue 10 s = none ∧ big.parse s = .nan) := by
  cases hs : digitsValue 10 s with
  | some n =>
    have hencode := zarithEncoder_of_digits hbig hs
    have hreads := @zarithDecoder_reads big (natBytes n) (natBytes_chunk n)
    rw [natValue_natBytes] at hreads
    constructor
    · intro h
      obtain ⟨bytes, hbytes, hread, -⟩ := h.roundTrip n hs
      obtain rfl := toHex_injective (Except.ok.inj (hencode.symm.trans hbytes))
      have htext := (hreads.unique hread (rfl : natBytes n ++ [] = natBytes n ++ [])).1
      exact .inl ⟨n, rfl, (text_eq_natText_iff n).mp htext⟩
    · rintro (⟨m, hm, hlt⟩ | ⟨hnone, -⟩)
      · obtain rfl := Option.some.inj hm
        refine ⟨fun m hm => ?_, fun hnone => ?_⟩
        · obtain rfl := Option.some.inj (hs.symm.trans hm)
          rw [(text_eq_natText_iff n).mpr hlt] at hreads
          refine ⟨natBytes n, hencode, hreads, fun u hu hvalue => ?_⟩
          rw [← hvalue]
          exact natBytes_shortest hu.ne_nil
        · rw [hs] at hnone
          cases hnone
      · cases hnone
  | none =>
    have hrefused : (∃ e, zarithEncoder big s = .error e ∧ e ≠ .neverReturns) ↔
        big.parse s = .nan := by
      unfold zarithEncoder
      split
      · next hparse => exact iff_of_true ⟨_, rfl, nofun⟩ hparse
      · next hparse =>
        rw [hparse]
        constructor
        · rintro ⟨e, he, hne⟩
          exact absurd (Except.error.inj he).symm hne
        · intro h
          cases h
      · next hparse =>
        rw [hparse]
        constructor
        · rintro ⟨e, he, -⟩
          cases he
        · intro h
          cases h
      · next nn hparse =>
        rw [hparse]
        constructor
        · rintro ⟨e, he, -⟩
          cases he
        · intro h
          cases h
    constructor
    · intro h
      exact .inr ⟨rfl, hrefused.mp (h.refused hs)⟩
    · rintro (⟨n, hn, -⟩ | ⟨-, hnan⟩)
      · cases hn
      · refine ⟨fun n hn => ?_, fun _ => hrefused.mpr hnan⟩
        rw [hs] at hn
        cases hn

theorem zarithCodec_iff_decimal : ZarithCodec .decimal (js "9007199254740993") :=
  (zarithCodec_iff BigNumberLib.lawful_decimal (js "9007199254740993")).mpr
    (.inl ⟨9007199254740993, by decide, by norm_num⟩)

/-- 10^21 is not read back as its numeral, and `-1` is not refused. -/
theorem not_zarithCodec :
    ¬ZarithCodec .decimal (js "1000000000000000000000") ∧ ¬ZarithCodec .decimal (js "-1") := by
  constructor
  · intro h
    have hdigits : digitsValue 10 (js "1000000000000000000000") = some (10 ^ 21) := by
      decide
    obtain ⟨bytes, hbytes, hread, -⟩ := h.roundTrip (10 ^ 21) hdigits
    have hencode := zarithEncoder_of_digits BigNumberLib.lawful_decimal hdigits
    obtain rfl := toHex_injective (Except.ok.inj (hencode.symm.trans hbytes))
    have hreads := @zarithDecoder_reads .decimal _ (natBytes_chunk (10 ^ 21))
    rw [natValue_natBytes] at hreads
    have htext := (hreads.unique hread
      (rfl : natBytes (10 ^ 21) ++ [] = natBytes (10 ^ 21) ++ [])).1
    exact absurd ((text_eq_natText_iff (10 ^ 21)).mp htext) (lt_irrefl _)
  · intro h
    obtain ⟨e, he, -⟩ := h.refused (by decide)
    have hvalue : decimalValue (js "-1") = some (-1) := by decide
    have hparse := BigNumberLib.lawful_decimal.parse_decimal hvalue
    unfold zarithEncoder at he
    rw [hparse] at he
    cases he

end LocalForging
