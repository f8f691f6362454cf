import Mathlib.Data.List.TakeWhile
import Taquito.Js.Text

/-!
# Numbers read from text

`parseInt(s, radix)` as the language defines it: leading white space, a sign and (for radix 16) a
`0x` are skipped, the longest run of digits counts, and a text without one is `NaN` (`none`).
`BigInt(s)` is stricter: the whole trimmed text has to be a numeral.
-/

open BigEndian

namespace Js

/-- White space and line terminators. -/
def isWhitespace (c : UInt16) : Bool :=
  [0x09, 0x0A, 0x0B, 0x0C, 0x0D, 0x20, 0xA0, 0x1680, 0x2000, 0x2001, 0x2002, 0x2003, 0x2004, 0x2005,
    0x2006, 0x2007, 0x2008, 0x2009, 0x200A, 0x2028, 0x2029, 0x202F, 0x205F, 0x3000,
    0xFEFF].contains c.toNat

/-- A leading sign, and the text after it. -/
def splitSign : JSString → Bool × JSString
  | 45 :: s => (true, s)
  | 43 :: s => (false, s)
  | s => (false, s)

/-- The text after a `0x` or `0X`. -/
def stripHexPrefix : JSString → JSString
  | 48 :: 120 :: s => s
  | 48 :: 88 :: s => s
  | s => s

/-- `parseInt(s, radix)`; `none` is `NaN`. -/
def parseInt (radix : ℕ) (s : JSString) : Option ℤ :=
  let (neg, s) := splitSign (s.dropWhile isWhitespace)
  let s := if radix = 16 then stripHexPrefix s else s
  (digitsValue radix (s.takeWhile fun c => (radixValue radix c).isSome)).map fun n : ℕ =>
    if neg then -(n : ℤ) else n

/-- `BigInt(s)`; `none` is a `SyntaxError`. -/
def bigInt (s : JSString) : Option ℤ :=
  let s := ((s.dropWhile isWhitespace).reverse.dropWhile isWhitespace).reverse
  match s with
  | [] => some 0
  | 48 :: 120 :: s => (digitsValue 16 s).map fun n : ℕ => (n : ℤ)
  | 48 :: 88 :: s => (digitsValue 16 s).map fun n : ℕ => (n : ℤ)
  | 48 :: 111 :: s => (digitsValue 8 s).map fun n : ℕ => (n : ℤ)
  | 48 :: 79 :: s => (digitsValue 8 s).map fun n : ℕ => (n : ℤ)
  | 48 :: 98 :: s => (digitsValue 2 s).map fun n : ℕ => (n : ℤ)
  | 48 :: 66 :: s => (digitsValue 2 s).map fun n : ℕ => (n : ℤ)
  | s => (digitsValue 10 (splitSign s).2).map fun n : ℕ => if (splitSign s).1 then -(n : ℤ) else n

/-! ## Digits are read as they stand -/

private theorem isWhitespace_digitChar {d : ℕ} (h : d < 36) : isWhitespace (digitChar d) = false := by
  have key : ∀ i : Fin 36, isWhitespace (digitChar i.val) = false := by decide
  exact key ⟨d, h⟩

private theorem splitSign_cons_digitChar {d : ℕ} (h : d < 36) (s : JSString) :
    splitSign (digitChar d :: s) = (false, digitChar d :: s) := by
  have h45 : digitChar d ≠ 45 := fun he => by
    have := congrArg UInt16.toNat he
    rw [digitChar_toNat h] at this
    simp at this
    split at this <;> omega
  have h43 : digitChar d ≠ 43 := fun he => by
    have := congrArg UInt16.toNat he
    rw [digitChar_toNat h] at this
    simp at this
    split at this <;> omega
  unfold splitSign
  split
  · next he => exact absurd (List.cons.inj he).1 h45
  · next he => exact absurd (List.cons.inj he).1 h43
  · rfl

private theorem stripHexPrefix_map {ds : List ℕ} (h : ∀ d ∈ ds, d < 16) :
    stripHexPrefix (ds.map digitChar) = ds.map digitChar := by
  unfold stripHexPrefix
  split
  · next he =>
    obtain ⟨a, l, rfl, -, ht⟩ := List.map_eq_cons_iff.mp he
    obtain ⟨b, l, rfl, hb, -⟩ := List.map_eq_cons_iff.mp ht
    have hlt := h b (by simp)
    have := congrArg UInt16.toNat hb
    rw [digitChar_toNat (by omega)] at this
    simp at this
    split at this <;> omega
  · next he =>
    obtain ⟨a, l, rfl, -, ht⟩ := List.map_eq_cons_iff.mp he
    obtain ⟨b, l, rfl, hb, -⟩ := List.map_eq_cons_iff.mp ht
    have hlt := h b (by simp)
    have := congrArg UInt16.toNat hb
    rw [digitChar_toNat (by omega)] at this
    simp at this
    split at this <;> omega
  · rfl

/-- A text of digits of the radix is read as their number. -/
theorem parseInt_map {r : ℕ} (hr : r ≤ 16) {ds : List ℕ} (hne : ds ≠ []) (h : ∀ d ∈ ds, d < r) :
    parseInt r (ds.map digitChar) = some (ofDigitsBE r ds : ℤ) := by
  obtain ⟨d, l, rfl⟩ := List.exists_cons_of_ne_nil hne
  have hd := h d (by simp)
  have hdrop : ((d :: l).map digitChar).dropWhile isWhitespace = (d :: l).map digitChar := by
    rw [List.map_cons, List.dropWhile_cons_of_neg]
    simp [isWhitespace_digitChar (show d < 36 by omega)]
  have hstrip : (if r = 16 then stripHexPrefix ((d :: l).map digitChar)
      else (d :: l).map digitChar) = (d :: l).map digitChar := by
    split
    · exact stripHexPrefix_map fun x hx => by have := h x hx; omega
    · rfl
  have htake : ((d :: l).map digitChar).takeWhile (fun c => (radixValue r c).isSome) =
      (d :: l).map digitChar := by
    refine List.takeWhile_eq_self_iff.mpr fun c hc => ?_
    obtain ⟨x, hx, rfl⟩ := List.mem_map.mp hc
    simp [radixValue_digitChar (show r ≤ 36 by omega) (h x hx)]
  have hsign : splitSign ((d :: l).map digitChar) = (false, (d :: l).map digitChar) :=
    splitSign_cons_digitChar (by omega) _
  simp only [parseInt, hdrop, hsign, hstrip, htake]
  rw [digitsValue_map (by omega) hne h]
  rfl

private theorem toHex_eq_map (bs : Bytes) :
    ∃ ds, toHex bs = ds.map digitChar ∧ (∀ d ∈ ds, d < 16) ∧ ofDigitsBE 16 ds = beValue bs ∧
      ds.length = 2 * bs.length := by
  refine ⟨fixedDigits 16 (2 * bs.length) (beValue bs), ?_, fun d hd => fixedDigits_lt (by omega) hd,
    ?_, by simp⟩
  · rw [fixedDigits_hex, beBytes_beValue]
  · rw [ofDigitsBE_fixedDigits, pow_mul]
    exact Nat.mod_eq_of_lt (beValue_lt bs)

/-- The number the decoders read a length from. -/
theorem parseInt_toHex {bs : Bytes} (h : bs ≠ []) : parseInt 16 (toHex bs) = some (beValue bs : ℤ) := by
  obtain ⟨ds, hds, hlt, hv, hl⟩ := toHex_eq_map bs
  have hne : ds ≠ [] := by
    rintro rfl
    rw [List.length_nil] at hl
    exact h (List.eq_nil_of_length_eq_zero (by omega))
  rw [hds, parseInt_map (by omega) hne hlt, hv]

/-! ## Hexadecimal digits of either case -/

private theorem isWhitespace_of_hex {c : UInt16} (h : (radixValue 16 c).isSome) :
    isWhitespace c = false := by
  have key : ∀ i : Fin 128, 48 ≤ i.val → isWhitespace (UInt16.ofNat i.val) = false := by
    decide
  have hc : 48 ≤ c.toNat ∧ c.toNat < 128 := by
    simp only [radixValue, digitValue, Option.isSome_filter] at h
    split_ifs at h <;> simp at h <;> omega
  rw [show c = UInt16.ofNat c.toNat by simp]
  exact key ⟨c.toNat, hc.2⟩ hc.1

/-- A text of hexadecimal digits is read as their number. -/
theorem parseInt_hex {s : JSString} (hne : s ≠ []) (h : ∀ c ∈ s, (radixValue 16 c).isSome) :
    parseInt 16 s = (digitsValue 16 s).map fun n : ℕ => (n : ℤ) := by
  have hno : ∀ x : UInt16, radixValue 16 x = none → x ∉ s := fun x hx hmem => by
    have := h x hmem
    rw [hx] at this
    cases this
  have hdrop : s.dropWhile isWhitespace = s := by
    obtain ⟨c, t, rfl⟩ := List.exists_cons_of_ne_nil hne
    rw [List.dropWhile_cons_of_neg (by simp [isWhitespace_of_hex (h c (by simp))])]
  have hsign : splitSign s = (false, s) := by
    unfold splitSign
    split
    · exact absurd (by simp) (hno 45 (by decide))
    · exact absurd (by simp) (hno 43 (by decide))
    · rfl
  have hstrip : stripHexPrefix s = s := by
    unfold stripHexPrefix
    split
    · exact absurd (by simp) (hno 120 (by decide))
    · exact absurd (by simp) (hno 88 (by decide))
    · rfl
  have htake : s.takeWhile (fun c => (radixValue 16 c).isSome) = s :=
    List.takeWhile_eq_self_iff.mpr h
  rw [parseInt, hdrop, hsign]
  simp [hstrip, htake]

/-- Two hexadecimal digits. -/
theorem parseInt_pair {c d : UInt16} {x y : ℕ} (hc : radixValue 16 c = some x)
    (hd : radixValue 16 d = some y) : parseInt 16 [c, d] = some ((16 * x + y : ℕ) : ℤ) := by
  rw [parseInt_hex (by simp) (by simp [hc, hd])]
  simp [digitsValue, hc, hd, ofDigitsBE, Nat.mul_comm]

/-! ## Decimal numerals -/

private theorem isWhitespace_of_decimal {c : UInt16} (h : c = 45 ∨ isDecimalDigit c = true) :
    isWhitespace c = false := by
  have key : ∀ i : Fin 128, (48 ≤ i.val ∧ i.val ≤ 57) ∨ i.val = 45 →
      isWhitespace (UInt16.ofNat i.val) = false := by decide
  have hc : (48 ≤ c.toNat ∧ c.toNat ≤ 57) ∨ c.toNat = 45 := by
    rcases h with rfl | h
    · exact .inr rfl
    · simp only [isDecimalDigit, radixValue, digitValue, Option.isSome_filter] at h
      split_ifs at h <;> simp at h <;> omega
  rw [show c = UInt16.ofNat c.toNat by simp]
  exact key ⟨c.toNat, by omega⟩ hc

private theorem radixValue_of_mapM {r : ℕ} {s : JSString} {ds : List ℕ}
    (h : s.mapM (radixValue r) = some ds) : ∀ c ∈ s, (radixValue r c).isSome := by
  induction s generalizing ds with
  | nil => simp
  | cons a s ih =>
    simp only [List.mapM_cons, Option.bind_eq_bind, Option.bind_eq_some_iff] at h
    obtain ⟨x, hx, l, hl, -⟩ := h
    intro c hc
    rcases List.mem_cons.mp hc with rfl | hc
    · simp [hx]
    · exact ih hl c hc

/-- The characters of a text of digits. -/
theorem digits_of_digitsValue {s : JSString} {n : ℕ} (h : digitsValue 10 s = some n) :
    s ≠ [] ∧ ∀ c ∈ s, isDecimalDigit c = true := by
  unfold digitsValue at h
  split at h
  · cases h
  · next hne =>
    obtain ⟨ds, hds, -⟩ := Option.map_eq_some_iff.mp h
    exact ⟨by simpa using hne, radixValue_of_mapM hds⟩

/-- A decimal numeral, its sign apart. -/
theorem decimal_cases {s : JSString} {z : ℤ} (h : decimalValue s = some z) :
    ∃ (ds : JSString) (n : ℕ), digitsValue 10 ds = some n ∧ ds ≠ [] ∧
      (∀ c ∈ ds, isDecimalDigit c = true) ∧ splitSign s = (decide (s = 45 :: ds), ds) ∧
      (s = 45 :: ds ∨ s = ds) ∧ z = if s = 45 :: ds then -(n : ℤ) else n := by
  unfold decimalValue at h
  split at h
  · next ds =>
    obtain ⟨n, hn, rfl⟩ := Option.map_eq_some_iff.mp h
    obtain ⟨hne, hds⟩ := digits_of_digitsValue hn
    exact ⟨ds, n, hn, hne, hds, by simp [splitSign], .inl rfl, by simp⟩
  · next hs =>
    obtain ⟨n, hn, rfl⟩ := Option.map_eq_some_iff.mp h
    obtain ⟨hne, hds⟩ := digits_of_digitsValue hn
    have hsign : splitSign s = (false, s) := by
      unfold splitSign
      split
      · next he => exact absurd rfl (hs _)
      · next he => exact absurd (hds 43 (by simp)) (by decide)
      · rfl
    have hself : s ≠ 45 :: s := fun he => by
      have := congrArg List.length he
      simp at this
    exact ⟨s, n, hn, hne, hds, by simp [hsign, hself], .inr rfl, by simp [hself]⟩

private theorem dropWhile_whitespace {s : JSString} (h : ∀ c ∈ s, isWhitespace c = false) :
    s.dropWhile isWhitespace = s := by
  cases s with
  | nil => rfl
  | cons c s => rw [List.dropWhile_cons_of_neg (by simp [h c (by simp)])]

/-- No character of a decimal numeral is white space. -/
private theorem isWhitespace_of_mem {s ds : JSString} (hds : ∀ c ∈ ds, isDecimalDigit c = true)
    (h : s = 45 :: ds ∨ s = ds) : ∀ c ∈ s, isWhitespace c = false := by
  intro c hc
  rcases h with rfl | rfl
  · rcases List.mem_cons.mp hc with rfl | hc
    · exact isWhitespace_of_decimal (.inl rfl)
    · exact isWhitespace_of_decimal (.inr (hds c hc))
  · exact isWhitespace_of_decimal (.inr (hds c hc))

/-- `BigInt` reads a decimal numeral. -/
theorem bigInt_of_decimal {s : JSString} {z : ℤ} (h : decimalValue s = some z) :
    bigInt s = some z := by
  obtain ⟨ds, n, hn, hne, hds, hsign, hs, rfl⟩ := decimal_cases h
  have hws := isWhitespace_of_mem hds hs
  have htrim : ((s.dropWhile isWhitespace).reverse.dropWhile isWhitespace).reverse = s := by
    rw [dropWhile_whitespace hws, dropWhile_whitespace (by simpa using hws), List.reverse_reverse]
  -- no prefix of another radix: its second character is no digit
  have hradix : ∀ x : UInt16, isDecimalDigit x = false → ∀ t, s ≠ 48 :: x :: t := by
    rintro x hx t rfl
    rcases hs with he | he
    · simp at he
    · have := hds x (he ▸ by simp)
      rw [hx] at this
      cases this
  unfold bigInt
  rw [htrim]
  dsimp only
  split
  · simp at hs
    exact absurd hs hne
  · exact absurd rfl (hradix 120 (by decide) _)
  · exact absurd rfl (hradix 88 (by decide) _)
  · exact absurd rfl (hradix 111 (by decide) _)
  · exact absurd rfl (hradix 79 (by decide) _)
  · exact absurd rfl (hradix 98 (by decide) _)
  · exact absurd rfl (hradix 66 (by decide) _)
  · simp [hsign, hn]

/-- `parseInt` reads a decimal numeral. -/
theorem parseInt_of_decimal {s : JSString} {z : ℤ} (h : decimalValue s = some z) :
    parseInt 10 s = some z := by
  obtain ⟨ds, n, hn, -, hds, hsign, hs, rfl⟩ := decimal_cases h
  have htake : ds.takeWhile (fun c => (radixValue 10 c).isSome) = ds :=
    List.takeWhile_eq_self_iff.mpr hds
  rw [parseInt, dropWhile_whitespace (isWhitespace_of_mem hds hs), hsign]
  simp [htake, hn]

/-- `parseInt` reads the digits before the first character that is none. -/
theorem parseInt_append {ds rest : JSString} {n : ℕ} (h : digitsValue 10 ds = some n)
    (hrest : ∀ c ∈ rest.head?, isDecimalDigit c = false) :
    parseInt 10 (ds ++ rest) = some (n : ℤ) := by
  obtain ⟨hne, hds⟩ := digits_of_digitsValue h
  have htake : (ds ++ rest).takeWhile (fun c => (radixValue 10 c).isSome) = ds := by
    refine (List.takeWhile_append_of_pos hds).trans ?_
    cases rest with
    | nil => exact List.append_nil ds
    | cons c rest =>
      rw [List.takeWhile_cons_of_neg, List.append_nil]
      exact Bool.eq_false_iff.mp (hrest c rfl)
  obtain ⟨c, t, rfl⟩ := List.exists_cons_of_ne_nil hne
  have hc := hds c List.mem_cons_self
  have hdrop : (c :: t ++ rest).dropWhile isWhitespace = c :: t ++ rest := by
    rw [List.cons_append, List.dropWhile_cons_of_neg]
    exact Bool.eq_false_iff.mp (isWhitespace_of_decimal (.inr hc))
  have hsign : splitSign (c :: t ++ rest) = (false, c :: t ++ rest) := by
    rw [List.cons_append, splitSign]
    · intro s hs
      rw [(List.cons.inj hs).1] at hc
      exact absurd hc (by decide)
    · intro s hs
      rw [(List.cons.inj hs).1] at hc
      exact absurd hc (by decide)
  rw [parseInt, hdrop, hsign]
  show (digitsValue 10 ((c :: t ++ rest).takeWhile fun c => (radixValue 10 c).isSome)).map
    (fun n : ℕ => (n : ℤ)) = some (n : ℤ)
  rw [htake, h]
  rfl

end Js
