import Mathlib.Data.List.Basic
import Taquito.Lib.BigEndian

/-!
# Strings, hexadecimal and decimal text

A JavaScript string is its list of UTF-16 code units (`JSString`), so a lone surrogate is a value
like any other. The module holds the string operations the sources use (`padStart`, `split`,
`Number.prototype.toString(radix)`, `Buffer.from(_, 'hex')`, `Buffer.toString('hex')`) and the
facts that let the rest of the development talk about bytes instead of hexadecimal text:
`padStart_hexText` (a padded number is the text of its big-endian octets) and
`bufferFromHex_toHex`.
-/

open BigEndian

/-- A JavaScript string: its UTF-16 code units. -/
abbrev JSString := List UInt16

/-- Octets, as in a `Uint8Array` or a `number[]` of bytes. -/
abbrev Bytes := List UInt8

/-- The JavaScript string of a literal of basic-plane characters. -/
def js (s : String) : JSString := s.toList.map fun c => UInt16.ofNat c.toNat

namespace Js

/-! ## Digits -/

/-- The lower-case digit of value `d < 36`. -/
def digitChar (d : ℕ) : UInt16 := UInt16.ofNat (if d < 10 then 48 + d else 87 + d)

/-- The value of an alphanumeric character as a digit, in either case. -/
def digitValue (c : UInt16) : Option ℕ :=
  if 48 ≤ c.toNat ∧ c.toNat ≤ 57 then some (c.toNat - 48)
  else if 97 ≤ c.toNat ∧ c.toNat ≤ 122 then some (c.toNat - 87)
  else if 65 ≤ c.toNat ∧ c.toNat ≤ 90 then some (c.toNat - 55)
  else none

/-- The value of a digit of the radix `r`. -/
def radixValue (r : ℕ) (c : UInt16) : Option ℕ := (digitValue c).filter (· < r)

/-- The characters `0-9`. -/
def isDecimalDigit (c : UInt16) : Bool := (radixValue 10 c).isSome

/-- The characters `0-9a-fA-F`. -/
def isHexDigit (c : UInt16) : Bool := (radixValue 16 c).isSome

/-- The characters `0-9a-f`. -/
def isLowerHexDigit (c : UInt16) : Bool :=
  (48 ≤ c.toNat && c.toNat ≤ 57) || (97 ≤ c.toNat && c.toNat ≤ 102)

theorem digitChar_toNat {d : ℕ} (h : d < 36) :
    (digitChar d).toNat = if d < 10 then 48 + d else 87 + d := by
  unfold digitChar
  split <;> simp <;> omega

theorem digitValue_digitChar {d : ℕ} (h : d < 36) : digitValue (digitChar d) = some d := by
  have hd := digitChar_toNat h
  unfold digitValue
  rw [hd]
  split_ifs <;> first | omega | (congr 1; omega)

theorem radixValue_digitChar {r d : ℕ} (hr : r ≤ 36) (h : d < r) :
    radixValue r (digitChar d) = some d := by
  simp [radixValue, digitValue_digitChar (show d < 36 by omega), h]

theorem isLowerHexDigit_digitChar {d : ℕ} (h : d < 16) : isLowerHexDigit (digitChar d) = true := by
  have hd := digitChar_toNat (show d < 36 by omega)
  simp only [isLowerHexDigit, hd, Bool.or_eq_true, Bool.and_eq_true, decide_eq_true_eq]
  split <;> omega

/-- A lower-case hexadecimal digit is the digit of its value. -/
theorem digitChar_of_isLowerHexDigit {c : UInt16} (h : isLowerHexDigit c = true) :
    ∃ d < 16, c = digitChar d := by
  simp only [isLowerHexDigit, Bool.or_eq_true, Bool.and_eq_true, decide_eq_true_eq] at h
  rcases h with h | h
  · refine ⟨c.toNat - 48, by omega, UInt16.toNat_inj.mp ?_⟩
    rw [digitChar_toNat (by omega), if_pos (by omega)]
    omega
  · refine ⟨c.toNat - 87, by omega, UInt16.toNat_inj.mp ?_⟩
    rw [digitChar_toNat (by omega), if_neg (by omega)]
    omega

theorem isHexDigit_of_isLowerHexDigit {c : UInt16} (h : isLowerHexDigit c = true) :
    isHexDigit c = true := by
  obtain ⟨d, hd, rfl⟩ := digitChar_of_isLowerHexDigit h
  simp [isHexDigit, radixValue_digitChar (by omega) hd]

/-! ## Numbers as text -/

/-- `n.toString(r)` of a natural number. -/
def numberText (r n : ℕ) : JSString := (leadingDigits r n).map digitChar

/-- The decimal text of a natural number. -/
def natText (n : ℕ) : JSString := numberText 10 n

/-- The decimal text of an integer, as `String(n)` of a `bigint` gives it. -/
def intText (z : ℤ) : JSString := if z < 0 then js "-" ++ natText z.natAbs else natText z.natAbs

/-- `s.padStart(n, c)`. -/
def padStart (n : ℕ) (c : UInt16) (s : JSString) : JSString :=
  List.replicate (n - s.length) c ++ s

/-- The number a text of base-`r` digits stands for; `none` if it is empty or has another
character. -/
def digitsValue (r : ℕ) (s : JSString) : Option ℕ :=
  if s.isEmpty then none else (s.mapM (radixValue r)).map (ofDigitsBE r)

/-- The integer of a text `-?[0-9]+`. -/
def decimalValue (s : JSString) : Option ℤ :=
  match s with
  | 45 :: ds => (digitsValue 10 ds).map fun n : ℕ => -(n : ℤ)
  | ds => (digitsValue 10 ds).map fun n : ℕ => (n : ℤ)

private theorem mapM_radixValue {r : ℕ} (hr : r ≤ 36) {ds : List ℕ} (h : ∀ d ∈ ds, d < r) :
    (ds.map digitChar).mapM (radixValue r) = some ds := by
  induction ds with
  | nil => rfl
  | cons d ds ih =>
    have hd : d < r := h d (by simp)
    rw [List.map_cons, List.mapM_cons, radixValue_digitChar hr hd,
      ih fun x hx => h x (by simp [hx])]
    rfl

/-- A padded digit list reads back. -/
theorem digitsValue_map {r : ℕ} (hr : r ≤ 36) {ds : List ℕ} (hne : ds ≠ []) (h : ∀ d ∈ ds, d < r) :
    digitsValue r (ds.map digitChar) = some (ofDigitsBE r ds) := by
  rw [digitsValue, if_neg (by simpa using hne), mapM_radixValue hr h]
  rfl

theorem digitsValue_numberText {r : ℕ} (h1 : 1 < r) (hr : r ≤ 36) (n : ℕ) :
    digitsValue r (numberText r n) = some n := by
  rw [numberText, digitsValue_map hr (leadingDigits_ne_nil r n) fun d hd => leadingDigits_lt h1 hd,
    ofDigitsBE_leadingDigits h1]

theorem numberText_ne_nil (r n : ℕ) : numberText r n ≠ [] := by
  simpa [numberText] using leadingDigits_ne_nil r n

theorem numberText_digits {r : ℕ} (h1 : 1 < r) {n : ℕ} {c : UInt16}
    (h : c ∈ numberText r n) : ∃ d < r, c = digitChar d := by
  obtain ⟨d, hd, rfl⟩ := List.mem_map.mp h
  exact ⟨d, leadingDigits_lt h1 hd, rfl⟩

theorem natText_ne_minus (n : ℕ) (ds : JSString) : natText n ≠ 45 :: ds := by
  intro h
  have hmem : (45 : UInt16) ∈ numberText 10 n := by
    rw [show numberText 10 n = 45 :: ds from h]
    exact List.mem_cons_self
  obtain ⟨d, hd, he⟩ := numberText_digits (by omega) hmem
  have := congrArg UInt16.toNat he
  rw [digitChar_toNat (by omega), if_pos hd] at this
  simp at this
  omega

theorem decimalValue_natText (n : ℕ) : decimalValue (natText n) = some (n : ℤ) := by
  have hv : digitsValue 10 (natText n) = some n := digitsValue_numberText (by omega) (by omega) n
  unfold decimalValue
  split
  · next ds h => exact absurd h (natText_ne_minus n ds)
  · simp [hv]

/-- A decimal text reads back as the integer it was written for. -/
theorem decimalValue_intText (z : ℤ) : decimalValue (intText z) = some z := by
  unfold intText
  split
  · have hv : digitsValue 10 (natText z.natAbs) = some z.natAbs :=
      digitsValue_numberText (by omega) (by omega) _
    have hj : js "-" = [45] := by decide
    rw [hj, List.singleton_append, decimalValue, hv, Option.map_some, Option.some.injEq]
    omega
  · rw [decimalValue_natText, Option.some.injEq]
    omega

theorem intText_injective {a b : ℤ} (h : intText a = intText b) : a = b := by
  have := (decimalValue_intText a).symm.trans (h ▸ decimalValue_intText b)
  simpa using this

/-! ## Hexadecimal octets -/

/-- The two lower-case hexadecimal digits of an octet. -/
def hexByte (b : UInt8) : JSString := [digitChar (b.toNat / 16), digitChar (b.toNat % 16)]

/-- `Buffer.toString('hex')`. -/
def toHex (bs : Bytes) : JSString := bs.flatMap hexByte

/-- `Buffer.from(s, 'hex')`: pairs of digits up to the first that is not one. -/
def bufferFromHex : JSString → Bytes
  | c :: d :: s =>
    match radixValue 16 c, radixValue 16 d with
    | some x, some y => UInt8.ofNat (16 * x + y) :: bufferFromHex s
    | _, _ => []
  | _ => []

/-- The pattern `^([A-Fa-f0-9]{2})*$`. -/
def isHexPairs (s : JSString) : Bool := s.length % 2 == 0 && s.all isHexDigit

@[simp] theorem toHex_nil : toHex [] = [] := rfl

@[simp] theorem toHex_cons (b : UInt8) (bs : Bytes) : toHex (b :: bs) = hexByte b ++ toHex bs := rfl

@[simp] theorem toHex_append (bs cs : Bytes) : toHex (bs ++ cs) = toHex bs ++ toHex cs := by
  simp [toHex]

@[simp] theorem toHex_length (bs : Bytes) : (toHex bs).length = 2 * bs.length := by
  induction bs with
  | nil => rfl
  | cons b bs ih =>
    simp only [toHex_cons, hexByte, List.cons_append, List.nil_append, List.length_cons, ih]
    omega

@[simp] theorem bufferFromHex_toHex (bs : Bytes) : bufferFromHex (toHex bs) = bs := by
  induction bs with
  | nil => rfl
  | cons b bs ih =>
    have hlt := b.toNat_lt
    rw [toHex_cons, hexByte, List.cons_append, List.cons_append, List.nil_append, bufferFromHex,
      radixValue_digitChar (by omega) (by omega), radixValue_digitChar (by omega) (by omega)]
    simp only [ih, List.cons.injEq, and_true]
    rw [← UInt8.toNat_inj]
    simp
    omega

theorem toHex_injective {bs cs : Bytes} (h : toHex bs = toHex cs) : bs = cs := by
  rw [← bufferFromHex_toHex bs, h, bufferFromHex_toHex]

theorem isLowerHexDigit_of_mem_toHex {bs : Bytes} {c : UInt16} (h : c ∈ toHex bs) :
    isLowerHexDigit c = true := by
  obtain ⟨b, -, hc⟩ := List.mem_flatMap.mp h
  have hlt := b.toNat_lt
  simp only [hexByte, List.mem_cons, List.not_mem_nil, or_false] at hc
  rcases hc with rfl | rfl
  · exact isLowerHexDigit_digitChar (by omega)
  · exact isLowerHexDigit_digitChar (by omega)

/-- A text of lower-case hexadecimal digits, of even length, is the text of octets. -/
theorem exists_toHex : ∀ {s : JSString}, s.length % 2 = 0 → (∀ c ∈ s, isLowerHexDigit c = true) →
    ∃ bs, s = toHex bs
  | [], _, _ => ⟨[], rfl⟩
  | [_], h, _ => by simp at h
  | c :: d :: s, hl, h => by
    obtain ⟨bs, rfl⟩ := exists_toHex (s := s) (by simp at hl; omega)
      fun x hx => h x (by simp [hx])
    obtain ⟨x, hx, rfl⟩ := digitChar_of_isLowerHexDigit (h c (by simp))
    obtain ⟨y, hy, rfl⟩ := digitChar_of_isLowerHexDigit (h d (by simp))
    refine ⟨UInt8.ofNat (16 * x + y) :: bs, ?_⟩
    have hb : (UInt8.ofNat (16 * x + y)).toNat = 16 * x + y := by simp; omega
    have h₁ : (16 * x + y) / 16 = x := by omega
    have h₂ : (16 * x + y) % 16 = y := by omega
    rw [toHex_cons, hexByte, hb, h₁, h₂]
    rfl

theorem isHexPairs_toHex (bs : Bytes) : isHexPairs (toHex bs) = true := by
  simp only [isHexPairs, toHex_length, Nat.mul_mod_right, BEq.rfl, Bool.true_and, List.all_eq_true]
  exact fun c hc => isHexDigit_of_isLowerHexDigit (isLowerHexDigit_of_mem_toHex hc)

theorem bufferFromHex_toHex_append (bs : Bytes) (s : JSString) :
    bufferFromHex (toHex bs ++ s) = bs ++ bufferFromHex s := by
  induction bs with
  | nil => rfl
  | cons b bs ih =>
    have hlt := b.toNat_lt
    rw [toHex_cons, hexByte, List.append_assoc, List.cons_append, List.cons_append,
      List.nil_append, bufferFromHex, radixValue_digitChar (by omega) (by omega),
      radixValue_digitChar (by omega) (by omega)]
    simp only
    rw [ih, List.cons_append]
    congr 1
    rw [show 16 * (b.toNat / 16) + b.toNat % 16 = b.toNat by omega, UInt8.ofNat_toNat]

theorem isHexPairs_append {s t : JSString} (hs : isHexPairs s = true) (ht : isHexPairs t = true) :
    isHexPairs (s ++ t) = true := by
  rw [isHexPairs, Bool.and_eq_true, beq_iff_eq, List.all_eq_true] at hs ht ⊢
  refine ⟨?_, fun c hc => ?_⟩
  · rw [List.length_append]
    omega
  · exact (List.mem_append.mp hc).elim (hs.2 c) (ht.2 c)

/-! ## Padded numbers -/

private theorem fixedDigits_two (n : ℕ) :
    (fixedDigits 16 2 n).map digitChar = hexByte (UInt8.ofNat (n % 256)) := by
  have hb : (UInt8.ofNat (n % 256)).toNat = n % 256 := by simp
  have h₁ : n / 16 % 16 = n % 256 / 16 := by omega
  have h₂ : n % 16 = n % 256 % 16 := by omega
  simp only [fixedDigits, hexByte, hb, List.nil_append, List.cons_append, List.map_cons,
    List.map_nil, h₁, ← h₂]

theorem fixedDigits_hex (k n : ℕ) :
    (fixedDigits 16 (2 * k) n).map digitChar = toHex (beBytes k n) := by
  induction k generalizing n with
  | zero => rfl
  | succ k ih =>
    rw [show 2 * (k + 1) = 2 * k + 2 by ring, fixedDigits_add, List.map_append, ih, fixedDigits_two,
      beBytes, beBytes, fixedDigits, List.map_append, toHex_append]
    rfl

/-- **A padded number is the hexadecimal text of its big-endian octets.** -/
theorem padStart_hexText {k n : ℕ} (hk : 0 < k) (h : n < 256 ^ k) :
    padStart (2 * k) (digitChar 0) (numberText 16 n) = toHex (beBytes k n) := by
  have h16 : n < 16 ^ (2 * k) := by rwa [pow_mul]
  have key := replicate_leadingDigits (by omega) (show 0 < 2 * k by omega) h16
  rw [← fixedDigits_hex, ← key, List.map_append, List.map_replicate, padStart, numberText,
    List.length_map]

theorem numberText_hex_length_le {k n : ℕ} (hk : 0 < k) :
    (numberText 16 n).length ≤ 2 * k ↔ n < 256 ^ k := by
  rw [numberText, List.length_map, leadingDigits_length_le (by omega) (by omega), pow_mul]
  norm_num

end Js
