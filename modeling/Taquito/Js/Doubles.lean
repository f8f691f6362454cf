import Taquito.Js.Numbers

/-!
# Whole numbers as doubles

The values of type Number that are whole, with `NaN` and the infinities: the sum and the product of
such values, what `parseInt` returns, and their text. A whole number is rounded to 53 significant
bits, ties to even. The text of a number below `10^21` is the shortest numeral that is rounded to
it, and above it is in exponent notation (`isNumeral_text_iff`).
-/

namespace Js

/-- A Number without a fractional part. -/
inductive Double where
  | nan
  | infinite (negative : Bool)
  | finite (z : ℤ)
  deriving DecidableEq, Repr

/-- The multiple of `unit` that is nearest to `n`, and of two of them the even one. -/
def nearestMultiple (unit n : ℕ) : ℕ :=
  let q := n / unit
  let r := n % unit
  (if unit < 2 * r ∨ unit = 2 * r ∧ q % 2 = 1 then q + 1 else q) * unit

/-- A natural number with 53 significant bits. -/
def roundNat (n : ℕ) : ℕ := if n < 2 ^ 53 then n else nearestMultiple (2 ^ (n.log2 - 52)) n

namespace Double

/-- The Number that is nearest to an integer. -/
def ofInt (z : ℤ) : Double :=
  let n := roundNat z.natAbs
  if 2 ^ 1024 ≤ n then infinite (z < 0) else finite (if z < 0 then -n else n)

/-- `x * k`, of a positive constant. -/
def scale (k : ℕ) : Double → Double
  | nan => nan
  | infinite negative => infinite negative
  | finite z => ofInt (z * k)

/-- `x + k`. -/
def add (k : ℤ) : Double → Double
  | nan => nan
  | infinite negative => infinite negative
  | finite z => ofInt (z + k)

/-- `parseInt(s, 10)`. -/
def parse (s : JSString) : Double :=
  match parseInt 10 s with
  | none => nan
  | some z => ofInt z

/-- The shortest numeral that is rounded to a number: its first digits that are enough, the others
replaced by zeros. -/
def shortest (n : ℕ) : ℕ :=
  let digits := (natText n).length
  (((List.range digits).map fun k => nearestMultiple (10 ^ (digits - 1 - k)) n).find?
    fun v => roundNat v = n).getD n

/-- The exponent notation of a natural number. -/
def exponentText (n : ℕ) : JSString :=
  let digits := natText n
  let significant := (digits.reverse.dropWhile (· = 48)).reverse
  significant.take 1 ++ (if 1 < significant.length then 46 :: significant.drop 1 else []) ++
    js "e+" ++ natText (digits.length - 1)

/-- The text of the absolute value. -/
def absText (n : ℕ) : JSString :=
  if n < 10 ^ 21 then natText (shortest n) else exponentText (shortest n)

/-- `String(x)`. -/
def text : Double → JSString
  | nan => js "NaN"
  | infinite negative => if negative then js "-Infinity" else js "Infinity"
  | finite z => if z < 0 then 45 :: absText z.natAbs else absText z.natAbs

/-- A number whose text is a numeral. -/
def IsPlain : Double → Prop
  | finite z => z.natAbs < 10 ^ 21
  | _ => False

instance : DecidablePred IsPlain
  | nan => isFalse id
  | infinite _ => isFalse id
  | finite _ => inferInstanceAs (Decidable (_ < _))

end Double

/-- `/^-?[0-9]+$/`. -/
def isNumeral (s : JSString) : Bool := (decimalValue s).isSome

theorem isNumeral_natText (n : ℕ) : isNumeral (natText n) = true := by
  rw [isNumeral, decimalValue_natText]
  rfl

theorem mem_of_isNumeral {s : JSString} (h : isNumeral s = true) {c : UInt16} (hc : c ∈ s) :
    c = 45 ∨ isDecimalDigit c = true := by
  obtain ⟨z, hz⟩ := Option.isSome_iff_exists.mp h
  obtain ⟨ds, n, -, -, hdigits, -, hs, -⟩ := decimal_cases hz
  rcases hs with rfl | rfl
  · rcases List.mem_cons.mp hc with rfl | hc
    · exact .inl rfl
    · exact .inr (hdigits c hc)
  · exact .inr (hdigits c hc)

namespace Double

theorem plus_mem_exponentText (n : ℕ) : 43 ∈ exponentText n := by
  have hplus : (43 : UInt16) ∈ js "e+" := by decide
  rw [exponentText]
  exact List.mem_append_left _ (List.mem_append_right _ hplus)

/-- **A number is written as a numeral** if and only if it is below `10^21`. -/
theorem isNumeral_text_iff (x : Double) : isNumeral x.text = true ↔ x.IsPlain := by
  have hletter : ∀ {s : JSString} {c : UInt16}, c ∈ s → c ≠ 45 → isDecimalDigit c = false →
      ¬ isNumeral s = true := by
    intro s c hc hne hdigit h
    rcases mem_of_isNumeral h hc with h | h
    · exact hne h
    · rw [hdigit] at h
      cases h
  cases x with
  | nan => exact iff_of_false (by decide) id
  | infinite negative => cases negative <;> exact iff_of_false (by decide) id
  | finite z =>
    rw [text, IsPlain]
    by_cases hsmall : z.natAbs < 10 ^ 21
    · refine iff_of_true ?_ hsmall
      rw [absText, if_pos hsmall]
      by_cases hneg : z < 0
      · rw [if_pos hneg, isNumeral, decimalValue]
        have hv : digitsValue 10 (natText (shortest z.natAbs)) = some (shortest z.natAbs) :=
          digitsValue_numberText (by omega) (by omega) _
        rw [hv]
        rfl
      · rw [if_neg hneg]
        exact isNumeral_natText _
    · refine iff_of_false ?_ hsmall
      rw [absText, if_neg hsmall]
      have hplus := plus_mem_exponentText (shortest z.natAbs)
      by_cases hneg : z < 0
      · rw [if_pos hneg]
        exact hletter (List.mem_cons_of_mem _ hplus) (by decide) (by decide)
      · rw [if_neg hneg]
        exact hletter hplus (by decide) (by decide)

example : text (parse (js "9007199254740993")) = js "9007199254740992" := by decide +kernel

example : text ((parse (js "1000000000000000000000")).scale 2) = js "2e+21" := by decide +kernel

end Double

end Js
