import Mathlib.Data.List.DropRight
import Mathlib.Data.Rat.Floor
import Taquito.Js.Text

/-!
# Arbitrary-precision numbers of the `bignumber.js` library

The library is not part of the repository. Its values are modelled as what they denote, and the two
things only the library can answer are parameters: which number a text is (`parse`, for
`new BigNumber(text, 10)`), and how a number with a fractional part is written in a radix
(`fractionText`). `BigNumberLib.Lawful` is what the sources rely on.
-/

open Js

/-- A `BigNumber`. -/
inductive BigNumber where
  | nan
  | infinity (neg : Bool)
  | finite (q : ℚ)

/-- The part of the library that is a parameter. -/
structure BigNumberLib where
  /-- `new BigNumber(text, 10)`. -/
  parse : JSString → BigNumber
  /-- `toString(radix)` of a number that is not an integer. -/
  fractionText : ℕ → ℚ → JSString

/-- A decimal text denotes its integer, and a fraction is written with a point. -/
structure BigNumberLib.Lawful (lib : BigNumberLib) : Prop where
  parse_decimal : ∀ {s : JSString} {z : ℤ}, decimalValue s = some z → lib.parse s = .finite z
  point_mem : ∀ (radix : ℕ) (q : ℚ), q.den ≠ 1 → (46 : UInt16) ∈ lib.fractionText radix q

/-- A library that reads decimal integers only. -/
def BigNumberLib.decimal : BigNumberLib where
  parse s := match decimalValue s with
    | some z => .finite z
    | none => .nan
  fractionText _ q := js "." ++ natText q.den

theorem BigNumberLib.lawful_decimal : BigNumberLib.decimal.Lawful where
  parse_decimal h := by simp [BigNumberLib.decimal, h]
  point_mem _ _ _ := List.mem_append_left _ (by decide)

namespace BigNumber

/-- `x.toString(radix)`; zero has no sign. -/
def toText (lib : BigNumberLib) (radix : ℕ) : BigNumber → JSString
  | .nan => js "NaN"
  | .infinity neg => if neg then js "-Infinity" else js "Infinity"
  | .finite q =>
    if q.den = 1 then (if q.num < 0 then js "-" else []) ++ numberText radix q.num.natAbs
    else lib.fractionText radix q

theorem toText_int (lib : BigNumberLib) (radix : ℕ) (z : ℤ) :
    toText lib radix (.finite z) =
      (if z < 0 then js "-" else []) ++ numberText radix z.natAbs := by
  simp only [toText, Rat.den_intCast, if_true, Rat.num_intCast]
  rfl

/-! ## Texts with an exponent -/

/-- `n` with a mantissa and an exponent. -/
def exponentText (n : ℕ) : JSString :=
  match natText n with
  | [] => []
  | d :: ds =>
    let rest := ds.rdropWhile (· = 48)
    d :: ((if rest.isEmpty then [] else 46 :: rest) ++ js "e+" ++ natText ds.length)

/-- `x.toString()`: integers from 10^21 on have an exponent. -/
def text (lib : BigNumberLib) : BigNumber → JSString
  | .finite q =>
    if q.den = 1 then
      if q.num.natAbs < 10 ^ 21 then intText q.num
      else (if q.num < 0 then js "-" else []) ++ exponentText q.num.natAbs
    else lib.fractionText 10 q
  | x => x.toText lib 10

/-- Neither a point nor a letter is a digit. -/
theorem ne_of_mem_natText {n : ℕ} {c : UInt16} (h : c ∈ natText n) :
    c ≠ 45 ∧ c ≠ 46 ∧ c ≠ 101 := by
  obtain ⟨d, hd, rfl⟩ := numberText_digits (by omega) h
  have hv := digitChar_toNat (show d < 36 by omega)
  rw [if_pos hd] at hv
  refine ⟨?_, ?_, ?_⟩ <;>
  · intro he
    rw [he] at hv
    simp at hv
    omega

theorem natText_injective {a b : ℕ} (h : natText a = natText b) : a = b := by
  have hv := (decimalValue_natText a).symm.trans (h ▸ decimalValue_natText b)
  simpa using hv

/-- Digits of one length that agree up to the zeros at their end. -/
theorem eq_of_rdropWhile_eq {ds ds' : JSString} (hlen : ds.length = ds'.length)
    (h : ds.rdropWhile (· = 48) = ds'.rdropWhile (· = 48)) : ds = ds' := by
  have hzeros : ∀ l : JSString,
      l.rtakeWhile (· = 48) = List.replicate (l.rtakeWhile (· = 48)).length 48 := by
    intro l
    apply List.eq_replicate_of_mem
    intro c hc
    simpa using List.mem_rtakeWhile_imp hc
  have hds : ds.rdropWhile (· = 48) ++ ds.rtakeWhile (· = 48) = ds :=
    List.rdropWhile_append_rtakeWhile
  have hds' : ds'.rdropWhile (· = 48) ++ ds'.rtakeWhile (· = 48) = ds' :=
    List.rdropWhile_append_rtakeWhile
  have hcount : (ds.rtakeWhile (· = 48)).length = (ds'.rtakeWhile (· = 48)).length := by
    have h₁ := congrArg List.length hds
    have h₂ := congrArg List.length hds'
    rw [List.length_append] at h₁ h₂
    rw [h] at h₁
    omega
  rw [← hds, ← hds', h, hzeros ds, hzeros ds', hcount]

/-- What stands in front of the exponent. -/
def mantissa (d : UInt16) (ds : JSString) : JSString :=
  d :: (if (ds.rdropWhile (· = 48)).isEmpty then [] else 46 :: ds.rdropWhile (· = 48))

theorem exponentText_eq {n : ℕ} {d : UInt16} {ds : JSString} (h : natText n = d :: ds) :
    exponentText n = mantissa d ds ++ 101 :: 43 :: natText ds.length := by
  rw [exponentText, h, mantissa]
  simp [js]

theorem takeWhile_exponentText {n : ℕ} {d : UInt16} {ds : JSString} (h : natText n = d :: ds) :
    (exponentText n).takeWhile (· ≠ 101) = mantissa d ds ∧
      (exponentText n).dropWhile (· ≠ 101) = 101 :: 43 :: natText ds.length := by
  have hdigit : ∀ c ∈ d :: ds, c ≠ 101 := fun c hc => (ne_of_mem_natText (h ▸ hc)).2.2
  have hall : ∀ c ∈ mantissa d ds, decide (c ≠ 101) = true := by
    intro c hc
    rw [decide_eq_true_eq]
    rcases List.mem_cons.mp hc with rfl | hc
    · exact hdigit c List.mem_cons_self
    · split at hc
      · cases hc
      · rcases List.mem_cons.mp hc with rfl | hc
        · decide
        · exact hdigit c (List.mem_cons_of_mem _ ((List.rdropWhile_prefix _ _).subset hc))
  rw [exponentText_eq h]
  constructor
  · rw [List.takeWhile_append_of_pos hall]
    simp
  · rw [List.dropWhile_append_of_pos hall]
    simp

theorem exponentText_injective {a b : ℕ} (h : exponentText a = exponentText b) : a = b := by
  obtain ⟨d, ds, ha⟩ := List.exists_cons_of_ne_nil (numberText_ne_nil 10 a)
  obtain ⟨d', ds', hb⟩ := List.exists_cons_of_ne_nil (numberText_ne_nil 10 b)
  obtain ⟨htake, hdrop⟩ := takeWhile_exponentText (n := a) ha
  obtain ⟨htake', hdrop'⟩ := takeWhile_exponentText (n := b) hb
  rw [h] at htake hdrop
  have hlen : ds.length = ds'.length := by
    have hrest := hdrop.symm.trans hdrop'
    simp only [List.cons.injEq, true_and] at hrest
    exact natText_injective hrest
  have hmantissa := htake.symm.trans htake'
  rw [mantissa, mantissa, List.cons.injEq] at hmantissa
  obtain ⟨rfl, hrest⟩ := hmantissa
  have hrdrop : ds.rdropWhile (· = 48) = ds'.rdropWhile (· = 48) := by
    split at hrest <;> split at hrest
    · next h₁ h₂ => rw [List.isEmpty_iff.mp h₁, List.isEmpty_iff.mp h₂]
    · cases hrest
    · cases hrest
    · exact List.tail_eq_of_cons_eq hrest
  have hds := eq_of_rdropWhile_eq hlen hrdrop
  subst hds
  exact natText_injective (ha.trans hb.symm)

theorem text_int (lib : BigNumberLib) (z : ℤ) :
    text lib (.finite z) = if z.natAbs < 10 ^ 21 then intText z
      else (if z < 0 then js "-" else []) ++ exponentText z.natAbs := by
  simp only [text, Rat.den_intCast, if_true, Rat.num_intCast]
  rfl

/-- The sign of a text with an exponent is its first unit. -/
theorem exponentText_sign {a b : ℤ}
    (h : (if a < 0 then js "-" else []) ++ exponentText a.natAbs =
      (if b < 0 then js "-" else []) ++ exponentText b.natAbs) : a = b := by
  have hhead : ∀ (n : ℕ) (t : JSString), exponentText n ≠ 45 :: t := by
    intro n t hn
    obtain ⟨d, ds, hd⟩ := List.exists_cons_of_ne_nil (numberText_ne_nil 10 n)
    rw [exponentText_eq (n := n) hd, mantissa, List.cons_append, List.cons.injEq] at hn
    have hmem : d ∈ natText n := by
      rw [show natText n = d :: ds from hd]
      exact List.mem_cons_self
    exact (ne_of_mem_natText hmem).1 hn.1
  have hminus : js "-" = [45] := by decide
  rw [hminus] at h
  split at h <;> split at h
  · have := exponentText_injective (List.append_cancel_left h)
    omega
  · exact absurd h.symm (hhead _ _)
  · exact absurd h (hhead _ _)
  · have := exponentText_injective (List.append_cancel_left h)
    omega

/-- An integer is known from its text. -/
theorem text_int_injective (lib : BigNumberLib) {a b : ℤ}
    (h : text lib (.finite a) = text lib (.finite b)) : a = b := by
  have hletter : ∀ z : ℤ, (101 : UInt16) ∉ intText z := by
    intro z hz
    unfold intText at hz
    split at hz
    · rcases List.mem_append.mp hz with hz | hz
      · exact absurd hz (by decide)
      · exact (ne_of_mem_natText hz).2.2 rfl
    · exact (ne_of_mem_natText hz).2.2 rfl
  have hmem : ∀ z : ℤ, (101 : UInt16) ∈ (if z < 0 then js "-" else []) ++ exponentText z.natAbs := by
    intro z
    obtain ⟨d, ds, hd⟩ := List.exists_cons_of_ne_nil (numberText_ne_nil 10 z.natAbs)
    rw [exponentText_eq (n := z.natAbs) hd]
    simp
  rw [text_int, text_int] at h
  by_cases ha : a.natAbs < 10 ^ 21
  · by_cases hb : b.natAbs < 10 ^ 21
    · rw [if_pos ha, if_pos hb] at h
      exact intText_injective h
    · rw [if_pos ha, if_neg hb] at h
      exact absurd (h ▸ hmem b) (hletter a)
  · by_cases hb : b.natAbs < 10 ^ 21
    · rw [if_neg ha, if_pos hb] at h
      exact absurd (h ▸ hmem a) (hletter b)
    · rw [if_neg ha, if_neg hb] at h
      exact exponentText_sign h

end BigNumber
