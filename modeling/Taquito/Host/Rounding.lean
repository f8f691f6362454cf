import Mathlib.Data.Rat.Cast.Order
import Mathlib.Tactic.FieldSimp
import Taquito.Host.BigNumber

/-!
# Arithmetic of `bignumber.js` with its settings

Sums and products are exact. A quotient is rounded to `DECIMAL_PLACES` by `ROUNDING_MODE`, two
settings of the whole module that `BigNumber.config` changes; so arithmetic is a computation with
these settings as its state.
-/

/-- The rounding modes that occur: away from zero, and to the nearest neighbour, away from zero when
both are as near. -/
inductive RoundingMode where
  | ROUND_UP
  | ROUND_HALF_UP
  deriving DecidableEq, Repr

/-- The integer that a number is rounded to. -/
def RoundingMode.round (mode : RoundingMode) (q : ℚ) : ℤ :=
  match mode with
  | .ROUND_UP => if 0 ≤ q then ⌈q⌉ else ⌊q⌋
  | .ROUND_HALF_UP => if 0 ≤ q then ⌊q + 1 / 2⌋ else ⌈q - 1 / 2⌉

/-- The settings that `BigNumber.config` changes. -/
structure Settings where
  DECIMAL_PLACES : ℕ
  ROUNDING_MODE : RoundingMode
  deriving DecidableEq, Repr

/-- The settings that the library starts with. -/
def Settings.initial : Settings := ⟨20, .ROUND_HALF_UP⟩

/-- A quotient, rounded. -/
def Settings.round (s : Settings) (q : ℚ) : ℚ :=
  s.ROUNDING_MODE.round (q * 10 ^ s.DECIMAL_PLACES) / 10 ^ s.DECIMAL_PLACES

/-- Computations that read and write the settings. -/
abbrev BigNumberM := StateM Settings

namespace BigNumber

def isNaN : BigNumber → Bool
  | nan => true
  | _ => false

/-- `plus`. -/
def plus : BigNumber → BigNumber → BigNumber
  | nan, _ | _, nan => nan
  | finite x, finite y => finite (x + y)
  | infinity neg, finite _ | finite _, infinity neg => infinity neg
  | infinity neg, infinity neg' => if neg = neg' then infinity neg else nan

/-- `multipliedBy`. -/
def multipliedBy : BigNumber → BigNumber → BigNumber
  | nan, _ | _, nan => nan
  | finite x, finite y => finite (x * y)
  | infinity neg, finite x | finite x, infinity neg =>
    if x = 0 then nan else infinity (neg != decide (x < 0))
  | infinity neg, infinity neg' => infinity (neg != neg')

/-- `dividedBy`. -/
def dividedBy (x y : BigNumber) : BigNumberM BigNumber := do
  let s ← get
  return match x, y with
    | nan, _ | _, nan => nan
    | finite x, finite y =>
      if y = 0 then (if x = 0 then nan else infinity (decide (x < 0))) else finite (s.round (x / y))
    | infinity neg, finite y => infinity (neg != decide (y < 0))
    | finite _, infinity _ => finite 0
    | infinity _, infinity _ => nan

end BigNumber

/-! ## Exact quotients -/

theorem RoundingMode.round_intCast (mode : RoundingMode) (z : ℤ) : mode.round z = z := by
  cases mode with
  | ROUND_UP =>
    rw [round, Int.ceil_intCast, Int.floor_intCast, ite_self]
  | ROUND_HALF_UP =>
    have hfloor : ⌊(z : ℚ) + 1 / 2⌋ = z := by
      rw [Int.floor_intCast_add, Int.floor_eq_zero_iff.mpr (by norm_num), Int.add_zero]
    have hceil : ⌈(z : ℚ) - 1 / 2⌉ = z := by
      rw [Int.ceil_eq_iff]
      constructor
      · linarith
      · linarith
    rw [round, hfloor, hceil, ite_self]

/-- A number with few enough decimal places is left as it is. -/
theorem Settings.round_of_eq (s : Settings) {q : ℚ} {z : ℤ} (h : q * 10 ^ s.DECIMAL_PLACES = z) :
    s.round q = q := by
  have hpos : (10 : ℚ) ^ s.DECIMAL_PLACES ≠ 0 := pow_ne_zero _ (by norm_num)
  rw [round, h, RoundingMode.round_intCast, ← h, mul_div_cancel_right₀ _ hpos]

theorem Settings.round_intCast (s : Settings) (z : ℤ) : s.round z = z := by
  apply s.round_of_eq (z := z * 10 ^ s.DECIMAL_PLACES)
  rw [Int.cast_mul, Int.cast_pow, Int.cast_ofNat]

/-- Rounded up to an integer. -/
theorem Settings.round_up {q : ℚ} (h : 0 ≤ q) : Settings.round ⟨0, .ROUND_UP⟩ q = (⌈q⌉ : ℤ) := by
  rw [round, pow_zero, mul_one, div_one, RoundingMode.round, if_pos h]
