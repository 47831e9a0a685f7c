import Mathlib.Algebra.Order.Floor.Ring
import Mathlib.Data.Rat.Floor
import Mathlib.Tactic.Linarith
import Mathlib.Tactic.FieldSimp
import Mathlib.Tactic.Positivity

namespace PopcornTime

/-!
# Single-precision rounding

The `float` arithmetic the programs use, over the rationals: every operation is the exact one
followed by `round`, which rounds to the nearest number with a 24-bit significand, ties to even.
Exponents are unbounded above (nothing here comes near the overflow threshold) and stop at the
subnormals below.

* `roundEven` — nearest integer, ties to even.
* `ulp` — the spacing of the `float` grid around a number, a power of two.
* `round` — the rounding itself; `round_nonneg` and `round_le_two_mul` are all that bounds on
  computed counts need.
-/

namespace Binary32

/-- The nearest integer, ties to even. -/
def roundEven (s : ℚ) : ℤ :=
  if s - ⌊s⌋ < 1 / 2 then ⌊s⌋
  else if 1 / 2 < s - ⌊s⌋ then ⌊s⌋ + 1
  else if ⌊s⌋ % 2 = 0 then ⌊s⌋
  else ⌊s⌋ + 1

/-- The binary exponent of a positive rational: `2 ^ exponent q ≤ q < 2 ^ (exponent q + 1)`. -/
def exponent (q : ℚ) : ℤ :=
  let e : ℤ := (q.num.natAbs.log2 : ℤ) - (q.den.log2 : ℤ)
  if (2 : ℚ) ^ e ≤ q then e else e - 1

/-- The spacing of the `float` grid at magnitude `q`; `2 ^ (-149)` is the least subnormal. -/
def ulp (q : ℚ) : ℚ :=
  2 ^ (max (exponent q - 23) (-149))

/-- Round to the nearest `float`, ties to even. -/
def round (q : ℚ) : ℚ :=
  if q = 0 then 0 else roundEven (q / ulp |q|) * ulp |q|

/-- Conversion of an integer to `float`. -/
def ofInt (n : ℤ) : ℚ :=
  round n

/-- Division of two `float` values. -/
def div (a b : ℚ) : ℚ :=
  round (a / b)

/-- Multiplication of two `float` values. -/
def mul (a b : ℚ) : ℚ :=
  round (a * b)

/-- The cast of a `float` to an integer type: the fraction is dropped. -/
def toInt (q : ℚ) : ℤ :=
  if 0 ≤ q then ⌊q⌋ else ⌈q⌉

/-- The cast to 32 bits of a language that saturates. -/
def toInt32 (q : ℚ) : ℤ :=
  max (-2 ^ 31) (min (2 ^ 31 - 1) (toInt q))

theorem ulp_pos (q : ℚ) : 0 < ulp q :=
  zpow_pos (by norm_num) _

theorem roundEven_nonneg {s : ℚ} (hs : 0 ≤ s) : 0 ≤ roundEven s := by
  have hfloor : 0 ≤ ⌊s⌋ := Int.floor_nonneg.mpr hs
  unfold roundEven
  split_ifs <;> omega

/-- Rounding to an integer at most doubles: below one half it rounds to zero, above it moves
    by at most one half. -/
theorem roundEven_le_two_mul {s : ℚ} (hs : 0 ≤ s) : (roundEven s : ℚ) ≤ 2 * s := by
  have hfloor : (0 : ℚ) ≤ ⌊s⌋ := by exact_mod_cast Int.floor_nonneg.mpr hs
  have hle : (⌊s⌋ : ℚ) ≤ s := Int.floor_le s
  unfold roundEven
  split_ifs with h₁ h₂ h₃
  · linarith
  · push_cast; linarith
  · linarith
  · push_cast; linarith

theorem round_nonneg {q : ℚ} (hq : 0 ≤ q) : 0 ≤ round q := by
  unfold round
  split_ifs with h
  · exact le_refl _
  · have hs : 0 ≤ q / ulp |q| := div_nonneg hq (le_of_lt (ulp_pos _))
    have hr : (0 : ℚ) ≤ roundEven (q / ulp |q|) := by exact_mod_cast roundEven_nonneg hs
    exact mul_nonneg hr (le_of_lt (ulp_pos _))

/-- Rounding at most doubles a non-negative number (the bound is only tight for subnormals). -/
theorem round_le_two_mul {q : ℚ} (hq : 0 ≤ q) : round q ≤ 2 * q := by
  unfold round
  split_ifs with h
  · linarith
  · have hpos := ulp_pos |q|
    have hs : 0 ≤ q / ulp |q| := div_nonneg hq (le_of_lt hpos)
    calc (roundEven (q / ulp |q|) : ℚ) * ulp |q|
        ≤ 2 * (q / ulp |q|) * ulp |q| :=
          mul_le_mul_of_nonneg_right (roundEven_le_two_mul hs) (le_of_lt hpos)
      _ = 2 * q := by rw [mul_assoc, div_mul_cancel₀ q (ne_of_gt hpos)]

-- One third lies between two neighbours of the `float` grid.
example : round (1 / 3) = 11184811 / 2 ^ 25 := by decide +kernel

end Binary32

end PopcornTime
