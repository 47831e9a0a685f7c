import Mathlib.Algebra.Order.Field.Power
import PopcornTime.Lib.Binary32

namespace PopcornTime

/-!
# The order of single-precision numbers

Rounding keeps the order, and two different numbers of 24 significant bits are so far apart that
their quotient is not rounded to one.

* `exponent_spec` — a positive number lies in the binade of its exponent.
* `round_mono` — rounding is monotone on positive numbers.
* `IsFloat` — a significand of at most 24 bits times a power of two; `IsFloat.gap` is the distance
  of two of them.
* `div_le_one_iff`, `div_eq_one_iff` — a quotient of two `float` values compares with one as they
  compare with each other.
-/

namespace Binary32

/-! ### The nearest integer -/

/-- An integer is the nearest to itself. -/
theorem roundEven_intCast (n : ℤ) : roundEven n = n := by
  unfold roundEven
  rw [Int.floor_intCast, sub_self, if_pos (by norm_num)]

/-- The nearest integer is the one below, -/
theorem floor_le_roundEven (s : ℚ) : ⌊s⌋ ≤ roundEven s := by
  unfold roundEven
  split_ifs <;> omega

/-- or the next. -/
theorem roundEven_le_floor_add_one (s : ℚ) : roundEven s ≤ ⌊s⌋ + 1 := by
  unfold roundEven
  split_ifs <;> omega

/-- The nearest integer keeps the order, ties to even included. -/
theorem roundEven_mono {s t : ℚ} (h : s ≤ t) : roundEven s ≤ roundEven t := by
  rcases eq_or_lt_of_le (Int.floor_mono h) with heq | hlt
  · -- between the same integers the fractions decide, and for equal ones the parity
    unfold roundEven
    rw [heq]
    split_ifs
    all_goals first
      | omega
      | exfalso; linarith
  · have hs := roundEven_le_floor_add_one s
    have ht := floor_le_roundEven t
    omega

/-- An integer below a number is below the nearest one. -/
theorem le_roundEven {n : ℤ} {s : ℚ} (h : (n : ℚ) ≤ s) : n ≤ roundEven s :=
  le_of_eq_of_le (roundEven_intCast n).symm (roundEven_mono h)

/-- And one above it above. -/
theorem roundEven_le {n : ℤ} {s : ℚ} (h : s ≤ n) : roundEven s ≤ n :=
  le_of_le_of_eq (roundEven_mono h) (roundEven_intCast n)

/-! ### Binades -/

/-- A positive number lies in the binade of its exponent. -/
theorem exponent_spec {q : ℚ} (hq : 0 < q) :
    (2 : ℚ) ^ exponent q ≤ q ∧ q < 2 ^ (exponent q + 1) := by
  have hnum₀ : q.num.natAbs ≠ 0 := by
    have := Rat.num_pos.mpr hq
    omega
  have hnum : (q.num.natAbs : ℚ) = q * q.den := by
    have habs : ((q.num.natAbs : ℤ) : ℚ) = q.num := by
      rw [Int.natAbs_of_nonneg (Rat.num_pos.mpr hq).le]
    rw [Rat.mul_den_eq_num, ← habs, Int.cast_natCast]
  have hden : (0 : ℚ) < q.den := by exact_mod_cast q.den_pos
  -- the bounds of numerator and denominator by their powers of two
  have hn₀ : (2 : ℚ) ^ (q.num.natAbs.log2 : ℤ) ≤ q.num.natAbs := by
    rw [zpow_natCast]
    exact_mod_cast Nat.log2_self_le hnum₀
  have hn₁ : (q.num.natAbs : ℚ) < 2 ^ ((q.num.natAbs.log2 : ℤ) + 1) := by
    exact_mod_cast Nat.lt_log2_self
  have hd₀ : (2 : ℚ) ^ (q.den.log2 : ℤ) ≤ q.den := by
    rw [zpow_natCast]
    exact_mod_cast Nat.log2_self_le q.den_pos.ne'
  have hd₁ : (q.den : ℚ) < 2 ^ ((q.den.log2 : ℤ) + 1) := by
    exact_mod_cast Nat.lt_log2_self
  unfold exponent
  dsimp only
  generalize (q.num.natAbs.log2 : ℤ) = a at *
  generalize (q.den.log2 : ℤ) = b at *
  have hpow : ∀ c d : ℤ, (2 : ℚ) ^ c * 2 ^ d = 2 ^ (c + d) := fun c d =>
    (zpow_add₀ (by norm_num) c d).symm
  split_ifs with h
  · refine ⟨h, lt_of_mul_lt_mul_right ?_ (zpow_nonneg (by norm_num : (0 : ℚ) ≤ 2) b)⟩
    calc q * 2 ^ b ≤ q * q.den := by gcongr
      _ = q.num.natAbs := hnum.symm
      _ < 2 ^ (a + 1) := hn₁
      _ = 2 ^ (a - b + 1) * 2 ^ b := by rw [hpow]; congr 1; ring
  · refine ⟨le_of_mul_le_mul_right ?_ (zpow_pos (by norm_num : (0 : ℚ) < 2) (b + 1)), ?_⟩
    · calc (2 : ℚ) ^ (a - b - 1) * 2 ^ (b + 1) = 2 ^ a := by rw [hpow]; congr 1; ring
        _ ≤ q.num.natAbs := hn₀
        _ = q * q.den := hnum
        _ ≤ q * 2 ^ (b + 1) := by gcongr
    · rw [sub_add_cancel]
      exact not_le.mp h

/-- A larger number has no smaller exponent. -/
theorem exponent_mono {p q : ℚ} (hp : 0 < p) (h : p ≤ q) : exponent p ≤ exponent q := by
  have hlt : (2 : ℚ) ^ exponent p < 2 ^ (exponent q + 1) :=
    lt_of_le_of_lt ((exponent_spec hp).1.trans h) (exponent_spec (hp.trans_le h)).2
  rw [zpow_lt_zpow_iff_right₀ (by norm_num)] at hlt
  omega

/-- A positive number is rounded on the grid of its exponent. -/
theorem round_of_pos {q : ℚ} (hq : 0 < q) : round q = roundEven (q / ulp q) * ulp q := by
  rw [round, if_neg hq.ne', abs_of_pos hq]

/-- A number is at most `2 ^ 24` times its grid. -/
theorem div_ulp_le {q : ℚ} (hq : 0 < q) : q / ulp q ≤ 2 ^ 24 := by
  rw [div_le_iff₀ (ulp_pos q)]
  calc q ≤ 2 ^ (exponent q + 1) := (exponent_spec hq).2.le
    _ ≤ 2 ^ (24 + max (exponent q - 23) (-149)) :=
        zpow_le_zpow_right₀ (by norm_num) (by omega)
    _ = 2 ^ 24 * ulp q := by
        rw [zpow_add₀ (by norm_num), ulp]
        rfl

/-- Rounding down to a power of two above, and up to one below. -/
theorem round_le_zpow {p : ℚ} (hp : 0 < p) {e : ℤ} (h : p ≤ 2 ^ e)
    (he : max (exponent p - 23) (-149) ≤ e) : round p ≤ 2 ^ e := by
  obtain ⟨n, hn⟩ : ∃ n : ℕ, e = n + max (exponent p - 23) (-149) :=
    ⟨(e - max (exponent p - 23) (-149)).toNat, by omega⟩
  have hpow : (2 : ℚ) ^ e = ((2 ^ n : ℤ) : ℚ) * ulp p := by
    rw [hn, zpow_add₀ (by norm_num), ulp]
    push_cast
    rw [zpow_natCast]
  rw [round_of_pos hp, hpow]
  refine mul_le_mul_of_nonneg_right ?_ (ulp_pos p).le
  have hround : roundEven (p / ulp p) ≤ 2 ^ n :=
    roundEven_le (by rw [div_le_iff₀ (ulp_pos p), ← hpow]; exact h)
  exact_mod_cast hround

/-- And the other way around. -/
theorem zpow_le_round {q : ℚ} (hq : 0 < q) {e : ℤ} (h : 2 ^ e ≤ q)
    (he : max (exponent q - 23) (-149) ≤ e) : 2 ^ e ≤ round q := by
  obtain ⟨n, hn⟩ : ∃ n : ℕ, e = n + max (exponent q - 23) (-149) :=
    ⟨(e - max (exponent q - 23) (-149)).toNat, by omega⟩
  have hpow : (2 : ℚ) ^ e = ((2 ^ n : ℤ) : ℚ) * ulp q := by
    rw [hn, zpow_add₀ (by norm_num), ulp]
    push_cast
    rw [zpow_natCast]
  rw [round_of_pos hq, hpow]
  refine mul_le_mul_of_nonneg_right ?_ (ulp_pos q).le
  have hround : 2 ^ n ≤ roundEven (q / ulp q) :=
    le_roundEven (by rw [le_div_iff₀ (ulp_pos q), ← hpow]; exact h)
  exact_mod_cast hround

/-- **Rounding is monotone.**  On one grid this is that of the nearest integer; two numbers on
    different grids have a power of two of both grids between them. -/
theorem round_mono {p q : ℚ} (hp : 0 < p) (h : p ≤ q) : round p ≤ round q := by
  have hq := hp.trans_le h
  have hexp := exponent_mono hp h
  rcases eq_or_lt_of_le (max_le_max_right (-149) (sub_le_sub_right hexp 23)) with heq | hlt
  · have hulp : ulp p = ulp q := by rw [ulp, ulp, heq]
    rw [round_of_pos hp, round_of_pos hq, ← hulp]
    refine mul_le_mul_of_nonneg_right ?_ (ulp_pos p).le
    exact_mod_cast roundEven_mono (div_le_div_of_nonneg_right h (ulp_pos p).le)
  · have hbetween : p ≤ 2 ^ exponent q :=
      (exponent_spec hp).2.le.trans (zpow_le_zpow_right₀ (by norm_num) (by omega))
    exact (round_le_zpow hp hbetween (by omega)).trans
      (zpow_le_round hq (exponent_spec hq).1 (by omega))

/-! ### Numbers of 24 bits -/

/-- A significand of at most 24 bits, or the next power of two, times a power of two. -/
def IsFloat (x : ℚ) : Prop :=
  ∃ m e : ℤ, 0 ≤ m ∧ m ≤ 2 ^ 24 ∧ x = m * 2 ^ e

/-- What is rounded has 24 bits. -/
theorem isFloat_round {q : ℚ} (hq : 0 < q) : IsFloat (round q) := by
  refine ⟨roundEven (q / ulp q), max (exponent q - 23) (-149),
    roundEven_nonneg (div_nonneg hq.le (ulp_pos q).le), roundEven_le ?_, round_of_pos hq⟩
  exact_mod_cast div_ulp_le hq

/-- On one grid, with a step of `s` between the two. -/
theorem gap_of_grid {m n c : ℤ} {s : ℚ} (hs : 0 < s) (hm : m ≤ (2 ^ 24 - 1) * c) (h : m + c ≤ n) :
    (m : ℚ) * s ≤ (2 ^ 24 - 1) * (n * s - m * s) := by
  have hint : m ≤ (2 ^ 24 - 1) * (n - m) := by omega
  have hcast : (m : ℚ) ≤ (2 ^ 24 - 1) * (n - m) := by exact_mod_cast hint
  calc (m : ℚ) * s ≤ (2 ^ 24 - 1) * (n - m) * s := mul_le_mul_of_nonneg_right hcast hs.le
    _ = (2 ^ 24 - 1) * (n * s - m * s) := by ring

/-- **The distance.**  Of two different numbers the smaller one is at most `2 ^ 24 - 1` times as
    large as the distance to the other. -/
theorem IsFloat.gap {x y : ℚ} (hx : IsFloat x) (hy : IsFloat y) (h : x < y) :
    x ≤ (2 ^ 24 - 1) * (y - x) := by
  obtain ⟨m, a, hm₀, hm₁, rfl⟩ := hx
  obtain ⟨n, b, hn₀, hn₁, rfl⟩ := hy
  rcases le_or_gt a b with hab | hab
  · obtain ⟨k, rfl⟩ : ∃ k : ℕ, b = a + k := ⟨(b - a).toNat, by omega⟩
    have hpos : (0 : ℚ) < 2 ^ a := zpow_pos (by norm_num) a
    have hy : (n : ℚ) * 2 ^ (a + (k : ℤ)) = ((n * 2 ^ k : ℤ) : ℚ) * 2 ^ a := by
      rw [zpow_add₀ (by norm_num), zpow_natCast]
      push_cast
      ring
    rw [hy] at h ⊢
    have hlt : m < n * 2 ^ k := by exact_mod_cast lt_of_mul_lt_mul_right h hpos.le
    rcases eq_or_lt_of_le hm₁ with heq | hsmall
    · -- the power of two is even on its grid, and so is a larger number of 24 bits
      cases k with
      | zero => omega
      | succ k =>
        have heven : n * 2 ^ (k + 1) = n * 2 ^ k * 2 := by ring
        rw [heven] at hlt ⊢
        exact gap_of_grid (c := 2) hpos (by omega) (by omega)
    · exact gap_of_grid (c := 1) hpos (by omega) (by omega)
  · obtain ⟨k, rfl⟩ : ∃ k : ℕ, a = b + k := ⟨(a - b).toNat, by omega⟩
    have hpos : (0 : ℚ) < 2 ^ b := zpow_pos (by norm_num) b
    have hx : (m : ℚ) * 2 ^ (b + (k : ℤ)) = ((m * 2 ^ k : ℤ) : ℚ) * 2 ^ b := by
      rw [zpow_add₀ (by norm_num), zpow_natCast]
      push_cast
      ring
    rw [hx] at h ⊢
    have hlt : m * 2 ^ k < n := by exact_mod_cast lt_of_mul_lt_mul_right h hpos.le
    exact gap_of_grid (c := 1) hpos (by omega) (by omega)

/-! ### Quotients -/

/-- A number over itself is one. -/
theorem div_same {x : ℚ} (hx : 0 < x) : div x x = 1 := by
  rw [div, div_self hx.ne']
  decide +kernel

/-- A smaller number over a larger one is not rounded up to one. -/
theorem div_lt_one {x y : ℚ} (hx : IsFloat x) (hy : IsFloat y) (hpos : 0 < x) (h : x < y) :
    div x y < 1 := by
  have hgap := hx.gap hy h
  have hle : x / y ≤ 1 - 1 / 2 ^ 24 := by
    rw [div_le_iff₀ (hpos.trans h)]
    linarith
  calc div x y ≤ round (1 - 1 / 2 ^ 24) := round_mono (div_pos hpos (hpos.trans h)) hle
    _ = 1 - 1 / 2 ^ 24 := by decide +kernel
    _ < 1 := by norm_num

/-- A larger number over a smaller one is not rounded down to one. -/
theorem one_lt_div {x y : ℚ} (hx : IsFloat x) (hy : IsFloat y) (hpos : 0 < y) (h : y < x) :
    1 < div x y := by
  have hgap := hy.gap hx h
  have hle : 2 ^ 24 / (2 ^ 24 - 1) ≤ x / y := by
    rw [le_div_iff₀ hpos]
    linarith
  calc (1 : ℚ) < round (2 ^ 24 / (2 ^ 24 - 1)) := by decide +kernel
    _ ≤ div x y := round_mono (by norm_num) hle

/-- **Quotients of numbers of 24 bits** compare with one as the numbers do with each other. -/
theorem div_le_one_iff {x y : ℚ} (hx : IsFloat x) (hy : IsFloat y) (hx₀ : 0 < x) (hy₀ : 0 < y) :
    div x y ≤ 1 ↔ x ≤ y := by
  constructor
  · intro h
    by_contra hlt
    exact absurd h (not_le.mpr (one_lt_div hx hy hy₀ (not_le.mp hlt)))
  · intro h
    rcases eq_or_lt_of_le h with rfl | hlt
    · exact (div_same hx₀).le
    · exact (div_lt_one hx hy hx₀ hlt).le

/-- So the quotient is one for equal numbers only. -/
theorem div_eq_one_iff {x y : ℚ} (hx : IsFloat x) (hy : IsFloat y) (hx₀ : 0 < x) (hy₀ : 0 < y) :
    div x y = 1 ↔ x = y := by
  constructor
  · intro h
    rcases lt_trichotomy x y with hlt | heq | hgt
    · exact absurd h (div_lt_one hx hy hx₀ hlt).ne
    · exact heq
    · exact absurd h (one_lt_div hx hy hy₀ hgt).ne'
  · rintro rfl
    exact div_same hx₀

/-- A larger number over the same has no smaller quotient. -/
theorem div_mono {x x' y : ℚ} (hx : 0 < x) (hy : 0 < y) (h : x ≤ x') : div x y ≤ div x' y :=
  round_mono (div_pos hx hy) (div_le_div_of_nonneg_right h hy.le)

/-! ### Integers -/

/-- A positive integer is converted to a number of 24 bits. -/
theorem isFloat_ofInt {n : ℤ} (hn : 0 < n) : IsFloat (ofInt n) :=
  isFloat_round (by exact_mod_cast hn)

/-- The conversion keeps the order, -/
theorem ofInt_mono {m n : ℤ} (hm : 0 < m) (h : m ≤ n) : ofInt m ≤ ofInt n :=
  round_mono (by exact_mod_cast hm) (by exact_mod_cast h)

/-- and the sign. -/
theorem ofInt_pos {n : ℤ} (hn : 0 < n) : 0 < ofInt n := by
  have hone : ofInt 1 = 1 := by decide +kernel
  have hle := ofInt_mono (show (0 : ℤ) < 1 by omega) (show 1 ≤ n by omega)
  rw [hone] at hle
  linarith

end Binary32

end PopcornTime
