import Mathlib.Algebra.Order.Ring.Int

namespace PopcornTime.Desktop

/-!
# Desktop — the integers of the source

What a result becomes in an integer type of the source that it does not fit into.

* `int32`, `uint32`, `uint64` — the results kept modulo a power of two.
* `int32_eq`, `int32_eq_iff` — when an `int` keeps a result.
-/

/-- What an `int` keeps of a result. -/
def int32 (n : ℤ) : ℤ := n.bmod (2 ^ 32)

/-- What an `unsigned int` keeps of a result. -/
def uint32 (n : ℤ) : ℤ := n % 2 ^ 32

/-- The cast to `unsigned long long`. -/
def uint64 (n : ℤ) : ℤ := n % 2 ^ 64

theorem int32_eq {n : ℤ} (h₀ : -2 ^ 31 ≤ n) (h₁ : n < 2 ^ 31) : int32 n = n :=
  Int.bmod_eq_of_le (by omega) (by omega)

/-- What fits is kept, and what is cut differs by a multiple of `2 ^ 32`. -/
theorem int32_eq_iff {n d : ℤ} (h₀ : 0 ≤ n) (hd : d ≤ n) (hclose : n - d < 2 ^ 32) :
    int32 n = d ↔ n = d ∧ n < 2 ^ 31 := by
  constructor
  · intro h
    have hlt : int32 n < 2 ^ 31 := Int.bmod_lt (by omega)
    have hdvd : ((2 ^ 32 : ℕ) : ℤ) ∣ int32 n - n := Int.dvd_bmod_sub_self
    rw [h] at hlt hdvd
    obtain ⟨m, hm⟩ := hdvd
    omega
  · rintro ⟨rfl, hlt⟩
    exact int32_eq (by omega) hlt

theorem int32_uint32 {n : ℤ} (h₀ : -2 ^ 31 ≤ n) (h₁ : n < 2 ^ 31) : int32 (uint32 n) = n := by
  unfold int32 uint32
  have hmod := Int.emod_bmod (x := n) (n := 2 ^ 32)
  rw [show ((2 ^ 32 : ℕ) : ℤ) = 2 ^ 32 from rfl] at hmod
  rw [hmod]
  exact int32_eq h₀ h₁

end PopcornTime.Desktop
