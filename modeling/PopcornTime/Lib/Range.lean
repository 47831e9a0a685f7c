import Mathlib.Data.Int.Range
import Mathlib.Data.List.TakeWhile
import Mathlib.Tactic.Linarith
import Mathlib.Tactic.Ring

namespace PopcornTime

/-!
# Counted loops and checked arrays

`for (int i = lo; i < hi; ++i)` runs over `Int.range lo hi`, and the descending loop over its
reverse.  This file has what proofs about such loops use: unfolding one iteration, the first hit
of a search, and the byte/piece arithmetic of a range cut into blocks of equal length.

The second half is a checked array: `get?` and `put?` are `none` for an index out of range, as
`std::string::at` throws and a Java array access does.
-/

/-! ### Ranges -/

theorem range_eq_nil {lo hi : ℤ} (h : hi ≤ lo) : Int.range lo hi = [] := by
  rw [List.eq_nil_iff_forall_not_mem]
  intro i hi'
  rw [Int.mem_range_iff] at hi'
  omega

/-- One iteration of a counted loop. -/
theorem range_eq_cons {lo hi : ℤ} (h : lo < hi) :
    Int.range lo hi = lo :: Int.range (lo + 1) hi := by
  have hn : (hi - lo).toNat = (hi - (lo + 1)).toNat + 1 := by omega
  unfold Int.range
  rw [hn, List.range_succ_eq_map]
  simp only [List.map_cons, List.map_map, Nat.cast_zero, add_zero, List.cons.injEq, true_and]
  refine List.map_congr_left (fun k _ => ?_)
  simp only [Function.comp_apply, Nat.succ_eq_add_one, Nat.cast_add, Nat.cast_one]
  ring

/-- A loop cut at `mid` runs over both parts in turn. -/
theorem range_append {lo mid hi : ℤ} (h₁ : lo ≤ mid) (h₂ : mid ≤ hi) :
    Int.range lo hi = Int.range lo mid ++ Int.range mid hi := by
  obtain ⟨k, hk⟩ : ∃ k : ℕ, mid = lo + k := ⟨(mid - lo).toNat, by omega⟩
  induction k generalizing lo with
  | zero =>
    rw [range_eq_nil (show mid ≤ lo by omega), List.nil_append]
    congr 1
    omega
  | succ k ih =>
    rw [range_eq_cons (show lo < hi by omega),
      range_eq_cons (show lo < mid by omega), List.cons_append,
      ih (show lo + 1 ≤ mid by omega) (by push_cast at hk; omega)]

/-- **First hit.**  A search that stops at the first hit finds `i` exactly when `i` is a hit and
    nothing before it is. -/
theorem find?_range_eq_some {p : ℤ → Bool} {lo hi i : ℤ} :
    (Int.range lo hi).find? p = some i ↔
      lo ≤ i ∧ i < hi ∧ p i = true ∧ ∀ j, lo ≤ j → j < i → p j = false := by
  constructor
  · intro h
    have hmem := Int.mem_range_iff.mp (List.mem_of_find?_eq_some h)
    refine ⟨hmem.1, hmem.2, List.find?_some h, ?_⟩
    intro j hj hji
    rw [range_append hmem.1 (le_of_lt hmem.2), List.find?_append] at h
    have hnone : (Int.range lo i).find? p = none := by
      cases hf : (Int.range lo i).find? p with
      | none => rfl
      | some k =>
        rw [hf, Option.some_or, Option.some.injEq] at h
        have hk := Int.mem_range_iff.mp (List.mem_of_find?_eq_some hf)
        omega
    rw [List.find?_eq_none] at hnone
    simpa using hnone j (Int.mem_range_iff.mpr ⟨hj, hji⟩)
  · rintro ⟨hlo, hhi, hp, hbefore⟩
    have hnone : (Int.range lo i).find? p = none := by
      rw [List.find?_eq_none]
      intro j hj
      rw [Int.mem_range_iff] at hj
      simp [hbefore j hj.1 hj.2]
    rw [range_append hlo (le_of_lt hhi), List.find?_append, hnone, Option.none_or,
      range_eq_cons hhi, List.find?_cons_of_pos hp]

theorem find?_range_eq_none {p : ℤ → Bool} {lo hi : ℤ} :
    (Int.range lo hi).find? p = none ↔ ∀ j, lo ≤ j → j < hi → p j = false := by
  rw [List.find?_eq_none]
  constructor
  · intro h j hj hj'
    simpa using h j (Int.mem_range_iff.mpr ⟨hj, hj'⟩)
  · intro h j hj
    rw [Int.mem_range_iff] at hj
    simp [h j hj.1 hj.2]

theorem all_range_eq_true {p : ℤ → Bool} {lo hi : ℤ} :
    (Int.range lo hi).all p = true ↔ ∀ j, lo ≤ j → j < hi → p j = true := by
  rw [List.all_eq_true]
  constructor
  · intro h j hj hj'
    exact h j (Int.mem_range_iff.mpr ⟨hj, hj'⟩)
  · intro h j hj
    rw [Int.mem_range_iff] at hj
    exact h j hj.1 hj.2

/-- **Where a loop stops.**  A loop that breaks at the first miss runs over `[lo, k)` and leaves
    `[k, hi)`, where `k` is the first miss or the end. -/
theorem takeWhile_range_eq (p : ℤ → Bool) {lo hi : ℤ} (h : lo ≤ hi) :
    ∃ k, (Int.range lo hi).takeWhile p = Int.range lo k ∧
      (Int.range lo hi).dropWhile p = Int.range k hi ∧ lo ≤ k ∧ k ≤ hi ∧
      (∀ j, lo ≤ j → j < k → p j = true) ∧ (k < hi → p k = false) := by
  obtain ⟨n, hn⟩ : ∃ n : ℕ, hi = lo + n := ⟨(hi - lo).toNat, by omega⟩
  induction n generalizing lo with
  | zero =>
    have hempty : Int.range lo hi = [] := range_eq_nil (by omega)
    refine ⟨lo, ?_, ?_, le_refl _, h, fun j _ _ => by omega, fun hlt => by omega⟩
    · rw [hempty, range_eq_nil (le_refl lo)]
      rfl
    · rw [hempty]
      rfl
  | succ n ih =>
    rw [range_eq_cons (show lo < hi by omega)]
    by_cases hp : p lo = true
    · obtain ⟨k, htake, hdrop, hlo, hhi, hall, hstop⟩ :=
        ih (show lo + 1 ≤ hi by omega) (by push_cast at hn; omega)
      refine ⟨k, ?_, ?_, by omega, hhi, fun j hj hjk => ?_, hstop⟩
      · rw [List.takeWhile_cons_of_pos hp, htake, ← range_eq_cons (show lo < k by omega)]
      · rw [List.dropWhile_cons_of_pos hp, hdrop]
      · rcases eq_or_lt_of_le hj with rfl | hlt
        · exact hp
        · exact hall j (by omega) hjk
    · refine ⟨lo, ?_, ?_, le_refl _, h, fun j _ _ => by omega, fun _ => by simpa using hp⟩
      · rw [List.takeWhile_cons_of_neg hp, range_eq_nil (le_refl lo)]
      · rw [List.dropWhile_cons_of_neg hp, range_eq_cons (show lo < hi by omega)]

theorem length_range {lo hi : ℤ} (h : lo ≤ hi) : ((Int.range lo hi).length : ℤ) = hi - lo := by
  unfold Int.range
  rw [List.length_map, List.length_range, Int.toNat_of_nonneg (by omega)]

/-! ### Blocks of equal length -/

/-- The block of a point that lies between the ends of block `q`. -/
theorem ediv_eq_of_block {len x q : ℤ} (hlen : 0 < len) (h₁ : q * len ≤ x)
    (h₂ : x < (q + 1) * len) : x / len = q :=
  le_antisymm (Int.lt_add_one_iff.mp (Int.ediv_lt_of_lt_mul hlen h₂))
    (Int.le_ediv_of_mul_le hlen h₁)

/-- **Byte ranges and blocks.**  Cut the line into blocks of length `len`: block `i` holds a
    point of `[a, b)` exactly when it lies between the blocks of the first and the last point. -/
theorem block_meets_iff {len a b i : ℤ} (hlen : 0 < len) :
    (∃ x, a ≤ x ∧ x < b ∧ x / len = i) ↔ a < b ∧ a / len ≤ i ∧ i ≤ (b - 1) / len := by
  constructor
  · rintro ⟨x, hax, hxb, rfl⟩
    refine ⟨by omega, Int.ediv_le_ediv hlen hax, Int.ediv_le_ediv hlen (by omega)⟩
  · rintro ⟨hab, hlo, hhi⟩
    have hb : i * len ≤ b - 1 := by
      have h := Int.mul_le_of_le_ediv hlen hhi
      exact h
    have ha : a < (i + 1) * len := by
      have h := Int.lt_mul_of_ediv_lt hlen (show a / len < i + 1 by omega)
      exact h
    rcases le_total a (i * len) with h | h
    · exact ⟨i * len, h, by omega, Int.mul_ediv_cancel i (ne_of_gt hlen)⟩
    · refine ⟨a, le_refl a, hab, ?_⟩
      have h₁ : i ≤ a / len := Int.le_ediv_of_mul_le hlen h
      omega

/-! ### Checked arrays -/

section CheckedArray

variable {α : Type*}

/-- `l.at(i)`, or `none` where the access throws. -/
def get? (l : List α) (i : ℤ) : Option α :=
  if 0 ≤ i then l[i.toNat]? else none

/-- `l.at(i) = a`, or `none` where the access throws. -/
def put? (l : List α) (i : ℤ) (a : α) : Option (List α) :=
  if 0 ≤ i ∧ i < l.length then some (l.set i.toNat a) else none

theorem put?_eq_some {l : List α} {i : ℤ} {a : α} (h₀ : 0 ≤ i) (h₁ : i < l.length) :
    put? l i a = some (l.set i.toNat a) :=
  if_pos ⟨h₀, h₁⟩

theorem get?_eq_none_of_length_le {l : List α} {i : ℤ} (h : (l.length : ℤ) ≤ i) :
    get? l i = none := by
  unfold get?
  split_ifs with h₀
  · rw [List.getElem?_eq_none_iff]
    omega
  · rfl

theorem mem_range_of_get?_eq_some {l : List α} {i : ℤ} {a : α} (h : get? l i = some a) :
    0 ≤ i ∧ i < l.length := by
  have h₁ : i < l.length := by
    by_contra hcon
    rw [get?_eq_none_of_length_le (by omega)] at h
    exact absurd h (by simp)
  unfold get? at h
  split_ifs at h with h₀
  exact ⟨h₀, h₁⟩

theorem get?_set {l : List α} {i j : ℤ} {a : α} (h₀ : 0 ≤ i) (h₁ : i < l.length) :
    get? (l.set i.toNat a) j = if j = i then some a else get? l j := by
  unfold get?
  by_cases hj : 0 ≤ j
  · simp only [hj, if_true]
    by_cases hij : j = i
    · subst hij
      rw [if_pos rfl, List.getElem?_set_self (by omega)]
    · rw [if_neg hij, List.getElem?_set_ne (by omega)]
  · have hij : j ≠ i := by omega
    simp [hj, hij]

theorem get?_replicate {n : ℕ} {a : α} {i : ℤ} :
    get? (List.replicate n a) i = if 0 ≤ i ∧ i < n then some a else none := by
  unfold get?
  by_cases h₀ : 0 ≤ i
  · have hiff : i.toNat < n ↔ i < (n : ℤ) := by omega
    simp [h₀, List.getElem?_replicate, hiff]
  · simp [h₀]

end CheckedArray

end PopcornTime
