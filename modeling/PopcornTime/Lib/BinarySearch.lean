import Mathlib.Data.List.Nodup
import Mathlib.Data.List.TakeWhile
import Mathlib.Order.Lattice
import PopcornTime.Lib.Range

namespace PopcornTime

/-!
# Binary search — the place of a key in a sorted array

The loop over `lo` and `hi`, which ends at the place of the key or where it would have to stand.

* `rank` — how many of the keys come before a key; `getElem_lt_iff_lt_rank`, which ones do.
* `searchFrom` — the loop; `binarySearch`, over the first `size` places.
* `binarySearch_eq` — what it returns: the rank, or its complement if the key is not there.
-/

namespace BinarySearch

variable {κ : Type*} [LinearOrder κ] {l : List κ} {v : κ} {i : ℕ}

/-! ### The rank of a key -/

def rank (l : List κ) (v : κ) : ℕ := (l.takeWhile (· < v)).length

theorem rank_le_length (l : List κ) (v : κ) : rank l v ≤ l.length :=
  (List.takeWhile_sublist _).length_le

theorem rank_cons_of_lt {b : κ} (h : b < v) : rank (b :: l) v = rank l v + 1 := by
  unfold rank
  rw [List.takeWhile_cons_of_pos (by simpa using h), List.length_cons]

theorem rank_cons_of_le {b : κ} (h : v ≤ b) : rank (b :: l) v = 0 := by
  unfold rank
  rw [List.takeWhile_cons_of_neg (by simpa using h), List.length_nil]

/-- In a sorted list the keys before the rank are the smaller ones. -/
theorem getElem_lt_iff_lt_rank (hl : l.Pairwise (· < ·)) (hi : i < l.length) :
    l[i] < v ↔ i < rank l v := by
  induction l generalizing i with
  | nil => exact absurd hi (Nat.not_lt_zero i)
  | cons b l ih =>
    obtain ⟨hb, hl⟩ := List.pairwise_cons.mp hl
    rcases lt_or_ge b v with hbv | hvb
    · rw [rank_cons_of_lt hbv]
      cases i with
      | zero => exact iff_of_true hbv (Nat.succ_pos _)
      | succ i =>
        rw [List.getElem_cons_succ, ih hl, Nat.succ_lt_succ_iff]
    · rw [rank_cons_of_le hvb]
      apply iff_of_false
      · have hle : b ≤ (b :: l)[i] := by
          cases i with
          | zero => exact le_refl b
          | succ i => exact le_of_lt (hb _ (List.getElem_mem _))
        exact not_lt.mpr (hvb.trans hle)
      · exact Nat.not_lt_zero i

/-- A key that is there stands at its rank. -/
theorem mem_iff_getElem?_rank (hl : l.Pairwise (· < ·)) : v ∈ l ↔ l[rank l v]? = some v := by
  constructor
  · intro hmem
    obtain ⟨i, hi, rfl⟩ := List.getElem_of_mem hmem
    have hle : rank l l[i] ≤ i :=
      not_lt.mp (mt (getElem_lt_iff_lt_rank hl hi).mpr (lt_irrefl _))
    rcases eq_or_lt_of_le hle with heq | hlt
    · rw [heq, List.getElem?_eq_getElem hi]
    · have hrank : rank l l[i] < l.length := hlt.trans hi
      have hbefore : l[rank l l[i]] < l[i] :=
        List.pairwise_iff_getElem.mp hl _ _ _ hi hlt
      exact absurd ((getElem_lt_iff_lt_rank hl _).mp hbefore) (lt_irrefl _)
  · exact fun h => List.mem_of_getElem? h

theorem lt_of_mem_take_rank {b : κ} (h : b ∈ l.take (rank l v)) : b < v := by
  have htake : l.take (rank l v) = l.takeWhile (· < v) :=
    List.prefix_iff_eq_take.mp (List.takeWhile_prefix _) |>.symm
  rw [htake] at h
  simpa using List.mem_takeWhile_imp h

theorem lt_of_mem_drop {b : κ} (hl : l.Pairwise (· < ·)) (hi : rank l v ≤ i)
    (hne : l[i]? ≠ some v) (h : b ∈ l.drop i) : v < b := by
  obtain ⟨j, hj, rfl⟩ := List.getElem_of_mem h
  rw [List.getElem_drop]
  rw [List.length_drop] at hj
  have hle : v ≤ l[i + j] :=
    not_lt.mp (mt (getElem_lt_iff_lt_rank hl (by omega)).mp (by omega))
  refine lt_of_le_of_ne hle fun heq => hne ?_
  have hat := (mem_iff_getElem?_rank hl).mp (heq ▸ List.getElem_mem (show i + j < l.length by omega))
  obtain ⟨hr, hat⟩ := List.getElem?_eq_some_iff.mp hat
  have hplace := (List.Nodup.getElem_inj_iff (hl.imp ne_of_lt)).mp (hat.trans heq)
  have hij : i = i + j := by omega
  rw [hij]
  exact List.getElem?_eq_some_iff.mpr ⟨by omega, heq.symm⟩

/-! ### The loop -/

/-- `while (lo <= hi)`; `none` is an access out of the array, and `-lo - 1` is `~lo`. -/
def searchFrom (array : List κ) (value : κ) (lo hi : ℤ) : Option ℤ :=
  if lo ≤ hi then
    let mid := (lo + hi) / 2
    match get? array mid with
    | none => none
    | some midVal =>
      if midVal < value then searchFrom array value (mid + 1) hi
      else if value < midVal then searchFrom array value lo (mid - 1)
      else some mid
  else some (-lo - 1)
termination_by (hi + 1 - lo).toNat
decreasing_by all_goals omega

def binarySearch (array : List κ) (size : ℤ) (value : κ) : Option ℤ :=
  searchFrom array value 0 (size - 1)

/-- What the search for a key in a sorted list returns. -/
def found (l : List κ) (v : κ) : ℤ :=
  if v ∈ l then rank l v else -(rank l v : ℤ) - 1

/-- **The loop.**  The rank stays between `lo` and the place after `hi`, and a key that is there
    stands at `hi` at the latest. -/
theorem searchFrom_eq {array : List κ} {size : ℕ} {lo hi : ℤ}
    (hl : (array.take size).Pairwise (· < ·)) (hsize : size ≤ array.length) (h₀ : 0 ≤ lo)
    (hhi : hi < size) (hlo : lo ≤ rank (array.take size) v)
    (hrank : (rank (array.take size) v : ℤ) ≤ hi + 1)
    (hmem : v ∈ array.take size → (rank (array.take size) v : ℤ) ≤ hi) :
    searchFrom array v lo hi = some (found (array.take size) v) := by
  have hlength : (array.take size).length = size := List.length_take_of_le hsize
  -- on the length of the range; the rank stays inside it
  induction h : (hi + 1 - lo).toNat using Nat.strong_induction_on generalizing lo hi with
  | _ n ih =>
    subst h
    rw [searchFrom]
    split_ifs with hle
    · have hget : ∃ (hm : ((lo + hi) / 2).toNat < (array.take size).length),
          get? array ((lo + hi) / 2) = some (array.take size)[((lo + hi) / 2).toNat] := by
        refine ⟨by omega, ?_⟩
        rw [get?, if_pos (by omega), List.getElem_take, List.getElem?_eq_getElem (by omega)]
      obtain ⟨hm, hget⟩ := hget
      have hlt := getElem_lt_iff_lt_rank (v := v) hl hm
      simp only [hget]
      split_ifs with hsmall hbig
      · have hpast := hlt.mp hsmall
        exact ih _ (by omega) (by omega) hhi (by omega) hrank hmem rfl
      · have hstop := mt hlt.mpr hsmall
        refine ih _ (by omega) h₀ (by omega) hlo (by omega) (fun hv => ?_) rfl
        -- the middle is above `v`, so it is not its place
        have hne : rank (array.take size) v ≠ ((lo + hi) / 2).toNat := by
          intro heq
          have hat := (mem_iff_getElem?_rank hl).mp hv
          rw [heq, List.getElem?_eq_getElem hm, Option.some.injEq] at hat
          exact absurd (hat ▸ hbig) (lt_irrefl _)
        omega
      · have heq : (array.take size)[((lo + hi) / 2).toNat] = v :=
          le_antisymm (not_lt.mp hbig) (not_lt.mp hsmall)
        have hv : v ∈ array.take size := heq ▸ List.getElem_mem hm
        have hat := (mem_iff_getElem?_rank hl).mp hv
        have hplace : rank (array.take size) v = ((lo + hi) / 2).toNat := by
          obtain ⟨hr, hat⟩ := List.getElem?_eq_some_iff.mp hat
          exact (List.Nodup.getElem_inj_iff (hl.imp ne_of_lt)).mp (hat.trans heq.symm)
        rw [found, if_pos hv, hplace]
        congr 1
        omega
    · have hv : v ∉ array.take size := fun hv => by
        have := hmem hv
        omega
      rw [found, if_neg hv]
      congr 1
      omega

/-- **Binary search.**  In the first `size` places the search finds the key, or says where it would
    have to stand. -/
theorem binarySearch_eq {array : List κ} {size : ℕ} (hl : (array.take size).Pairwise (· < ·))
    (hsize : size ≤ array.length) :
    binarySearch array size v = some (found (array.take size) v) := by
  have hlength : (array.take size).length = size := List.length_take_of_le hsize
  have hle := rank_le_length (array.take size) v
  refine searchFrom_eq hl hsize (le_refl 0) (by omega) (by omega) (by omega) (fun hv => ?_)
  obtain ⟨hlt, -⟩ := List.getElem?_eq_some_iff.mp ((mem_iff_getElem?_rank hl).mp hv)
  omega

end BinarySearch

end PopcornTime
