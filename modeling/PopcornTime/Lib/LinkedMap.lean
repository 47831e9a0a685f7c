import Mathlib.Data.List.Basic
import Mathlib.Data.List.Nodup
import Mathlib.Tactic.SplitIfs

namespace PopcornTime

/-!
# Maps in the order of insertion

A map that remembers in which order its keys came, as the list of its entries: a new value takes the
place of the old one of its key, a new key goes behind the others.

* `LinkedMap.put` — one entry more; `lookup_put` and `nodup_put` are what it does to look-ups and
  keys.
* `LinkedMap.ofEntries_eq_self` — entries with different keys that are put one after the other.
-/

namespace LinkedMap

variable {κ α : Type*} [DecidableEq κ] {key k : κ} {value v : α} {map : List (κ × α)}

def put (key : κ) (value : α) : List (κ × α) → List (κ × α)
  | [] => [(key, value)]
  | (k, v) :: map => if k = key then (key, value) :: map else (k, v) :: put key value map

/-- The map of entries that are put one after the other. -/
def ofEntries (entries : List (κ × α)) : List (κ × α) :=
  entries.foldl (fun map e => put e.1 e.2 map) []

theorem lookup_cons_eq : ((key, value) :: map).lookup k =
    if k = key then some value else map.lookup k := by
  rw [List.lookup_cons]
  by_cases h : k = key
  · rw [if_pos h, beq_iff_eq.mpr h]
  · rw [if_neg h, beq_eq_false_iff_ne.mpr h]

theorem lookup_put : (put key value map).lookup k =
    if k = key then some value else map.lookup k := by
  induction map with
  | nil => exact lookup_cons_eq
  | cons e map ih =>
    obtain ⟨k', v'⟩ := e
    rw [put]
    split_ifs with hk' hk hk
    · rw [lookup_cons_eq, if_pos hk]
    · rw [lookup_cons_eq, if_neg hk, lookup_cons_eq, if_neg (by rwa [hk'])]
    · have hne : k ≠ k' := fun heq => hk' (heq.symm.trans hk)
      rw [lookup_cons_eq, if_neg hne, ih, if_pos hk]
    · rw [lookup_cons_eq, lookup_cons_eq, ih, if_neg hk]

theorem put_of_not_mem (h : key ∉ map.map Prod.fst) :
    put key value map = map ++ [(key, value)] := by
  induction map with
  | nil => rfl
  | cons e map ih =>
    obtain ⟨k', v'⟩ := e
    rw [List.map_cons, List.mem_cons, not_or] at h
    rw [put, if_neg fun heq => h.1 heq.symm, ih h.2, List.cons_append]

theorem mem_keys_put : k ∈ (put key value map).map Prod.fst ↔ k = key ∨ k ∈ map.map Prod.fst := by
  induction map with
  | nil => simp [put]
  | cons e map ih =>
    obtain ⟨k', v'⟩ := e
    rw [put]
    split_ifs with hk'
    · subst hk'
      simp
    · rw [List.map_cons, List.map_cons, List.mem_cons, List.mem_cons, ih]
      exact or_left_comm

/-- Keys stay different. -/
theorem nodup_put (h : (map.map Prod.fst).Nodup) : ((put key value map).map Prod.fst).Nodup := by
  induction map with
  | nil => simp [put]
  | cons e map ih =>
    obtain ⟨k', v'⟩ := e
    obtain ⟨hnew, hrest⟩ := List.nodup_cons.mp h
    rw [put]
    split_ifs with hk'
    · subst hk'
      exact List.nodup_cons.mpr ⟨hnew, hrest⟩
    · refine List.nodup_cons.mpr ⟨fun hmem => ?_, ih hrest⟩
      rcases mem_keys_put.mp hmem with heq | hmem
      · exact hk' heq
      · exact hnew hmem

/-- **Different keys** are put behind each other. -/
theorem ofEntries_eq_self {entries : List (κ × α)} (h : (entries.map Prod.fst).Nodup) :
    ofEntries entries = entries := by
  suffices go : ∀ map : List (κ × α), ((map ++ entries).map Prod.fst).Nodup →
      entries.foldl (fun map e => put e.1 e.2 map) map = map ++ entries from go [] h
  clear h
  induction entries with
  | nil => exact fun map _ => (List.append_nil map).symm
  | cons e entries ih =>
    intro map hnodup
    have hnew : e.1 ∉ map.map Prod.fst := by
      rw [List.map_append, List.nodup_append] at hnodup
      exact fun hmem => hnodup.2.2 e.1 hmem e.1 (by simp) rfl
    rw [List.foldl_cons, put_of_not_mem hnew, ih]
    · rw [List.append_assoc, List.singleton_append]
    · rw [List.append_assoc, List.singleton_append]
      exact hnodup

/-- With different keys every entry is found. -/
theorem lookup_eq_some_iff (h : (map.map Prod.fst).Nodup) :
    map.lookup k = some v ↔ (k, v) ∈ map := by
  induction map with
  | nil => simp
  | cons e map ih =>
    obtain ⟨k', v'⟩ := e
    obtain ⟨hnew, hrest⟩ := List.nodup_cons.mp h
    rw [lookup_cons_eq, List.mem_cons, Prod.mk.injEq]
    split_ifs with hk
    · subst hk
      have hmem : (k, v) ∉ map := fun hmem => hnew (List.mem_map.mpr ⟨(k, v), hmem, rfl⟩)
      simp [hmem, eq_comm]
    · simp [hk, ih hrest]

end LinkedMap

end PopcornTime
