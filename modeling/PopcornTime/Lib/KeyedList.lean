import Mathlib.Data.List.Basic
import Mathlib.Data.List.Nodup
import Mathlib.Data.List.Perm.Basic
import Mathlib.Order.Lattice
import Mathlib.Tactic.SplitIfs

namespace PopcornTime

/-!
# Entries in the order of their keys

A map whose entries are visited in the order of their keys, as the list of these.  An entry replaces
the one of the same key.

* `insertKeyed` — one entry more; `keyed`, the map of a list of entries.
* `keyed_perm_iff` — no entry is lost exactly if the keys are different.
-/

namespace KeyedList

variable {α κ : Type*} [LinearOrder κ] {key : α → κ} {a b : α} {l l' : List α}

def insertKeyed (key : α → κ) (a : α) : List α → List α
  | [] => [a]
  | b :: l =>
    if key a < key b then a :: b :: l
    else if key b < key a then b :: insertKeyed key a l
    else a :: l

/-- The entries of a list, a later one in the place of an earlier one. -/
def keyed (key : α → κ) (l : List α) : List α :=
  l.foldl (fun map a => insertKeyed key a map) []

theorem eq_or_mem_of_mem_insertKeyed (h : b ∈ insertKeyed key a l) : b = a ∨ b ∈ l := by
  induction l with
  | nil => exact .inl (List.mem_singleton.mp h)
  | cons c l ih =>
    rw [insertKeyed] at h
    split_ifs at h
    · exact List.mem_cons.mp h
    · obtain rfl | h := List.mem_cons.mp h
      · exact .inr List.mem_cons_self
      · exact (ih h).imp_right (List.mem_cons_of_mem c)
    · exact (List.mem_cons.mp h).imp_right (List.mem_cons_of_mem c)

theorem pairwise_insertKeyed (hl : l.Pairwise fun a b => key a < key b) :
    (insertKeyed key a l).Pairwise fun a b => key a < key b := by
  induction l with
  | nil => exact List.pairwise_singleton _ a
  | cons c l ih =>
    obtain ⟨hc, hl⟩ := List.pairwise_cons.mp hl
    rw [insertKeyed]
    split_ifs with hlt hgt
    · refine List.pairwise_cons.mpr ⟨?_, List.pairwise_cons.mpr ⟨hc, hl⟩⟩
      exact List.forall_mem_cons.mpr ⟨hlt, fun b hb => hlt.trans (hc b hb)⟩
    · refine List.pairwise_cons.mpr ⟨fun b hb => ?_, ih hl⟩
      obtain rfl | hb := eq_or_mem_of_mem_insertKeyed hb
      · exact hgt
      · exact hc b hb
    · have heq : key a = key c := le_antisymm (not_lt.mp hgt) (not_lt.mp hlt)
      exact List.pairwise_cons.mpr ⟨fun b hb => heq ▸ hc b hb, hl⟩

/-- With a new key no entry is replaced. -/
theorem insertKeyed_perm (h : ∀ b ∈ l, key b ≠ key a) : (insertKeyed key a l).Perm (a :: l) := by
  induction l with
  | nil => exact .refl _
  | cons c l ih =>
    obtain ⟨hc, hl⟩ := List.forall_mem_cons.mp h
    rw [insertKeyed]
    split_ifs with hlt hgt
    · exact .refl _
    · exact ((ih hl).cons c).trans (.swap a c l)
    · exact absurd (le_antisymm (not_lt.mp hlt) (not_lt.mp hgt)) hc

theorem pairwise_keyed (key : α → κ) (l : List α) :
    (keyed key l).Pairwise fun a b => key a < key b := by
  suffices go : ∀ map : List α, map.Pairwise (fun a b => key a < key b) →
      (l.foldl (fun map a => insertKeyed key a map) map).Pairwise fun a b => key a < key b from
    go [] .nil
  intro map hmap
  induction l generalizing map with
  | nil => exact hmap
  | cons a l ih => exact ih _ (pairwise_insertKeyed hmap)

/-- **Nothing is lost** exactly if the keys are different. -/
theorem keyed_perm_iff : (keyed key l).Perm l ↔ (l.map key).Nodup := by
  constructor
  · intro h
    rw [← (h.map key).nodup_iff]
    exact List.pairwise_map.mpr ((pairwise_keyed key l).imp ne_of_lt)
  · intro hnodup
    -- for any map before: what is inserted adds to it when the keys are new
    suffices go : ∀ map : List α, ((l ++ map).map key).Nodup →
        (l.foldl (fun map a => insertKeyed key a map) map).Perm (l ++ map) by
      have hperm := go []
      rw [List.append_nil] at hperm
      exact hperm hnodup
    clear hnodup
    induction l with
    | nil => exact fun map _ => .refl map
    | cons a l ih =>
      intro map hnodup
      rw [List.cons_append, List.map_cons, List.nodup_cons, List.map_append, List.mem_append] at hnodup
      have hfresh : ∀ b ∈ map, key b ≠ key a := fun b hb heq =>
        hnodup.1 (.inr (heq ▸ List.mem_map_of_mem hb))
      have hinsert := insertKeyed_perm hfresh
      have hmiddle : (l ++ insertKeyed key a map).Perm (a :: (l ++ map)) :=
        (hinsert.append_left l).trans List.perm_middle
      refine (ih _ ?_).trans hmiddle
      rw [(hmiddle.map key).nodup_iff, List.map_cons, List.nodup_cons, List.map_append,
        List.mem_append]
      exact hnodup

end KeyedList

end PopcornTime
