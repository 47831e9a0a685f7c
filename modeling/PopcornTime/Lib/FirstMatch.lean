import Mathlib.Data.List.Basic
import Mathlib.Order.Lattice

namespace PopcornTime

/-!
# The first match, remembered

The entries of a list are tried in order, and the first one that matches is answered.  `recalled`
tries a remembered entry before the list.

* `find?_eq_some_iff_of_sorted` — the first match of entries in the order of their keys.
* `recalled_eq_iff` — a remembered entry changes no answer exactly if it is the first match wherever
  it is one.
* `staysFirst_iff_of_sorted` — which entries of a sorted list are.
-/

variable {α τ κ : Type*} [LinearOrder κ] {p : τ → α → Bool} {l : List α} {key : α → κ}

/-- The first match of entries that stand in the order of their keys. -/
theorem find?_eq_some_iff_of_sorted {q : α → Bool} (hl : l.Pairwise fun a b => key a < key b)
    {a : α} :
    l.find? q = some a ↔ a ∈ l ∧ q a ∧ ∀ b ∈ l, key b < key a → ¬q b := by
  induction l with
  | nil => simp
  | cons c l ih =>
    obtain ⟨hc, hl⟩ := List.pairwise_cons.mp hl
    by_cases hq : q c
    · -- the head matches, and every other entry has a larger key
      rw [List.find?_cons_of_pos hq, Option.some.injEq]
      refine ⟨?_, fun ⟨ha, _, hfirst⟩ => ?_⟩
      · rintro rfl
        refine ⟨List.mem_cons_self, hq, fun b hb hlt => ?_⟩
        obtain rfl | hb := List.mem_cons.mp hb
        · exact absurd hlt (lt_irrefl _)
        · exact absurd hlt (hc b hb).not_gt
      · obtain rfl | ha := List.mem_cons.mp ha
        · rfl
        · exact absurd hq (hfirst c List.mem_cons_self (hc a ha))
    · rw [List.find?_cons_of_neg hq, ih hl]
      refine ⟨fun ⟨ha, hqa, hfirst⟩ => ⟨List.mem_cons_of_mem _ ha, hqa, ?_⟩,
        fun ⟨ha, hqa, hfirst⟩ => ?_⟩
      · exact List.forall_mem_cons.mpr ⟨fun _ => hq, hfirst⟩
      · obtain rfl | ha := List.mem_cons.mp ha
        · exact absurd hqa hq
        · exact ⟨ha, hqa, fun b hb => hfirst b (List.mem_cons_of_mem _ hb)⟩

/-- The remembered entry where it matches, else the first that does. -/
def recalled (p : τ → α → Bool) (l : List α) (last : Option α) (t : τ) : Option α :=
  (last.filter (p t)).or (l.find? (p t))

/-- An entry that is the first match wherever it is one. -/
def StaysFirst (p : τ → α → Bool) (l : List α) (a : α) : Prop :=
  ∀ t, p t a → l.find? (p t) = some a

/-- **Remembering a match.**  It changes no answer exactly if it is the first one wherever it is
    one. -/
theorem recalled_eq_iff {last : Option α} :
    (∀ t, recalled p l last t = l.find? (p t)) ↔ ∀ a ∈ last, StaysFirst p l a := by
  cases last with
  | none => simp [recalled]
  | some a =>
    simp only [Option.mem_some_iff, forall_eq', StaysFirst]
    refine forall_congr' fun t => ?_
    by_cases ha : p t a
    · simp [recalled, Option.filter, ha, eq_comm]
    · simp [recalled, Option.filter, ha]

/-- In the order of keys: nothing matches in front of it where it matches. -/
theorem staysFirst_iff_of_sorted (hl : l.Pairwise fun a b => key a < key b) {a : α} (ha : a ∈ l) :
    StaysFirst p l a ↔ ∀ b ∈ l, key b < key a → ∀ t, ¬(p t b ∧ p t a) := by
  refine ⟨fun h b hb hlt t ⟨hpb, hpa⟩ => ?_, fun h t hpa => ?_⟩
  · exact ((find?_eq_some_iff_of_sorted hl).mp (h t hpa)).2.2 b hb hlt hpb
  · refine (find?_eq_some_iff_of_sorted hl).mpr ⟨ha, hpa, fun b hb hlt hpb => ?_⟩
    exact h b hb hlt t ⟨hpb, hpa⟩

end PopcornTime
