import Mathlib.Data.List.Basic
import Mathlib.Data.List.Infix

namespace PopcornTime

/-!
# Blocks that end with a mark

A stream of blocks, each of which ends at the first place where the mark stands.  A reader that has
only the beginning of the stream finds the end of the block as soon as the mark has arrived.

* `EndMark.endOf` — how long the first block is, or 0; `endOf_of_beginning`, what of it a beginning of
  the stream shows.
* `EndMark.blocks` — all blocks; `IsBlock`, a stream that is one.
-/

namespace EndMark

variable {α : Type*} [DecidableEq α] {mark l l' : List α} {n : ℕ}

/-- The place behind the first mark, or 0. -/
def endOf (mark l : List α) : ℕ :=
  match (List.range (l.length + 1 - mark.length)).find? fun i => mark.isPrefixOf (l.drop i) with
  | some i => i + mark.length
  | none => 0

/-- A mark stands at the place, and at none before it. -/
def IsFirst (mark l : List α) (i : ℕ) : Prop :=
  i + mark.length ≤ l.length ∧ mark <+: l.drop i ∧ ∀ j < i, ¬ mark <+: l.drop j

theorem not_isPrefixOf_iff : mark.isPrefixOf l = false ↔ ¬ mark <+: l := by
  rw [← Bool.not_eq_true, List.isPrefixOf_iff_prefix]

theorem endOf_eq_of_isFirst {i : ℕ} (h : IsFirst mark l i) : endOf mark l = i + mark.length := by
  obtain ⟨hle, hat, hbefore⟩ := h
  have hfind : (List.range (l.length + 1 - mark.length)).find?
      (fun i => mark.isPrefixOf (l.drop i)) = some i := by
    rw [List.find?_range_eq_some]
    refine ⟨List.isPrefixOf_iff_prefix.mpr hat, List.mem_range.mpr (by omega), fun j hj => ?_⟩
    rw [Bool.not_eq_true', not_isPrefixOf_iff]
    exact hbefore j hj
  rw [endOf, hfind]

theorem endOf_cases (mark l : List α) :
    (∃ i, IsFirst mark l i ∧ endOf mark l = i + mark.length) ∨
      ((∀ i, i + mark.length ≤ l.length → ¬ mark <+: l.drop i) ∧ endOf mark l = 0) := by
  cases hfind : (List.range (l.length + 1 - mark.length)).find?
      fun i => mark.isPrefixOf (l.drop i) with
  | some i =>
    obtain ⟨hat, hmem, hbefore⟩ := List.find?_range_eq_some.mp hfind
    have hfirst : IsFirst mark l i := by
      rw [List.mem_range] at hmem
      refine ⟨by omega, List.isPrefixOf_iff_prefix.mp hat, fun j hj => ?_⟩
      rw [← not_isPrefixOf_iff, ← Bool.not_eq_true']
      exact hbefore j hj
    exact .inl ⟨i, hfirst, endOf_eq_of_isFirst hfirst⟩
  | none =>
    refine .inr ⟨fun i hi hat => ?_, by rw [endOf, hfind]⟩
    have hnot := List.find?_range_eq_none.mp hfind i (by omega)
    rw [List.isPrefixOf_iff_prefix.mpr hat] at hnot
    exact Bool.noConfusion hnot

theorem endOf_le_length (mark l : List α) : endOf mark l ≤ l.length := by
  rcases endOf_cases mark l with ⟨i, ⟨hle, -⟩, heq⟩ | ⟨-, heq⟩
  · rw [heq]
    exact hle
  · rw [heq]
    exact Nat.zero_le _

omit [DecidableEq α] in
/-- A window that lies in the beginning of a list is the same there. -/
theorem prefix_drop_iff (h : l <+: l') {i : ℕ} (hi : i + mark.length ≤ l.length) :
    mark <+: l.drop i ↔ mark <+: l'.drop i := by
  obtain ⟨more, rfl⟩ := h
  rw [List.drop_append_of_le_length (by omega)]
  refine ⟨fun hat => hat.trans (List.prefix_append _ _), fun hat => ?_⟩
  exact List.prefix_of_prefix_length_le hat (List.prefix_append _ _) (by rw [List.length_drop]; omega)

/-- **The beginning of a stream** shows the end of the first block if it reaches so far, and no
    end at all otherwise. -/
theorem endOf_of_beginning (mark : List α) (h : l <+: l') :
    endOf mark l = if endOf mark l' ≤ l.length then endOf mark l' else 0 := by
  have hlength := h.length_le
  rcases endOf_cases mark l with ⟨i, ⟨hle, hat, hbefore⟩, heq⟩ | ⟨hnot, heq⟩
  · have hfirst : IsFirst mark l' i :=
      ⟨hle.trans hlength, (prefix_drop_iff h hle).mp hat,
        fun j hj hat' => hbefore j hj ((prefix_drop_iff h (by omega)).mpr hat')⟩
    rw [endOf_eq_of_isFirst hfirst, if_pos hle, heq]
  · rcases endOf_cases mark l' with ⟨i, ⟨hle, hat, -⟩, heq'⟩ | ⟨-, heq'⟩
    · rw [heq, heq']
      split_ifs with hin
      · exact absurd ((prefix_drop_iff h hin).mpr hat) (hnot i hin)
      · rfl
    · rw [heq, heq']
      exact (ite_self 0).symm

/-! ### All blocks -/

/-- The blocks of a stream; what stands behind the last mark is none. -/
def blocks (mark l : List α) : List (List α) :=
  if 0 < endOf mark l then l.take (endOf mark l) :: blocks mark (l.drop (endOf mark l)) else []
termination_by l.length
decreasing_by
  have hle := endOf_le_length mark l
  rw [List.length_drop]
  omega

/-- A list that is one block. -/
def IsBlock (mark l : List α) : Prop := l ≠ [] ∧ endOf mark l = l.length

theorem endOf_append (h : IsBlock mark l) (l' : List α) : endOf mark (l ++ l') = l.length := by
  have hpos : 0 < l.length := List.length_pos_iff.mpr h.1
  have hbegins := endOf_of_beginning mark (List.prefix_append l l')
  rw [h.2] at hbegins
  split_ifs at hbegins with hle
  · exact hbegins.symm
  · omega

/-- A block ends with its mark. -/
theorem IsBlock.mark_suffix (h : IsBlock mark l) : mark <:+ l := by
  have hpos : 0 < l.length := List.length_pos_iff.mpr h.1
  rcases endOf_cases mark l with ⟨i, ⟨-, hat, -⟩, heq⟩ | ⟨-, heq⟩
  · have hend : mark = l.drop i := by
      refine hat.eq_of_length ?_
      rw [List.length_drop]
      have := h.2
      omega
    exact hend ▸ List.drop_suffix i l
  · have := h.2
    omega

end EndMark

end PopcornTime
