import Mathlib.Data.List.DropRight
import Mathlib.Data.List.Infix
import Mathlib.Tactic.SplitIfs

namespace PopcornTime

/-!
# The end of a list, and the first place of a pattern

* `rtakeWhile_append_of_all`, `rdropWhile_append_of_not_all` and their like — the end of a list that
  is put together, for what follows a last separator.
* `replaceFirst` — the first place of a pattern gets another text; `replaceFirst_cases` is where that
  is.
-/

variable {α : Type*}

/-! ### The end of a list -/

section End

variable {p : α → Bool} {l l' : List α}

theorem rtakeWhile_append_of_all (h : ∀ x ∈ l', p x = true) :
    (l ++ l').rtakeWhile p = l.rtakeWhile p ++ l' := by
  induction l' using List.reverseRecOn with
  | nil => rw [List.append_nil, List.append_nil]
  | append_singleton l' x ih =>
    have hx := h x (List.mem_append_right _ (List.mem_singleton_self x))
    rw [← List.append_assoc, List.rtakeWhile_concat_pos _ _ _ hx]
    rw [ih fun y hy => h y (List.mem_append_left _ hy), List.append_assoc]

theorem rdropWhile_append_of_all (h : ∀ x ∈ l', p x = true) :
    (l ++ l').rdropWhile p = l.rdropWhile p := by
  induction l' using List.reverseRecOn with
  | nil => rw [List.append_nil]
  | append_singleton l' x ih =>
    have hx := h x (List.mem_append_right _ (List.mem_singleton_self x))
    rw [← List.append_assoc, List.rdropWhile_concat_pos _ _ _ hx]
    exact ih fun y hy => h y (List.mem_append_left _ hy)

theorem rtakeWhile_append_of_not_all (h : ¬∀ x ∈ l', p x = true) :
    (l ++ l').rtakeWhile p = l'.rtakeWhile p := by
  induction l' using List.reverseRecOn with
  | nil => exact absurd (by simp) h
  | append_singleton l' x ih =>
    rw [← List.append_assoc]
    by_cases hx : p x = true
    · rw [List.rtakeWhile_concat_pos _ _ _ hx, List.rtakeWhile_concat_pos _ _ _ hx, ih]
      intro hall
      apply h
      simpa [or_imp, forall_and] using ⟨hall, hx⟩
    · rw [List.rtakeWhile_concat_neg _ _ _ hx, List.rtakeWhile_concat_neg _ _ _ hx]

theorem rdropWhile_append_of_not_all (h : ¬∀ x ∈ l', p x = true) :
    (l ++ l').rdropWhile p = l ++ l'.rdropWhile p := by
  induction l' using List.reverseRecOn with
  | nil => exact absurd (by simp) h
  | append_singleton l' x ih =>
    rw [← List.append_assoc]
    by_cases hx : p x = true
    · rw [List.rdropWhile_concat_pos _ _ _ hx, List.rdropWhile_concat_pos _ _ _ hx, ih]
      intro hall
      apply h
      simpa [or_imp, forall_and] using ⟨hall, hx⟩
    · rw [List.rdropWhile_concat_neg _ _ _ hx, List.rdropWhile_concat_neg _ _ _ hx]
      exact List.append_assoc _ _ _

end End

/-! ### The first place of a pattern -/

section Replace

variable [DecidableEq α] {pattern text : List α}

/-- The first place of a pattern gets another text. -/
def replaceFirst (pattern replacement : List α) : List α → List α
  | [] => []
  | x :: text =>
    if pattern <+: x :: text then replacement ++ (x :: text).drop pattern.length
    else x :: replaceFirst pattern replacement text

/-- A text without the pattern stays what it is; else its first place is replaced. -/
theorem replaceFirst_cases (hpattern : pattern ≠ []) (replacement text : List α) :
    (¬pattern <:+: text ∧ replaceFirst pattern replacement text = text) ∨
      ∃ before rest, text = before ++ pattern ++ rest ∧
        (∀ before' rest', text = before' ++ pattern ++ rest' → before.length ≤ before'.length) ∧
        replaceFirst pattern replacement text = before ++ replacement ++ rest := by
  induction text with
  | nil => exact Or.inl ⟨fun h => hpattern (List.infix_nil.mp h), rfl⟩
  | cons x text ih =>
    rw [replaceFirst]
    -- the pattern at the very beginning is the first one
    by_cases hprefix : pattern <+: x :: text
    · obtain ⟨rest, hrest⟩ := hprefix
      rw [if_pos ⟨rest, hrest⟩, ← hrest, List.drop_left]
      exact Or.inr ⟨[], rest, rfl, fun _ _ _ => Nat.zero_le _, rfl⟩
    · rw [if_neg hprefix]
      rcases ih with ⟨hnot, heq⟩ | ⟨before, rest, htext, hfirst, heq⟩
      · left
        rw [List.infix_cons_iff, heq]
        exact ⟨not_or_intro hprefix hnot, rfl⟩
      · refine Or.inr ⟨x :: before, rest, by rw [htext]; rfl, ?_, by rw [heq]; rfl⟩
        intro before' rest' h'
        cases before' with
        | nil => exact absurd ⟨rest', h'.symm⟩ hprefix
        | cons y before' =>
          rw [List.cons_append, List.cons_append] at h'
          exact Nat.succ_le_succ (hfirst before' rest' (List.cons.inj h').2)

end Replace

end PopcornTime
