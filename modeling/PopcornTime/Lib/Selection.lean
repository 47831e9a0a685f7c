import Mathlib.Data.List.Infix
import Mathlib.Order.Lattice
import Mathlib.Tactic.SplitIfs

namespace PopcornTime

/-!
# Choosing one element of a list

* `IsFirstMax` — the first of the elements whose score is largest, and `scanMax`, the pass that finds
  it with a running best.
* `firstMatch`, `longestMatch` — in a table of prefixes, the first entry that fits the data and the
  one with the longest prefix; `exists_firstMatch_iff` tells which entries are ever found.
-/

/-! ### The first maximum -/

section FirstMax

variable {α β : Type*} [LinearOrder β]

/-- `a` is the first element of the largest score: all before it score less, and none behind it
    more. -/
def IsFirstMax (score : α → β) (l : List α) (a : α) : Prop :=
  ∃ pre post, l = pre ++ a :: post ∧ (∀ b ∈ pre, score b < score a) ∧
    ∀ b ∈ post, score b ≤ score a

variable {score : α → β} {l : List α} {a a' : α}

theorem IsFirstMax.mem (h : IsFirstMax score l a) : a ∈ l := by
  obtain ⟨pre, post, rfl, -, -⟩ := h
  simp

theorem IsFirstMax.le (h : IsFirstMax score l a) {b : α} (hb : b ∈ l) : score b ≤ score a := by
  obtain ⟨pre, post, rfl, hpre, hpost⟩ := h
  rw [List.mem_append, List.mem_cons] at hb
  rcases hb with hb | rfl | hb
  · exact (hpre b hb).le
  · exact le_refl _
  · exact hpost b hb

/-- In front of a list with a smaller head the first maximum stays what it is. -/
theorem IsFirstMax.cons {b : α} (h : IsFirstMax score l a) (hb : score b < score a) :
    IsFirstMax score (b :: l) a := by
  obtain ⟨pre, post, rfl, hpre, hpost⟩ := h
  refine ⟨b :: pre, post, rfl, fun c hc => ?_, hpost⟩
  rcases List.mem_cons.mp hc with rfl | hc
  · exact hb
  · exact hpre c hc

/-- The head, or the first maximum of the rest if that is larger. -/
theorem isFirstMax_cons {b : α} :
    IsFirstMax score (b :: l) a ↔
      (a = b ∧ ∀ c ∈ l, score c ≤ score b) ∨ (IsFirstMax score l a ∧ score b < score a) := by
  constructor
  · rintro ⟨pre, post, heq, hpre, hpost⟩
    cases pre with
    | nil =>
      obtain ⟨rfl, rfl⟩ := List.cons.inj heq
      exact Or.inl ⟨rfl, hpost⟩
    | cons c pre =>
      obtain ⟨rfl, rfl⟩ := List.cons.inj heq
      exact Or.inr ⟨⟨pre, post, rfl, fun c hc => hpre c (List.mem_cons_of_mem _ hc), hpost⟩,
        hpre _ List.mem_cons_self⟩
  · rintro (⟨rfl, hle⟩ | ⟨h, hlt⟩)
    · exact ⟨[], l, rfl, by simp, hle⟩
    · exact h.cons hlt

/-- There is one first maximum. -/
theorem IsFirstMax.unique (h : IsFirstMax score l a) (h' : IsFirstMax score l a') : a = a' := by
  induction l with
  | nil => exact absurd h.mem (by simp)
  | cons b l ih =>
    rcases isFirstMax_cons.mp h with ⟨rfl, hle⟩ | ⟨ha, hlt⟩
    · rcases isFirstMax_cons.mp h' with ⟨rfl, -⟩ | ⟨ha', hlt'⟩
      · rfl
      · exact absurd (hle _ ha'.mem) (not_le.mpr hlt')
    · rcases isFirstMax_cons.mp h' with ⟨rfl, hle'⟩ | ⟨ha', -⟩
      · exact absurd (hle' _ ha.mem) (not_le.mpr hlt)
      · exact ih ha ha'

/-- A pass over the list with the best element so far. -/
def scanMax (score : α → β) : List α → α → α
  | [], best => best
  | a :: l, best => scanMax score l (if score best < score a then a else best)

/-- **The running best** ends as the first maximum, of the list behind the element it starts
    with. -/
theorem isFirstMax_scanMax (score : α → β) (l : List α) (best : α) :
    IsFirstMax score (best :: l) (scanMax score l best) := by
  induction l generalizing best with
  | nil => exact ⟨[], [], rfl, by simp, by simp⟩
  | cons a l ih =>
    rw [scanMax]
    by_cases hlt : score best < score a
    · -- the new best is ahead of the rest, and the old one below it
      rw [if_pos hlt]
      have hbest := ih a
      exact hbest.cons (hlt.trans_le (hbest.le List.mem_cons_self))
    · rw [if_neg hlt]
      have hle := not_lt.mp hlt
      rcases isFirstMax_cons.mp (ih best) with ⟨heq, hmax⟩ | ⟨hmax, hbest⟩
      · rw [heq]
        refine isFirstMax_cons.mpr (Or.inl ⟨rfl, fun c hc => ?_⟩)
        rcases List.mem_cons.mp hc with rfl | hc
        · exact hle
        · exact hmax c hc
      · exact (hmax.cons (hle.trans_lt hbest)).cons hbest

end FirstMax

/-! ### Tables of prefixes -/

section Prefix

variable {α β : Type*} [DecidableEq α]

/-- The first entry whose prefix the data starts with. -/
def firstMatch (table : List (List α × β)) (data : List α) : Option (List α × β) :=
  table.find? fun e => decide (e.1 <+: data)

/-- Of the entries whose prefix the data starts with, the one with the longest prefix. -/
def longestMatch (table : List (List α × β)) (data : List α) : Option (List α × β) :=
  match table.filter fun e => decide (e.1 <+: data) with
  | [] => none
  | e :: l => some (scanMax (fun e => e.1.length) l e)

variable {table : List (List α × β)} {data : List α} {e e' : List α × β}

theorem firstMatch_eq_none :
    firstMatch table data = none ↔ ∀ e ∈ table, ¬e.1 <+: data := by
  rw [firstMatch, List.find?_eq_none]
  simp only [decide_eq_true_eq]

theorem firstMatch_spec (h : firstMatch table data = some e) : e ∈ table ∧ e.1 <+: data :=
  ⟨List.mem_of_find?_eq_some h, by simpa using List.find?_some h⟩

theorem longestMatch_eq_none :
    longestMatch table data = none ↔ ∀ e ∈ table, ¬e.1 <+: data := by
  unfold longestMatch
  split
  · next h =>
    rw [List.filter_eq_nil_iff] at h
    simpa using h
  · next e l h =>
    have hmem : e ∈ table.filter fun e => decide (e.1 <+: data) := by simp [h]
    rw [List.mem_filter, decide_eq_true_eq] at hmem
    exact iff_of_false (by simp) fun hall => hall e hmem.1 hmem.2

theorem longestMatch_spec (h : longestMatch table data = some e) :
    e ∈ table ∧ e.1 <+: data ∧ ∀ e' ∈ table, e'.1 <+: data → e'.1.length ≤ e.1.length := by
  unfold longestMatch at h
  split at h
  · exact absurd h (by simp)
  · next e₀ l hl =>
    have hmax := isFirstMax_scanMax (fun e : List α × β => e.1.length) l e₀
    rw [Option.some.injEq] at h
    rw [h, ← hl] at hmax
    have hmem := hmax.mem
    rw [List.mem_filter, decide_eq_true_eq] at hmem
    refine ⟨hmem.1, hmem.2, fun e' he' hpre => hmax.le ?_⟩
    rw [List.mem_filter, decide_eq_true_eq]
    exact ⟨he', hpre⟩

/-- The prefix of the first match is a prefix of that of the longest one: where they differ, the
    shorter one shadows the longer one. -/
theorem firstMatch_prefix_longestMatch (h : firstMatch table data = some e)
    (h' : longestMatch table data = some e') : e.1 <+: e'.1 := by
  obtain ⟨hmem, hpre⟩ := firstMatch_spec h
  obtain ⟨-, hpre', hmax⟩ := longestMatch_spec h'
  exact List.prefix_of_prefix_length_le hpre hpre' (hmax e hmem hpre)

/-- **What is ever found.**  An entry that is the first match of any data is that of its own
    prefix. -/
theorem exists_firstMatch_iff :
    (∃ data, firstMatch table data = some e) ↔ firstMatch table e.1 = some e := by
  refine ⟨?_, fun h => ⟨e.1, h⟩⟩
  rintro ⟨data, h⟩
  have hpre := (firstMatch_spec h).2
  unfold firstMatch at h ⊢
  rw [List.find?_eq_some_iff_append] at h ⊢
  obtain ⟨-, before, behind, htable, hbefore⟩ := h
  refine ⟨by simp, before, behind, htable, fun e' he' => ?_⟩
  -- a prefix of the entry's own is one of the data
  have hnot := hbefore e' he'
  simp only [Bool.not_eq_true', decide_eq_false_iff_not] at hnot ⊢
  exact fun hshort => hnot (hshort.trans hpre)

end Prefix

end PopcornTime
