import Mathlib.Data.List.Induction
import Mathlib.Data.Option.Basic

namespace PopcornTime

/-!
# The last value supplied

A setting is supplied again and again, each time with a value that may be missing or blank, in which
case the one before it stays.

* `lastSupplied` — the last value that is not blank, or a built-in one.
* `lastSupplied_concat` — one value more, and `IsSet.supplied`: what is set stays set.
* `mergeNull_eq_supplyValue_iff`, `mergeNull_perm_supplyValue_iff` — when replacing only the values
  that are missing comes to the same, as values or up to the order of a list.
-/

variable {α β : Type*} (blank : α → Bool)

/-- A value in the place of the one before, unless it is missing or blank. -/
def supplyValue (before value : Option α) : Option α :=
  (value.filter (fun value => !blank value)).or before

/-- The last value supplied that is not blank, or the built-in one. -/
def lastSupplied (get : β → Option α) (supplied : List β) (builtin : β) : Option α :=
  (supplied.reverse.findSome? (fun b => (get b).filter (fun value => !blank value))).or
    (get builtin)

theorem lastSupplied_concat (get : β → Option α) (supplied : List β) (b builtin : β) :
    lastSupplied blank get (supplied ++ [b]) builtin =
      supplyValue blank (lastSupplied blank get supplied builtin) (get b) := by
  unfold lastSupplied supplyValue
  rw [List.reverse_concat, List.findSome?_cons]
  cases (get b).filter (fun value => !blank value) <;> rfl

/-- A value that is there and not blank. -/
def IsSet (value : Option α) : Prop :=
  ∃ a ∈ value, blank a = false

variable {blank}

/-- What is set stays set. -/
theorem IsSet.supplied {before : Option α} (h : IsSet blank before) (value : Option α) :
    IsSet blank (supplyValue blank before value) := by
  unfold supplyValue
  cases hvalue : value.filter (fun value => !blank value) with
  | none => exact h
  | some a =>
    rw [Option.filter_eq_some_iff] at hvalue
    exact ⟨a, rfl, by simpa using hvalue.2⟩

theorem isSet_lastSupplied (blank : α → Bool) {get : β → Option α} (supplied : List β) {builtin : β}
    (h : IsSet blank (get builtin)) : IsSet blank (lastSupplied blank get supplied builtin) := by
  induction supplied using List.reverseRecOn with
  | nil => exact h
  | append_singleton supplied b ih =>
    rw [lastSupplied_concat]
    exact ih.supplied (get b)

theorem relPerm_symm {list₁ list₂ : Option (List α)} (h : Option.Rel List.Perm list₁ list₂) :
    Option.Rel List.Perm list₂ list₁ := by
  cases h with
  | none => exact .none
  | some hperm => exact .some hperm.symm

theorem relPerm_trans {list₁ list₂ list₃ : Option (List α)} (h₁ : Option.Rel List.Perm list₁ list₂)
    (h₂ : Option.Rel List.Perm list₂ list₃) : Option.Rel List.Perm list₁ list₃ := by
  cases h₁ with
  | none => exact h₂
  | some hperm₁ =>
    cases h₂ with
    | some hperm₂ => exact .some (hperm₁.trans hperm₂)

/-- A list that is set is set in another order. -/
theorem IsSet.of_rel_perm {list₁ list₂ : Option (List α)} (h : Option.Rel List.Perm list₁ list₂)
    (hset : IsSet List.isEmpty list₁) : IsSet List.isEmpty list₂ := by
  obtain ⟨l, rfl, hl⟩ := hset
  cases h with
  | some hperm => exact ⟨_, rfl, by rwa [← hperm.isEmpty_eq]⟩

/-! ### Replacing only what is missing -/

/-- A blank value is taken. -/
theorem mergeNull_eq_supplyValue_iff (blank : α → Bool) (value : Option α) {before last : Option α}
    [Decidable (value = none)] (h : before = last) :
    (if value = none then before else value) = supplyValue blank last value ↔
      ∀ a ∈ value, blank a = true → before = some a := by
  rw [h]
  unfold supplyValue
  cases value with
  | none => simp
  | some a =>
    rw [if_neg (Option.some_ne_none a), Option.filter_some]
    cases hblank : blank a
    · simp [hblank]
    · simpa [hblank] using eq_comm

/-- The same for an empty list, up to the order of the list. -/
theorem mergeNull_perm_supplyValue_iff (value : Option (List α)) {before last : Option (List α)}
    [Decidable (value = none)] (h : Option.Rel List.Perm before last) :
    Option.Rel List.Perm (if value = none then before else value)
        (supplyValue List.isEmpty last value) ↔
      (value = some [] → before = some []) := by
  unfold supplyValue
  cases value with
  | none => simpa using h
  | some l =>
    rw [if_neg (Option.some_ne_none l), Option.filter_some]
    cases l with
    | cons a l => simp
    | nil =>
      cases h with
      | none => simp
      | some hperm =>
        constructor
        · intro hrel _
          cases hrel with
          | some hnil => rw [List.nil_perm.mp hnil] at hperm; rw [List.perm_nil.mp hperm]
        · intro hnil
          rw [Option.some.inj (hnil rfl)] at hperm
          exact .some hperm

end PopcornTime
