import Mathlib.Data.List.Basic
import Mathlib.Tactic.SplitIfs

namespace PopcornTime

/-!
# Attempts

Targets that are tried one after the other until one succeeds.  An attempt may fail at once, and
then the next one is made before the call returns, or it is pending and is settled later.

* `InOrder` — the attempts go through the targets in order up to the first that has not failed.
* `burst` — the attempts of one call: those that fail at once and the first that does not.
* `inOrder_append_cons` — what stands behind an attempt depends on its outcome only.
* `inOrder_settled_iff` — what may follow once the pending attempt is settled.
-/

inductive Outcome (β : Type*)
  | pending
  | failed
  | succeeded (b : β)

structure Attempt (α β : Type*) where
  target : α
  outcome : Outcome β

variable {α β : Type*}

def Outcome.succeeded? : Outcome β → Option β
  | succeeded b => some b
  | _ => none

namespace Attempt

def isPending (t : Attempt α β) : Bool :=
  match t.outcome with
  | .pending => true
  | _ => false

def succeeded? (t : Attempt α β) : Option β :=
  t.outcome.succeeded?

/-- The first attempt is of the first target; behind a failed one the others go on with the rest,
    behind any other there is none. -/
def InOrder : List α → List (Attempt α β) → Prop
  | [], [] => True
  | a :: as, t :: ts => t.target = a ∧
    match t.outcome with
    | .failed => InOrder as ts
    | _ => ts = []
  | _, _ => False

/-- What the attempts have led to. -/
def result? (ts : List (Attempt α β)) : Option β :=
  ts.findSome? succeeded?

/-- Nothing is pending but the last attempt. -/
def OnlyLast (ts : List (Attempt α β)) : Prop :=
  ∀ t ∈ ts.dropLast, t.isPending = false

variable {as : List α} {ts pre post : List (Attempt α β)} {t : Attempt α β} {a : α} {b : β}

/-! ### Attempts in order -/

theorem inOrder_append_cons :
    InOrder as (pre ++ t :: post) ↔
      ((∀ p ∈ pre, p.outcome = .failed) ∧ pre.map target = as.take pre.length) ∧
        InOrder (as.drop pre.length) (t :: post) := by
  induction pre generalizing as with
  | nil => simp
  | cons p pre ih =>
    cases as with
    | nil => simp [InOrder]
    | cons a as =>
      obtain ⟨target, outcome⟩ := p
      cases outcome with
      | failed =>
        rw [List.cons_append, InOrder]
        simp only [ih, List.forall_mem_cons, List.map_cons, List.length_cons, List.take_succ_cons,
          List.cons.injEq, List.drop_succ_cons, true_and]
        tauto
      | pending | succeeded b => simp [InOrder]

/-- A pending attempt that is settled: behind a failed one the others go on with the rest, behind
    any other there is none. -/
theorem inOrder_settled_iff {outcome : Outcome β} (h : InOrder as (pre ++ [⟨a, .pending⟩])) :
    InOrder as (pre ++ ⟨a, outcome⟩ :: post) ↔
      match outcome with
      | .failed => InOrder (as.drop (pre.length + 1)) post
      | .pending | .succeeded _ => post = [] := by
  rw [inOrder_append_cons] at h ⊢
  -- the attempts before it and its target are what they were
  rw [and_iff_right h.1, ← List.drop_drop]
  have htarget := h.2
  cases hrest : as.drop pre.length with
  | nil => rw [hrest] at htarget; exact htarget.elim
  | cons a' as' =>
    rw [hrest] at htarget
    cases outcome with
    | pending | failed | succeeded b => exact and_iff_right htarget.1

theorem inOrder_failed_iff (h : InOrder as (pre ++ [⟨a, .pending⟩])) :
    InOrder as (pre ++ ⟨a, .failed⟩ :: post) ↔ InOrder (as.drop (pre.length + 1)) post :=
  inOrder_settled_iff h

theorem inOrder_succeeded_iff (h : InOrder as (pre ++ [⟨a, .pending⟩])) :
    InOrder as (pre ++ ⟨a, .succeeded b⟩ :: post) ↔ post = [] :=
  inOrder_settled_iff h

/-- Before a pending attempt nothing has succeeded. -/
theorem result?_eq_none (h : InOrder as (pre ++ [⟨a, .pending⟩])) : result? pre = none := by
  rw [inOrder_append_cons] at h
  rw [result?, List.findSome?_eq_none_iff]
  intro p hp
  rw [succeeded?, h.1.1 p hp]
  rfl

@[simp] theorem result?_append_cons :
    result? (pre ++ t :: post) = (result? pre).or ((succeeded? t).or (result? post)) := by
  unfold result?
  rw [List.findSome?_append, List.findSome?_cons]
  cases succeeded? t <;> rfl

/-- An attempt that is pending is the last one. -/
theorem OnlyLast.eq_append {i : ℕ} (h : OnlyLast ts) (hi : ts[i]? = some t)
    (ht : t.isPending = true) : ∃ front, ts = front ++ [t] ∧ i = front.length := by
  obtain hnil | ⟨front, last, hfront⟩ := List.eq_nil_or_concat ts
  · rw [hnil] at hi
    cases hi
  · rw [List.concat_eq_append] at hfront
    subst hfront
    rw [OnlyLast, List.dropLast_concat] at h
    by_cases hlt : i < front.length
    · rw [List.getElem?_append_left hlt] at hi
      rw [h t (List.mem_of_getElem? hi)] at ht
      cases ht
    · obtain ⟨hbound, -⟩ := List.getElem?_eq_some_iff.mp hi
      rw [List.length_append, List.length_singleton] at hbound
      obtain rfl : i = front.length := by omega
      obtain rfl : last = t := by simpa using hi
      exact ⟨front, rfl, rfl⟩

/-! ### The attempts of one call -/

section

variable (immediate : ℕ → Bool)

/-- From the `n`-th attempt on, the ones that fail at once and the first that does not. -/
def burst (n : ℕ) : List α → List (Attempt α β)
  | [] => []
  | a :: as => if immediate n then ⟨a, .failed⟩ :: burst (n + 1) as else [⟨a, .pending⟩]

variable {immediate} {n : ℕ}

theorem burst_eq_nil : (burst immediate n as : List (Attempt α β)) = [] ↔ as = [] := by
  cases as with
  | nil => simp [burst]
  | cons a as =>
    rw [burst]
    split_ifs <;> simp

theorem inOrder_burst : InOrder as (burst immediate n as : List (Attempt α β)) := by
  induction as generalizing n with
  | nil => trivial
  | cons a as ih =>
    rw [burst]
    split_ifs
    · exact ⟨rfl, ih⟩
    · exact ⟨rfl, rfl⟩

theorem result?_burst : result? (burst immediate n as : List (Attempt α β)) = none := by
  induction as generalizing n with
  | nil => rfl
  | cons a as ih =>
    rw [burst]
    split_ifs
    · exact ih
    · rfl

theorem onlyLast_burst : OnlyLast (burst immediate n as : List (Attempt α β)) := by
  induction as generalizing n with
  | nil => exact nofun
  | cons a as ih =>
    rw [burst]
    split_ifs
    · intro t ht
      have hmem : t = ⟨a, .failed⟩ ∨ t ∈ (burst immediate (n + 1) as).dropLast := by
        cases hrest : (burst immediate (n + 1) as : List (Attempt α β)) with
        | nil => rw [hrest] at ht; cases ht
        | cons t' ts => rw [hrest] at ht; exact List.mem_cons.mp ht
      obtain rfl | hmem := hmem
      · rfl
      · exact ih t hmem
    · exact nofun

/-- Something is pending unless all fail at once. -/
theorem countP_burst :
    (burst immediate n as : List (Attempt α β)).countP isPending =
      if ∀ i < as.length, immediate (n + i) = true then 0 else 1 := by
  induction as generalizing n with
  | nil => simp [burst]
  | cons a as ih =>
    have hall : (∀ i < (a :: as).length, immediate (n + i) = true) ↔
        immediate n = true ∧ ∀ i < as.length, immediate (n + 1 + i) = true := by
      rw [List.length_cons, Nat.forall_lt_succ_left]
      simp only [Nat.add_zero, Nat.add_assoc, Nat.add_comm 1]
    rw [burst]
    split_ifs with hn h h
    · rw [List.countP_cons_of_neg (by simp [isPending]), ih, if_pos (hall.mp h).2]
    · rw [List.countP_cons_of_neg (by simp [isPending]), ih, if_neg fun h' => h (hall.mpr ⟨hn, h'⟩)]
    · exact absurd (hall.mp h).1 hn
    · rfl

/-- Behind attempts that are settled. -/
theorem onlyLast_append_burst (h : ∀ t ∈ ts, t.isPending = false) :
    OnlyLast (ts ++ burst immediate n as) := by
  intro t ht
  cases hrest : (burst immediate n as : List (Attempt α β)) with
  | nil =>
    rw [hrest, List.append_nil] at ht
    exact h t (List.dropLast_subset _ ht)
  | cons t' ts' =>
    rw [List.dropLast_append_of_ne_nil (by simp [hrest]), List.mem_append] at ht
    exact ht.elim (h t) (onlyLast_burst t)

end

end Attempt

end PopcornTime
