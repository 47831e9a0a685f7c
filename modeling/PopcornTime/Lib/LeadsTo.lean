import Mathlib.Data.Nat.Init
import Mathlib.Order.Nat
import PopcornTime.Lib.Machine

namespace PopcornTime

/-!
# What a run leads to

An endless run of a machine, and the rule for what must happen in it: a rank that no step
raises and that some events lower, where these events come again as long as they are needed.

* `Course` — a run without an end.
* `Course.LeadsTo` — from every state in `P` the run comes to one in `Q`; `LeadsTo.trans`.
* `Course.leadsTo_of_rank` — the rule.
-/

namespace Machine

variable {σ ε : Type*}

/-- A run without an end. -/
structure Course (M : Machine σ ε) where
  state : ℕ → σ
  event : ℕ → ε
  step : ∀ n, M.step (state n) (event n) (state (n + 1))

namespace Course

variable {M : Machine σ ε} {ρ : M.Course} {P Q : σ → Prop} {H : ε → Prop}

/-- From every state in `P` the run comes to a state in `Q`. -/
def LeadsTo (ρ : M.Course) (P Q : σ → Prop) : Prop :=
  ∀ n, P (ρ.state n) → ∃ m, n ≤ m ∧ Q (ρ.state m)

/-- As long as the run is in `P`, an event in `H` comes again. -/
def ComesAgain (ρ : M.Course) (P : σ → Prop) (H : ε → Prop) : Prop :=
  ∀ n, P (ρ.state n) → ∃ m, n ≤ m ∧ H (ρ.event m)

/-- Up to any later time the run has come to `Q`, or it is still in `P` and its rank no higher. -/
theorem reached_or_kept {rank : σ → ℕ}
    (hstep : ∀ s e s', P s → M.step s e s' → Q s' ∨ P s' ∧ rank s' ≤ rank s) {n : ℕ}
    (hn : P (ρ.state n)) (d : ℕ) : (∃ m, n ≤ m ∧ Q (ρ.state m)) ∨
      P (ρ.state (n + d)) ∧ rank (ρ.state (n + d)) ≤ rank (ρ.state n) := by
  induction d with
  | zero => exact .inr ⟨hn, le_rfl⟩
  | succ d ih =>
    rcases ih with hreached | ⟨hP, hrank⟩
    · exact .inl hreached
    · rcases hstep _ _ _ hP (ρ.step (n + d)) with hQ | ⟨hP', hrank'⟩
      · exact .inl ⟨n + d + 1, by omega, hQ⟩
      · exact .inr ⟨hP', hrank'.trans hrank⟩

/-- **The rule of the rank.**  In `P` no step raises the rank and the events in `H` lower it; they
    come again until the run is in `Q`. -/
theorem leadsTo_of_rank (rank : σ → ℕ) (hfair : ρ.ComesAgain P H)
    (hstep : ∀ s e s', P s → M.step s e s' → Q s' ∨ P s' ∧ rank s' ≤ rank s)
    (hlower : ∀ s e s', P s → H e → M.step s e s' → Q s' ∨ rank s' < rank s) :
    ρ.LeadsTo P Q := by
  intro n hn
  obtain ⟨r, hr⟩ : ∃ r, r = rank (ρ.state n) := ⟨_, rfl⟩
  -- on the rank at the time we look from
  induction r using Nat.strong_induction_on generalizing n with
  | _ r ih =>
    obtain ⟨m, hnm, hH⟩ := hfair n hn
    obtain ⟨d, rfl⟩ := Nat.exists_eq_add_of_le hnm
    rcases reached_or_kept hstep hn d with hreached | ⟨hP, hrank⟩
    · exact hreached
    · rcases hlower _ _ _ hP hH (ρ.step (n + d)) with hQ | hlt
      · exact ⟨n + d + 1, by omega, hQ⟩
      · rcases hstep _ _ _ hP (ρ.step (n + d)) with hQ | ⟨hP', -⟩
        · exact ⟨n + d + 1, by omega, hQ⟩
        · obtain ⟨k, hk, hQ⟩ := ih _ (by omega) (n + d + 1) hP' rfl
          exact ⟨k, by omega, hQ⟩

end Course

end Machine

end PopcornTime
