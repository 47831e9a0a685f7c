import Mathlib.Logic.Basic
import Mathlib.Order.Basic

namespace PopcornTime

/-!
# Labelled machines and guarded runs

A `Machine` is a set of start states and a labelled step relation.  Its runs are collected in
one inductive predicate, `RunUnder A G`: the states reached by runs that start in a state
meeting `A` and whose every step meets the guard `G`.  `Reachable` is the special case without
a guard.

* `RunUnder.invariant` — the induction over a run, stated once.
* `ExactGuard` — a guard that is met by a step exactly when the step keeps a property, on
  reachable states.  `ExactGuard.runUnder` carries the property through every guarded run.
* `EachCall` — what every one of a sequence of calls meets; `eachCall_iff`, which replaces it by
  something else that comes to the same under an invariant, and `eachCall_map`, for what looks at a
  part of the state.
-/

/-- A labelled machine: where a run may start, and what one event may do to a state. -/
structure Machine (σ ε : Type*) where
  init : σ → Prop
  step : σ → ε → σ → Prop

namespace Machine

variable {σ ε : Type*} {M : Machine σ ε} {A : σ → Prop} {G : σ → ε → Prop}

/-- The machine of a partial transition function. -/
def ofFun (init : σ → Prop) (next : σ → ε → Option σ) : Machine σ ε where
  init := init
  step := fun s e s' => next s e = some s'

/-- The state after a list of events, or `none` where one of them cannot happen. -/
def runEvents (next : σ → ε → Option σ) (s : σ) (events : List ε) : Option σ :=
  events.foldlM next s

/-- States reached by runs that start in `A` and whose every step meets the guard `G`. -/
inductive RunUnder (M : Machine σ ε) (A : σ → Prop) (G : σ → ε → Prop) : σ → Prop
  | start {s : σ} : M.init s → A s → RunUnder M A G s
  | next {s s' : σ} {e : ε} : RunUnder M A G s → G s e → M.step s e s' → RunUnder M A G s'

/-- States reached by any run. -/
def Reachable (M : Machine σ ε) : σ → Prop :=
  M.RunUnder (fun _ => True) (fun _ _ => True)

/-- **The induction over a run.**  What holds at the start and is kept by every guarded step
    holds in every state a guarded run reaches. -/
theorem RunUnder.invariant {I : σ → Prop} (hinit : ∀ s, M.init s → A s → I s)
    (hstep : ∀ s e s', I s → G s e → M.step s e s' → I s') {s : σ}
    (h : M.RunUnder A G s) : I s := by
  induction h with
  | start hi ha => exact hinit _ hi ha
  | next _ hg hs ih => exact hstep _ _ _ ih hg hs

/-- Weaker guards admit more runs. -/
theorem RunUnder.mono {A' : σ → Prop} {G' : σ → ε → Prop} (hA : ∀ s, M.init s → A s → A' s)
    (hG : ∀ s e, G s e → G' s e) {s : σ} (h : M.RunUnder A G s) : M.RunUnder A' G' s := by
  induction h with
  | start hi ha => exact .start hi (hA _ hi ha)
  | next _ hg hs ih => exact .next ih (hG _ _ hg) hs

theorem RunUnder.reachable {s : σ} (h : M.RunUnder A G s) : M.Reachable s :=
  h.mono (fun _ _ _ => trivial) (fun _ _ _ => trivial)

/-- The induction over a run, with the reachability of the state before a step at hand: what is
    known of reachable states can then be used in the step. -/
theorem RunUnder.invariant_reachable {I : σ → Prop} (hinit : ∀ s, M.init s → A s → I s)
    (hstep : ∀ s e s', M.Reachable s → I s → G s e → M.step s e s' → I s') {s : σ}
    (h : M.RunUnder A G s) : I s := by
  induction h with
  | start hi ha => exact hinit _ hi ha
  | next hrun hg hs ih => exact hstep _ _ _ hrun.reachable ih hg hs

theorem Reachable.start {s : σ} (h : M.init s) : M.Reachable s :=
  RunUnder.start h trivial

theorem Reachable.next {s s' : σ} {e : ε} (h : M.Reachable s) (hs : M.step s e s') :
    M.Reachable s' :=
  RunUnder.next h trivial hs

/-- What a list of events leads to is reachable. -/
theorem Reachable.of_runEvents {init : σ → Prop} {next : σ → ε → Option σ} {s s' : σ}
    {events : List ε} (hs : (ofFun init next).Reachable s)
    (h : runEvents next s events = some s') : (ofFun init next).Reachable s' := by
  induction events generalizing s with
  | nil =>
    simp only [runEvents, List.foldlM_nil, Option.pure_def, Option.some.injEq] at h
    exact h ▸ hs
  | cons e es ih =>
    simp only [runEvents, List.foldlM_cons, Option.bind_eq_bind, Option.bind_eq_some_iff] at h
    obtain ⟨s₁, h₁, h₂⟩ := h
    exact ih (hs.next h₁) h₂

/-- A run given by its events reaches a state that shows what the events compute. -/
theorem Reachable.exists_of_runEvents {β : Type*} {init : σ → Prop} {next : σ → ε → Option σ}
    {s : σ} {events : List ε} {f : σ → β} {b : β} (hs : (ofFun init next).Reachable s)
    (h : (runEvents next s events).map f = some b) :
    ∃ s', (ofFun init next).Reachable s' ∧ f s' = b := by
  obtain ⟨s', hs', hf⟩ := Option.map_eq_some_iff.mp h
  exact ⟨s', hs.of_runEvents hs', hf⟩

/-- A transition that is made under a condition. -/
theorem of_ite_eq_some {α : Type*} {p : Prop} [Decidable p] {a b : α}
    (h : (if p then some a else none) = some b) : p ∧ b = a := by
  rw [Option.ite_none_right_eq_some] at h
  exact ⟨h.1, (Option.some.inj h.2).symm⟩

/-- The transitions that meet a guard. -/
def guarded (G : σ → ε → Prop) [∀ s e, Decidable (G s e)] (next : σ → ε → Option σ) (s : σ) (e : ε) :
    Option σ :=
  if G s e then next s e else none

/-- A guarded run given by its events. -/
theorem RunUnder.exists_of_runEvents [∀ s e, Decidable (G s e)] {β : Type*} {init : σ → Prop}
    {next : σ → ε → Option σ} {s : σ} {events : List ε} {f : σ → β} {b : β}
    (hs : (ofFun init next).RunUnder A G s)
    (h : (runEvents (guarded G next) s events).map f = some b) :
    ∃ s', (ofFun init next).RunUnder A G s' ∧ f s' = b := by
  obtain ⟨s', hs', hf⟩ := Option.map_eq_some_iff.mp h
  refine ⟨s', ?_, hf⟩
  clear h hf
  induction events generalizing s with
  | nil =>
    simp only [runEvents, List.foldlM_nil, Option.pure_def, Option.some.injEq] at hs'
    exact hs' ▸ hs
  | cons e es ih =>
    simp only [runEvents, List.foldlM_cons, Option.bind_eq_bind, Option.bind_eq_some_iff] at hs'
    obtain ⟨s₁, h₁, h₂⟩ := hs'
    rw [guarded, Option.ite_none_right_eq_some] at h₁
    exact ih (hs.next h₁.1 h₁.2) h₂

/-- The unguarded form of the induction over a run. -/
theorem Reachable.invariant {I : σ → Prop} (hinit : ∀ s, M.init s → I s)
    (hstep : ∀ s e s', I s → M.step s e s' → I s') {s : σ} (h : M.Reachable s) : I s :=
  RunUnder.invariant (fun s hi _ => hinit s hi) (fun s e s' hI _ hs => hstep s e s' hI hs) h

theorem Reachable.invariant_reachable {I : σ → Prop} (hinit : ∀ s, M.init s → I s)
    (hstep : ∀ s e s', M.Reachable s → I s → M.step s e s' → I s') {s : σ}
    (h : M.Reachable s) : I s :=
  RunUnder.invariant_reachable (fun s hi _ => hinit s hi)
    (fun s e s' hr hI _ hs => hstep s e s' hr hI hs) h

/-- The machine that goes on from a state. -/
def goingOn (M : Machine σ ε) (s : σ) : Machine σ ε where
  init := fun s' => s' = s
  step := M.step

/-- What holds of a state and is kept by every step holds wherever the run goes on to. -/
theorem Reachable.goingOn_invariant {I : σ → Prop} {s s' : σ} (h : (M.goingOn s).Reachable s')
    (hs : I s) (hstep : ∀ s e s', I s → M.step s e s' → I s') : I s' :=
  Reachable.invariant (M := M.goingOn s) (fun _ hinit => hinit ▸ hs) hstep h

/-- A run that goes on from a reachable state. -/
theorem Reachable.trans {s s' : σ} (h : M.Reachable s) (h' : (M.goingOn s).Reachable s') :
    M.Reachable s' :=
  h'.goingOn_invariant h fun _ _ _ hreach hstep => hreach.next hstep

/-- Going on from a reachable state, with the reachability of the state before a step at hand. -/
theorem Reachable.goingOn_invariant_reachable {I : σ → Prop} {s s' : σ}
    (h : (M.goingOn s).Reachable s') (hr : M.Reachable s) (hs : I s)
    (hstep : ∀ s e s', M.Reachable s → I s → M.step s e s' → I s') : I s' :=
  Reachable.invariant_reachable (M := M.goingOn s) (fun _ hinit => hinit ▸ hs)
    (fun _ _ _ hr' => hstep _ _ _ (hr.trans hr')) h

/-- `A` and `G` say exactly when the property `P` is met at the start and kept by a step. -/
structure ExactGuard (M : Machine σ ε) (A : σ → Prop) (G : σ → ε → Prop) (P : σ → Prop) :
    Prop where
  init_iff : ∀ s, M.init s → (P s ↔ A s)
  step_iff : ∀ s e s', M.Reachable s → P s → M.step s e s' → (P s' ↔ G s e)

/-- A property with an exact guard holds in every state a guarded run reaches. -/
theorem ExactGuard.runUnder {P : σ → Prop} (h : M.ExactGuard A G P) {s : σ}
    (hrun : M.RunUnder A G s) : P s := by
  refine hrun.invariant_reachable ?_ ?_
  · intro s hi ha
    exact (h.init_iff s hi).mpr ha
  · intro s e s' hreach hs hg hstep
    exact (h.step_iff s e s' hreach hs hstep).mpr hg

end Machine

/-! ### Sequences of calls -/

section Calls

variable {σ ε : Type*} {next : σ → ε → σ}

/-- Every call of a sequence meets `R`, in the state the ones before it have left. -/
def EachCall (next : σ → ε → σ) (R : σ → ε → Prop) : σ → List ε → Prop
  | _, [] => True
  | s, e :: es => R s e ∧ EachCall next R (next s e) es

/-- What the calls behind others meet. -/
theorem EachCall.of_append {R : σ → ε → Prop} {s : σ} {es es' : List ε}
    (h : EachCall next R s (es ++ es')) : EachCall next R (es.foldl next s) es' := by
  induction es generalizing s with
  | nil => exact h
  | cons e es ih => exact ih h.2

/-- **Replacing what is asked of the calls.**  It may be done under an invariant that a call keeps
    which meets what is asked. -/
theorem eachCall_iff {I : σ → Prop} {R R' : σ → ε → Prop} (hiff : ∀ s e, I s → (R s e ↔ R' s e))
    (hkeep : ∀ s e, I s → R s e → I (next s e)) {s : σ} (hs : I s) (es : List ε) :
    EachCall next R s es ↔ EachCall next R' s es := by
  induction es generalizing s with
  | nil => exact Iff.rfl
  | cons e es ih =>
    constructor
    · rintro ⟨he, hes⟩
      exact ⟨(hiff s e hs).mp he, (ih (hkeep s e hs he)).mp hes⟩
    · rintro ⟨he, hes⟩
      have he' := (hiff s e hs).mpr he
      exact ⟨he', (ih (hkeep s e hs he')).mpr hes⟩

/-- What looks at a part of the state only, which goes on by itself. -/
theorem eachCall_map {τ : Type*} {f : σ → τ} {next' : τ → ε → τ} {R : τ → ε → Prop}
    (hf : ∀ s e, f (next s e) = next' (f s) e) (s : σ) (es : List ε) :
    EachCall next (fun s e => R (f s) e) s es ↔ EachCall next' R (f s) es := by
  induction es generalizing s with
  | nil => exact Iff.rfl
  | cons e es ih =>
    rw [EachCall, EachCall, ih, hf]

end Calls

end PopcornTime
