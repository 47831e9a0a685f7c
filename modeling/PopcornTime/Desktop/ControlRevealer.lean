import Mathlib.Tactic.SplitIfs
import PopcornTime.Lib.Machine

namespace PopcornTime.Desktop

open PopcornTime

/-!
# Desktop — the controls over the video

`ControlRevealer` reveals the controls for a time, or as long as a counter is positive.  A call that
finds the timer running takes the controls for revealed.

* `ControlRevealer.next` — its slots, and the timer.
* `ControlRevealer.Right` — the timer runs only under revealed controls, and what else is meant.
* `ControlRevealer.right_of_guard` — when that is kept.
-/

/-- `ControlRevealer`: its fields, whether its timer is active, and whether the last of its signals
    was `revealed`. -/
structure ControlRevealer where
  m_enabled : Bool
  m_permanent : UInt32
  timerActive : Bool
  controlsRevealed : Bool
deriving DecidableEq, Repr

namespace ControlRevealer

/-- The constructor. -/
def new : ControlRevealer where
  m_enabled := false
  m_permanent := 0
  timerActive := false
  controlsRevealed := false

def reveal (r : ControlRevealer) : ControlRevealer :=
  { r with controlsRevealed := true }

def conceal (r : ControlRevealer) : ControlRevealer :=
  { r with timerActive := false, controlsRevealed := false }

def temporaryReveal (r : ControlRevealer) : ControlRevealer :=
  if r.m_permanent ≠ 0 ∨ r.m_enabled = false then r
  -- the timer starts anew
  else if r.timerActive then r
  else { r with timerActive := true }.reveal

def enableReveal (r : ControlRevealer) : ControlRevealer :=
  { r with m_enabled := true, m_permanent := 0 }.temporaryReveal

def disableReveal (r : ControlRevealer) : ControlRevealer :=
  { r with m_enabled := false }.conceal

def startPermanentReveal (r : ControlRevealer) : ControlRevealer :=
  let r := { r with timerActive := false, m_permanent := r.m_permanent + 1 }
  if r.m_enabled then r.reveal else r

def stopPermanentReveal (r : ControlRevealer) : ControlRevealer :=
  let r := if r.m_permanent ≠ 0 then { r with m_permanent := r.m_permanent - 1 } else r
  if r.m_permanent = 0 ∧ r.m_enabled = true then { r with timerActive := true } else r

def onTimeout (r : ControlRevealer) : ControlRevealer :=
  { r with timerActive := false }.conceal

/-- The slots, and `timeout` of the timer. -/
inductive Event
  | enableReveal
  | disableReveal
  | temporaryReveal
  | startPermanentReveal
  | stopPermanentReveal
  | timeout
deriving DecidableEq, Repr

/-- One event; the timer expires only while it is active. -/
def next (r : ControlRevealer) : Event → Option ControlRevealer
  | .enableReveal => some r.enableReveal
  | .disableReveal => some r.disableReveal
  | .temporaryReveal => some r.temporaryReveal
  | .startPermanentReveal => some r.startPermanentReveal
  | .stopPermanentReveal => some r.stopPermanentReveal
  | .timeout => if r.timerActive then some r.onTimeout else none

def machine : Machine ControlRevealer Event :=
  .ofFun (· = new) next

/-! ### What is meant -/

/-- The timer runs only to hide controls that are revealed for a time; under a positive counter they
    are revealed, and behind a `temporaryReveal` in any case. -/
structure Right (r : ControlRevealer) : Prop where
  timer : r.timerActive = true →
    r.m_enabled = true ∧ r.m_permanent = 0 ∧ r.controlsRevealed = true
  permanent : r.m_enabled = true → r.m_permanent ≠ 0 → r.controlsRevealed = true
  temporary : r.m_enabled = true → r.temporaryReveal.controlsRevealed = true

/-- The condition of an event: a `stopPermanentReveal` too many does not find the controls enabled
    and concealed. -/
def Guard (r : ControlRevealer) (e : Event) : Prop :=
  e = .stopPermanentReveal → r.m_enabled = true → r.m_permanent = 0 → r.controlsRevealed = true

variable {r r' : ControlRevealer} {e : Event}

/-- The third part follows. -/
theorem Right.of_timer
    (timer : r.timerActive = true →
      r.m_enabled = true ∧ r.m_permanent = 0 ∧ r.controlsRevealed = true)
    (permanent : r.m_enabled = true → r.m_permanent ≠ 0 → r.controlsRevealed = true) :
    r.Right where
  timer := timer
  permanent := permanent
  temporary henabled := by
    unfold temporaryReveal
    split_ifs with hreturns hactive
    · exact permanent henabled (hreturns.resolve_right (by simp [henabled]))
    · exact (timer hactive).2.2
    · rfl

/-- Where the timer is stopped, only the counter matters. -/
theorem Right.of_inactive (htimer : r.timerActive = false)
    (permanent : r.m_enabled = true → r.m_permanent ≠ 0 → r.controlsRevealed = true) : r.Right :=
  .of_timer (fun hactive => absurd (htimer.symm.trans hactive) nofun) permanent

theorem right_new : new.Right :=
  .of_inactive rfl nofun

theorem Right.temporaryReveal (h : r.Right) : r.temporaryReveal.Right := by
  unfold ControlRevealer.temporaryReveal
  split_ifs with hreturns hactive
  · exact h
  · exact h
  · obtain ⟨hpermanent, henabled⟩ := not_or.mp hreturns
    refine .of_timer (fun _ => ⟨?_, not_not.mp hpermanent, rfl⟩) fun _ _ => rfl
    exact Bool.not_eq_false _ ▸ henabled

theorem Right.enableReveal (h : r.Right) : r.enableReveal.Right := by
  refine Right.temporaryReveal (.of_timer (fun hactive => ?_) fun _ hpermanent => ?_)
  · exact ⟨rfl, rfl, (h.timer hactive).2.2⟩
  · exact absurd rfl hpermanent

theorem right_disableReveal : r.disableReveal.Right :=
  .of_inactive rfl nofun

theorem right_startPermanentReveal : r.startPermanentReveal.Right := by
  unfold startPermanentReveal
  dsimp only
  split_ifs with henabled
  · exact .of_inactive rfl fun _ _ => rfl
  · exact .of_inactive rfl fun h => absurd h henabled

theorem Right.onTimeout (h : r.Right) (hactive : r.timerActive = true) : r.onTimeout.Right :=
  .of_inactive rfl fun _ hpermanent => absurd (h.timer hactive).2.1 hpermanent

/-- The counter is positive where it is not the last call. -/
theorem right_stopPermanentReveal_iff (h : r.Right) :
    r.stopPermanentReveal.Right ↔ r.Guard .stopPermanentReveal := by
  unfold Guard stopPermanentReveal
  dsimp only
  constructor
  · intro hright _ henabled hpermanent
    have htimer := hright.timer
    simp only [hpermanent, henabled, ne_eq, not_true_eq_false, if_false, and_self, if_true] at htimer
    exact (htimer trivial).2.2
  · intro hguard
    have hrevealed : r.m_enabled = true → r.controlsRevealed = true := by
      intro henabled
      by_cases hpermanent : r.m_permanent = 0
      · exact hguard rfl henabled hpermanent
      · exact h.permanent henabled hpermanent
    split_ifs with hpositive hlast hlast
    · exact .of_timer (fun _ => ⟨hlast.2, hlast.1, hrevealed hlast.2⟩)
        fun henabled _ => hrevealed henabled
    · refine .of_inactive ?_ fun henabled _ => hrevealed henabled
      exact Bool.eq_false_iff.mpr fun hactive => hpositive (h.timer hactive).2.1
    · exact .of_timer (fun _ => ⟨hlast.2, hlast.1, hrevealed hlast.2⟩)
        fun henabled _ => hrevealed henabled
    · exact h

theorem right_iff (h : r.Right) (hstep : r.next e = some r') : r'.Right ↔ r.Guard e := by
  cases e with
  | stopPermanentReveal =>
    obtain rfl := Option.some.inj hstep
    exact right_stopPermanentReveal_iff h
  | enableReveal =>
    obtain rfl := Option.some.inj hstep
    exact iff_of_true h.enableReveal nofun
  | disableReveal =>
    obtain rfl := Option.some.inj hstep
    exact iff_of_true right_disableReveal nofun
  | temporaryReveal =>
    obtain rfl := Option.some.inj hstep
    exact iff_of_true h.temporaryReveal nofun
  | startPermanentReveal =>
    obtain rfl := Option.some.inj hstep
    exact iff_of_true right_startPermanentReveal nofun
  | timeout =>
    obtain ⟨hactive, rfl⟩ := Machine.of_ite_eq_some hstep
    exact iff_of_true (h.onTimeout hactive) nofun

theorem guard_exact : machine.ExactGuard (fun _ => True) Guard Right where
  init_iff := by
    rintro _ rfl
    exact iff_of_true right_new trivial
  step_iff _ _ _ _ h hstep := right_iff h hstep

/-- **The controls.**  In every run whose steps meet the guard they are as is meant in every state,
    and from such a state of any run a step that does not meet it leads to one where they are not. -/
theorem right_of_guard (r : ControlRevealer) :
    (machine.RunUnder (fun _ => True) Guard r → r.Right) ∧
      machine.ExactGuard (fun _ => True) Guard Right :=
  ⟨guard_exact.runUnder, guard_exact⟩

/-- The mouse is over the controls when the video starts, and leaves them when they have been hidden:
    it can be moved without revealing them. -/
theorem unbalanced_stop_conceals :
    ∃ r, machine.Reachable r ∧ r.m_enabled = true ∧ r.timerActive = true ∧
      r.controlsRevealed = false ∧ r.temporaryReveal.controlsRevealed = false := by
  have hrun : Machine.runEvents next new
      [.startPermanentReveal, .enableReveal, .timeout, .stopPermanentReveal] =
        some ⟨true, 0, true, false⟩ := by
    decide
  exact ⟨_, Machine.Reachable.of_runEvents (.start rfl) hrun, rfl, rfl, rfl, rfl⟩

end ControlRevealer

end PopcornTime.Desktop
