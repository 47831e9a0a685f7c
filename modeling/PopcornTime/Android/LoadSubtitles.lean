import PopcornTime.Lib.Machine

namespace PopcornTime.Android

open PopcornTime

/-!
# Android watch — waiting for subtitles

`WatchTask.loadSubtitles` subscribes to the subtitles of the video and waits on its own monitor
until the subscription notifies it.  No flag says that the notification has been sent: one that
comes before the thread is in `wait()` is lost.

* `LoadSubtitles.next` — the thread, the deliveries of the subscription and interrupts, in any
  order.
* `LoadSubtitles.Hung` — the thread waits for a subscription that has terminated.
* `notHung_of_guard` — when that cannot happen.
-/

namespace LoadSubtitles

/-- What the thread meets: the subtitles there are already, a provider for the type of the video,
    and whether that fails before `subscribe` is back. -/
structure Circumstances where
  hasItems : Bool
  hasProvider : Bool
  failsAtOnce : Bool

/-- Where the thread is: before and behind `subscribe`, behind the check for an interrupt, in
    `wait()`, back, or out by an `InterruptedException`. -/
inductive Point
  | start
  | subscribed
  | checked
  | waiting
  | returned
  | interrupted
deriving DecidableEq, Repr

/-- `opened` until `onError` or `onComplete` is delivered, or it is disposed of. -/
inductive Subscription
  | none
  | opened
  | terminated
  | disposed
deriving DecidableEq, Repr

structure State where
  point : Point
  subscription : Subscription
  /-- `getLangSubtitlesChoiceProperty().getItems()` is not null. -/
  hasItems : Bool
  /-- The interrupt status of the thread. -/
  interrupt : Bool
deriving DecidableEq, Repr

inductive Event
  /-- The thread goes on. -/
  | advance
  /-- `onNext` -/
  | reply
  /-- `onError` or `onComplete`, which both notify. -/
  | terminate
  | interrupt

/-- `notify` of the monitor: it wakes the thread if it waits. -/
def notify (s : State) : State :=
  if s.point = .waiting then { s with point := .returned } else s

/-- `loadSubtitles` up to `wait()`. -/
def advance (c : Circumstances) (s : State) : Option State :=
  match s.point with
  | .start =>
    if s.hasItems || !c.hasProvider then some { s with point := .returned }
    else if c.failsAtOnce then
      -- `Observable.error` notifies on this very thread
      some { s with point := .subscribed, subscription := .terminated }
    else some { s with point := .subscribed, subscription := .opened }
  | .subscribed =>
    if s.interrupt then
      let subscription := if s.subscription = .opened then .disposed else s.subscription
      some { s with point := .interrupted, subscription := subscription, interrupt := false }
    else some { s with point := .checked }
  | .checked =>
    if s.interrupt then some { s with point := .interrupted, interrupt := false }
    else some { s with point := .waiting }
  | .waiting | .returned | .interrupted => none

/-- The code that runs on an event; `none` where the event cannot happen. -/
def next (c : Circumstances) (s : State) : Event → Option State
  | .advance => advance c s
  | .reply => if s.subscription = .opened then some { s with hasItems := true } else none
  | .terminate =>
    if s.subscription = .opened then some (notify { s with subscription := .terminated }) else none
  | .interrupt =>
    if s.point = .waiting then some { s with point := .interrupted, interrupt := false }
    else some { s with interrupt := true }

/-- The machine of all runs of `loadSubtitles`. -/
def machine (c : Circumstances) : Machine State Event :=
  Machine.ofFun (fun s => s = ⟨.start, .none, c.hasItems, false⟩) (next c)

/-! ### Hanging -/

/-- The thread waits, and nothing will notify it. -/
def Hung (s : State) : Prop :=
  s.point = .waiting ∧ s.subscription = .terminated

/-- The thread does not enter `wait()` once the subscription has terminated. -/
def WaitGuard (s : State) : Event → Prop
  | .advance => s.point = .checked → s.interrupt = false → s.subscription ≠ .terminated
  | .reply | .terminate | .interrupt => True

variable {c : Circumstances} {s s' : State}

theorem notify_point_ne_waiting (s : State) : (notify s).point ≠ .waiting := by
  unfold notify
  split_ifs with h
  · simp
  · exact h

/-- A step of the thread hangs it exactly if it enters `wait()` too late. -/
theorem advance_hung_iff (hstep : advance c s = some s') :
    ¬Hung s' ↔ WaitGuard s .advance := by
  unfold advance at hstep
  cases hp : s.point with
  | start | subscribed =>
    -- the thread does not wait behind these
    simp only [hp] at hstep
    refine iff_of_true ?_ (by simp [WaitGuard, hp])
    split_ifs at hstep
    all_goals
      rw [Option.some.injEq] at hstep
      subst hstep
      simp [Hung]
  | checked =>
    simp only [hp] at hstep
    cases hi : s.interrupt with
    -- an interrupted thread throws instead of waiting
    | true =>
      simp only [hi, if_true, Option.some.injEq] at hstep
      subst hstep
      simp [Hung, WaitGuard, hi]
    -- it waits, and is hung if nobody will notify any more
    | false =>
      simp only [hi, Bool.false_eq_true, if_false, Option.some.injEq] at hstep
      subst hstep
      simp [Hung, WaitGuard, hp, hi]
  | waiting | returned | interrupted => simp [hp] at hstep

/-- **One event** keeps the thread from hanging exactly if it meets the guard. -/
theorem notHung_iff {e : Event} (hnot : ¬Hung s) (hstep : next c s e = some s') :
    ¬Hung s' ↔ WaitGuard s e := by
  cases e with
  | advance => exact advance_hung_iff hstep
  | reply =>
    simp only [next] at hstep
    split_ifs at hstep
    rw [Option.some.injEq] at hstep
    subst hstep
    exact iff_of_true hnot trivial
  -- the notification reaches a thread that waits
  | terminate =>
    simp only [next] at hstep
    split_ifs at hstep
    rw [Option.some.injEq] at hstep
    subst hstep
    exact iff_of_true (fun h => notify_point_ne_waiting _ h.1) trivial
  | interrupt =>
    simp only [next] at hstep
    refine iff_of_true ?_ trivial
    split_ifs at hstep with hp
    · rw [Option.some.injEq] at hstep
      subst hstep
      simp [Hung]
    · rw [Option.some.injEq] at hstep
      subst hstep
      exact fun h => hp h.1

theorem waitGuard_exact (c : Circumstances) :
    (machine c).ExactGuard (fun _ => True) WaitGuard (fun s => ¬Hung s) where
  init_iff := by
    rintro s rfl
    simp [Hung]
  step_iff := fun _ _ _ _ hnot hstep => notHung_iff hnot hstep

/-- Nothing but an interrupt ends a hang. -/
theorem hung_next {e : Event} (h : Hung s) (he : e ≠ .interrupt) (hstep : next c s e = some s') :
    Hung s' := by
  obtain ⟨hp, hs⟩ := h
  cases e with
  | advance => simp [next, advance, hp] at hstep
  | reply | terminate => simp [next, hs] at hstep
  | interrupt => exact absurd rfl he

/-- An interrupt between `subscribe` and the end makes the thread throw. -/
theorem interrupted_of_interrupt :
    (s.point = .waiting → next c s .interrupt = some s' → s'.point = .interrupted) ∧
    (s.interrupt = true → s.point = .subscribed ∨ s.point = .checked →
      next c s .advance = some s' → s'.point = .interrupted) := by
  constructor
  · intro hp hstep
    simp only [next, hp, if_true, Option.some.injEq] at hstep
    subst hstep
    rfl
  · rintro hi (hp | hp) hstep
    all_goals
      simp only [next, advance, hp, hi, if_true, Option.some.injEq] at hstep
      subst hstep
      rfl

/-- The notification of a waiting thread lets it return. -/
theorem returned_of_terminate (hp : s.point = .waiting) (hstep : next c s .terminate = some s') :
    s'.point = .returned := by
  simp only [next] at hstep
  split_ifs at hstep
  rw [Option.some.injEq] at hstep
  subst hstep
  simp [notify, hp]

/-- **Waiting for subtitles.**  In every run that meets the guard the thread never waits for a
    subscription that has terminated; the guard is exact, and a thread that hangs hangs until it is
    interrupted.  In every run a notification lets a waiting thread return, and an interrupt behind
    `subscribe` makes it throw. -/
theorem notHung_of_guard (c : Circumstances) :
    (∀ s, (machine c).RunUnder (fun _ => True) WaitGuard s → ¬Hung s) ∧
    (machine c).ExactGuard (fun _ => True) WaitGuard (fun s => ¬Hung s) ∧
    (∀ s e s', Hung s → e ≠ .interrupt → (machine c).step s e s' → Hung s') ∧
    (∀ s s', s.point = .waiting → (machine c).step s .terminate s' → s'.point = .returned) ∧
    (∀ s s', s.point = .waiting → (machine c).step s .interrupt s' → s'.point = .interrupted) ∧
    ∀ s s', s.interrupt = true → s.point = .subscribed ∨ s.point = .checked →
      (machine c).step s .advance s' → s'.point = .interrupted :=
  ⟨fun _ => (waitGuard_exact c).runUnder, waitGuard_exact c, fun _ _ _ => hung_next,
    fun _ _ => returned_of_terminate, fun _ _ => interrupted_of_interrupt.1,
    fun _ _ => interrupted_of_interrupt.2⟩

/-- The reply is delivered before the thread waits. -/
theorem hung_of_early_reply :
    ∃ s, (machine ⟨false, true, false⟩).Reachable s ∧ Hung s := by
  have hrun : (Machine.runEvents (next ⟨false, true, false⟩) ⟨.start, .none, false, false⟩
      [.advance, .reply, .terminate, .advance, .advance]).map
        (fun s => (s.point, s.subscription)) = some (.waiting, .terminated) := by
    decide
  obtain ⟨s, hreach, heq⟩ := Machine.Reachable.exists_of_runEvents
    (show (machine ⟨false, true, false⟩).Reachable _ from .start rfl) hrun
  simp only [Prod.mk.injEq] at heq
  exact ⟨s, hreach, heq⟩

end LoadSubtitles

end PopcornTime.Android
