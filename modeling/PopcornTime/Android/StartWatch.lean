import Mathlib.Logic.Function.Basic
import PopcornTime.Android.WatchSessions

namespace PopcornTime.Android

open PopcornTime

/-!
# Android watch — whose events a listener handles

A live task swallows a `startWatch`: the listener joins the task that runs, whatever video that is
for.  And a task that has been let go of keeps its listeners.

* `RecordedSessions` — the sessions with a record of what the listeners asked for and were told.
* `ListenersRight` — every listener of a task that may still tell it something is registered for
  the video of that task.
* `sessionsRight_of_guard` — when listeners are told of their own video only.
-/

variable {Info Listener : Type*}

/-- An event a listener handled: the video it was last registered for by `startWatch`, and the
    video of the task the event came from. -/
structure HandledEvent (Info Listener : Type*) where
  listener : Listener
  message : HandlerMessage
  registered : Option Info
  watchInfo : Option Info
deriving DecidableEq

/-- The sessions, with a record that no call reads. -/
structure RecordedSessions (Info Listener : Type*) where
  service : WatchSessions Info Listener
  /-- The video a listener was last registered for by `startWatch`. -/
  registered : Listener → Option Info
  handled : List (HandledEvent Info Listener)
  /-- For every return of `startWatch` the video asked for, and the video of the live task. -/
  returned : List (Info × Option Info)

namespace RecordedSessions

/-- The calls of the listeners, the threads of the tasks and the main looper. -/
inductive Event (Info Listener : Type*)
  | startWatch (watchInfo : Info) (listener : Option Listener)
  | addWatchListener (listener : Option Listener)
  | removeWatchListener (listener : Option Listener)
  | stopWatch
  | seekWatch
  | thread (i : ℕ) (e : ThreadEvent)
  | handleMessage

/-- The video of the live task of the service. -/
def runningInfo (s : WatchSessions Info Listener) : Option Info :=
  (s.current.filter WatchSession.isAlive).map WatchSession.watchInfo

/-- `startWatch` has been called for a listener. -/
def register [DecidableEq Listener] (registered : Listener → Option Info) (watchInfo : Info)
    (listener : Option Listener) : Listener → Option Info :=
  match listener with
  | none => registered
  | some l => Function.update registered l (some watchInfo)

/-- What the listeners of a delivery have handled. -/
def handledBy (s : RecordedSessions Info Listener) (delivery : Delivery Listener) :
    List (HandledEvent Info Listener) :=
  delivery.listeners.map fun l =>
    { listener := l
      message := delivery.message
      registered := s.registered l
      watchInfo := (s.service.tasks[delivery.task]?).map WatchSession.watchInfo }

/-- What happens on an event; `none` where it cannot happen. -/
def next [DecidableEq Listener] (s : RecordedSessions Info Listener) :
    Event Info Listener → Option (RecordedSessions Info Listener)
  | .startWatch watchInfo listener =>
    let service := s.service.startWatch watchInfo listener
    some { s with
      service := service
      registered := register s.registered watchInfo listener
      -- what is returned is the running task, whichever video it is of
      returned := s.returned ++ [(watchInfo, runningInfo service)] }
  | .addWatchListener listener =>
    some { s with service := s.service.addWatchListener listener }
  | .removeWatchListener listener =>
    some { s with service := s.service.removeWatchListener listener }
  | .stopWatch => some { s with service := s.service.stopWatch }
  | .seekWatch => some { s with service := s.service.seekWatch }
  | .thread i e => (s.service.threadNext i e).map fun service => { s with service := service }
  | .handleMessage =>
    s.service.handleMessage.map fun (delivery, service) =>
      { s with service := service, handled := s.handled ++ s.handledBy delivery }

/-- Before the first watch. -/
def start : RecordedSessions Info Listener where
  service := .init
  registered := fun _ => none
  handled := []
  returned := []

/-- The machine of all sequences of calls, with the threads and the looper in between. -/
def machine (Info Listener : Type*) [DecidableEq Listener] :
    Machine (RecordedSessions Info Listener) (Event Info Listener) :=
  Machine.ofFun (fun s => s = start) next

/-- Every event that a listener registered for a video handled comes from a task for that video,
    and every `startWatch` returned with a live task for its video. -/
structure SessionsRight (s : RecordedSessions Info Listener) : Prop where
  handled : ∀ r ∈ s.handled, ∀ info, r.registered = some info → r.watchInfo = some info
  returned : ∀ r ∈ s.returned, r.2 = some r.1

/-- A listener of a task is registered for the video of the task, or for none, or the task is
    quiet. -/
def ListenersRight (registered : Listener → Option Info) (s : WatchSessions Info Listener) :
    Prop :=
  ∀ i t, s.tasks[i]? = some t → ∀ l ∈ t.listeners, ∀ info, registered l = some info →
    t.watchInfo = info ∨ s.Quiet i

/-- The condition of an event.
    * `startWatch`: a task that is alive is for the same video, and no task for another video that
      may still send lists the listener.
    * `addWatchListener`: the current task is for the video the listener is registered for, unless
      the task is quiet or the listener registered for none. -/
def SessionGuard (s : RecordedSessions Info Listener) : Event Info Listener → Prop
  | .startWatch watchInfo listener =>
    (∀ t, s.service.current = some t → t.isAlive = true → t.watchInfo = watchInfo) ∧
    ∀ l, listener = some l → ∀ i t, s.service.tasks[i]? = some t → l ∈ t.listeners →
      t.watchInfo = watchInfo ∨ s.service.Quiet i
  | .addWatchListener listener =>
    ∀ l, listener = some l → ∀ info, s.registered l = some info → ∀ i t,
      s.service.watchTask = some i → s.service.tasks[i]? = some t →
      t.watchInfo = info ∨ s.service.Quiet i
  | _ => True

/-! ### Who listens to what -/

variable {s s' : WatchSessions Info Listener} {registered : Listener → Option Info} {info : Info}
  {listener : Option Listener} {l : Listener} {i j : ℕ}

theorem ListenersRight.frame (h : ListenersRight registered s) (hframe : s.Frame s') :
    ListenersRight registered s' := by
  intro i t' ht' l hl info hinfo
  obtain ⟨t, ht, hsame, hlisteners⟩ := hframe.task i t' ht'
  rw [hsame]
  exact (h i t ht l (hlisteners l hl) info hinfo).imp_right (hframe.quiet i)

variable {r r' : RecordedSessions Info Listener}

/-- The record and the listeners are right. -/
def AllRight (r : RecordedSessions Info Listener) : Prop :=
  r.SessionsRight ∧ ListenersRight r.registered r.service

/-- A step that no listener and no `startWatch` takes part in. -/
theorem AllRight.frame (h : r.AllRight) (hframe : r.service.Frame s') :
    AllRight { r with service := s' } :=
  ⟨⟨h.1.handled, h.1.returned⟩, h.2.frame hframe⟩

/-- What the looper hands to right listeners is right. -/
theorem AllRight.handleMessage {delivery : Delivery Listener} (h : r.AllRight)
    (hstep : r.service.handleMessage = some (delivery, s')) :
    AllRight { r with service := s', handled := r.handled ++ r.handledBy delivery } := by
  have hframe := WatchSessions.frame_handleMessage hstep
  -- what was handled before is a prefix; the rest comes from one message
  refine ⟨⟨fun event hevent info hinfo => ?_, h.1.returned⟩, h.2.frame hframe⟩
  rcases List.mem_append.mp hevent with hold | hnew
  · exact h.1.handled event hold info hinfo
  · obtain ⟨l, hl, rfl⟩ := List.mem_map.mp hnew
    unfold WatchSessions.handleMessage at hstep
    split at hstep
    · cases hstep
    · rename_i i m rest hlooper
      simp only [Option.some.injEq, Prod.mk.injEq] at hstep
      obtain ⟨rfl, -⟩ := hstep
      simp only [WatchSessions.listenersOf] at hl hinfo ⊢
      cases ht : r.service.tasks[i]? with
      | none => simp [ht] at hl
      | some t =>
        rw [ht] at hl
        rcases h.2 i t ht l hl info hinfo with hright | hquiet
        · simp [hright]
        · -- a quiet task has no message left
          exact absurd (hlooper ▸ List.mem_cons_self) (hquiet.looper m)

variable [DecidableEq Listener]

/-- A listener that is registered for a video from now on. -/
theorem listenersRight_register_iff (h : ListenersRight registered s) :
    ListenersRight (register registered info listener) s ↔
      ∀ l, listener = some l → ∀ i t, s.tasks[i]? = some t → l ∈ t.listeners →
        t.watchInfo = info ∨ s.Quiet i := by
  cases listener with
  | none => exact iff_of_true h (by simp)
  | some l =>
    constructor
    · intro hnew l' hl' i t ht hl
      rw [Option.some.injEq] at hl'
      subst hl'
      exact hnew i t ht l hl info (by simp [register])
    · intro hguard i t ht l' hl' info' hinfo'
      -- only the listener that is registered has a new video
      by_cases hl : l' = l
      · subst hl
        simp only [register, Function.update_self, Option.some.injEq] at hinfo'
        subst hinfo'
        exact hguard l' rfl i t ht hl'
      · rw [register, Function.update_of_ne hl] at hinfo'
        exact h i t ht l' hl' info' hinfo'

/-- A changed list of listeners makes no task quiet or unquiet. -/
theorem quiet_update_addWatchListener :
    (s.update i (·.addWatchListener listener)).Quiet j ↔ s.Quiet j := by
  have hphase : (∀ t, (s.update i (·.addWatchListener listener)).tasks[j]? = some t →
      t.phase.Done) ↔ ∀ t, s.tasks[j]? = some t → t.phase.Done := by
    rw [WatchSessions.getElem?_update]
    cases s.tasks[j]? with
    | none => simp
    | some t => by_cases hij : i = j <;> simp [hij]
  exact ⟨fun h => ⟨h.looper, hphase.mp h.done⟩, fun h => ⟨h.looper, hphase.mpr h.done⟩⟩

/-- A listener joins the current task. -/
theorem listenersRight_addWatchListener_iff :
    ListenersRight registered (s.addWatchListener listener) ↔
      ListenersRight registered s ∧
      ∀ l, listener = some l → ∀ info, registered l = some info → ∀ i t,
        s.watchTask = some i → s.tasks[i]? = some t → t.watchInfo = info ∨ s.Quiet i := by
  unfold WatchSessions.addWatchListener WatchSessions.updateCurrent
  cases hw : s.watchTask with
  | none => simp
  | some c =>
    -- the tasks behind the call: only the listeners of the current one grow
    have htask : ∀ i t, s.tasks[i]? = some t → ∃ t',
        (s.update c (·.addWatchListener listener)).tasks[i]? = some t' ∧
        t'.watchInfo = t.watchInfo ∧
        ∀ l, l ∈ t'.listeners ↔ l ∈ t.listeners ∨ (c = i ∧ listener = some l) := by
      intro i t ht
      rw [WatchSessions.getElem?_update, ht, Option.map_some]
      refine ⟨_, rfl, ?_⟩
      split_ifs with hci
      · exact ⟨WatchSession.watchInfo_addWatchListener,
          fun l => by simp [WatchSession.mem_addWatchListener, hci]⟩
      · exact ⟨rfl, fun l => by simp [hci]⟩
    constructor
    · intro hnew
      have hall : ∀ i t, s.tasks[i]? = some t → ∀ l,
          l ∈ t.listeners ∨ (c = i ∧ listener = some l) → ∀ info, registered l = some info →
          t.watchInfo = info ∨ s.Quiet i := by
        intro i t ht l hl info hinfo
        obtain ⟨t', ht', hsame, hlisteners⟩ := htask i t ht
        have hright := hnew i t' ht' l ((hlisteners l).mpr hl) info hinfo
        rwa [hsame, quiet_update_addWatchListener] at hright
      refine ⟨fun i t ht l hl => hall i t ht l (.inl hl), ?_⟩
      intro l hl info hinfo i t hi ht
      exact hall i t ht l (.inr ⟨Option.some.inj hi, hl⟩) info hinfo
    · rintro ⟨h, hguard⟩ i t' ht' l hl info hinfo
      rw [quiet_update_addWatchListener]
      have hsome : ∃ t, s.tasks[i]? = some t := by
        rw [WatchSessions.getElem?_update, Option.map_eq_some_iff] at ht'
        exact ⟨_, ht'.choose_spec.1⟩
      obtain ⟨t, ht⟩ := hsome
      obtain ⟨u, hu, hsame, hlisteners⟩ := htask i t ht
      -- it is the task that was there, with perhaps one listener more
      obtain rfl : u = t' := Option.some.inj (hu.symm.trans ht')
      rw [hsame]
      rcases (hlisteners l).mp hl with hold | ⟨rfl, hnew⟩
      · exact h i t ht l hold info hinfo
      · exact hguard l hnew info hinfo c t rfl ht

/-- A new task is made, and its one listener is registered for its video. -/
theorem listenersRight_addTask_iff
    (hregistered : ∀ l, listener = some l → registered l = some info) :
    ListenersRight registered
        (s.addTask ((WatchSession.new info).addWatchListener listener)) ↔
      ListenersRight registered s := by
  constructor
  · intro hnew i t ht l hl info' hinfo'
    have hright := hnew i t (WatchSessions.getElem?_addTask.mpr (.inl ht)) l hl info' hinfo'
    rwa [WatchSessions.quiet_addTask ht] at hright
  · intro h i t' ht' l hl info' hinfo'
    rcases WatchSessions.getElem?_addTask.mp ht' with ht | ⟨-, rfl⟩
    · rw [WatchSessions.quiet_addTask ht]
      exact h i t' ht l hl info' hinfo'
    · -- the new task has the one listener, and its video
      rcases WatchSession.mem_addWatchListener.mp hl with hold | hnew
      · simp [WatchSession.new] at hold
      · rw [hregistered l hnew, Option.some.injEq] at hinfo'
        exact .inl (by simp [WatchSession.new, hinfo'])

/-! ### One event -/

/-- What `startWatch` leaves running. -/
theorem runningInfo_startWatch :
    runningInfo (s.startWatch info listener) = some info ↔
      ∀ t, s.current = some t → t.isAlive = true → t.watchInfo = info := by
  rcases s.isWatchAlive_cases with ⟨i, t, hw, ht, ha, halive, hc⟩ | ⟨hdead, hnone⟩
  · have hcurrent : (s.startWatch info listener).current = some (t.addWatchListener listener) := by
      simp [WatchSessions.startWatch, halive, WatchSessions.updateCurrent, hw,
        WatchSessions.current, WatchSessions.update, ht]
    simp [runningInfo, hcurrent, hc, ha, Option.filter]
  · have hcurrent : (s.startWatch info listener).current =
        some ((WatchSession.new info).addWatchListener listener) := by
      simp [WatchSessions.startWatch, hdead, WatchSessions.current]
    refine iff_of_true ?_ fun t ht ha => ?_
    · simp [runningInfo, hcurrent, WatchSession.isAlive, WatchSession.new]
    · rw [hnone t ht] at ha
      cases ha

/-- **A start** keeps the listeners right, exactly if it meets the guard. -/
theorem startWatch_iff (h : ListenersRight registered s) :
    (runningInfo (s.startWatch info listener) = some info ∧
        ListenersRight (register registered info listener) (s.startWatch info listener)) ↔
      (∀ t, s.current = some t → t.isAlive = true → t.watchInfo = info) ∧
        ∀ l, listener = some l → ∀ i t, s.tasks[i]? = some t → l ∈ t.listeners →
          t.watchInfo = info ∨ s.Quiet i := by
  rw [runningInfo_startWatch]
  refine and_congr_right fun hsame => ?_
  have hregistered : ∀ l, listener = some l →
      register registered info listener l = some info := by
    rintro l rfl
    simp [register]
  rw [← listenersRight_register_iff h]
  rcases s.isWatchAlive_cases with ⟨i, t, hw, ht, ha, halive, hc⟩ | ⟨hdead, -⟩
  · -- the listener joins a task for the same video
    rw [WatchSessions.startWatch_of_alive halive, listenersRight_addWatchListener_iff]
    refine and_iff_left_of_imp fun _ l hl info' hinfo' j u hj hu => ?_
    rw [hregistered l hl, Option.some.injEq] at hinfo'
    rw [hw, Option.some.injEq] at hj
    subst hj
    obtain rfl : u = t := Option.some.inj (hu.symm.trans ht)
    exact .inl (hinfo' ▸ hsame u hc ha)
  · -- a new task, for the video of the listener
    rw [WatchSessions.startWatch_of_dead hdead, listenersRight_addTask_iff hregistered]

/-- **One event** keeps everything right exactly if it meets the guard. -/
theorem allRight_iff {e : Event Info Listener} (h : r.AllRight) (hstep : r.next e = some r') :
    r'.AllRight ↔ r.SessionGuard e := by
  cases e with
  | startWatch watchInfo listener =>
    simp only [next, Option.some.injEq] at hstep
    subst hstep
    -- the pair that is recorded is about the current task
    refine Iff.trans ?_ (startWatch_iff h.2)
    constructor
    · intro hright
      exact ⟨hright.1.returned _ (List.mem_append_right _ (List.mem_singleton.mpr rfl)), hright.2⟩
    · rintro ⟨hrunning, hlisteners⟩
      refine ⟨⟨h.1.handled, fun p hp => ?_⟩, hlisteners⟩
      rcases List.mem_append.mp hp with hold | hnew
      · exact h.1.returned p hold
      · rw [List.mem_singleton] at hnew
        rw [hnew]
        exact hrunning
  | addWatchListener listener =>
    simp only [next, Option.some.injEq] at hstep
    subst hstep
    constructor
    · intro hright
      exact (listenersRight_addWatchListener_iff.mp hright.2).2
    · intro hguard
      exact ⟨⟨h.1.handled, h.1.returned⟩,
        listenersRight_addWatchListener_iff.mpr ⟨h.2, hguard⟩⟩
  -- the other events leave videos and listeners, or take listeners away
  | removeWatchListener listener =>
    simp only [next, Option.some.injEq] at hstep
    subst hstep
    exact iff_of_true (h.frame (WatchSessions.frame_removeWatchListener listener)) trivial
  | stopWatch =>
    simp only [next, Option.some.injEq] at hstep
    subst hstep
    exact iff_of_true (h.frame WatchSessions.frame_stopWatch) trivial
  | seekWatch =>
    simp only [next, Option.some.injEq] at hstep
    subst hstep
    exact iff_of_true (h.frame WatchSessions.frame_seekWatch) trivial
  | thread i e =>
    obtain ⟨service, hthread, rfl⟩ := Option.map_eq_some_iff.mp hstep
    exact iff_of_true (h.frame (WatchSessions.frame_threadNext hthread)) trivial
  | handleMessage =>
    obtain ⟨⟨delivery, service⟩, hhandle, rfl⟩ := Option.map_eq_some_iff.mp hstep
    exact iff_of_true (h.handleMessage hhandle) trivial

theorem sessionGuard_exact (Info Listener : Type*) [DecidableEq Listener] :
    (machine Info Listener).ExactGuard (fun _ => True) SessionGuard AllRight where
  init_iff := by
    rintro r rfl
    refine iff_of_true ⟨⟨?_, ?_⟩, ?_⟩ trivial
    · simp [start]
    · simp [start]
    · intro i t ht
      simp [start, WatchSessions.init] at ht
  step_iff := fun _ _ _ _ hright hstep => allRight_iff hright hstep

/-! ### A wrong listener is told something wrong -/

/-- The first of the messages that wait is told to the listeners of its task. -/
def tell (r : RecordedSessions Info Listener) (p : ℕ × HandlerMessage)
    (rest : List (ℕ × HandlerMessage)) : RecordedSessions Info Listener :=
  { r with
    service := { r.service with looper := rest }
    handled := r.handled ++ r.handledBy ⟨p.1, p.2, r.service.listenersOf p.1⟩ }

/-- A task sends a message and is in its next phase. -/
def send (r : RecordedSessions Info Listener) (i : ℕ) (m : HandlerMessage) (phase : WatchPhase) :
    RecordedSessions Info Listener :=
  { r with
    service := (r.service.update i fun t => { t with phase := phase }).sendMessage i m }

/-- A waiting message is told to a listener of its task. -/
theorem exists_wrong_of_waiting {m : HandlerMessage} {t : WatchSession Info Listener}
    (hm : (i, m) ∈ r.service.looper) (ht : r.service.tasks[i]? = some t) (hl : l ∈ t.listeners)
    (hregistered : r.registered l = some info) (hwrong : t.watchInfo ≠ info) :
    ∃ r', ((machine Info Listener).goingOn r).Reachable r' ∧ ¬r'.SessionsRight := by
  -- the messages before it are told first
  induction hlooper : r.service.looper generalizing r with
  | nil => simp [hlooper] at hm
  | cons p rest ih =>
    have hstep : r.next .handleMessage = some (r.tell p rest) := by
      simp [next, WatchSessions.handleMessage, hlooper, tell]
    have hreach := (Machine.Reachable.start (M := (machine Info Listener).goingOn r) rfl).next hstep
    rw [hlooper] at hm
    rcases List.mem_cons.mp hm with rfl | hrest
    · refine ⟨_, hreach, fun hright => ?_⟩
      have hinfo := hright.handled ⟨l, m, r.registered l, some t.watchInfo⟩ ?_ info hregistered
      · exact hwrong (Option.some.inj hinfo)
      · refine List.mem_append_right _ (List.mem_map.mpr ⟨l, ?_, ?_⟩)
        · simpa [WatchSessions.listenersOf, ht] using hl
        · simp [ht]
    · obtain ⟨r', hgo, hnot⟩ := ih (r := r.tell p rest) hrest ht hregistered rfl
      exact ⟨r', hreach.trans hgo, hnot⟩

/-- A listener that is not right may be told of another video. -/
theorem exists_wrong_of_not_listenersRight (h : ¬ListenersRight r.registered r.service) :
    ∃ r', ((machine Info Listener).goingOn r).Reachable r' ∧ ¬r'.SessionsRight := by
  simp only [ListenersRight, not_forall, not_or, exists_prop] at h
  obtain ⟨i, t, ht, l, hl, info, hregistered, hwrong, hnot⟩ := h
  by_cases hwaiting : ∃ m, (i, m) ∈ r.service.looper
  · obtain ⟨m, hm⟩ := hwaiting
    exact exists_wrong_of_waiting hm ht hl hregistered hwrong
  · have hdone : ¬t.phase.Done := by
      intro hdone
      refine hnot ⟨fun m hm => hwaiting ⟨m, hm⟩, fun u hu => ?_⟩
      obtain rfl : u = t := Option.some.inj (hu.symm.trans ht)
      exact hdone
    -- a task that is not done has a message to send
    obtain ⟨m, phase, hsend⟩ := WatchPhase.exists_send_of_not_done hdone
    have hstep : r.next (.thread i (.send m)) = some (r.send i m phase) := by
      simp [next, WatchSessions.threadNext, ht, hsend, send]
    have htask : (r.send i m phase).service.tasks[i]? =
        some { t with phase := phase, sent := t.sent ++ [m] } := by
      simp [send, WatchSessions.sendMessage, WatchSessions.update, ht]
    have hm : (i, m) ∈ (r.send i m phase).service.looper :=
      List.mem_append_right _ (List.mem_singleton.mpr rfl)
    have hreach := (Machine.Reachable.start (M := (machine Info Listener).goingOn r) rfl).next hstep
    obtain ⟨r', hgo, hnotRight⟩ :=
      exists_wrong_of_waiting (r := r.send i m phase) hm htask hl hregistered hwrong
    exact ⟨r', hreach.trans hgo, hnotRight⟩

/-- **Watch sessions.**  In every run that meets the guard a listener registered for a video handles
    events of that video only, and `startWatch` returns with a live task for its video.  The guard
    is exact: a step that breaks it has returned with another task, or leaves a listener that some
    continuation tells of another video. -/
theorem sessionsRight_of_guard (Info Listener : Type*) [DecidableEq Listener] :
    (∀ r, (machine Info Listener).RunUnder (fun _ => True) SessionGuard r → r.SessionsRight) ∧
    (machine Info Listener).ExactGuard (fun _ => True) SessionGuard AllRight ∧
    ∀ r : RecordedSessions Info Listener, ¬r.AllRight →
      ∃ r', ((machine Info Listener).goingOn r).Reachable r' ∧ ¬r'.SessionsRight := by
  refine ⟨fun r h => ((sessionGuard_exact Info Listener).runUnder h).1,
    sessionGuard_exact Info Listener, fun r h => ?_⟩
  by_cases hright : r.SessionsRight
  · exact exists_wrong_of_not_listenersRight fun hlisteners => h ⟨hright, hlisteners⟩
  · exact ⟨r, .start rfl, hright⟩

/-- A dialog for a second video joins the live task of a first one, and is told that the first video
    is prepared. -/
theorem told_of_another_video :
    ∃ r, (machine String String).Reachable r ∧
      ⟨"dialog of B", .videoPrepared "A.mp4", some "B", some "A"⟩ ∈ r.handled ∧
      ("B", some "A") ∈ r.returned := by
  let send (m : HandlerMessage) : List (Event String String) := [.thread 0 (.send m), .handleMessage]
  have hrun : (Machine.runEvents next start
      ([.startWatch "A" (some "dialog of A")] ++ send .metadataLoad ++
        [.startWatch "B" (some "dialog of B")] ++ send (.downloadStarted "A.torrent") ++
        send (.videoPrepared "A.mp4"))).map (fun r => (r.handled.getLast?, r.returned)) =
      some (some ⟨"dialog of B", .videoPrepared "A.mp4", some "B", some "A"⟩,
        [("A", some "A"), ("B", some "A")]) := by
    decide
  obtain ⟨r, hreach, heq⟩ := Machine.Reachable.exists_of_runEvents
    (show (machine String String).Reachable _ from .start rfl) hrun
  simp only [Prod.mk.injEq] at heq
  refine ⟨r, hreach, List.mem_of_getLast? heq.1, ?_⟩
  rw [heq.2]
  simp

end RecordedSessions

end PopcornTime.Android
