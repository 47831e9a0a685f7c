import Mathlib.Data.List.Basic
import Mathlib.Tactic.SplitIfs
import PopcornTime.Lib.Machine

namespace PopcornTime.Android

open PopcornTime

/-!
# Android watch — tasks, handlers and listeners

`TorrentService` knows one `watchTask`, but a task it has let go of may still run and send.  So a
`WatchSessions` keeps every task that was ever made, the index of the current one and the messages
that wait in the main looper.

* `startWatch`, `addWatchListener`, `removeWatchListener`, `stopWatch`, `seekWatch` — the calls.
* `threadNext` — what the thread of a task does to the rest of the app.
* `handleMessage` — the callback of `WatchHandler`: a message goes to whoever is in the list of its
  handler by then.
-/

/-- The messages of `WatchHandler`, with the strings they carry. -/
inductive HandlerMessage
  | error
  | metadataLoad
  | subtitlesLoaded (subPath : String)
  | downloadStarted (torrent : String)
  | videoPrepared (filePath : String)
  | updateProgress
  | downloadFinished
  | bufferingFinished
deriving DecidableEq, Repr

/-- How far the thread of a task has come: before `METADATA_LOAD`, before `DOWNLOAD_STARTED`, before
    `VIDEO_PREPARED`, behind it, in the `catch` of a `WatchException` behind `onTaskStopped`, with
    nothing more to send, or dead. -/
inductive WatchPhase
  | started
  | loading
  | preparing
  | playing
  | failing
  | leaving
  | ended
deriving DecidableEq, Repr

namespace WatchPhase

/-- Where a thread is behind a message, if it can send it.  `loadSubtitles` answers null, so
    `SUBTITLES_LOADED` is never sent. -/
def send : WatchPhase → HandlerMessage → Option WatchPhase
  | .started, .metadataLoad => some .loading
  | .loading, .downloadStarted _ => some .preparing
  | .preparing, .updateProgress => some .preparing
  | .preparing, .videoPrepared _ => some .playing
  | .playing, .updateProgress => some .playing
  | .playing, .bufferingFinished => some .playing
  | .playing, .downloadFinished => some .leaving
  | .failing, .error => some .leaving
  | _, _ => none

/-- The thread sends nothing more. -/
def Done (p : WatchPhase) : Prop :=
  p = .leaving ∨ p = .ended

/-- A thread that is not done can send something. -/
theorem exists_send_of_not_done {p : WatchPhase} (h : ¬p.Done) : ∃ m p', p.send m = some p' := by
  cases p with
  | started => exact ⟨.metadataLoad, _, rfl⟩
  | loading => exact ⟨.downloadStarted "", _, rfl⟩
  | preparing => exact ⟨.updateProgress, _, rfl⟩
  | playing => exact ⟨.updateProgress, _, rfl⟩
  | failing => exact ⟨.error, _, rfl⟩
  | leaving => exact absurd (.inl rfl) h
  | ended => exact absurd (.inr rfl) h

/-- What a thread sends it sends before it is done. -/
theorem not_done_of_send {p p' : WatchPhase} {m : HandlerMessage} (h : p.send m = some p') :
    ¬p.Done := by
  rintro (rfl | rfl) <;> simp [send] at h

end WatchPhase

variable {Info Listener : Type*}

/-- A `WatchTask` and its handler. -/
structure WatchSession (Info Listener : Type*) where
  watchInfo : Info
  phase : WatchPhase
  interrupted : Bool
  listeners : List Listener
  /-- The messages handed to the handler so far. -/
  sent : List HandlerMessage

namespace WatchSession

def isAlive (t : WatchSession Info Listener) : Bool :=
  decide (t.phase ≠ .ended)

/-- `WatchTask.addWatchListener`; `none` is the null listener. -/
def addWatchListener [DecidableEq Listener] (listener : Option Listener)
    (t : WatchSession Info Listener) : WatchSession Info Listener :=
  match listener with
  | none => t
  | some l => if l ∈ t.listeners then t else { t with listeners := t.listeners ++ [l] }

/-- `WatchTask.removeWatchListener` -/
def removeWatchListener [DecidableEq Listener] (listener : Option Listener)
    (t : WatchSession Info Listener) : WatchSession Info Listener :=
  match listener with
  | none => t
  | some l => { t with listeners := t.listeners.erase l }

/-- The constructor. -/
def new (watchInfo : Info) : WatchSession Info Listener where
  watchInfo := watchInfo
  phase := .started
  interrupted := false
  listeners := []
  sent := []

variable [DecidableEq Listener] {t : WatchSession Info Listener} {l : Listener}
  {listener : Option Listener}

@[simp] theorem watchInfo_addWatchListener :
    (t.addWatchListener listener).watchInfo = t.watchInfo := by
  cases listener with
  | none => rfl
  | some l =>
    simp only [addWatchListener]
    split_ifs <;> rfl

@[simp] theorem phase_addWatchListener : (t.addWatchListener listener).phase = t.phase := by
  cases listener with
  | none => rfl
  | some l =>
    simp only [addWatchListener]
    split_ifs <;> rfl

@[simp] theorem sent_addWatchListener : (t.addWatchListener listener).sent = t.sent := by
  cases listener with
  | none => rfl
  | some l =>
    simp only [addWatchListener]
    split_ifs <;> rfl

@[simp] theorem isAlive_addWatchListener : (t.addWatchListener listener).isAlive = t.isAlive := by
  simp [isAlive]

/-- A listener that is added is heard from then on. -/
theorem mem_addWatchListener :
    l ∈ (t.addWatchListener listener).listeners ↔ l ∈ t.listeners ∨ listener = some l := by
  cases listener with
  | none => simp [addWatchListener]
  | some l' =>
    simp only [addWatchListener]
    split_ifs with hmem
    · constructor
      · exact Or.inl
      · rintro (h | h)
        · exact h
        · exact Option.some.inj h ▸ hmem
    · simp [eq_comm]

@[simp] theorem watchInfo_removeWatchListener :
    (t.removeWatchListener listener).watchInfo = t.watchInfo := by
  cases listener <;> rfl

@[simp] theorem phase_removeWatchListener : (t.removeWatchListener listener).phase = t.phase := by
  cases listener <;> rfl

@[simp] theorem sent_removeWatchListener : (t.removeWatchListener listener).sent = t.sent := by
  cases listener <;> rfl

/-- A removal adds none. -/
theorem mem_of_mem_removeWatchListener (h : l ∈ (t.removeWatchListener listener).listeners) :
    l ∈ t.listeners := by
  cases listener with
  | none => exact h
  | some l' => exact List.mem_of_mem_erase h

end WatchSession

/-- The service as far as watching goes, with the tasks it has let go of. -/
structure WatchSessions (Info Listener : Type*) where
  tasks : List (WatchSession Info Listener)
  /-- The index of `watchTask`; `none` is null. -/
  watchTask : Option ℕ
  /-- The messages in the queue of the main looper, each with the task that sent it. -/
  looper : List (ℕ × HandlerMessage)

/-- What a thread does that the rest of the app can see. -/
inductive ThreadEvent
  | send (message : HandlerMessage)
  /-- A `WatchException`, up to the end of `onTaskStopped`. -/
  | fail
  /-- The thread notices its interrupt. -/
  | interrupted
  /-- `run` returns. -/
  | exit

/-- What `handleMessage` tells the listeners. -/
structure Delivery (Listener : Type*) where
  task : ℕ
  message : HandlerMessage
  listeners : List Listener

namespace WatchSessions

/-- Before the first watch. -/
def init : WatchSessions Info Listener where
  tasks := []
  watchTask := none
  looper := []

/-- `watchTask` -/
def current (s : WatchSessions Info Listener) : Option (WatchSession Info Listener) :=
  s.watchTask.bind (fun i => s.tasks[i]?)

def isWatchAlive (s : WatchSessions Info Listener) : Bool :=
  s.current.any WatchSession.isAlive

/-- The task with the index is changed. -/
def update (s : WatchSessions Info Listener) (i : ℕ)
    (f : WatchSession Info Listener → WatchSession Info Listener) :
    WatchSessions Info Listener :=
  { s with tasks := s.tasks.modify i f }

/-- The current task is changed, if there is one. -/
def updateCurrent (s : WatchSessions Info Listener)
    (f : WatchSession Info Listener → WatchSession Info Listener) :
    WatchSessions Info Listener :=
  match s.watchTask with
  | none => s
  | some i => s.update i f

/-- `WatchHandler.sendMessage` of a task. -/
def sendMessage (s : WatchSessions Info Listener) (i : ℕ) (message : HandlerMessage) :
    WatchSessions Info Listener :=
  { s.update i (fun t => { t with sent := t.sent ++ [message] }) with
    looper := s.looper ++ [(i, message)] }

/-- `WatchHandler.removeMessages` of a task. -/
def removeMessages (s : WatchSessions Info Listener) (i : ℕ) : WatchSessions Info Listener :=
  { s with looper := s.looper.filter (fun p => decide (p.1 ≠ i)) }

def startWatch [DecidableEq Listener] (s : WatchSessions Info Listener) (watchInfo : Info)
    (listener : Option Listener) : WatchSessions Info Listener :=
  if s.isWatchAlive then s.updateCurrent (·.addWatchListener listener)
  else
    { s with
      tasks := s.tasks ++ [(WatchSession.new watchInfo).addWatchListener listener]
      watchTask := some s.tasks.length }

def addWatchListener [DecidableEq Listener] (s : WatchSessions Info Listener)
    (listener : Option Listener) : WatchSessions Info Listener :=
  s.updateCurrent (·.addWatchListener listener)

def removeWatchListener [DecidableEq Listener] (s : WatchSessions Info Listener)
    (listener : Option Listener) : WatchSessions Info Listener :=
  s.updateCurrent (·.removeWatchListener listener)

/-- `stopWatch`: the interrupt also removes the messages of the task. -/
def stopWatch (s : WatchSessions Info Listener) : WatchSessions Info Listener :=
  match s.watchTask with
  | none => s
  | some i =>
    { (s.update i (fun t => { t with interrupted := true })).removeMessages i with
      watchTask := none }

/-- `seekWatch` of a task in its loop: a progress message, and the task prepares no longer. -/
def seekWatch (s : WatchSessions Info Listener) : WatchSessions Info Listener :=
  match s.watchTask, s.current with
  | some i, some t =>
    if t.phase = .preparing ∨ t.phase = .playing then
      (s.update i (fun t => { t with phase := .playing })).sendMessage i .updateProgress
    else s
  | _, _ => s

/-- What the thread of a task does next; `none` where it cannot. -/
def threadNext (s : WatchSessions Info Listener) (i : ℕ) (e : ThreadEvent) :
    Option (WatchSessions Info Listener) :=
  (s.tasks[i]?).bind fun t =>
    match e with
    | .send message =>
      (t.phase.send message).map fun phase =>
        (s.update i (fun t => { t with phase := phase })).sendMessage i message
    | .fail =>
      -- the messages of the task that are still in the queue are dropped
      if t.phase = .loading then
        some ((s.update i (fun t => { t with phase := .failing })).removeMessages i)
      else none
    | .interrupted =>
      if t.interrupted then some (s.update i (fun t => { t with phase := .ended })) else none
    | .exit =>
      if t.phase = .leaving then some (s.update i (fun t => { t with phase := .ended })) else none

/-- The listeners of the handler of a task. -/
def listenersOf (s : WatchSessions Info Listener) (i : ℕ) : List Listener :=
  (s.tasks[i]?).elim [] WatchSession.listeners

/-- The main looper takes the next message, and its handler tells the listeners. -/
def handleMessage (s : WatchSessions Info Listener) :
    Option (Delivery Listener × WatchSessions Info Listener) :=
  match s.looper with
  | [] => none
  | (i, message) :: rest => some (⟨i, message, s.listenersOf i⟩, { s with looper := rest })

/-! ### The frame of each call -/

variable {s s' : WatchSessions Info Listener} {i j : ℕ}
  {f : WatchSession Info Listener → WatchSession Info Listener}

/-- Only the task with the index changes. -/
theorem getElem?_update :
    (s.update i f).tasks[j]? = (s.tasks[j]?).map (fun t => if i = j then f t else t) :=
  List.getElem?_modify f i s.tasks j

/-- A task sends a message, and its phase changes. -/
theorem getElem?_sendMessage {message : HandlerMessage} {phase : WatchPhase} :
    ((s.update i (fun t => { t with phase := phase })).sendMessage i message).tasks[j]? =
      (s.tasks[j]?).map (fun t =>
        if i = j then { t with phase := phase, sent := t.sent ++ [message] } else t) := by
  show ((s.tasks.modify i _).modify i _)[j]? = _
  rw [List.modify_modify_eq, List.getElem?_modify]
  rfl

/-- The live task of the service, if there is one. -/
theorem isWatchAlive_cases (s : WatchSessions Info Listener) :
    (∃ i t, s.watchTask = some i ∧ s.tasks[i]? = some t ∧ t.isAlive = true ∧
      s.isWatchAlive = true ∧ s.current = some t) ∨
    (s.isWatchAlive = false ∧ ∀ t, s.current = some t → t.isAlive = false) := by
  unfold WatchSessions.isWatchAlive WatchSessions.current
  cases hw : s.watchTask with
  | none => exact .inr (by simp)
  | some i =>
    cases ht : s.tasks[i]? with
    | none => exact .inr (by simp [ht])
    | some t =>
      cases ha : t.isAlive with
      | true => exact .inl ⟨i, t, rfl, ht, ha, by simp [ht, ha], by simp [ht]⟩
      | false => exact .inr (by simp [ht, ha])

/-- The task sends nothing more, and nothing of it is waiting. -/
structure Quiet (s : WatchSessions Info Listener) (i : ℕ) : Prop where
  looper : ∀ m, (i, m) ∉ s.looper
  done : ∀ t, s.tasks[i]? = some t → t.phase.Done

/-- Every task is for the video it was for and has no listener it did not have, and no task is
    quiet no more. -/
structure Frame (s s' : WatchSessions Info Listener) : Prop where
  task : ∀ (i : ℕ) (t' : WatchSession Info Listener), s'.tasks[i]? = some t' →
    ∃ t, s.tasks[i]? = some t ∧ t'.watchInfo = t.watchInfo ∧ ∀ l ∈ t'.listeners, l ∈ t.listeners
  quiet : ∀ i, s.Quiet i → s'.Quiet i

/-- Nothing happens. -/
theorem Frame.refl (s : WatchSessions Info Listener) : Frame s s :=
  ⟨fun _ t ht => ⟨t, ht, rfl, fun _ hl => hl⟩, fun _ hquiet => hquiet⟩

/-- One task is changed, and the queue. -/
theorem Frame.of_update (htasks : s'.tasks = (s.update i f).tasks)
    (hinfo : ∀ t, (f t).watchInfo = t.watchInfo)
    (hlisteners : ∀ t, ∀ l ∈ (f t).listeners, l ∈ t.listeners)
    (hlooper : ∀ j m, (j, m) ∈ s'.looper → (j, m) ∈ s.looper ∨ (j = i ∧ ¬s.Quiet i))
    (hphase : ∀ t, s.tasks[i]? = some t → t.phase.Done → (f t).phase.Done) : Frame s s' where
  task := by
    intro j t' ht'
    rw [htasks, getElem?_update, Option.map_eq_some_iff] at ht'
    obtain ⟨t, ht, rfl⟩ := ht'
    refine ⟨t, ht, ?_⟩
    split_ifs
    · exact ⟨hinfo t, hlisteners t⟩
    · exact ⟨rfl, fun _ hl => hl⟩
  quiet := by
    intro j hquiet
    refine ⟨fun m hm => ?_, fun t' ht' => ?_⟩
    · -- a task that was quiet sends nothing
      rcases hlooper j m hm with hold | ⟨rfl, hnot⟩
      · exact hquiet.looper m hold
      · exact hnot hquiet
    · rw [htasks, getElem?_update, Option.map_eq_some_iff] at ht'
      obtain ⟨t, ht, rfl⟩ := ht'
      split_ifs with hij
      · exact hphase t (hij ▸ ht) (hquiet.done t ht)
      · exact hquiet.done t ht

/-- A listener goes. -/
theorem frame_removeWatchListener [DecidableEq Listener] (listener : Option Listener) :
    Frame s (s.removeWatchListener listener) := by
  unfold removeWatchListener updateCurrent
  cases hw : s.watchTask with
  | none => exact Frame.refl s
  | some i =>
    exact Frame.of_update rfl (fun t => by simp)
      (fun t l hl => WatchSession.mem_of_mem_removeWatchListener hl) (fun j m hm => .inl hm)
      (fun t _ hdone => by simpa using hdone)

/-- `stopWatch` takes the messages of its task out of the queue. -/
theorem frame_stopWatch : Frame s s.stopWatch := by
  unfold stopWatch
  cases hw : s.watchTask with
  | none => exact Frame.refl s
  | some i =>
    exact Frame.of_update (i := i) rfl (fun t => rfl) (fun t l hl => hl)
      (fun j m hm => .inl (List.mem_of_mem_filter hm)) (fun t _ hdone => hdone)

/-- A task that is not quiet sends a message, and its phase changes. -/
theorem frame_sendMessage {message : HandlerMessage} {phase : WatchPhase} (hnot : ¬s.Quiet i)
    (hdone : ∀ t, s.tasks[i]? = some t → ¬t.phase.Done) :
    Frame s ((s.update i (fun t => { t with phase := phase })).sendMessage i message) := by
  refine Frame.of_update (i := i)
    (f := fun t => { t with phase := phase, sent := t.sent ++ [message] }) ?_
    (fun t => rfl) (fun t l hl => hl) (fun j m hm => ?_) (fun t ht hphase => ?_)
  · exact List.modify_modify_eq _ _ _ _
  · rcases List.mem_append.mp hm with hold | hnew
    · exact .inl hold
    · rw [List.mem_singleton, Prod.mk.injEq] at hnew
      exact .inr ⟨hnew.1, hnot⟩
  · exact absurd hphase (hdone t ht)

/-- A task that is sought in is not quiet. -/
theorem frame_seekWatch : Frame s s.seekWatch := by
  unfold seekWatch current
  cases hw : s.watchTask with
  | none => exact Frame.refl s
  | some i =>
    cases hc : s.tasks[i]? with
    | none => simpa [hc] using Frame.refl s
    | some t =>
      simp only [Option.bind_some, hc]
      split_ifs with hphase
      · -- a seek is taken in the loop only, where the task is not done
        have hdone : ¬t.phase.Done := by
          rintro (hdone | hdone) <;> simp [hdone] at hphase
        refine frame_sendMessage (fun hquiet => hdone (hquiet.done t hc)) fun t' ht' => ?_
        rw [hc, Option.some.injEq] at ht'
        exact ht' ▸ hdone
      · exact Frame.refl s

/-- What a thread does. -/
theorem frame_threadNext {e : ThreadEvent} (hstep : s.threadNext i e = some s') : Frame s s' := by
  obtain ⟨t, ht, hstep⟩ := Option.bind_eq_some_iff.mp hstep
  have hsame : ∀ t', s.tasks[i]? = some t' → t' = t := by
    intro t' ht'
    rw [ht, Option.some.injEq] at ht'
    exact ht'.symm
  cases e with
  | send message =>
    obtain ⟨phase, hsend, rfl⟩ := Option.map_eq_some_iff.mp hstep
    have hnot := WatchPhase.not_done_of_send hsend
    exact frame_sendMessage (fun hquiet => hnot (hquiet.done t ht))
      (fun t' ht' => hsame t' ht' ▸ hnot)
  | fail =>
    simp only at hstep
    split_ifs at hstep with hphase
    rw [Option.some.injEq] at hstep
    subst hstep
    -- `onTaskStopped` takes messages out of the queue
    refine Frame.of_update (i := i) rfl (fun t => rfl) (fun t l hl => hl)
      (fun j m hm => .inl (List.mem_of_mem_filter hm)) (fun t' ht' hdone => ?_)
    rw [hsame t' ht', hphase] at hdone
    rcases hdone with hdone | hdone <;> simp at hdone
  | interrupted | exit =>
    simp only at hstep
    split_ifs at hstep
    rw [Option.some.injEq] at hstep
    subst hstep
    exact Frame.of_update (i := i) rfl (fun t => rfl) (fun t l hl => hl) (fun j m hm => .inl hm)
      (fun t _ _ => .inr rfl)

/-- A message leaves the queue. -/
theorem frame_handleMessage {delivery : Delivery Listener}
    (hstep : s.handleMessage = some (delivery, s')) : Frame s s' := by
  unfold handleMessage at hstep
  split at hstep
  · cases hstep
  · rename_i i m rest hlooper
    simp only [Option.some.injEq, Prod.mk.injEq] at hstep
    obtain ⟨-, rfl⟩ := hstep
    refine ⟨fun i t ht => ⟨t, ht, rfl, fun _ hl => hl⟩, fun j hquiet => ⟨fun m' hm' => ?_,
      hquiet.done⟩⟩
    exact hquiet.looper m' (hlooper ▸ List.mem_cons_of_mem _ hm')

/-- A task is added behind the others. -/
def addTask (s : WatchSessions Info Listener) (t : WatchSession Info Listener) :
    WatchSessions Info Listener :=
  { s with tasks := s.tasks ++ [t], watchTask := some s.tasks.length }

/-- The tasks are those there were and the new one. -/
theorem getElem?_addTask {t t' : WatchSession Info Listener} :
    (s.addTask t).tasks[i]? = some t' ↔
      s.tasks[i]? = some t' ∨ (i = s.tasks.length ∧ t' = t) := by
  simp only [addTask, List.getElem?_append]
  split_ifs with hlt
  · simp [Nat.ne_of_lt hlt]
  · have hnone : s.tasks[i]? = none := List.getElem?_eq_none (by omega)
    rw [hnone, List.getElem?_singleton]
    split_ifs with hi
    · have heq : i = s.tasks.length := by omega
      simp [heq, eq_comm]
    · have hne : i ≠ s.tasks.length := by omega
      simp [hne]

/-- The others are quiet as they were. -/
theorem quiet_addTask {t t' : WatchSession Info Listener} (ht' : s.tasks[i]? = some t') :
    (s.addTask t).Quiet i ↔ s.Quiet i := by
  have htask : (s.addTask t).tasks[i]? = s.tasks[i]? := by
    rw [ht', getElem?_addTask]
    exact .inl ht'
  constructor
  · exact fun h => ⟨h.looper, fun u hu => h.done u (htask ▸ hu)⟩
  · exact fun h => ⟨h.looper, fun u hu => h.done u (htask ▸ hu)⟩

section

variable [DecidableEq Listener] {info : Info} {listener : Option Listener}

/-- A live task swallows a start. -/
theorem startWatch_of_alive (h : s.isWatchAlive = true) :
    s.startWatch info listener = s.addWatchListener listener := by
  rw [startWatch, if_pos h, addWatchListener]

/-- Without a live task a new one is started. -/
theorem startWatch_of_dead (h : s.isWatchAlive = false) :
    s.startWatch info listener =
      s.addTask ((WatchSession.new info).addWatchListener listener) := by
  rw [startWatch, h]
  rfl

end

end WatchSessions

end PopcornTime.Android
