import Mathlib.Data.List.Nodup
import PopcornTime.Android.WatchSessions

namespace PopcornTime.Android

open PopcornTime

/-!
# Android watch — the prepared event of a dialog

A `WatchDialog` leaves the handler's list in `onStop` and comes back through `startWatch`, once its
client is connected.  The handler tells whoever is in the list, and replays nothing.

* `DialogRun` — the dialog, its client's binding and the tasks.
* `QueueInv` — `VIDEO_PREPARED` is sent, waits and is received at most once.
* `preparedReceived_of_guard` — when a dialog that is there has received it.
-/

namespace HandlerMessage

def isVideoPrepared : HandlerMessage → Bool
  | .videoPrepared _ => true
  | _ => false

def isDownloadStarted : HandlerMessage → Bool
  | .downloadStarted _ => true
  | _ => false

end HandlerMessage

open HandlerMessage

variable {Info Listener : Type*}

/-- The phases around the two messages. -/
theorem WatchPhase.send_cases {p p' : WatchPhase} {m : HandlerMessage} (h : p.send m = some p') :
    (m.isVideoPrepared = true → p = .preparing ∧ p' = .playing) ∧
    (m.isDownloadStarted = true → p = .loading) ∧
    (p = .playing → p' = .playing ∨ p'.Done) := by
  cases p <;> cases m <;> simp_all [WatchPhase.send, isVideoPrepared, isDownloadStarted, eq_comm,
    WatchPhase.Done]

/-- The task has sent `VIDEO_PREPARED`. -/
def WatchSession.SentPrepared (t : WatchSession Info Listener) : Prop :=
  t.sent.any isVideoPrepared = true

namespace WatchSessions

/-- The task with the index has sent `VIDEO_PREPARED`. -/
def Prepared (s : WatchSessions Info Listener) (i : ℕ) : Prop :=
  ∃ t, s.tasks[i]? = some t ∧ t.SentPrepared

/-- `VIDEO_PREPARED` of the task waits for the looper. -/
def PreparedWaits (s : WatchSessions Info Listener) (i : ℕ) : Prop :=
  ∃ m, (i, m) ∈ s.looper ∧ m.isVideoPrepared = true

/-- Who has sent `VIDEO_PREPARED`, for whom it waits, and who it was received from. -/
structure QueueInv (s : WatchSessions Info Listener) (received : List ℕ) : Prop where
  waiting : ∀ i m, (i, m) ∈ s.looper → m.isVideoPrepared = true → s.Prepared i
  handled : ∀ i ∈ received, s.Prepared i
  phase : ∀ (i : ℕ) (t : WatchSession Info Listener), s.tasks[i]? = some t → t.SentPrepared →
    t.phase = .playing ∨ t.phase.Done
  /-- Behind `VIDEO_PREPARED` there is no other one and no `DOWNLOAD_STARTED`. -/
  order : s.looper.Pairwise fun p q => p.1 = q.1 → p.2.isVideoPrepared = true →
    ¬(q.2.isVideoPrepared = true ∨ q.2.isDownloadStarted = true)
  gone : ∀ i m, (i, m) ∈ s.looper → m.isVideoPrepared = true ∨ m.isDownloadStarted = true →
    i ∉ received
  nodup : received.Nodup

variable {s s' : WatchSessions Info Listener} {received : List ℕ} {i : ℕ}

/-- No task sends or forgets `VIDEO_PREPARED`, and no message is added. -/
theorem QueueInv.of_sublist (h : s.QueueInv received)
    (hold : ∀ i, s.Prepared i → s'.Prepared i)
    (hphase : ∀ (i : ℕ) (t' : WatchSession Info Listener), s'.tasks[i]? = some t' →
      t'.SentPrepared → t'.phase = .playing ∨ t'.phase.Done)
    (hlooper : s'.looper.Sublist s.looper) : s'.QueueInv received where
  waiting := fun i m hm hp => hold i (h.waiting i m (hlooper.subset hm) hp)
  handled := fun i hi => hold i (h.handled i hi)
  phase := hphase
  order := h.order.sublist hlooper
  gone := fun i m hm => h.gone i m (hlooper.subset hm)
  nodup := h.nodup

/-- What a task has sent is left alone. -/
theorem prepared_update {f : WatchSession Info Listener → WatchSession Info Listener} {j : ℕ}
    (htasks : s'.tasks = (s.update i f).tasks) (hsent : ∀ t, (f t).sent = t.sent) :
    s'.Prepared j ↔ s.Prepared j := by
  unfold Prepared WatchSession.SentPrepared
  rw [htasks, getElem?_update]
  cases s.tasks[j]? with
  | none => simp
  | some t => by_cases hij : i = j <;> simp [hij, hsent]

/-- A task is changed, but not what it sent. -/
theorem QueueInv.update {f : WatchSession Info Listener → WatchSession Info Listener}
    (h : s.QueueInv received) (htasks : s'.tasks = (s.update i f).tasks)
    (hsent : ∀ t, (f t).sent = t.sent)
    (hphase : ∀ t, s.tasks[i]? = some t → t.SentPrepared →
      (f t).phase = .playing ∨ (f t).phase.Done)
    (hlooper : s'.looper.Sublist s.looper) : s'.QueueInv received := by
  refine h.of_sublist (fun j => (prepared_update htasks hsent).mpr)
    (fun j t' ht' hprepared => ?_) hlooper
  rw [htasks, getElem?_update, Option.map_eq_some_iff] at ht'
  obtain ⟨t, ht, rfl⟩ := ht'
  split_ifs at hprepared ⊢ with hij
  · subst hij
    unfold WatchSession.SentPrepared at hprepared
    rw [hsent] at hprepared
    exact hphase t ht hprepared
  · exact h.phase j t ht hprepared

/-- What is sent first is sent once: the phase tells it from what follows. -/
theorem QueueInv.not_prepared_of_send {t : WatchSession Info Listener} {m : HandlerMessage}
    {phase : WatchPhase} (h : s.QueueInv received) (ht : s.tasks[i]? = some t)
    (hsend : t.phase.send m = some phase)
    (hm : m.isVideoPrepared = true ∨ m.isDownloadStarted = true) : ¬s.Prepared i := by
  obtain ⟨hvideo, hstarted, -⟩ := WatchPhase.send_cases hsend
  rintro ⟨u, hu, hprepared⟩
  obtain rfl : u = t := Option.some.inj (hu.symm.trans ht)
  have hphase := h.phase i u hu hprepared
  rcases hm with hm | hm
  · simp [(hvideo hm).1, WatchPhase.Done] at hphase
  · simp [hstarted hm, WatchPhase.Done] at hphase

/-- What has been sent stays so. -/
theorem Prepared.sendMessage {m : HandlerMessage} {phase : WatchPhase} {j : ℕ}
    (h : s.Prepared j) :
    ((s.update i (fun t => { t with phase := phase })).sendMessage i m).Prepared j := by
  obtain ⟨u, hu, hprepared⟩ := h
  refine ⟨_, by rw [getElem?_sendMessage, hu, Option.map_some], ?_⟩
  split_ifs
  · simp only [WatchSession.SentPrepared, List.any_append, Bool.or_eq_true]
    exact .inl hprepared
  · exact hprepared

/-- A task sends a message. -/
theorem QueueInv.send {t : WatchSession Info Listener} {m : HandlerMessage} {phase : WatchPhase}
    (h : s.QueueInv received) (ht : s.tasks[i]? = some t) (hsend : t.phase.send m = some phase) :
    ((s.update i (fun t => { t with phase := phase })).sendMessage i m).QueueInv received := by
  obtain ⟨hvideo, hstarted, hplaying⟩ := WatchPhase.send_cases hsend
  have hfirst := h.not_prepared_of_send ht hsend
  have hkept : ∀ j, s.Prepared j →
      ((s.update i (fun t => { t with phase := phase })).sendMessage i m).Prepared j :=
    fun j hj => hj.sendMessage
  refine ⟨fun j m' hm' hp => ?_, fun j hj => hkept j (h.handled j hj), fun j u hu hprepared => ?_,
    ?_, fun j m' hm' hp hj => ?_, h.nodup⟩
  · rcases List.mem_append.mp hm' with hold | hnew
    · exact hkept j (h.waiting j m' hold hp)
    · simp only [List.mem_singleton, Prod.mk.injEq] at hnew
      obtain ⟨rfl, rfl⟩ := hnew
      refine ⟨_, by rw [getElem?_sendMessage, ht, Option.map_some], ?_⟩
      simp [WatchSession.SentPrepared, hp]
  · -- the phase behind the message tells what has been sent
    rw [getElem?_sendMessage, Option.map_eq_some_iff] at hu
    obtain ⟨u, hu, rfl⟩ := hu
    split_ifs at hprepared ⊢ with hij
    · subst hij
      obtain rfl : u = t := Option.some.inj (hu.symm.trans ht)
      simp only [WatchSession.SentPrepared, List.any_append, List.any_cons, List.any_nil,
        Bool.or_false, Bool.or_eq_true] at hprepared
      rcases hprepared with hold | hnew
      · rcases h.phase i u hu hold with hplay | hdone
        · exact hplaying hplay
        · exact absurd hdone (WatchPhase.not_done_of_send hsend)
      · exact .inl (hvideo hnew).2
    · exact h.phase j u hu hprepared
  · -- the new message is the last of the queue
    refine List.pairwise_append.mpr ⟨h.order, List.pairwise_singleton _ _, fun p hp q hq => ?_⟩
    rw [List.mem_singleton] at hq
    subst hq
    intro heq hp' hm
    have hwaiting := h.waiting p.1 p.2 hp hp'
    rw [show p.1 = i from heq] at hwaiting
    exact hfirst hm hwaiting
  · rcases List.mem_append.mp hm' with hold | hnew
    · exact h.gone j m' hold hp hj
    · simp only [List.mem_singleton, Prod.mk.injEq] at hnew
      obtain ⟨rfl, rfl⟩ := hnew
      exact hfirst hp (h.handled j hj)

/-- What a thread does keeps the order of its messages. -/
theorem QueueInv.threadNext {e : ThreadEvent} (h : s.QueueInv received)
    (hstep : s.threadNext i e = some s') : s'.QueueInv received := by
  obtain ⟨t, ht, hstep⟩ := Option.bind_eq_some_iff.mp hstep
  cases e with
  | send message =>
    obtain ⟨phase, hsend, rfl⟩ := Option.map_eq_some_iff.mp hstep
    exact h.send ht hsend
  | fail =>
    simp only at hstep
    split_ifs at hstep with hphase
    rw [Option.some.injEq] at hstep
    subst hstep
    refine h.update (i := i) rfl (fun t => rfl) (fun u hu hprepared => ?_) List.filter_sublist
    obtain rfl : u = t := Option.some.inj (hu.symm.trans ht)
    -- a watch fails before it has anything prepared
    have hsent := h.phase i u hu hprepared
    simp [hphase, WatchPhase.Done] at hsent
  | interrupted | exit =>
    simp only at hstep
    split_ifs at hstep
    rw [Option.some.injEq] at hstep
    subst hstep
    exact h.update (i := i) rfl (fun t => rfl) (fun _ _ _ => .inr (.inr rfl)) (List.Sublist.refl _)

/-- What a thread does to `VIDEO_PREPARED`: it waits once it is sent, and goes on to wait. -/
theorem QueueInv.prepared_threadNext {e : ThreadEvent} {j : ℕ} (h : s.QueueInv received)
    (hstep : s.threadNext i e = some s') (hprepared : s'.Prepared j) :
    s'.PreparedWaits j ∨ (s.Prepared j ∧ (s.PreparedWaits j → s'.PreparedWaits j)) := by
  obtain ⟨t, ht, hstep⟩ := Option.bind_eq_some_iff.mp hstep
  cases e with
  | send message =>
    obtain ⟨phase, -, rfl⟩ := Option.map_eq_some_iff.mp hstep
    obtain ⟨u', hu', hsent⟩ := hprepared
    rw [getElem?_sendMessage, Option.map_eq_some_iff] at hu'
    obtain ⟨u, hu, rfl⟩ := hu'
    have hkept : s.PreparedWaits j →
        ((s.update i (fun t => { t with phase := phase })).sendMessage i message).PreparedWaits j :=
      fun ⟨m, hm, hp⟩ => ⟨m, List.mem_append_left _ hm, hp⟩
    split_ifs at hsent with hij
    · simp only [WatchSession.SentPrepared, List.any_append, List.any_cons, List.any_nil,
        Bool.or_false, Bool.or_eq_true] at hsent
      rcases hsent with hold | hnew
      · exact .inr ⟨⟨u, hu, hold⟩, hkept⟩
      · exact .inl ⟨message, List.mem_append_right _ (by simp [hij]), hnew⟩
    · exact .inr ⟨⟨u, hu, hsent⟩, hkept⟩
  | fail =>
    simp only at hstep
    split_ifs at hstep with hphase
    rw [Option.some.injEq] at hstep
    subst hstep
    refine .inr ⟨(prepared_update (f := fun t => { t with phase := .failing }) rfl
      fun t => rfl).mp hprepared, fun ⟨m, hm, hp⟩ => ?_⟩
    refine ⟨m, List.mem_filter.mpr ⟨hm, ?_⟩, hp⟩
    -- a task that fails has not sent it yet
    rw [decide_eq_true_eq]
    rintro rfl
    obtain ⟨u, hu, hsent⟩ := h.waiting j m hm hp
    obtain rfl : u = t := Option.some.inj (hu.symm.trans ht)
    have hsentPhase := h.phase j u hu hsent
    simp [hphase, WatchPhase.Done] at hsentPhase
  | interrupted | exit =>
    simp only at hstep
    split_ifs at hstep
    rw [Option.some.injEq] at hstep
    subst hstep
    exact .inr ⟨(prepared_update (f := fun t => { t with phase := .ended }) rfl
      fun t => rfl).mp hprepared, fun hwaits => hwaits⟩

/-- The head of the queue is handled, and perhaps received. -/
theorem QueueInv.handle {m : HandlerMessage} {rest : List (ℕ × HandlerMessage)}
    (h : s.QueueInv received) (hlooper : s.looper = (i, m) :: rest) :
    QueueInv { s with looper := rest } received ∧
    (m.isVideoPrepared = true → QueueInv { s with looper := rest } (received ++ [i])) := by
  -- without the message first, then with its number among those received
  have hrest : QueueInv { s with looper := rest } received :=
    h.of_sublist (fun _ hj => hj) h.phase (hlooper ▸ List.sublist_cons_self _ _)
  have hmem : (i, m) ∈ s.looper := hlooper ▸ List.mem_cons_self
  refine ⟨hrest, fun hm => ⟨hrest.waiting, fun j hj => ?_, hrest.phase, hrest.order,
    fun j m' hm' hp hj => ?_, ?_⟩⟩
  · rcases List.mem_append.mp hj with hold | hnew
    · exact h.handled j hold
    · rw [List.mem_singleton] at hnew
      -- the message was waiting, so its task has sent it
      exact hnew ▸ h.waiting i m hmem hm
  · have horder := h.order
    rw [hlooper, List.pairwise_cons] at horder
    rcases List.mem_append.mp hj with hold | hnew
    · exact hrest.gone j m' hm' hp hold
    · rw [List.mem_singleton] at hnew
      exact horder.1 (j, m') hm' hnew.symm hm hp
  · refine List.nodup_append.mpr ⟨h.nodup, by simp, fun j hj k hk => ?_⟩
    rw [List.mem_singleton] at hk
    rintro rfl
    exact h.gone i m hmem (.inl hm) (hk ▸ hj)

/-- The current task is changed, but not its phase and what it sent. -/
theorem QueueInv.updateCurrent {f : WatchSession Info Listener → WatchSession Info Listener}
    (h : s.QueueInv received) (hsent : ∀ t, (f t).sent = t.sent)
    (hphase : ∀ t, (f t).phase = t.phase) : (s.updateCurrent f).QueueInv received := by
  unfold WatchSessions.updateCurrent
  cases s.watchTask with
  | none => exact h
  | some i =>
    refine h.update (i := i) rfl hsent (fun t ht hprepared => ?_) (List.Sublist.refl _)
    rw [hphase]
    exact h.phase i t ht hprepared

/-- A task that has sent nothing is added. -/
theorem QueueInv.addTask {t : WatchSession Info Listener} (h : s.QueueInv received)
    (hsent : t.sent = []) : (s.addTask t).QueueInv received := by
  refine h.of_sublist (fun i ⟨u, hu, hprepared⟩ => ⟨u, getElem?_addTask.mpr (.inl hu), hprepared⟩)
    (fun i u hu hprepared => ?_) (List.Sublist.refl _)
  rcases getElem?_addTask.mp hu with hold | ⟨-, rfl⟩
  · exact h.phase i u hold hprepared
  · simp [WatchSession.SentPrepared, hsent] at hprepared

/-! ### The frame of the listeners -/

theorem listenersOf_update {f : WatchSession Info Listener → WatchSession Info Listener} {j : ℕ}
    (hf : ∀ t, (f t).listeners = t.listeners) : (s.update i f).listenersOf j = s.listenersOf j := by
  unfold listenersOf
  rw [getElem?_update]
  cases s.tasks[j]? with
  | none => rfl
  | some t =>
    simp only [Option.map_some, Option.elim_some]
    split_ifs
    · exact hf t
    · rfl

theorem listenersOf_updateCurrent {f : WatchSession Info Listener → WatchSession Info Listener}
    {j : ℕ} : (s.updateCurrent f).listenersOf j =
      if s.watchTask = some j then (s.tasks[j]?).elim [] (fun t => (f t).listeners)
      else s.listenersOf j := by
  unfold WatchSessions.updateCurrent
  cases hw : s.watchTask with
  | none => simp
  | some i =>
    unfold listenersOf
    rw [getElem?_update]
    by_cases hij : i = j <;> cases s.tasks[j]? <;> simp [hij]

theorem listenersOf_addTask {t : WatchSession Info Listener} {j : ℕ} :
    (s.addTask t).listenersOf j = if j = s.tasks.length then t.listeners else s.listenersOf j := by
  unfold listenersOf
  split_ifs with hj
  · have hnew : (s.addTask t).tasks[j]? = some t := getElem?_addTask.mpr (.inr ⟨hj, rfl⟩)
    rw [hnew, Option.elim_some]
  · have hold : (s.addTask t).tasks[j]? = s.tasks[j]? := by
      ext u
      rw [getElem?_addTask]
      simp [hj]
    rw [hold]

@[simp] theorem watchTask_updateCurrent
    {f : WatchSession Info Listener → WatchSession Info Listener} :
    (s.updateCurrent f).watchTask = s.watchTask := by
  unfold updateCurrent
  split <;> simp_all [update]

@[simp] theorem length_updateCurrent
    {f : WatchSession Info Listener → WatchSession Info Listener} :
    (s.updateCurrent f).tasks.length = s.tasks.length := by
  unfold updateCurrent
  split <;> simp [update]

/-- No thread changes a list of listeners. -/
theorem threadNext_same {e : ThreadEvent} (hstep : s.threadNext i e = some s') :
    s'.watchTask = s.watchTask ∧ s'.tasks.length = s.tasks.length ∧
      ∀ j, s'.listenersOf j = s.listenersOf j := by
  obtain ⟨t, ht, hstep⟩ := Option.bind_eq_some_iff.mp hstep
  cases e with
  | send message =>
    obtain ⟨phase, -, rfl⟩ := Option.map_eq_some_iff.mp hstep
    refine ⟨rfl, by simp [sendMessage, update], fun j => ?_⟩
    show ((s.update i _).update i _).listenersOf j = _
    rw [listenersOf_update, listenersOf_update] <;> exact fun t => rfl
  | fail | interrupted | exit =>
    simp only at hstep
    split_ifs at hstep
    rw [Option.some.injEq] at hstep
    subst hstep
    refine ⟨rfl, by simp [removeMessages, update], fun j => ?_⟩
    exact listenersOf_update (s := s) fun t => rfl

end WatchSessions

/-- The dialog: what the client and the dialog keep, and whether the system holds its binding. -/
structure WatchDialog where
  started : Bool
  /-- `bindService` has been called, and `unbindService` has not. -/
  binding : Bool
  /-- `bound` of the client. -/
  bound : Bool
  prepared : Bool
deriving DecidableEq, Repr

/-- The callbacks, as far as `prepared` goes. -/
def WatchDialog.onMessage (d : WatchDialog) : HandlerMessage → WatchDialog
  | .downloadStarted _ => { d with prepared := false }
  | .videoPrepared _ => { d with prepared := true }
  | _ => d

@[simp] theorem bound_onMessage (d : WatchDialog) (m : HandlerMessage) :
    (d.onMessage m).bound = d.bound := by
  cases m <;> rfl

/-- A dialog, whose listener is the only one, and the tasks. -/
structure DialogRun (Info : Type*) where
  service : WatchSessions Info Unit
  dialog : WatchDialog
  /-- The tasks `onVideoPrepared` was called for. -/
  received : List ℕ

namespace DialogRun

inductive Event
  | onStart
  | onStop
  /-- `onServiceConnected`, and the dialog's `onClientConnected` in it. -/
  | connected
  | thread (i : ℕ) (e : ThreadEvent)
  | handleMessage

/-- The dialog's listener is called. -/
def tell (s : DialogRun Info) (delivery : Delivery Unit) : DialogRun Info :=
  { s with
    dialog := s.dialog.onMessage delivery.message
    received := if delivery.message.isVideoPrepared then s.received ++ [delivery.task]
      else s.received }

/-- `bind`: only the first `bindService` of a connection brings a callback. -/
def onStart (s : DialogRun Info) : DialogRun Info :=
  { s with dialog := { s.dialog with started := true, binding := true } }

/-- `removeWatchListener` and `unbind`, which do nothing while the client is not bound. -/
def onStop (s : DialogRun Info) : DialogRun Info :=
  if s.dialog.bound then
    { s with
      service := s.service.removeWatchListener (some ())
      dialog := { s.dialog with started := false, bound := false, binding := false } }
  else { s with dialog := { s.dialog with started := false } }

def onClientConnected (s : DialogRun Info) (watchInfo : Info) : DialogRun Info :=
  if s.dialog.prepared then s
  else { s with service := s.service.startWatch watchInfo (some ()) }

/-- What happens on an event; `none` where it cannot happen. -/
def next (watchInfo : Info) (s : DialogRun Info) : Event → Option (DialogRun Info)
  | .onStart => if s.dialog.started then none else some s.onStart
  | .onStop => if s.dialog.started then some s.onStop else none
  | .connected =>
    if s.dialog.binding && !s.dialog.bound then
      some ({ s with dialog := { s.dialog with bound := true } }.onClientConnected watchInfo)
    else none
  | .thread i e => (s.service.threadNext i e).map fun service => { s with service := service }
  | .handleMessage =>
    s.service.handleMessage.map fun (delivery, service) =>
      delivery.listeners.foldl (fun s _ => s.tell delivery) { s with service := service }

/-- A dialog that has just been created. -/
def start : DialogRun Info where
  service := .init
  dialog := ⟨false, false, false, false⟩
  received := []

/-- The machine of all interleavings of a dialog with the tasks it starts. -/
def machine (watchInfo : Info) : Machine (DialogRun Info) Event :=
  Machine.ofFun (fun s => s = start) (next watchInfo)

/-- A dialog that is started and connected has received `onVideoPrepared` exactly once, if its task
    has sent it and no message of the task waits. -/
def PreparedReceived (s : DialogRun Info) : Prop :=
  s.dialog.started = true → s.dialog.bound = true → ∀ i, s.service.watchTask = some i →
    s.service.Prepared i → (∀ m, (i, m) ∉ s.service.looper) → s.received.count i = 1

/-- The same of a dialog that is connected, whether it is started or not, and of `VIDEO_PREPARED`
    only. -/
def NotMissed (s : DialogRun Info) : Prop :=
  s.dialog.bound = true → ∀ i, s.service.watchTask = some i → s.service.Prepared i →
    s.service.PreparedWaits i ∨ i ∈ s.received

/-- The condition of an event: when the client of a dialog that is not prepared connects to a live
    task, the task's `VIDEO_PREPARED` has not been sent or still waits. -/
def ConnectGuard (s : DialogRun Info) : Event → Prop
  | .connected => s.dialog.prepared = false → s.service.isWatchAlive = true →
    ∀ i, s.service.watchTask = some i → s.service.Prepared i → s.service.PreparedWaits i
  | _ => True

/-- What holds in every run. -/
structure DialogInv (s : DialogRun Info) : Prop where
  queue : s.service.QueueInv s.received
  listed : ∀ i, s.service.listenersOf i = [] ∨ (s.service.listenersOf i = [()] ∧
    s.service.watchTask = some i ∧ s.dialog.bound = true)
  /-- A connected dialog that is not prepared is listed by the current task. -/
  joined : s.dialog.bound = true → s.dialog.prepared = true ∨
    ∃ i, s.service.watchTask = some i ∧ s.service.listenersOf i = [()]
  /-- A dialog is prepared exactly if it has received the event from the current task. -/
  prepared : s.dialog.prepared = true ↔ ∃ i, s.service.watchTask = some i ∧ i ∈ s.received
  current : ∀ i, s.service.watchTask = some i → i < s.service.tasks.length

variable {s s' : DialogRun Info} {watchInfo : Info} {i : ℕ} {e : Event}

/-! ### The threads and the looper -/

/-- A task's thread does something. -/
theorem DialogInv.thread {service : WatchSessions Info Unit} {e : ThreadEvent} (h : s.DialogInv)
    (hstep : s.service.threadNext i e = some service) :
    DialogInv { s with service := service } := by
  obtain ⟨hwatch, hlength, hlisteners⟩ := WatchSessions.threadNext_same hstep
  constructor
  · exact h.queue.threadNext hstep
  · simpa only [hwatch, hlisteners] using h.listed
  · simpa only [hwatch, hlisteners] using h.joined
  · simpa only [hwatch] using h.prepared
  · simpa only [hwatch, hlength] using h.current

/-- What the looper does is what the one listener is told, if it is listed. -/
theorem handleMessage_cases (h : s.DialogInv) (hstep : s.next watchInfo .handleMessage = some s') :
    ∃ i m rest, s.service.looper = (i, m) :: rest ∧
      ((s.service.listenersOf i = [] ∧ s' = { s with service.looper := rest }) ∨
        (s.service.listenersOf i = [()] ∧ s.service.watchTask = some i ∧ s.dialog.bound = true ∧
          s' = tell { s with service.looper := rest } ⟨i, m, [()]⟩)) := by
  simp only [next, WatchSessions.handleMessage] at hstep
  split at hstep
  · simp at hstep
  · rename_i i m rest hlooper
    refine ⟨i, m, rest, hlooper, ?_⟩
    simp only [Option.map_some, Option.some.injEq] at hstep
    subst hstep
    rcases h.listed i with hnone | ⟨hone, hwatch, hbound⟩
    · exact .inl ⟨hnone, by rw [hnone]; rfl⟩
    · exact .inr ⟨hone, hwatch, hbound, by rw [hone]; rfl⟩

theorem DialogInv.handleMessage (h : s.DialogInv)
    (hstep : s.next watchInfo .handleMessage = some s') : s'.DialogInv := by
  obtain ⟨i, m, rest, hlooper, ⟨-, rfl⟩ | ⟨hone, hwatch, hbound, rfl⟩⟩ :=
    handleMessage_cases h hstep
  · -- nobody is listed
    exact ⟨(h.queue.handle hlooper).1, h.listed, h.joined, h.prepared, h.current⟩
  · obtain ⟨hkept, htold⟩ := h.queue.handle hlooper
    have hmem : (i, m) ∈ s.service.looper := hlooper ▸ List.mem_cons_self
    constructor
    · show WatchSessions.QueueInv _ (if m.isVideoPrepared then s.received ++ [i] else s.received)
      split_ifs with hm
      · exact htold hm
      · exact hkept
    · intro j
      refine (h.listed j).imp_right fun hj => ⟨hj.1, hj.2.1, ?_⟩
      exact (bound_onMessage s.dialog m).trans hj.2.2
    · exact fun _ => .inr ⟨i, hwatch, hone⟩
    · -- the dialog is told by the current task
      have hcurrent : ∀ received : List ℕ,
          (∃ j, s.service.watchTask = some j ∧ j ∈ received) ↔ i ∈ received := by
        intro received
        simp [hwatch]
      show (s.dialog.onMessage m).prepared = true ↔ ∃ j, s.service.watchTask = some j ∧
        j ∈ if m.isVideoPrepared then s.received ++ [i] else s.received
      rw [hcurrent]
      have hprepared := h.prepared
      rw [hcurrent] at hprepared
      cases m with
      | videoPrepared path => simp [WatchDialog.onMessage, isVideoPrepared]
      | downloadStarted torrent =>
        -- `DOWNLOAD_STARTED` comes before `VIDEO_PREPARED`, so nothing is undone
        have hgone := h.queue.gone i _ hmem (.inr rfl)
        simp [WatchDialog.onMessage, isVideoPrepared, hgone]
      | error | metadataLoad | subtitlesLoaded | updateProgress | downloadFinished
      | bufferingFinished => simpa [WatchDialog.onMessage, isVideoPrepared] using hprepared
    · exact h.current

/-! ### The dialog's own steps -/

theorem DialogInv.onStop (h : s.DialogInv) : s.onStop.DialogInv := by
  unfold DialogRun.onStop
  split_ifs with hbound
  · have hwatch : (s.service.removeWatchListener (some ())).watchTask = s.service.watchTask :=
      WatchSessions.watchTask_updateCurrent
    constructor
    · exact h.queue.updateCurrent (f := (·.removeWatchListener (some ())))
        (fun t => WatchSession.sent_removeWatchListener)
        (fun t => WatchSession.phase_removeWatchListener)
    · intro j
      refine .inl ?_
      show (s.service.updateCurrent _).listenersOf j = []
      rw [WatchSessions.listenersOf_updateCurrent]
      -- the current task loses the dialog, the others never list it
      have hlisted := h.listed j
      split_ifs with hj
      · cases ht : s.service.tasks[j]? with
        | none => rfl
        | some t =>
          simp only [WatchSessions.listenersOf, ht, Option.elim_some] at hlisted ⊢
          rcases hlisted with hnone | ⟨hone, -⟩
          · simp [WatchSession.removeWatchListener, hnone]
          · simp [WatchSession.removeWatchListener, hone]
      · exact hlisted.resolve_right fun hone => hj hone.2.1
    · simp
    · simpa only [hwatch] using h.prepared
    · intro j hj
      show j < (s.service.updateCurrent _).tasks.length
      rw [WatchSessions.length_updateCurrent]
      exact h.current j (hwatch ▸ hj)
  · exact ⟨h.queue, h.listed, h.joined, h.prepared, h.current⟩

/-- A dialog that is not bound is nobody's listener. -/
theorem DialogInv.listenersOf_of_unbound (h : s.DialogInv) (hbound : s.dialog.bound = false)
    (j : ℕ) : s.service.listenersOf j = [] := by
  refine (h.listed j).resolve_right fun hone => ?_
  rw [hbound] at hone
  exact absurd hone.2.2 (by simp)

/-- The dialog joins the task that is alive. -/
theorem DialogInv.addWatchListener {i : ℕ} {t : WatchSession Info Unit} (h : s.DialogInv)
    (hbound : s.dialog.bound = false) (hw : s.service.watchTask = some i)
    (ht : s.service.tasks[i]? = some t) :
    DialogInv { s with
      dialog := { s.dialog with bound := true }
      service := s.service.addWatchListener (some ()) } := by
  have hwatch : (s.service.addWatchListener (some ())).watchTask = some i :=
    WatchSessions.watchTask_updateCurrent.trans hw
  -- no dialog was bound, so the current task has this listener and no other has one
  have hlisteners : ∀ j, (s.service.addWatchListener (some ())).listenersOf j =
      if j = i then [()] else [] := by
    intro j
    have hj := h.listenersOf_of_unbound hbound j
    rw [WatchSessions.addWatchListener, WatchSessions.listenersOf_updateCurrent, hw]
    by_cases hij : j = i
    · subst hij
      simp only [WatchSessions.listenersOf, ht, Option.elim_some] at hj ⊢
      simp [WatchSession.addWatchListener, hj]
    · rw [if_neg (by simpa using fun heq => hij heq.symm), if_neg hij, hj]
  constructor
  · exact h.queue.updateCurrent (f := (·.addWatchListener (some ())))
      (fun t => WatchSession.sent_addWatchListener)
      (fun t => WatchSession.phase_addWatchListener)
  · intro j
    rw [hlisteners, hwatch]
    by_cases hij : j = i <;> simp [hij]
  · exact fun _ => .inr ⟨i, hwatch, by rw [hlisteners, if_pos rfl]⟩
  · rw [hwatch, ← hw]
    exact h.prepared
  · intro j hj
    have hlength : (s.service.addWatchListener (some ())).tasks.length =
      s.service.tasks.length := WatchSessions.length_updateCurrent
    rw [hlength]
    exact h.current j (by rw [hw, ← hwatch, hj])

/-- A new task is started, of which the dialog is the listener. -/
theorem DialogInv.addTask (h : s.DialogInv) (hbound : s.dialog.bound = false)
    (hprepared : s.dialog.prepared = false) :
    DialogInv { s with
      dialog := { s.dialog with bound := true }
      service := s.service.addTask
        ((WatchSession.new watchInfo).addWatchListener (some ())) } := by
  -- the number of the task is new, so nothing of it has been received
  have hfresh : s.service.tasks.length ∉ s.received := by
    intro hmem
    obtain ⟨t, ht, -⟩ := h.queue.handled _ hmem
    simp at ht
  constructor
  · exact h.queue.addTask (by simp [WatchSession.new])
  · intro j
    rw [WatchSessions.listenersOf_addTask, h.listenersOf_of_unbound hbound j]
    by_cases hj : j = s.service.tasks.length
    · simp [hj, WatchSession.addWatchListener, WatchSession.new, WatchSessions.addTask]
    · simp [hj]
  · refine fun _ => .inr ⟨s.service.tasks.length, rfl, ?_⟩
    rw [WatchSessions.listenersOf_addTask, if_pos rfl]
    rfl
  · simp [WatchSessions.addTask, hprepared, hfresh]
  · intro j hj
    simp only [WatchSessions.addTask, Option.some.injEq] at hj
    simp [WatchSessions.addTask, ← hj]

/-- The tasks behind the start of a watch: the dialog is listed by the current one only. -/
theorem DialogInv.startWatch (h : s.DialogInv) (hbound : s.dialog.bound = false)
    (hprepared : s.dialog.prepared = false) :
    DialogInv { s with
      dialog := { s.dialog with bound := true }
      service := s.service.startWatch watchInfo (some ()) } := by
  rcases s.service.isWatchAlive_cases with ⟨i, t, hw, ht, -, halive, -⟩ | ⟨hdead, -⟩
  · rw [WatchSessions.startWatch_of_alive halive]
    exact h.addWatchListener hbound hw ht
  · rw [WatchSessions.startWatch_of_dead hdead]
    exact h.addTask hbound hprepared

/-- The client is connected: whether it starts a watch is up to `prepared`. -/
theorem connected_cases (hstep : s.next watchInfo .connected = some s') :
    s.dialog.bound = false ∧
      ((s.dialog.prepared = true ∧ s' = { s with dialog := { s.dialog with bound := true } }) ∨
        (s.dialog.prepared = false ∧ s' =
          { s with
            dialog := { s.dialog with bound := true }
            service := s.service.startWatch watchInfo (some ()) })) := by
  simp only [next] at hstep
  split_ifs at hstep with hbinding
  simp only [Bool.and_eq_true, Bool.not_eq_true'] at hbinding
  rw [Option.some.injEq] at hstep
  subst hstep
  refine ⟨hbinding.2, ?_⟩
  unfold onClientConnected
  cases hprepared : s.dialog.prepared with
  | true => exact .inl ⟨rfl, by simp [hprepared]⟩
  | false => exact .inr ⟨rfl, by simp [hprepared]⟩

theorem DialogInv.next (h : s.DialogInv) (hstep : s.next watchInfo e = some s') :
    s'.DialogInv := by
  cases e with
  | onStart =>
    simp only [DialogRun.next] at hstep
    split_ifs at hstep
    rw [Option.some.injEq] at hstep
    subst hstep
    exact ⟨h.queue, h.listed, h.joined, h.prepared, h.current⟩
  | onStop =>
    simp only [DialogRun.next] at hstep
    split_ifs at hstep
    rw [Option.some.injEq] at hstep
    exact hstep ▸ h.onStop
  | connected =>
    obtain ⟨hbound, ⟨hprepared, rfl⟩ | ⟨hprepared, rfl⟩⟩ := connected_cases hstep
    · exact ⟨h.queue, fun j => .inl (h.listenersOf_of_unbound hbound j),
        fun _ => .inl hprepared, h.prepared, h.current⟩
    · exact h.startWatch hbound hprepared
  | thread i e =>
    obtain ⟨service, hthread, rfl⟩ := Option.map_eq_some_iff.mp hstep
    exact h.thread hthread
  | handleMessage => exact h.handleMessage hstep

/-! ### One event -/

/-- A connected dialog that has not missed the event has received it, if nothing waits. -/
theorem NotMissed.preparedReceived (h : s.NotMissed) (hinv : s.DialogInv) :
    s.PreparedReceived := by
  intro _ hbound i hi hprepared hnone
  rcases h hbound i hi hprepared with ⟨m, hm, -⟩ | hreceived
  · exact absurd hm (hnone m)
  · exact List.count_eq_one_of_mem hinv.queue.nodup hreceived

/-- The looper tells a dialog that is listed, and one that is not has been told. -/
theorem NotMissed.handleMessage (h : s.NotMissed) (hinv : s.DialogInv)
    (hstep : s.next watchInfo .handleMessage = some s') : s'.NotMissed := by
  obtain ⟨i, m, rest, hlooper, ⟨hnone, rfl⟩ | ⟨hone, hwatch, hbound, rfl⟩⟩ :=
    handleMessage_cases hinv hstep
  · intro hbound c hc hprepared
    rcases h hbound c hc hprepared with ⟨m', hm', hp⟩ | hreceived
    · rw [hlooper] at hm'
      rcases List.mem_cons.mp hm' with heq | hrest
      · -- nobody is told: the dialog is connected and not listed, so it is prepared
        obtain ⟨rfl, rfl⟩ := Prod.mk.inj heq
        rcases hinv.joined hbound with hready | ⟨j, hj, hone⟩
        · obtain ⟨j, hj, hreceived⟩ := hinv.prepared.mp hready
          obtain rfl : j = c := Option.some.inj (hj.symm.trans hc)
          exact .inr hreceived
        · obtain rfl : j = c := Option.some.inj (hj.symm.trans hc)
          simp [hnone] at hone
      · -- the event still waits behind this message
        exact .inl ⟨m', hrest, hp⟩
    · exact .inr hreceived
  · intro _ c hc hprepared
    rcases h hbound c hc hprepared with ⟨m', hm', hp⟩ | hreceived
    · rw [hlooper] at hm'
      rcases List.mem_cons.mp hm' with heq | hrest
      · obtain ⟨rfl, rfl⟩ := Prod.mk.inj heq
        exact .inr (by simp [tell, hp])
      · exact .inl ⟨m', hrest, hp⟩
    · refine .inr ?_
      show c ∈ if m.isVideoPrepared then s.received ++ [i] else s.received
      split_ifs
      · exact List.mem_append_left _ hreceived
      · exact hreceived

/-- A dialog connects. -/
theorem connected_iff (hinv : s.DialogInv) (hstep : s.next watchInfo .connected = some s') :
    s'.NotMissed ↔ s.ConnectGuard .connected := by
  obtain ⟨-, ⟨hprepared, rfl⟩ | ⟨hprepared, rfl⟩⟩ := connected_cases hstep
  · refine iff_of_true (fun _ i hi _ => .inr ?_) (fun hnot => by simp [hprepared] at hnot)
    obtain ⟨j, hj, hreceived⟩ := hinv.prepared.mp hprepared
    obtain rfl : j = i := Option.some.inj (hj.symm.trans hi)
    exact hreceived
  · -- a dialog that is not prepared has received nothing of the current task
    have hreceived : ∀ i, s.service.watchTask = some i → i ∉ s.received := by
      intro i hi hmem
      have hready := hinv.prepared.mpr ⟨i, hi, hmem⟩
      simp [hprepared] at hready
    rcases s.service.isWatchAlive_cases with ⟨i, t, hw, -, -, halive, -⟩ | ⟨hdead, -⟩
    · rw [WatchSessions.startWatch_of_alive halive]
      have hadd : s.service.addWatchListener (some ()) =
          s.service.update i (·.addWatchListener (some ())) := by
        simp [WatchSessions.addWatchListener, WatchSessions.updateCurrent, hw]
      -- a listener more changes nothing of what has been sent
      have hsame : ∀ c, (s.service.addWatchListener (some ())).Prepared c ↔ s.service.Prepared c :=
        fun c => WatchSessions.prepared_update (by rw [hadd])
          (fun t => WatchSession.sent_addWatchListener)
      rw [hadd] at hsame ⊢
      constructor
      · intro hright _ _ c hc hprepared'
        exact (hright rfl c hc ((hsame c).mpr hprepared')).resolve_right (hreceived c hc)
      · intro hguard _ c hc hprepared'
        exact .inl (hguard hprepared halive c hc ((hsame c).mp hprepared'))
    · rw [WatchSessions.startWatch_of_dead hdead]
      refine iff_of_true (fun _ c hc hprepared' => ?_) (fun _ halive => ?_)
      · -- the new task has sent nothing
        obtain ⟨t, ht, hsent⟩ := hprepared'
        simp only [WatchSessions.addTask, Option.some.injEq] at hc
        rcases WatchSessions.getElem?_addTask.mp ht with hold | ⟨-, rfl⟩
        · simp [← hc] at hold
        · simp [WatchSession.SentPrepared, WatchSession.new] at hsent
      · rw [hdead] at halive
        cases halive

/-- **One event** keeps the dialog from missing the event exactly if it meets the guard. -/
theorem notMissed_iff (hinv : s.DialogInv) (h : s.NotMissed)
    (hstep : s.next watchInfo e = some s') : s'.NotMissed ↔ s.ConnectGuard e := by
  cases e with
  | onStart =>
    simp only [next] at hstep
    split_ifs at hstep
    rw [Option.some.injEq] at hstep
    subst hstep
    exact iff_of_true h trivial
  | onStop =>
    simp only [next] at hstep
    split_ifs at hstep
    rw [Option.some.injEq] at hstep
    subst hstep
    refine iff_of_true ?_ trivial
    unfold onStop
    split_ifs with hbound
    · intro hno
      simp at hno
    · exact h
  | connected => exact connected_iff hinv hstep
  | thread i e =>
    obtain ⟨service, hthread, rfl⟩ := Option.map_eq_some_iff.mp hstep
    refine iff_of_true (fun hbound c hc hprepared => ?_) trivial
    -- what the thread sends waits; what was sent before is judged as before
    have hwatch := (WatchSessions.threadNext_same hthread).1
    rcases hinv.queue.prepared_threadNext hthread hprepared with hwaits | ⟨hold, hkept⟩
    · exact .inl hwaits
    · exact (h hbound c (hwatch ▸ hc) hold).imp_left hkept
  | handleMessage => exact iff_of_true (h.handleMessage hinv hstep) trivial

theorem dialogInv_of_reachable (h : (machine watchInfo).Reachable s) : s.DialogInv := by
  refine Machine.Reachable.invariant ?_ (fun s e s' hinv hstep => hinv.next hstep) h
  rintro s rfl
  refine ⟨⟨?_, ?_, ?_, ?_, ?_, ?_⟩, ?_, ?_, ?_, ?_⟩ <;>
    simp [start, WatchSessions.init, WatchSessions.listenersOf]

theorem connectGuard_exact (watchInfo : Info) :
    (machine watchInfo).ExactGuard (fun _ => True) ConnectGuard NotMissed where
  init_iff := by
    rintro s rfl
    refine iff_of_true (fun hbound => ?_) trivial
    simp [start] at hbound
  step_iff := fun _ _ _ hreach h hstep => notMissed_iff (dialogInv_of_reachable hreach) h hstep

/-! ### A missed event stays missed -/

/-- A message that is handled does not bring a missed event back. -/
theorem not_notMissed_handleMessage (hinv : s.DialogInv) (hmissed : ¬s.NotMissed)
    (hstep : s.next watchInfo .handleMessage = some s') : ¬s'.NotMissed := by
  obtain ⟨i, m, rest, hlooper, ⟨-, rfl⟩ | ⟨-, -, -, rfl⟩⟩ := handleMessage_cases hinv hstep
  · refine fun hright => hmissed fun hbound c hc hprepared => ?_
    refine (hright hbound c hc hprepared).imp_left fun ⟨m', hm', hp⟩ => ⟨m', ?_, hp⟩
    exact hlooper ▸ List.mem_cons_of_mem _ hm'
  · refine fun hright => hmissed fun hbound c hc hprepared => ?_
    rcases hright ((bound_onMessage _ _).trans hbound) c hc hprepared with
      ⟨m', hm', hp⟩ | hreceived
    · exact .inl ⟨m', hlooper ▸ List.mem_cons_of_mem _ hm', hp⟩
    · change c ∈ if m.isVideoPrepared then s.received ++ [i] else s.received at hreceived
      split_ifs at hreceived with hp
      · rcases List.mem_append.mp hreceived with hold | hnew
        · exact .inr hold
        · rw [List.mem_singleton] at hnew
          exact .inl ⟨m, hlooper ▸ hnew ▸ List.mem_cons_self, hp⟩
      · exact .inr hreceived

/-- The looper handles everything that waits. -/
theorem exists_drained (watchInfo : Info) (hinv : s.DialogInv) (hmissed : ¬s.NotMissed) :
    ∃ s', ((machine watchInfo).goingOn s).Reachable s' ∧ s'.service.looper = [] ∧
      ¬s'.NotMissed := by
  induction hlooper : s.service.looper generalizing s with
  | nil => exact ⟨s, .start rfl, hlooper, hmissed⟩
  | cons p rest ih =>
    obtain ⟨s₁, hstep, hrest⟩ : ∃ s₁, s.next watchInfo .handleMessage = some s₁ ∧
        s₁.service.looper = rest := by
      obtain ⟨i, m⟩ := p
      simp only [next, WatchSessions.handleMessage, hlooper, Option.map_some, Option.some.injEq,
        exists_eq_left']
      rcases hinv.listed i with hnone | ⟨hone, -⟩
      · simp [hnone]
      · -- the dialog may be told, the queue gets shorter either way
        simp [hone, tell]
    have hreach := (Machine.Reachable.start (M := (machine watchInfo).goingOn s) rfl).next hstep
    obtain ⟨s', hgo, hempty, hnot⟩ :=
      ih (hinv.next hstep) (not_notMissed_handleMessage hinv hmissed hstep) hrest
    exact ⟨s', hreach.trans hgo, hempty, hnot⟩

/-- A dialog that has missed the event waits for it once it is started. -/
theorem exists_waiting (hinv : s.DialogInv) (hmissed : ¬s.NotMissed) :
    ∃ s', ((machine watchInfo).goingOn s).Reachable s' ∧ ¬s'.PreparedReceived := by
  obtain ⟨s₁, hgo, hempty, hmissed₁⟩ := exists_drained watchInfo hinv hmissed
  have hwaiting : ∀ s₂ : DialogRun Info, s₂.service = s₁.service → s₂.received = s₁.received →
      s₂.dialog.bound = s₁.dialog.bound → s₂.dialog.started = true → ¬s₂.PreparedReceived := by
    intro s₂ hservice hreceived hbound hstarted hright
    refine hmissed₁ fun hbound₁ c hc hprepared => .inr ?_
    have hcount := hright hstarted (hbound.trans hbound₁) c (hservice ▸ hc)
      (hservice ▸ hprepared) (by simp [hservice, hempty])
    rw [hreceived] at hcount
    exact List.count_pos_iff.mp (by omega)
  cases hstarted : s₁.dialog.started with
  | true => exact ⟨s₁, hgo, hwaiting s₁ rfl rfl rfl hstarted⟩
  | false =>
    refine ⟨s₁.onStart, hgo.next (e := .onStart) ?_, hwaiting s₁.onStart rfl rfl rfl rfl⟩
    show s₁.next watchInfo .onStart = some s₁.onStart
    simp [next, hstarted]

/-- **The prepared event.**  In every run that meets the guard, a dialog that is started and
    connected has received `onVideoPrepared` exactly once, if its task has sent the event and
    nothing waits.  The guard is exact: behind a step that breaks it some continuation leaves the
    dialog waiting. -/
theorem preparedReceived_of_guard (watchInfo : Info) :
    (∀ s, (machine watchInfo).RunUnder (fun _ => True) ConnectGuard s → s.PreparedReceived) ∧
    (machine watchInfo).ExactGuard (fun _ => True) ConnectGuard NotMissed ∧
    ∀ s, (machine watchInfo).Reachable s → ¬s.NotMissed →
      ∃ s', ((machine watchInfo).goingOn s).Reachable s' ∧ ¬s'.PreparedReceived :=
  ⟨fun _ h => ((connectGuard_exact watchInfo).runUnder h).preparedReceived
      (dialogInv_of_reachable h.reachable),
    connectGuard_exact watchInfo, fun _ hreach => exists_waiting (dialogInv_of_reachable hreach)⟩

/-- The user leaves the app, the event goes by, and the user comes back. -/
theorem waiting_for_past_event :
    ∃ s, (machine "A").Reachable s ∧ s.dialog = ⟨true, true, true, false⟩ ∧
      s.service.looper = [] ∧ s.service.watchTask = some 0 ∧ s.service.Prepared 0 ∧
      s.received = [] := by
  let send (m : HandlerMessage) : List Event := [.thread 0 (.send m), .handleMessage]
  have hrun : (Machine.runEvents (next "A") start
      ([.onStart, .connected] ++ send .metadataLoad ++ send (.downloadStarted "A.torrent") ++
        [.onStop] ++ send (.videoPrepared "A.mp4") ++ [.onStart, .connected])).map
          (fun s => (s.dialog, s.service.looper, s.service.watchTask,
            s.service.tasks.map (fun t => t.sent.any isVideoPrepared), s.received)) =
      some (⟨true, true, true, false⟩, [], some 0, [true], []) := rfl
  obtain ⟨s, hreach, heq⟩ := Machine.Reachable.exists_of_runEvents
    (show (machine "A").Reachable _ from .start rfl) hrun
  simp only [Prod.mk.injEq] at heq
  obtain ⟨hdialog, hempty, hwatch, htasks, hreceived⟩ := heq
  refine ⟨s, hreach, hdialog, hempty, hwatch, ?_, hreceived⟩
  obtain ⟨t, hts, hsent⟩ := List.map_eq_singleton_iff.mp htasks
  exact ⟨t, by rw [hts]; rfl, hsent⟩

end DialogRun

end PopcornTime.Android
