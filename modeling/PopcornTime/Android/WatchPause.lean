import PopcornTime.Lib.Machine

namespace PopcornTime.Android

open PopcornTime

/-!
# Android watch — pausing a watched torrent

The torrent of a download while it is watched.  `pauseTorrent` of a watched torrent only sets the
task's `torrentPaused`; `resumeTorrent` acts on the torrent and leaves that field alone; and the
pause `onTaskStopped` asks for at the end goes through `pauseTorrent` again.

* `PausableWatch.next` — the calls of the user and of `stopWatch` between any two statements of the
  watch thread.
* `PauseGuard` — when a stop leaves the torrent as the user wants it.
* `pausedRight_of_guard` — in every run that meets the guard it does, and the guard is exact.
-/

/-- A handle of libtorrent, as far as pausing goes. -/
structure TorrentHandle where
  paused : Bool
  autoManaged : Bool
deriving DecidableEq, Repr

/-- Where the watch thread is: before `torrentFile` is set, behind it, behind the answer of
    `isTorrentPaused`, behind the `resumeTorrent` of that answer, with `torrentPaused` set, or
    dead. -/
inductive WatchThread
  | loading
  | loaded
  | asked (paused : Bool)
  | resumed (paused : Bool)
  | running
  | ended
deriving DecidableEq, Repr

/-- The watched torrent, the service's `watchTask` and the task's own fields. -/
structure PausableWatch where
  /-- `torrents.get(key)` -/
  torrent : Option TorrentHandle
  /-- `watchTask` is not null. -/
  watchTask : Bool
  isDownloads : Bool
  thread : WatchThread
  /-- `torrentFile` is set, to the key. -/
  torrentFile : Bool
  torrentPaused : Bool
  /-- What the user wants: the state before the watch, or the last request. -/
  wanted : Bool
deriving DecidableEq, Repr

namespace PausableWatch

def hasTorrent (s : PausableWatch) : Bool :=
  s.torrent.isSome

def isTorrentPaused (s : PausableWatch) : Bool :=
  s.torrent.any TorrentHandle.paused

def isAlive (s : PausableWatch) : Bool :=
  decide (s.thread ≠ .ended)

/-- `isWatchingNow` of the service. -/
def isWatchingNow (s : PausableWatch) : Bool :=
  s.watchTask && s.isAlive && s.torrentFile

/-- `TorrentService.pauseTorrent` -/
def pauseTorrent (s : PausableWatch) : PausableWatch :=
  if s.hasTorrent then
    if s.isWatchingNow then { s with torrentPaused := true }
    else { s with torrent := s.torrent.map (fun _ => { paused := true, autoManaged := false }) }
  else s

/-- `TorrentService.resumeTorrent` -/
def resumeTorrent (s : PausableWatch) : PausableWatch :=
  { s with torrent := s.torrent.map (fun _ => { paused := false, autoManaged := true }) }

/-- `onTaskStopped`, as far as pausing goes. -/
def onTaskStopped (s : PausableWatch) : PausableWatch :=
  if s.torrentFile && s.torrentPaused then s.pauseTorrent else s

/-- `TorrentService.stopWatch` -/
def stopWatch (s : PausableWatch) : PausableWatch :=
  { s.onTaskStopped with watchTask := false }

/-- A watch that has just been started. -/
def start (isDownloads : Bool) (torrent : TorrentHandle) : PausableWatch where
  torrent := some torrent
  watchTask := true
  isDownloads := isDownloads
  thread := .loading
  torrentFile := false
  torrentPaused := false
  wanted := torrent.paused

/-- The thread goes on: `run` up to its loop. -/
def advance (s : PausableWatch) : Option PausableWatch :=
  match s.thread with
  | .loading => some { s with thread := .loaded, torrentFile := true }
  | .loaded => some { s with thread := .asked s.isTorrentPaused }
  | .asked paused =>
    some { (if paused then s.resumeTorrent else s) with thread := .resumed paused }
  | .resumed paused =>
    some { s with thread := .running, torrentPaused := paused || !s.isDownloads }
  | .running => none
  | .ended => none

/-- The `catch` of a `WatchException`. -/
def fail (s : PausableWatch) : PausableWatch :=
  let s := s.onTaskStopped
  { s with
    torrent := if !s.isDownloads && s.torrentFile then none else s.torrent
    thread := .ended }

/-- What may happen next. -/
inductive Event
  /-- The user pauses or resumes the download, while it is being watched. -/
  | pause
  | resume
  | stopWatch
  | advance
  /-- The metadata does not come, or the wait for it is interrupted; the torrent is dropped. -/
  | dropped
  /-- The thread ends by an exception of its own. -/
  | fail
  /-- The thread leaves its loop: the download is finished, or the interrupt is noticed. -/
  | finish

/-- The code that runs on an event; `none` where the event cannot happen. -/
def next (s : PausableWatch) : Event → Option PausableWatch
  | .pause => if s.watchTask then some { s.pauseTorrent with wanted := true } else none
  | .resume => if s.watchTask then some { s.resumeTorrent with wanted := false } else none
  | .stopWatch => if s.watchTask then some s.stopWatch else none
  | .advance => s.advance
  | .dropped =>
    if s.thread = .loading then some { s with torrent := none, thread := .ended } else none
  | .fail => if s.thread = .running then some s.fail else none
  | .finish => if s.thread = .running then some { s with thread := .ended } else none

/-- The machine of all watches of a download's torrent, from the downloads list or not. -/
def machine (isDownloads : Bool) : Machine PausableWatch Event :=
  Machine.ofFun (fun s => ∃ torrent, s = start isDownloads torrent) next

variable {s s' : PausableWatch} {isDownloads : Bool}

@[simp] theorem isTorrentPaused_resumeTorrent : s.resumeTorrent.isTorrentPaused = false := by
  cases h : s.torrent <;> simp [isTorrentPaused, resumeTorrent, h]

/-- A pause of a torrent that is not being watched. -/
theorem isTorrentPaused_pauseTorrent (h : s.isWatchingNow = false) :
    s.pauseTorrent.isTorrentPaused = s.hasTorrent := by
  cases ht : s.torrent <;> simp [pauseTorrent, isTorrentPaused, hasTorrent, ht, h]

/-- A pause of a watched torrent. -/
theorem pauseTorrent_of_isWatchingNow (h : s.isWatchingNow = true) :
    s.pauseTorrent.torrent = s.torrent := by
  unfold pauseTorrent
  by_cases ht : s.hasTorrent = true
  · rw [if_pos ht, if_pos h]
  · rw [if_neg ht]

/-- Only a torrent that is there is paused. -/
theorem hasTorrent_of_isTorrentPaused (h : s.isTorrentPaused = true) : s.hasTorrent = true := by
  cases ht : s.torrent with
  | none => simp [isTorrentPaused, ht] at h
  | some torrent => simp [hasTorrent, ht]

/-! ### When a stop is right -/

/-- After the watch has been stopped the torrent is as the user wants it. -/
def PausedRight (s : PausableWatch) : Prop :=
  s.watchTask = false → s.isTorrentPaused = s.wanted

/-- The condition of an event.
    * A stop: with the thread in its loop, no pause is wanted; with a dead thread, the torrent is
      paused or marked to be exactly if a pause is wanted; before the loop, the torrent is as it is
      wanted already.
    * What a thread does after the stop: it resumes only what is not wanted paused, pauses only
      what is, and drops only what is not. -/
def PauseGuard (s : PausableWatch) : Event → Prop
  | .stopWatch =>
    match s.thread with
    | .running => s.wanted = false
    | .ended => (s.isTorrentPaused || s.hasTorrent && s.torrentFile && s.torrentPaused) = s.wanted
    | _ => s.isTorrentPaused = s.wanted
  | .advance => s.watchTask = false → s.thread = .asked true → s.wanted = false
  | .fail => s.watchTask = false →
    (s.isDownloads && s.hasTorrent && s.torrentPaused) = s.wanted
  | .dropped => s.watchTask = false → s.wanted = false
  | .pause | .resume | .finish => True

/-- What the invariant of a run says. -/
structure Inv (s : PausableWatch) : Prop where
  torrentFile : s.thread ≠ .loading → s.thread ≠ .ended → s.torrentFile = true
  /-- The torrent of a watch in its loop is not paused. -/
  notPaused : s.thread = .asked false ∨ (∃ paused, s.thread = .resumed paused) ∨
    s.thread = .running → s.isTorrentPaused = false

theorem pauseTorrent_eq (s : PausableWatch) : ∃ torrent torrentPaused,
    s.pauseTorrent = { s with torrent := torrent, torrentPaused := torrentPaused } := by
  unfold pauseTorrent
  split_ifs
  · exact ⟨s.torrent, true, rfl⟩
  · exact ⟨_, s.torrentPaused, rfl⟩
  · exact ⟨s.torrent, s.torrentPaused, rfl⟩

theorem onTaskStopped_eq (s : PausableWatch) : ∃ torrent torrentPaused,
    s.onTaskStopped = { s with torrent := torrent, torrentPaused := torrentPaused } := by
  unfold onTaskStopped
  split_ifs
  · exact s.pauseTorrent_eq
  · exact ⟨s.torrent, s.torrentPaused, rfl⟩

/-- What `onTaskStopped` leaves of the torrent: it is paused only where it is not being watched. -/
theorem isTorrentPaused_onTaskStopped : s.onTaskStopped.isTorrentPaused =
    (s.isTorrentPaused ||
      !s.isWatchingNow && s.hasTorrent && s.torrentFile && s.torrentPaused) := by
  unfold onTaskStopped
  by_cases hflag : (s.torrentFile && s.torrentPaused) = true
  · rw [if_pos hflag]
    obtain ⟨hfile, hpaused⟩ := Bool.and_eq_true_iff.mp hflag
    -- a live task takes the pause for itself
    cases hw : s.isWatchingNow with
    | true =>
      rw [isTorrentPaused, pauseTorrent_of_isWatchingNow hw]
      simp [isTorrentPaused]
    | false =>
      rw [isTorrentPaused_pauseTorrent hw, hfile, hpaused]
      -- what is paused is in the session
      cases hp : s.isTorrentPaused with
      | true => simp [hasTorrent_of_isTorrentPaused hp]
      | false => simp
  · rw [if_neg hflag, Bool.and_assoc _ s.torrentFile, Bool.eq_false_iff.mpr hflag]
    simp

/-! ### One event -/

/-- A user's request and the start of a watch leave `PausedRight` to the stop. -/
theorem pausedRight_of_watchTask (h : s.watchTask = true) : s.PausedRight := by
  intro hno
  rw [h] at hno
  exact absurd hno (by simp)

/-- What a stop leaves of the torrent. -/
theorem stopWatch_pausedRight_iff (hinv : s.Inv) (hwatch : s.watchTask = true) :
    s.stopWatch.PausedRight ↔ s.PauseGuard .stopWatch := by
  obtain ⟨torrent, torrentPaused, heq⟩ := s.onTaskStopped_eq
  have hwanted : s.stopWatch.wanted = s.wanted := by
    rw [stopWatch, heq]
  have hpaused : s.stopWatch.isTorrentPaused = (s.isTorrentPaused ||
      !s.isWatchingNow && s.hasTorrent && s.torrentFile && s.torrentPaused) :=
    isTorrentPaused_onTaskStopped
  have hiff : s.stopWatch.PausedRight ↔ s.stopWatch.isTorrentPaused = s.stopWatch.wanted :=
    ⟨fun h => h rfl, fun h _ => h⟩
  rw [hiff, hwanted, hpaused]
  unfold PauseGuard isWatchingNow isAlive
  cases ht : s.thread with
  | loading | loaded | asked paused | resumed paused =>
    -- the thread is alive: the pause is diverted, or `torrentFile` is not set
    cases hfile : s.torrentFile <;> simp [hwatch]
  | running =>
    rw [hinv.notPaused (by simp [ht])]
    cases hfile : s.torrentFile <;> cases hw : s.wanted <;> simp [hwatch]
  | ended => simp

/-- What the thread does after the stop, up to its loop. -/
theorem advance_pausedRight_iff (hright : s.PausedRight) (hstep : s.advance = some s') :
    s'.PausedRight ↔ s.PauseGuard .advance := by
  unfold advance at hstep
  cases ht : s.thread with
  | asked paused =>
    simp only [ht, Option.some.injEq] at hstep
    subst hstep
    cases paused with
    -- the torrent is resumed, whatever the user wants
    | true =>
      simp only [PauseGuard, PausedRight, ht, if_true]
      show (s.watchTask = false → s.resumeTorrent.isTorrentPaused = s.wanted) ↔ _
      rw [isTorrentPaused_resumeTorrent]
      simp
    | false => exact iff_of_true hright (by simp [PauseGuard, ht])
  -- the other points do not touch the torrent
  | loading | loaded | resumed paused =>
    simp only [ht, Option.some.injEq] at hstep
    subst hstep
    exact iff_of_true hright (by simp [PauseGuard, ht])
  | running | ended => simp [ht] at hstep

/-- An exception of the thread after the stop. -/
theorem fail_pausedRight_iff (hinv : s.Inv) (ht : s.thread = .running) :
    s.fail.PausedRight ↔ s.PauseGuard .fail := by
  obtain ⟨torrent, torrentPaused, heq⟩ := s.onTaskStopped_eq
  have hfile := hinv.torrentFile (by simp [ht]) (by simp [ht])
  -- it pauses as on a stop, then removes the torrent that is no download
  have hfail : s.fail.isTorrentPaused = (s.isDownloads && s.onTaskStopped.isTorrentPaused) := by
    rw [fail, heq]
    cases s.isDownloads <;> simp [isTorrentPaused, hfile]
  have hsame : s.fail.watchTask = s.watchTask ∧ s.fail.wanted = s.wanted := by
    rw [fail, heq]
    exact ⟨rfl, rfl⟩
  unfold PausedRight PauseGuard
  rw [hfail, hsame.1, hsame.2, isTorrentPaused_onTaskStopped, hinv.notPaused (by simp [ht]), hfile]
  refine imp_congr_right (fun hno => ?_)
  simp [isWatchingNow, hno, Bool.and_assoc]

/-- **One event.**  It keeps the torrent of a stopped watch as the user wants it exactly if it meets
    the guard. -/
theorem pausedRight_iff {e : Event} (hinv : s.Inv) (hright : s.PausedRight)
    (hstep : s.next e = some s') : s'.PausedRight ↔ s.PauseGuard e := by
  cases e with
  | pause =>
    simp only [next] at hstep
    split_ifs at hstep with hwatch
    rw [Option.some.injEq] at hstep
    obtain ⟨torrent, torrentPaused, heq⟩ := s.pauseTorrent_eq
    rw [heq] at hstep
    subst hstep
    -- while the task is there nothing is asked
    exact iff_of_true (pausedRight_of_watchTask hwatch) trivial
  | resume =>
    simp only [next] at hstep
    split_ifs at hstep with hwatch
    rw [Option.some.injEq] at hstep
    subst hstep
    exact iff_of_true (pausedRight_of_watchTask hwatch) trivial
  | stopWatch =>
    simp only [next] at hstep
    split_ifs at hstep with hwatch
    rw [Option.some.injEq] at hstep
    exact hstep ▸ stopWatch_pausedRight_iff hinv hwatch
  | advance => exact advance_pausedRight_iff hright hstep
  | dropped =>
    simp only [next] at hstep
    split_ifs at hstep
    rw [Option.some.injEq] at hstep
    subst hstep
    simp [PausedRight, PauseGuard, isTorrentPaused]
  | fail =>
    simp only [next] at hstep
    split_ifs at hstep with ht
    rw [Option.some.injEq] at hstep
    exact hstep ▸ fail_pausedRight_iff hinv ht
  | finish =>
    simp only [next] at hstep
    split_ifs at hstep
    rw [Option.some.injEq] at hstep
    subst hstep
    exact iff_of_true hright trivial

/-- A state whose thread is where it was and whose torrent is paused only if it was. -/
theorem Inv.of_same (h : s.Inv) (hthread : s'.thread = s.thread)
    (hfile : s'.torrentFile = s.torrentFile)
    (hpaused : s.isTorrentPaused = false → s.torrentFile = true → s.isAlive = true →
      s'.isTorrentPaused = false) : s'.Inv where
  torrentFile := by
    rw [hthread, hfile]
    exact h.torrentFile
  notPaused := by
    rw [hthread]
    intro ht
    have hbehind : s.thread ≠ .loading ∧ s.thread ≠ .ended := by
      rcases ht with ht | ⟨paused, ht⟩ | ht <;> simp [ht]
    exact hpaused (h.notPaused ht) (h.torrentFile hbehind.1 hbehind.2)
      (by simp [isAlive, hbehind.2])

theorem Inv.next {e : Event} (h : s.Inv) (hstep : s.next e = some s') : s'.Inv := by
  cases e with
  | pause =>
    simp only [PausableWatch.next] at hstep
    split_ifs at hstep with hwatch
    rw [Option.some.injEq] at hstep
    subst hstep
    obtain ⟨torrent, torrentPaused, heq⟩ := s.pauseTorrent_eq
    refine h.of_same (by rw [heq]) (by rw [heq]) fun hnot hfile halive => ?_
    show s.pauseTorrent.isTorrentPaused = false
    rw [isTorrentPaused, pauseTorrent_of_isWatchingNow (by simp [isWatchingNow, *])]
    exact hnot
  | resume =>
    simp only [PausableWatch.next] at hstep
    split_ifs at hstep
    rw [Option.some.injEq] at hstep
    subst hstep
    -- a resumed torrent is not paused
    exact h.of_same rfl rfl fun _ _ _ => isTorrentPaused_resumeTorrent
  | stopWatch =>
    simp only [PausableWatch.next] at hstep
    split_ifs at hstep with hwatch
    rw [Option.some.injEq] at hstep
    subst hstep
    obtain ⟨torrent, torrentPaused, heq⟩ := s.onTaskStopped_eq
    refine h.of_same (by rw [stopWatch, heq]) (by rw [stopWatch, heq]) fun hnot hfile halive => ?_
    show s.onTaskStopped.isTorrentPaused = false
    -- the task is still alive, so the flag of the watch does not pause anything
    rw [isTorrentPaused_onTaskStopped]
    simp [isWatchingNow, *]
  | advance =>
    simp only [PausableWatch.next, advance] at hstep
    cases ht : s.thread with
    | loading =>
      simp only [ht, Option.some.injEq] at hstep
      subst hstep
      exact ⟨fun _ _ => rfl, by simp⟩
    | loaded =>
      simp only [ht, Option.some.injEq] at hstep
      subst hstep
      exact ⟨fun _ _ => h.torrentFile (by simp [ht]) (by simp [ht]), by simp [isTorrentPaused]⟩
    | asked paused =>
      have hfile := h.torrentFile (by simp [ht]) (by simp [ht])
      simp only [ht, Option.some.injEq] at hstep
      subst hstep
      cases paused with
      | true => exact ⟨fun _ _ => hfile, fun _ => isTorrentPaused_resumeTorrent⟩
      | false => exact ⟨fun _ _ => hfile, fun _ => h.notPaused (by simp [ht])⟩
    | resumed paused =>
      simp only [ht, Option.some.injEq] at hstep
      subst hstep
      exact ⟨fun _ _ => h.torrentFile (by simp [ht]) (by simp [ht]),
        fun _ => h.notPaused (by simp [ht])⟩
    | running | ended => simp [ht] at hstep
  | dropped | fail | finish =>
    simp only [PausableWatch.next] at hstep
    split_ifs at hstep
    rw [Option.some.injEq] at hstep
    subst hstep
    exact ⟨by simp [fail], by simp [fail]⟩

theorem inv_of_reachable (h : (machine isDownloads).Reachable s) : s.Inv := by
  refine Machine.Reachable.invariant ?_ ?_ h
  · rintro s ⟨torrent, rfl⟩
    exact ⟨by simp [start], by simp [start]⟩
  · exact fun s e s' hinv hstep => hinv.next hstep

theorem pauseGuard_exact (isDownloads : Bool) :
    (machine isDownloads).ExactGuard (fun _ => True) PauseGuard PausedRight where
  init_iff := by
    rintro s ⟨torrent, rfl⟩
    exact iff_of_true (pausedRight_of_watchTask rfl) trivial
  step_iff := fun s e s' hreach hright hstep =>
    pausedRight_iff (inv_of_reachable hreach) hright hstep

/-- **Pausing a watched torrent.**  In every run that meets the guard a stopped watch leaves the
    torrent as the user wants it, and the guard is exact. -/
theorem pausedRight_of_guard (isDownloads : Bool) :
    (∀ s, (machine isDownloads).RunUnder (fun _ => True) PauseGuard s → s.PausedRight) ∧
    (machine isDownloads).ExactGuard (fun _ => True) PauseGuard PausedRight :=
  ⟨fun _ => (pauseGuard_exact isDownloads).runUnder, pauseGuard_exact isDownloads⟩

/-- The events up to the loop of the thread. -/
def loopEvents : List Event :=
  List.replicate 4 .advance

/-- A running download is paused while it is watched, and the watch is stopped: the torrent goes on.
    A paused one is resumed while it is watched, and the watch is stopped after its thread has
    ended: the torrent is paused. -/
theorem paused_wrong :
    (∃ s, (machine true).Reachable s ∧ s.watchTask = false ∧ s.wanted = true ∧
      s.isTorrentPaused = false) ∧
    ∃ s, (machine true).Reachable s ∧ s.watchTask = false ∧ s.wanted = false ∧
      s.isTorrentPaused = true := by
  constructor
  · -- a download that the user pauses during the watch is running afterwards
    have hrun : (Machine.runEvents next (start true ⟨false, true⟩)
        (loopEvents ++ [.pause, .stopWatch, .finish])).map
          (fun s => (s.watchTask, s.wanted, s.isTorrentPaused)) = some (false, true, false) := by
      decide
    obtain ⟨s, hreach, heq⟩ := Machine.Reachable.exists_of_runEvents
      (show (machine true).Reachable _ from .start ⟨_, rfl⟩) hrun
    simp only [Prod.mk.injEq] at heq
    exact ⟨s, hreach, heq⟩
  · have hrun : (Machine.runEvents next (start true ⟨true, false⟩)
        (loopEvents ++ [.resume, .finish, .stopWatch])).map
          (fun s => (s.watchTask, s.wanted, s.isTorrentPaused)) = some (false, false, true) := by
      decide
    obtain ⟨s, hreach, heq⟩ := Machine.Reachable.exists_of_runEvents
      (show (machine true).Reachable _ from .start ⟨_, rfl⟩) hrun
    simp only [Prod.mk.injEq] at heq
    exact ⟨s, hreach, heq⟩

end PausableWatch

end PopcornTime.Android
