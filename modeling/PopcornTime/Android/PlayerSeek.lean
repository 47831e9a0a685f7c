import Mathlib.Algebra.Order.Ring.Int
import Mathlib.Tactic.SplitIfs
import PopcornTime.Android.WatchTask
import PopcornTime.Lib.Machine

namespace PopcornTime.Android

open PopcornTime

/-!
# Android player — the gate of `onSeek`

`PlayerBaseActivity` lets a seek pass if its position lies before the product it has computed from
the last progress it was told, or if that product is 0.  How far the file is downloaded is what the
last message of the task says, and the two are not always the same.

* `PlayerBaseActivity` — the activity, with the calls of its listener and of its client.
* `PlayerPast` — what the task, the client and the control have done; the activity has no part in it.
* `Viewing.Inv` — the cached product is that of the last progress that the listener was told.
* `Viewing.seekRight_iff` — the runs whose seeks are performed and refused as the last message says,
  by what has happened before them.
-/

/-- The fields of a `WatchProgress` that are read; a task counts out of the pieces of a file. -/
structure WatchProgress where
  state : WatchState
  total : ℤ
  value : ℤ
  total_pos : 0 < total

/-- The calls of a `WatchListener` that `playerWatchListener` takes up. -/
inductive WatchCall
  | onUpdateProgress (progress : WatchProgress)
  | onDownloadFinished
  | onBufferingFinished

/-- The activity.  `playerControl` is the length that the control answers, `mediaProgress` and
    `bufferingProgress` are shown, and `sought` are the positions the control was sent to. -/
structure PlayerBaseActivity where
  playerControl : Option ℤ
  bound : Bool
  listening : Bool
  seekPosition : ℤ
  downloadedProgress : ℤ
  mediaProgress : ℤ
  bufferingProgress : ℤ
  sought : List ℤ

namespace PlayerBaseActivity

def DEFAULT_BUFFERING_PERCENT : ℤ := 5

def new : PlayerBaseActivity where
  playerControl := none
  bound := false
  listening := false
  seekPosition := 0
  downloadedProgress := 0
  mediaProgress := 0
  bufferingProgress := 0
  sought := []

/-- The listener is added where the service has a watch. -/
def onClientConnected (a : PlayerBaseActivity) (watch : Bool) : PlayerBaseActivity :=
  { a with
    bound := true
    listening := a.listening || watch
    seekPosition := -1
    downloadedProgress := 0 }

def onClientDisconnected (a : PlayerBaseActivity) : PlayerBaseActivity :=
  { a with bound := false }

def onStop (a : PlayerBaseActivity) : PlayerBaseActivity :=
  if a.bound then { a with bound := false, listening := false } else a

def onStartSeeking (a : PlayerBaseActivity) : PlayerBaseActivity :=
  { a with seekPosition := -1 }

def onStopSeeking (a : PlayerBaseActivity) : PlayerBaseActivity :=
  { a with seekPosition := -1 }

def seek (a : PlayerBaseActivity) (position : ℤ) : PlayerBaseActivity :=
  let sought := if a.playerControl.isSome then a.sought ++ [position] else a.sought
  { a with sought := sought }.onStopSeeking

def onSeek (a : PlayerBaseActivity) (position : ℤ) : PlayerBaseActivity :=
  if a.downloadedProgress = 0 ∨ position < a.downloadedProgress then a.seek position
  else a.onStopSeeking

/-- The progress bar takes an `int`. -/
def updateMediaProgress (a : PlayerBaseActivity) (progress : ℤ) : PlayerBaseActivity :=
  { a with mediaProgress := WatchTask.wrapInt progress }

def onUpdateProgress (a : PlayerBaseActivity) (progress : WatchProgress) : PlayerBaseActivity :=
  if progress.state = .sequentialDownload then
    -- the cast to `long` drops the fraction
    let downloaded := match a.playerControl with
      | some length => (progress.value * length).tdiv progress.total
      | none => 0
    { a with downloadedProgress := downloaded }.updateMediaProgress downloaded
  else if progress.state = .buffering then
    let percent := (WatchTask.wrapInt (progress.value * 100)).tdiv progress.total
    { a with
      bufferingProgress :=
        if percent < DEFAULT_BUFFERING_PERCENT then DEFAULT_BUFFERING_PERCENT
        else if 100 < percent then 100 else percent }
  else a

def onDownloadFinished (a : PlayerBaseActivity) : PlayerBaseActivity :=
  a.updateMediaProgress (a.playerControl.getD 0)

def onBufferingFinished (a : PlayerBaseActivity) : PlayerBaseActivity :=
  if a.seekPosition ≠ -1 then a.seek a.seekPosition else a

/-- `playerWatchListener` -/
def hear (a : PlayerBaseActivity) : WatchCall → PlayerBaseActivity
  | .onUpdateProgress progress => a.onUpdateProgress progress
  | .onDownloadFinished => a.onDownloadFinished
  | .onBufferingFinished => a.onBufferingFinished

/-- `onSeek` sends the control to the position. -/
def Performs (a : PlayerBaseActivity) (position : ℤ) : Prop :=
  (a.onSeek position).sought = a.sought ++ [position]

instance (a : PlayerBaseActivity) (position : ℤ) : Decidable (a.Performs position) :=
  inferInstanceAs (Decidable (_ = _))

/-- With a control there is nothing but the gate. -/
theorem performs_iff {a : PlayerBaseActivity} {length position : ℤ}
    (hcontrol : a.playerControl = some length) :
    a.Performs position ↔ a.downloadedProgress = 0 ∨ position < a.downloadedProgress := by
  unfold Performs onSeek
  split_ifs with hgate
  · simp [seek, onStopSeeking, hcontrol, hgate]
  · simp [onStopSeeking, hgate]

end PlayerBaseActivity

/-! ### How far the file is downloaded -/

/-- What a message says of the file. -/
inductive Downloaded
  | upTo (progress : WatchProgress)
  | whole

/-- A message that says how far the download has come. -/
def WatchCall.progress? : WatchCall → Option WatchProgress
  | .onUpdateProgress progress => if progress.state = .sequentialDownload then some progress else none
  | _ => none

/-- A message of the kinds that say something of the file. -/
def WatchCall.downloaded? : WatchCall → Option Downloaded
  | .onDownloadFinished => some .whole
  | call => call.progress?.map .upTo

namespace Downloaded

/-- The file is downloaded up to `position / length`. -/
def Covers : Downloaded → ℤ → ℤ → Prop
  | upTo progress, length, position => position * progress.total ≤ progress.value * length
  | whole, _, _ => True

instance : (d : Downloaded) → (length position : ℤ) → Decidable (d.Covers length position)
  | upTo _, _, _ => inferInstanceAs (Decidable (_ ≤ _))
  | whole, _, _ => .isTrue trivial

end Downloaded

/-! ### Viewing -/

/-- The control is set, or its length becomes known; the client; the task; the user. -/
inductive PlayerEvent
  | setPlayerControl (length : Option ℤ)
  | onClientConnected (watch : Bool)
  | onClientDisconnected
  | onStop
  | message (call : WatchCall)
  | onStartSeeking
  | onSeek (position : ℤ)

/-- What has happened.  `heard` is the last progress that the listener was told since the client was
    connected, with the length that the control had then; `last` is the last that the task has said
    of the file, whether it was heard or not. -/
structure PlayerPast where
  length : Option ℤ
  bound : Bool
  listening : Bool
  heard : Option (WatchProgress × Option ℤ)
  last : Option Downloaded

namespace PlayerPast

def new : PlayerPast where
  length := none
  bound := false
  listening := false
  heard := none
  last := none

def next (past : PlayerPast) : PlayerEvent → PlayerPast
  | .setPlayerControl length => { past with length := length }
  | .onClientConnected watch =>
    { past with bound := true, listening := past.listening || watch, heard := none }
  | .onClientDisconnected => { past with bound := false }
  -- without a binding there is nothing to leave
  | .onStop => if past.bound then { past with bound := false, listening := false } else past
  | .message call =>
    { past with
      heard :=
        if past.listening then
          (call.progress?.map fun progress => (progress, past.length)).or past.heard
        else past.heard
      last := call.downloaded?.or past.last }
  | .onStartSeeking | .onSeek _ => past

/-- What the progress comes to in the film as it was when it was heard. -/
def product (past : PlayerPast) : ℤ :=
  match past.heard with
  | some (progress, some length) => (progress.value * length).tdiv progress.total
  | _ => 0

/-- The condition of a seek: the progress heard, if it comes to anything, puts the position on the
    side on which the last message has it; else the last message has it downloaded. -/
def SeekGuard (past : PlayerPast) : PlayerEvent → Prop
  | .onSeek position => ∀ length ∈ past.length, 0 ≤ position → position ≤ length →
      ∀ d ∈ past.last,
        if past.product = 0 then d.Covers length position
        else position < past.product ↔ d.Covers length position
  | _ => True

/-- A progress that has been heard by the control as it is: seeks to the product itself are wrong,
    or all but the one to the begin if the product is 0. -/
theorem seekGuard_upTo_iff {past : PlayerPast} {progress : WatchProgress} {length position : ℤ}
    (hheard : past.heard = some (progress, some length)) (hlength : past.length = some length)
    (hlast : past.last = some (.upTo progress)) (hvalue : 0 ≤ progress.value * length)
    (hposition : 0 ≤ position) (hle : position ≤ length) :
    past.SeekGuard (.onSeek position) ↔
      if past.product = 0 then position = 0 else position ≠ past.product := by
  have hproduct : past.product = progress.value * length / progress.total := by
    rw [product, hheard]
    exact Int.tdiv_eq_ediv_of_nonneg hvalue
  have hcovers : (Downloaded.upTo progress).Covers length position ↔ position ≤ past.product := by
    rw [hproduct]
    exact (Int.le_ediv_iff_mul_le progress.total_pos).symm
  have hguard : past.SeekGuard (.onSeek position) ↔ if past.product = 0 then
      (Downloaded.upTo progress).Covers length position
      else position < past.product ↔ (Downloaded.upTo progress).Covers length position := by
    simp [SeekGuard, hlength, hlast, hposition, hle]
  rw [hguard, hcovers]
  split_ifs <;> omega

/-- Once all is said to be downloaded, the positions from the product of the last progress on are
    refused, unless that is 0. -/
theorem seekGuard_whole_iff {past : PlayerPast} {length position : ℤ}
    (hlength : past.length = some length) (hlast : past.last = some .whole)
    (hposition : 0 ≤ position) (hle : position ≤ length) :
    past.SeekGuard (.onSeek position) ↔ past.product = 0 ∨ position < past.product := by
  have hcovers : Downloaded.whole.Covers length position := trivial
  have hguard : past.SeekGuard (.onSeek position) ↔
      if past.product = 0 then Downloaded.whole.Covers length position
      else position < past.product ↔ Downloaded.whole.Covers length position := by
    simp [SeekGuard, hlength, hlast, hposition, hle]
  rw [hguard, iff_true_right hcovers, iff_true_intro hcovers]
  split_ifs with hproduct
  · exact iff_of_true trivial (.inl hproduct)
  · exact (or_iff_right hproduct).symm

end PlayerPast

/-- The activity while a task runs, and what has happened to it. -/
structure Viewing where
  activity : PlayerBaseActivity
  past : PlayerPast

namespace Viewing

def new : Viewing where
  activity := .new
  past := .new

/-- A message is heard where the listener is in the list of the handler. -/
def act (a : PlayerBaseActivity) : PlayerEvent → PlayerBaseActivity
  | .setPlayerControl length => { a with playerControl := length }
  | .onClientConnected watch => a.onClientConnected watch
  | .onClientDisconnected => a.onClientDisconnected
  | .onStop => a.onStop
  | .message call => if a.listening then a.hear call else a
  | .onStartSeeking => a.onStartSeeking
  | .onSeek position => a.onSeek position

def next (v : Viewing) (e : PlayerEvent) : Viewing where
  activity := act v.activity e
  past := v.past.next e

/-- A seek to a position of the film is performed exactly if the last message says that the file is
    downloaded up to there. -/
def SeekRight (v : Viewing) : PlayerEvent → Prop
  | .onSeek position => ∀ length ∈ v.activity.playerControl, 0 ≤ position → position ≤ length →
      ∀ d ∈ v.past.last, (v.activity.Performs position ↔ d.Covers length position)
  | _ => True

/-! ### What the activity has of it -/

/-- **The invariant.**  What is cached is the product of the last progress heard. -/
structure Inv (v : Viewing) : Prop where
  playerControl : v.activity.playerControl = v.past.length
  bound : v.activity.bound = v.past.bound
  listening : v.activity.listening = v.past.listening
  downloadedProgress : v.activity.downloadedProgress = v.past.product

variable {v : Viewing} {e : PlayerEvent}

theorem inv_new : Inv new := ⟨rfl, rfl, rfl, rfl⟩

/-- A seek changes nothing that the gate depends on. -/
theorem Inv.seek (h : Inv v) (position : ℤ) : Inv ⟨v.activity.seek position, v.past⟩ :=
  ⟨h.playerControl, h.bound, h.listening, h.downloadedProgress⟩

/-- A progress is cached as it is heard, and no other message is. -/
theorem Inv.hear (h : Inv v) (call : WatchCall) (last : Option Downloaded) :
    Inv ⟨v.activity.hear call, { v.past with
      heard := (call.progress?.map fun progress => (progress, v.past.length)).or v.past.heard
      last := last }⟩ := by
  cases call with
  | onUpdateProgress progress =>
    show Inv ⟨v.activity.onUpdateProgress progress, _⟩
    unfold PlayerBaseActivity.onUpdateProgress WatchCall.progress?
    by_cases hstate : progress.state = .sequentialDownload
    · simp only [if_pos hstate]
      refine ⟨h.playerControl, h.bound, h.listening, ?_⟩
      show (match v.activity.playerControl with | some _ => _ | none => _) = PlayerPast.product _
      rw [h.playerControl, PlayerPast.product]
      cases v.past.length <;> rfl
    · simp only [if_neg hstate]
      by_cases hbuffering : progress.state = .buffering
      · rw [if_pos hbuffering]
        exact ⟨h.playerControl, h.bound, h.listening, h.downloadedProgress⟩
      · rw [if_neg hbuffering]
        exact ⟨h.playerControl, h.bound, h.listening, h.downloadedProgress⟩
  | onDownloadFinished => exact ⟨h.playerControl, h.bound, h.listening, h.downloadedProgress⟩
  | onBufferingFinished =>
    -- the seek that was put off is made now: no control, connect or progress is changed
    have hsame : Inv ⟨v.activity.onBufferingFinished, v.past⟩ := by
      unfold PlayerBaseActivity.onBufferingFinished
      split_ifs
      · exact h.seek _
      · exact h
    exact ⟨hsame.playerControl, hsame.bound, hsame.listening, hsame.downloadedProgress⟩

theorem Inv.next (h : Inv v) (e : PlayerEvent) : Inv (v.next e) := by
  cases e with
  | setPlayerControl length => exact ⟨rfl, h.bound, h.listening, h.downloadedProgress⟩
  | onClientConnected watch =>
    -- a connected client starts from no progress, as the new history does
    exact ⟨h.playerControl, rfl, congrArg (· || watch) h.listening, rfl⟩
  | onClientDisconnected => exact ⟨h.playerControl, rfl, h.listening, h.downloadedProgress⟩
  | onStop =>
    show Inv ⟨v.activity.onStop, if v.past.bound then _ else _⟩
    unfold PlayerBaseActivity.onStop
    rw [h.bound]
    split_ifs
    · exact ⟨h.playerControl, rfl, rfl, h.downloadedProgress⟩
    · exact h
  | message call =>
    show Inv ⟨if v.activity.listening then _ else _, { v.past with
      heard := if v.past.listening then _ else _, last := _ }⟩
    rw [h.listening]
    split_ifs
    · exact h.hear call _
    · exact ⟨h.playerControl, h.bound, h.listening, h.downloadedProgress⟩
  | onStartSeeking => exact ⟨h.playerControl, h.bound, h.listening, h.downloadedProgress⟩
  | onSeek position =>
    show Inv ⟨v.activity.onSeek position, v.past⟩
    unfold PlayerBaseActivity.onSeek
    split_ifs
    · exact h.seek position
    · exact ⟨h.playerControl, h.bound, h.listening, h.downloadedProgress⟩

/-- A seek is right exactly if the past has it so. -/
theorem Inv.seekRight_event_iff (h : Inv v) : v.SeekRight e ↔ v.past.SeekGuard e := by
  cases e with
  | onSeek position =>
    unfold SeekRight PlayerPast.SeekGuard
    dsimp only
    rw [h.playerControl]
    refine forall₂_congr fun length hcontrol => ?_
    refine forall₂_congr fun _ hposition => forall₂_congr fun d _ => ?_
    rw [PlayerBaseActivity.performs_iff (h.playerControl.trans hcontrol), h.downloadedProgress]
    split_ifs with hproduct
    · exact iff_true_left (.inl hproduct)
    · rw [or_iff_right hproduct]
  | setPlayerControl | onClientConnected | onClientDisconnected | onStop | message
  | onStartSeeking => exact Iff.rfl

/-- **The gate.**  In a run every seek is performed and refused as the last message says exactly if
    every seek meets the guard, which is on the messages, the connections, the control and the seek.
    Where the last progress has been heard by the control as it is, the seek to its product is wrong,
    or all but the one to the begin if that is 0; and once the download has finished all from the
    product on. -/
theorem seekRight_iff (events : List PlayerEvent) :
    (EachCall next SeekRight new events ↔
      EachCall PlayerPast.next PlayerPast.SeekGuard PlayerPast.new events) ∧
    ∀ (past : PlayerPast) (progress : WatchProgress) (length position : ℤ),
      past.heard = some (progress, some length) → past.length = some length →
      0 ≤ progress.value * length → 0 ≤ position → position ≤ length →
      (past.last = some (.upTo progress) → (past.SeekGuard (.onSeek position) ↔
        if past.product = 0 then position = 0 else position ≠ past.product)) ∧
      (past.last = some .whole → (past.SeekGuard (.onSeek position) ↔
        past.product = 0 ∨ position < past.product)) := by
  refine ⟨?_, fun past progress length position hheard hlength hvalue hposition hle =>
    ⟨fun hlast => PlayerPast.seekGuard_upTo_iff hheard hlength hlast hvalue hposition hle,
      fun hlast => PlayerPast.seekGuard_whole_iff hlength hlast hposition hle⟩⟩
  have hguard : EachCall next SeekRight new events ↔
      EachCall next (fun v e => v.past.SeekGuard e) new events :=
    eachCall_iff (I := Inv) (fun _ _ h => h.seekRight_event_iff) (fun _ e h _ => h.next e) inv_new
      events
  rw [hguard]
  exact eachCall_map (f := past) (fun _ _ => rfl) new events

/-- All ten pieces are there, but the product is still that of nine: the end of the film is
    refused. -/
theorem onSeek_refused_when_finished :
    let progress : WatchProgress := ⟨.sequentialDownload, 10, 9, by decide⟩
    ¬EachCall next SeekRight new
      [.setPlayerControl (some 1000), .onClientConnected true, .message (.onUpdateProgress progress),
        .message .onDownloadFinished, .onSeek 950] := by
  rintro progress ⟨-, -, -, -, hseek, -⟩
  have hperforms := (hseek 1000 rfl (by decide) (by decide) .whole rfl).mpr trivial
  revert hperforms
  decide

end Viewing

end PopcornTime.Android
