import Mathlib.Tactic.SplitIfs
import PopcornTime.Lib.Range

namespace PopcornTime.TorrentLib

open PopcornTime

/-!
# Torrent library — `WatchTask`

The task that downloads one file of a torrent so that it can be watched while it downloads.  It
selects the file, waits until a window of pieces at its begin and one at its end are had, and then
moves along the file as its pieces finish.

* `Torrent` — the `torrent_handle` behind a `LibTorrentHandle`; `update` sets its deadlines.
* `pieceRange` — the first and the last piece of the file, read from the piece priorities.
* `Preparing` — the two windows.
* `WatchTask.new`, `WatchTask.onPieceFinished`, `WatchTask.cancel` — the task itself.
-/

inductive TorrentPriority
  | notDownload
  | normal
  | high
deriving DecidableEq, Repr

/-- `LibTorrentPriority.convertPriority` to libtorrent. -/
def TorrentPriority.convertPriority : TorrentPriority → ℕ
  | .notDownload => 0
  | .high => 7
  | .normal => 1

/-- `LibTorrentPriority.convertPriority` from libtorrent. -/
def convertPriority (priority : ℕ) : TorrentPriority :=
  if priority = 0 then .notDownload else if priority = 7 then .high else .normal

/-- Only priority 0 is not downloaded. -/
theorem convertPriority_ne_notDownload {priority : ℕ} :
    convertPriority priority ≠ .notDownload ↔ priority ≠ 0 := by
  unfold convertPriority
  split_ifs with h₀ h₇
  · simp [h₀]
  · simp [h₀]
  · simp [h₀]

/-- A `torrent_handle`. -/
structure Torrent where
  hasMetadata : Bool
  paused : Bool
  isFinished : Bool
  filePriorities : List ℕ
  pieceSize : ℕ
  had : List ℤ
  /-- The calls of `set_piece_deadline`. -/
  deadlines : List (ℤ × ℤ)
deriving DecidableEq, Repr

namespace Torrent

def havePiece (t : Torrent) (index : ℤ) : Bool :=
  decide (index ∈ t.had)

def getFilePriorities (t : Torrent) : List TorrentPriority :=
  t.filePriorities.map TorrentLib.convertPriority

def setFilePriority (t : Torrent) (index : ℕ) (priority : TorrentPriority) : Torrent :=
  { t with filePriorities := t.filePriorities.set index priority.convertPriority }

/-- The loops that set the priorities of the first files. -/
def setFilePriorities (t : Torrent) (files : ℕ) (priority : ℕ → TorrentPriority) : Torrent :=
  (List.range files).foldl (fun t i => t.setFilePriority i (priority i)) t

def setPieceDeadline (t : Torrent) (index deadline : ℤ) : Torrent :=
  { t with deadlines := t.deadlines ++ [(index, deadline)] }

/-- A loop of `update`, from a piece on, with its `count`. -/
def updateLoop (window : ℤ) (deadline : ℤ → ℤ) : Torrent → ℤ → List ℤ → Torrent
  | t, _, [] => t
  | t, count, i :: is =>
    if t.havePiece i then
      if window ≤ count then t else updateLoop window deadline t count is
    else
      let t := t.setPieceDeadline i (deadline i)
      if window ≤ count + 1 then t else updateLoop window deadline t (count + 1) is

/-- `LibTorrentWatchTask.update` -/
def update (t : Torrent) (first last position window : ℤ) : Torrent :=
  if first < last then
    updateLoop window (fun i => i - first + 1) t 0 (Int.range position (last + 1))
  else if last < first then
    updateLoop window (fun i => first - i + 1) t 0 (Int.range last (first + 1)).reverse
  else t

/-! ### What is left alone -/

/-- The loop of `update` writes deadlines only, -/
theorem updateLoop_eq (window : ℤ) (deadline : ℤ → ℤ) (t : Torrent) (count : ℤ) (pieces : List ℤ) :
    updateLoop window deadline t count pieces =
      { t with deadlines := (updateLoop window deadline t count pieces).deadlines } := by
  induction pieces generalizing t count with
  | nil => rfl
  | cons i is ih =>
    unfold updateLoop
    dsimp only
    split_ifs
    · rfl
    · exact ih t count
    · rfl
    · rw [ih (t.setPieceDeadline i (deadline i))]
      rfl

/-- and so does `update`. -/
theorem update_eq (t : Torrent) (first last position window : ℤ) :
    t.update first last position window =
      { t with deadlines := (t.update first last position window).deadlines } := by
  unfold update
  split_ifs
  · exact updateLoop_eq _ _ _ _ _
  · exact updateLoop_eq _ _ _ _ _
  · rfl

/-- **The loop over the files** writes the priority of each of them. -/
theorem setFilePriorities_eq (t : Torrent) (priority : ℕ → TorrentPriority) (files : ℕ) :
    t.setFilePriorities files priority = { t with
      filePriorities := t.filePriorities.mapIdx fun i old =>
        if i < files then (priority i).convertPriority else old } := by
  induction files with
  | zero =>
    have hsame : (t.filePriorities.mapIdx fun i old =>
        if i < 0 then (priority i).convertPriority else old) = t.filePriorities :=
      List.ext_getElem? fun i => by simp
    rw [hsame]
    rfl
  | succ n ih =>
    unfold setFilePriorities at ih ⊢
    rw [List.range_succ, List.foldl_append, ih, List.foldl_cons, List.foldl_nil, setFilePriority]
    congr 1
    refine List.ext_getElem? fun i => ?_
    rw [List.getElem?_set, List.getElem?_mapIdx, List.getElem?_mapIdx, List.length_mapIdx]
    by_cases hin : n = i
    · subst hin
      by_cases hlt : n < t.filePriorities.length
      · simp [hlt]
      · simp [hlt]
    · rw [if_neg hin]
      have hiff : i < n ↔ i < n + 1 := by omega
      simp only [hiff]

end Torrent

/-- The calls of the `WatchListener`. -/
inductive ListenerCall
  | onProgress (current total : ℕ)
  | onPrepareSuccess
  | onFinished
deriving DecidableEq, Repr

/-- The loop over the piece priorities, from index `i` on. -/
def pieceRangeLoop : List TorrentPriority → ℤ → ℤ → ℤ → ℤ × ℤ
  | [], _, first, last => (first, last)
  | p :: ps, i, first, last =>
    if p ≠ .notDownload then pieceRangeLoop ps (i + 1) (if first = -1 then i else first) last
    else pieceRangeLoop ps (i + 1) first (if first ≠ -1 ∧ last = -1 then i - 1 else last)

/-- `_firstPiece` and `_lastPiece`. -/
def pieceRange (piecePriorities : List TorrentPriority) : ℤ × ℤ :=
  let (first, last) := pieceRangeLoop piecePriorities 0 (-1) (-1)
  (first, if last = -1 then piecePriorities.length - 1 else last)

def SIZE_MB : ℕ := 1024 * 1024

def PIECES_WINDOW_MIN : ℕ := 2

/-- `_pieceWindow` -/
def pieceWindow (pieceSize : ℕ) : ℕ :=
  if 10 * SIZE_MB / pieceSize < PIECES_WINDOW_MIN then PIECES_WINDOW_MIN
  else 10 * SIZE_MB / pieceSize

/-! ### `Preparing` -/

structure Preparing where
  beginRange : List Bool
  endRange : List Bool
  total : ℕ
  progress : ℕ
  success : Bool
deriving DecidableEq, Repr

namespace Preparing

/-- The constructor, with the calls it makes. -/
def new (t : Torrent) (firstPiece lastPiece currentPosition : ℤ) (startRange endRange : ℕ) :
    Preparing × Torrent × List ListenerCall :=
  let beginPieces := (List.range startRange).map fun (i : ℕ) => t.havePiece (firstPiece + i)
  let endPieces := (List.range endRange).map fun (i : ℕ) => t.havePiece (lastPiece - i)
  let total := startRange + endRange
  let progress := beginPieces.count true + endPieces.count true
  let t := t.update firstPiece lastPiece currentPosition startRange
  let success := decide (total ≤ progress)
  let preparing := ⟨beginPieces, endPieces, total, progress, success⟩
  if success then (preparing, t, [.onProgress progress total, .onPrepareSuccess])
  else (preparing, t.update lastPiece (lastPiece - endRange + 1) lastPiece endRange,
    [.onProgress progress total])

/-- The torrent gets deadlines. -/
theorem new_torrent (t : Torrent) (firstPiece lastPiece currentPosition : ℤ)
    (startRange endRange : ℕ) : ∃ deadlines,
      (new t firstPiece lastPiece currentPosition startRange endRange).2.1 =
        { t with deadlines := deadlines } := by
  unfold new
  dsimp only
  split_ifs
  · exact ⟨_, Torrent.update_eq _ _ _ _ _⟩
  · rw [Torrent.update_eq, Torrent.update_eq t]
    exact ⟨_, rfl⟩

/-- The constructor reports the progress, and the success if it is there. -/
theorem new_calls (t : Torrent) (firstPiece lastPiece currentPosition : ℤ)
    (startRange endRange : ℕ) :
    (new t firstPiece lastPiece currentPosition startRange endRange).2.2 =
      .onProgress (new t firstPiece lastPiece currentPosition startRange endRange).1.progress
        (new t firstPiece lastPiece currentPosition startRange endRange).1.total ::
      if (new t firstPiece lastPiece currentPosition startRange endRange).1.success then
        [.onPrepareSuccess] else [] := by
  unfold new
  dsimp only
  split_ifs with hsuccess
  · rfl
  · rfl

/-- `updateState`, for the range that `set` puts back. -/
def updateState (p : Preparing) (range : List Bool) (set : List Bool → Preparing → Preparing)
    (index : ℤ) : Preparing × List ListenerCall :=
  if get? range index = some false then
    let progress := p.progress + 1
    (set (range.set index.toNat true)
      { p with progress := progress, success := decide (p.total ≤ progress) },
      [.onProgress progress p.total])
  else (p, [])

/-- `onPieceFinished` -/
def onPieceFinished (p : Preparing) (firstPiece lastPiece piece : ℤ) :
    Preparing × List ListenerCall :=
  let (p, calls) :=
    if firstPiece ≤ piece ∧ piece < firstPiece + p.beginRange.length then
      p.updateState p.beginRange (fun range p => { p with beginRange := range }) (piece - firstPiece)
    -- a piece of both ranges counts in the first one only
    else if piece ≤ lastPiece ∧ lastPiece - p.endRange.length < piece then
      p.updateState p.endRange (fun range p => { p with endRange := range }) (lastPiece - piece)
    else (p, [])
  (p, if p.success then calls ++ [.onPrepareSuccess] else calls)

/-- A mark reports no end, -/
theorem updateState_calls (p : Preparing) (range : List Bool)
    (set : List Bool → Preparing → Preparing) (index : ℤ) :
    .onFinished ∉ (p.updateState range set index).2 := by
  unfold updateState
  split_ifs
  · simp
  · simp

/-- and neither does an event of the windows. -/
theorem onPieceFinished_calls (p : Preparing) (firstPiece lastPiece piece : ℤ) :
    .onFinished ∉ (p.onPieceFinished firstPiece lastPiece piece).2 := by
  have hif : ∀ (b : Bool) (calls : List ListenerCall), .onFinished ∉ calls →
      .onFinished ∉ (if b then calls ++ [.onPrepareSuccess] else calls) := by
    intro b calls h
    cases b with
    | false => exact h
    | true => simpa using h
  unfold onPieceFinished
  dsimp only
  apply hif
  split_ifs
  · exact updateState_calls _ _ _ _
  · exact updateState_calls _ _ _ _
  · exact List.not_mem_nil

end Preparing

/-! ### The task -/

structure WatchTask where
  /-- `_filePriorities` -/
  filePriorities : List TorrentPriority
  firstPiece : ℤ
  lastPiece : ℤ
  pieceWindow : ℕ
  /-- `_paused` -/
  paused : Bool
  currentPosition : ℤ
  finished : Bool
  preparing : Option Preparing
  /-- What the listener has been called with. -/
  calls : List ListenerCall
deriving DecidableEq, Repr

namespace WatchTask

/-- The constructor selects the file. -/
def selectFile (t : Torrent) (index : ℕ) : Torrent :=
  t.setFilePriorities t.filePriorities.length
    (fun i => if i = index then .normal else .notDownload)

/-- `updatePosition` -/
def updatePosition (task : WatchTask) (t : Torrent) (position : ℤ) : WatchTask :=
  match (Int.range position (task.lastPiece + 1)).find? (fun i => !t.havePiece i) with
  | some i => { task with currentPosition := i }
  | none => { task with finished := true }

/-- The constructor behind `getPiecePriorities`, for a torrent with metadata and a listener. -/
def start (t : Torrent) (filePriorities : List TorrentPriority) (paused : Bool)
    (piecePriorities : List TorrentPriority) : WatchTask × Torrent :=
  let (first, last) := pieceRange piecePriorities
  let task : WatchTask :=
    ⟨filePriorities, first, last, TorrentLib.pieceWindow t.pieceSize, paused, 0, false, none, []⟩
  let task := task.updatePosition t first
  -- every piece is there: the listener hears of it at once
  if task.finished then
    ({ task with calls := [.onProgress 1 1, .onPrepareSuccess, .onFinished] }, t)
  else
    let (preparing, t, calls) :=
      Preparing.new t first last task.currentPosition task.pieceWindow task.pieceWindow
    ({ task with preparing := some preparing, calls := calls },
      -- a torrent that was paused has to run for the watch
      if paused then { t with paused := false } else t)

/-- The constructor; `piece_priorities` is libtorrent's answer for the priorities of the files, and
    without metadata there is an exception once they have been read. -/
def new (piece_priorities : List ℕ → List ℕ) (t : Torrent) (index : ℕ) :
    Option WatchTask × Torrent :=
  let paused := t.paused
  let filePriorities := t.getFilePriorities
  let t := selectFile t index
  if t.hasMetadata then
    let (task, t) := start t filePriorities paused
      ((piece_priorities t.filePriorities).map TorrentLib.convertPriority)
    (some task, t)
  else (none, t)

/-- The first statement of `onPieceFinished` for a task that has not finished. -/
def prepare (task : WatchTask) (pieceIndex : ℤ) : WatchTask :=
  match task.preparing with
  | none => task
  | some preparing =>
    if preparing.success then task
    else
      let (preparing, calls) := preparing.onPieceFinished task.firstPiece task.lastPiece pieceIndex
      { task with preparing := some preparing, calls := task.calls ++ calls }

/-- `onPieceFinished` -/
def onPieceFinished (task : WatchTask) (t : Torrent) (pieceIndex : ℤ) : WatchTask × Torrent :=
  if task.finished then (task, t)
  else
    let task := task.prepare pieceIndex
    let task := task.updatePosition t task.currentPosition
    -- the listener of the preparation is called before
    if task.finished then ({ task with calls := task.calls ++ [.onFinished] }, t)
    else
      (task, t.update task.firstPiece task.lastPiece task.currentPosition task.pieceWindow)

/-- `cancel` -/
def cancel (task : WatchTask) (t : Torrent) : Torrent :=
  let t := t.setFilePriorities task.filePriorities.length
    (fun i => task.filePriorities.getD i .notDownload)
  if task.paused then { t with paused := true } else t

/-! ### What the functions do -/

section Specs

variable {task : WatchTask} {t : Torrent}

/-- **The selection of a file** writes the priorities, and only them. -/
theorem selectFile_eq (t : Torrent) (index : ℕ) :
    selectFile t index =
      { t with filePriorities := (selectFile t index).filePriorities } := by
  rw [selectFile, Torrent.setFilePriorities_eq]

/-- The pieces, -/
theorem selectFile_had (t : Torrent) (index : ℕ) : (selectFile t index).had = t.had := by
  rw [selectFile_eq]

/-- the metadata, -/
theorem selectFile_hasMetadata (t : Torrent) (index : ℕ) :
    (selectFile t index).hasMetadata = t.hasMetadata := by
  rw [selectFile_eq]

/-- and the pause stay as they are. -/
theorem selectFile_paused (t : Torrent) (index : ℕ) :
    (selectFile t index).paused = t.paused := by
  rw [selectFile_eq]

/-- The selected file has the priority 1, and all others have none. -/
theorem selectFile_filePriorities (t : Torrent) (index : ℕ) :
    (selectFile t index).filePriorities =
      t.filePriorities.mapIdx fun i _ => if i = index then 1 else 0 := by
  rw [selectFile, Torrent.setFilePriorities_eq]
  refine List.ext_getElem? fun i => ?_
  rw [List.getElem?_mapIdx, List.getElem?_mapIdx]
  cases hold : t.filePriorities[i]? with
  | none => rfl
  | some old =>
    rw [Option.map_some, Option.map_some, if_pos (List.getElem?_eq_some_iff.mp hold).1]
    split_ifs
    · rfl
    · rfl

/-- There are as many priorities as before. -/
theorem length_selectFile (t : Torrent) (index : ℕ) :
    (selectFile t index).filePriorities.length = t.filePriorities.length := by
  rw [selectFile_filePriorities, List.length_mapIdx]

/-- **`updatePosition`** finds the first piece from the position on that is missing, or finishes. -/
theorem updatePosition_cases (task : WatchTask) (t : Torrent) (position : ℤ) :
    (∃ i, position ≤ i ∧ i ≤ task.lastPiece ∧ t.havePiece i = false ∧
      (∀ j, position ≤ j → j < i → t.havePiece j = true) ∧
      task.updatePosition t position = { task with currentPosition := i }) ∨
    (∀ j, position ≤ j → j ≤ task.lastPiece → t.havePiece j = true) ∧
      task.updatePosition t position = { task with finished := true } := by
  unfold updatePosition
  cases hfind : (Int.range position (task.lastPiece + 1)).find? (fun i => !t.havePiece i) with
  | some i =>
    obtain ⟨hlo, hhi, hmissing, hbefore⟩ := find?_range_eq_some.mp hfind
    refine .inl ⟨i, hlo, by omega, by simpa using hmissing, fun j hj hji => ?_, rfl⟩
    simpa using hbefore j hj hji
  | none =>
    rw [find?_range_eq_none] at hfind
    exact .inr ⟨fun j hj hjl => by simpa using hfind j hj (by omega), rfl⟩

/-- **The constructor** finds the file complete, or a piece of it that is missing. -/
theorem start_cases (t : Torrent) (filePriorities : List TorrentPriority) (paused : Bool)
    (piecePriorities : List TorrentPriority) :
    (∀ j, (pieceRange piecePriorities).1 ≤ j → j ≤ (pieceRange piecePriorities).2 →
        t.havePiece j = true) ∧
      start t filePriorities paused piecePriorities =
        (⟨filePriorities, (pieceRange piecePriorities).1, (pieceRange piecePriorities).2,
          TorrentLib.pieceWindow t.pieceSize, paused, 0, true, none,
          [.onProgress 1 1, .onPrepareSuccess, .onFinished]⟩, t) ∨
    ∃ i, (pieceRange piecePriorities).1 ≤ i ∧ i ≤ (pieceRange piecePriorities).2 ∧
      t.havePiece i = false ∧
      (∀ j, (pieceRange piecePriorities).1 ≤ j → j < i → t.havePiece j = true) ∧
      ∃ deadlines, start t filePriorities paused piecePriorities =
        (⟨filePriorities, (pieceRange piecePriorities).1, (pieceRange piecePriorities).2,
          TorrentLib.pieceWindow t.pieceSize, paused, i, false,
          some (Preparing.new t (pieceRange piecePriorities).1 (pieceRange piecePriorities).2 i
            (TorrentLib.pieceWindow t.pieceSize) (TorrentLib.pieceWindow t.pieceSize)).1,
          (Preparing.new t (pieceRange piecePriorities).1 (pieceRange piecePriorities).2 i
            (TorrentLib.pieceWindow t.pieceSize) (TorrentLib.pieceWindow t.pieceSize)).2.2⟩,
          { t with paused := t.paused && !paused, deadlines := deadlines }) := by
  obtain ⟨⟨first, last⟩, hrange⟩ : ∃ range, pieceRange piecePriorities = range := ⟨_, rfl⟩
  simp only [start, hrange]
  rcases updatePosition_cases ⟨filePriorities, first, last, TorrentLib.pieceWindow t.pieceSize, paused,
    0, false, none, []⟩ t first with ⟨i, hlo, hhi, hmissing, hbefore, heq⟩ | ⟨hall, heq⟩
  · rw [heq]
    -- a piece is missing: the preparation asks for the first pieces and for the last
    obtain ⟨deadlines, htorrent⟩ := Preparing.new_torrent t first last i
      (TorrentLib.pieceWindow t.pieceSize) (TorrentLib.pieceWindow t.pieceSize)
    refine .inr ⟨i, hlo, hhi, hmissing, hbefore, deadlines, ?_⟩
    simp only [htorrent, Bool.false_eq_true, if_false]
    cases paused with
    | true => simp
    | false => simp
  · rw [heq]
    exact .inl ⟨hall, rfl⟩

/-- The event leaves everything but the windows and the calls alone. -/
theorem prepare_eq (task : WatchTask) (pieceIndex : ℤ) : task.prepare pieceIndex = { task with
    preparing := (task.prepare pieceIndex).preparing, calls := (task.prepare pieceIndex).calls } := by
  unfold prepare
  cases task.preparing with
  | none => rfl
  | some preparing =>
    dsimp only
    split_ifs
    · rfl
    · rfl

@[simp] theorem prepare_firstPiece (pieceIndex : ℤ) :
    (task.prepare pieceIndex).firstPiece = task.firstPiece := by rw [prepare_eq]

@[simp] theorem prepare_lastPiece (pieceIndex : ℤ) :
    (task.prepare pieceIndex).lastPiece = task.lastPiece := by rw [prepare_eq]

@[simp] theorem prepare_currentPosition (pieceIndex : ℤ) :
    (task.prepare pieceIndex).currentPosition = task.currentPosition := by rw [prepare_eq]

@[simp] theorem prepare_finished (pieceIndex : ℤ) :
    (task.prepare pieceIndex).finished = task.finished := by rw [prepare_eq]

/-- It reports no end. -/
theorem prepare_calls (task : WatchTask) (pieceIndex : ℤ) :
    ∃ calls, .onFinished ∉ calls ∧ (task.prepare pieceIndex).calls = task.calls ++ calls := by
  unfold prepare
  cases task.preparing with
  | none => exact ⟨[], List.not_mem_nil, (List.append_nil _).symm⟩
  | some preparing =>
    dsimp only
    split_ifs
    · exact ⟨[], List.not_mem_nil, (List.append_nil _).symm⟩
    · exact ⟨_, preparing.onPieceFinished_calls _ _ _, rfl⟩

/-- **`onPieceFinished`** of a task that has not finished: it finds a missing piece further on, or
    finishes. -/
theorem onPieceFinished_cases (hfinished : task.finished = false) (pieceIndex : ℤ) :
    (∃ i, task.currentPosition ≤ i ∧ i ≤ task.lastPiece ∧ t.havePiece i = false ∧
      (∀ j, task.currentPosition ≤ j → j < i → t.havePiece j = true) ∧
      (task.onPieceFinished t pieceIndex).1 =
        { task.prepare pieceIndex with currentPosition := i }) ∨
    (∀ j, task.currentPosition ≤ j → j ≤ task.lastPiece → t.havePiece j = true) ∧
      (task.onPieceFinished t pieceIndex).1 = { task.prepare pieceIndex with
        finished := true, calls := (task.prepare pieceIndex).calls ++ [.onFinished] } := by
  have hstep : (task.onPieceFinished t pieceIndex).1 =
      let task' := (task.prepare pieceIndex).updatePosition t (task.prepare pieceIndex).currentPosition
      if task'.finished then { task' with calls := task'.calls ++ [.onFinished] } else task' := by
    unfold onPieceFinished
    rw [if_neg (by simp [hfinished])]
    dsimp only
    split_ifs
    · rfl
    · rfl
  rw [hstep]
  rcases updatePosition_cases (task.prepare pieceIndex) t (task.prepare pieceIndex).currentPosition
    with ⟨i, hlo, hhi, hmissing, hbefore, heq⟩ | ⟨hall, heq⟩
  · rw [heq]
    simp only [prepare_currentPosition, prepare_lastPiece] at hlo hhi hbefore
    refine .inl ⟨i, hlo, hhi, hmissing, hbefore, ?_⟩
    simp only [prepare_finished, hfinished, Bool.false_eq_true, if_false]
  · rw [heq]
    simp only [prepare_currentPosition, prepare_lastPiece] at hall
    exact .inr ⟨hall, rfl⟩

/-- The torrent gets deadlines. -/
theorem onPieceFinished_torrent (task : WatchTask) (t : Torrent) (pieceIndex : ℤ) :
    ∃ deadlines, (task.onPieceFinished t pieceIndex).2 = { t with deadlines := deadlines } := by
  unfold onPieceFinished
  dsimp only
  split_ifs
  · exact ⟨t.deadlines, rfl⟩
  · exact ⟨t.deadlines, rfl⟩
  · exact ⟨_, Torrent.update_eq _ _ _ _ _⟩

/-- An event brings no piece by itself. -/
theorem onPieceFinished_had (task : WatchTask) (t : Torrent) (pieceIndex : ℤ) :
    (task.onPieceFinished t pieceIndex).2.had = t.had := by
  obtain ⟨deadlines, htorrent⟩ := task.onPieceFinished_torrent t pieceIndex
  rw [htorrent]

/-- What `cancel` needs stays. -/
theorem onPieceFinished_saved (task : WatchTask) (t : Torrent) (pieceIndex : ℤ) :
    (task.onPieceFinished t pieceIndex).1.filePriorities = task.filePriorities ∧
      (task.onPieceFinished t pieceIndex).1.paused = task.paused := by
  cases hfinished : task.finished with
  | true => simp [onPieceFinished, hfinished]
  | false =>
    rcases onPieceFinished_cases (t := t) hfinished pieceIndex with
      ⟨i, -, -, -, -, htask⟩ | ⟨-, htask⟩
    · rw [htask, prepare_eq]
      exact ⟨rfl, rfl⟩
    · rw [htask, prepare_eq]
      exact ⟨rfl, rfl⟩

end Specs

end WatchTask

end PopcornTime.TorrentLib
