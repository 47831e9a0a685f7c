import PopcornTime.Lib.Machine
import PopcornTime.Android.TorrentPlace
import PopcornTime.Android.WatchTask

namespace PopcornTime.Android

open PopcornTime TorrentUtil

/-!
# Android watch — the path of a prepared video

`WatchTask.run` computes the path of the video from the directory its `WatchInfo` asks for, and
sends it with `VIDEO_PREPARED`.  The torrent may lie elsewhere: it may have been there before, and
other threads may add it again while the task runs.

* `WatchTask.iterate_once` — an iteration of the loop sends `VIDEO_PREPARED` only if a piece is had.
* `PathWatch.next` — `run` up to that message, between any calls of other threads.
* `PathWatch.pathsRight_of_guard` — every path sent is the one written to, in runs that meet a guard
  which a step meets exactly if it leaves the torrent in the directory.
-/

/-! ### What the loop does, whatever pieces it sees -/

namespace WatchTask

variable {t t' : WatchTask}

/-- The scan for missing pieces changes priorities and deadlines only. -/
theorem updateDownload_frame (current first last activeCount deadline : ℤ) :
    Frame t (t.updateDownload current first last activeCount deadline).2 := by
  unfold updateDownload
  dsimp only
  refine (downloadLoop_spec _ first activeCount deadline t 0 (-1) fun i hi => ?_).1
  rw [Int.mem_range_iff] at hi
  split_ifs at hi with hneg <;> omega

/-- `t'` differs from `t` in the piece it is at, priorities, deadlines and progress messages. -/
structure SameStage (t t' : WatchTask) : Prop where
  point : t'.point = t.point
  state : t'.state = t.state
  prepareCount : t'.prepareCount = t.prepareCount
  havePiece : t'.service.havePiece = t.service.havePiece
  prepared : t'.sent.count .videoPrepared = t.sent.count .videoPrepared

theorem SameStage.trans {t'' : WatchTask} (h : SameStage t t') (h' : SameStage t' t'') :
    SameStage t t'' where
  point := h'.point.trans h.point
  state := h'.state.trans h.state
  prepareCount := h'.prepareCount.trans h.prepareCount
  havePiece := h'.havePiece.trans h.havePiece
  prepared := h'.prepared.trans h.prepared

/-- What leaves all but the service alone stays in its stage. -/
theorem Frame.sameStage (h : Frame t t') : SameStage t t' := by
  obtain ⟨ps, dl, -, rfl⟩ := h
  exact ⟨rfl, rfl, rfl, rfl, rfl⟩

/-- Looking for the piece the task is at stays in its stage. -/
theorem sameStage_updateCurrentPiece (current first last deadline : ℤ) :
    SameStage t (t.updateCurrentPiece current first last deadline) := by
  have h := (updateDownload_frame (t := t) current first last t.activePieceCount deadline).sameStage
  exact ⟨h.point, h.state, h.prepareCount, h.havePiece, h.prepared⟩

/-- So does a message of the progress. -/
theorem sameStage_updateProgress (state : WatchState) (total value : ℤ) :
    SameStage t (t.updateProgress state total value) :=
  ⟨rfl, rfl, rfl, rfl, by simp [updateProgress, send]⟩

/-- `t'` is where `t` is, or has left `PREPARING_FOR_WATCH`. -/
structure Kept (t t' : WatchTask) : Prop where
  point : t'.point = t.point
  prepareCount : t'.prepareCount = t.prepareCount
  state : t'.state = .preparingForWatch → t.state = .preparingForWatch

/-- A task in the same stage is where it was. -/
theorem SameStage.kept (h : SameStage t t') : Kept t t' :=
  ⟨h.point, h.prepareCount, fun hs => h.state ▸ hs⟩

/-- So is one that goes to any state but `PREPARING_FOR_WATCH`. -/
theorem SameStage.kept_of_state (h : SameStage t t') {sent : List WatchMessage} {state : WatchState}
    (hs : state ≠ .preparingForWatch) : Kept t { t' with sent := sent, state := state } :=
  ⟨h.point, h.prepareCount, fun hs' => absurd hs' hs⟩

/-- `VIDEO_PREPARED` is sent once, in `PREPARING_FOR_WATCH` and where a piece is had, or not. -/
def PreparedOnce (t t' : WatchTask) : Prop :=
  t'.sent.count .videoPrepared = t.sent.count .videoPrepared ∨
    (t'.sent.count .videoPrepared = t.sent.count .videoPrepared + 1 ∧
      t.state = .preparingForWatch ∧ (0 < t.prepareCount → ∃ i, t.service.havePiece i = true))

/-- A message of the progress is not `VIDEO_PREPARED`. -/
theorem SameStage.progress (h : SameStage t t') {state : WatchState} {total value : ℤ} :
    Kept t (t'.updateProgress state total value) ∧
      PreparedOnce t (t'.updateProgress state total value) :=
  have h' := h.trans (sameStage_updateProgress state total value)
  ⟨h'.kept, Or.inl h'.prepared⟩

/-- Pieces that are counted are had. -/
theorem exists_havePiece {lo hi : ℤ} (h : 0 < t.downloadedPiecesCount lo hi) :
    ∃ i, t.service.havePiece i = true := by
  unfold downloadedPiecesCount at h
  rw [Int.natCast_pos, List.countP_pos_iff] at h
  obtain ⟨i, -, hi⟩ := h
  exact ⟨i, hi⟩

/-- `PREPARING_FOR_WATCH`: the count is not full without a piece. -/
theorem prepare_once (first last : ℤ) (hs : t.state = .preparingForWatch) :
    Kept t (t.prepare first last) ∧ PreparedOnce t (t.prepare first last) := by
  have hend := (updateDownload_frame (t := t) (last - t.prepareCount + 1) first last
    t.activePieceCount 4).sameStage
  unfold prepare
  dsimp only
  generalize (t.updateDownload (last - t.prepareCount + 1) first last t.activePieceCount 4).2 = u
    at hend ⊢
  have hbegin := hend.trans (sameStage_updateCurrentPiece (t := u) first first last 0)
  generalize u.updateCurrentPiece first first last 0 = v at hbegin ⊢
  split_ifs with hcount
  · refine ⟨hbegin.kept_of_state (by simp), Or.inr ⟨?_, hs, fun hpos => ?_⟩⟩
    · simp [send, updateProgress, hbegin.prepared]
    rw [hbegin.prepareCount] at hcount
    have hor : 0 < u.downloadedPiecesCount (last - t.prepareCount + 1) last ∨
        0 < v.downloadedPiecesCount first (first + t.prepareCount - 1) := by
      omega
    rcases hor with h | h
    · rw [← hend.havePiece]
      exact exists_havePiece h
    · rw [← hbegin.havePiece]
      exact exists_havePiece h
  · exact hbegin.progress

/-- **An iteration.** -/
theorem iterate_once (first last : ℤ) :
    Kept t (t.iterate first last) ∧ PreparedOnce t (t.iterate first last) := by
  unfold iterate
  cases hs : t.state with
  | preparingForWatch => exact prepare_once first last hs
  | sequentialDownload =>
    dsimp only [sequential]
    have h := sameStage_updateCurrentPiece (t := t) t.currentPiece first last 0
    generalize t.updateCurrentPiece t.currentPiece first last 0 = u at h ⊢
    split_ifs
    · exact ⟨h.kept_of_state (by simp), Or.inl (by simp [send, updateProgress, h.prepared])⟩
    · exact h.progress
  | buffering =>
    dsimp only [buffer]
    have h := sameStage_updateCurrentPiece (t := t) t.currentPiece first last 4
    generalize t.updateCurrentPiece t.currentPiece first last 4 = u at h ⊢
    split_ifs
    · exact ⟨h.kept_of_state (by simp), Or.inl (by simp [send, updateProgress, h.prepared])⟩
    · exact h.progress
  | none | loadMetadata | checkFile | loadSubtitles | finished =>
    exact ⟨⟨rfl, rfl, fun hs' => (by cases hs')⟩, Or.inl rfl⟩

/-- A task that a seek has taken out of `PREPARING_FOR_WATCH`. -/
theorem SameStage.sought {u : WatchTask} (h : SameStage u t') (hpoint : u.point = t.point)
    (hcount : u.prepareCount = t.prepareCount) (hsent : u.sent = t.sent)
    (hs : u.state ≠ .preparingForWatch) :
    Kept t t' ∧ t'.sent.count .videoPrepared = t.sent.count .videoPrepared :=
  ⟨⟨h.point.trans hpoint, h.prepareCount.trans hcount,
    fun hs' => absurd (h.state.symm.trans hs') hs⟩, by rw [h.prepared, hsent]⟩

/-- **A seek** sends no `VIDEO_PREPARED`. -/
theorem seek_kept (delta : ℚ) : Kept t (t.seek delta).1 ∧
    (t.seek delta).1.sent.count .videoPrepared = t.sent.count .videoPrepared := by
  unfold seek
  split_ifs with hfinished
  · exact ⟨(Frame.refl t).sameStage.kept, rfl⟩
  · cases t.fileBoundary with
    | none => exact ⟨⟨rfl, rfl, id⟩, rfl⟩
    | some boundary =>
      dsimp only [seekWindow]
      split
      · exact ((sameStage_updateCurrentPiece ..).trans (sameStage_updateProgress ..)).sought
          rfl rfl rfl (by simp)
      · exact ((sameStage_updateCurrentPiece ..).trans (sameStage_updateProgress ..)).sought
          rfl rfl rfl (by simp)

/-- The number of pieces to prepare is known. -/
def Counted (p : RunPoint) : Prop :=
  p = .activated ∨ p = .loadSubtitles ∨ p = .loop

/-- The metadata of the torrent has been loaded. -/
def Loaded (p : RunPoint) : Prop :=
  p = .checkFile ∨ p.Located

/-- A statement of `run` before its loop. -/
structure Advanced (t t' : WatchTask) : Prop where
  prepared : t'.sent.count .videoPrepared = t.sent.count .videoPrepared
  before : t.point ≠ .loop ∧ t.point ≠ .ended
  located : t'.point.Located → Loaded t.point
  loaded : Loaded t'.point → Loaded t.point ∨ t.point = .loadMetadata
  counted : Counted t'.point → (Counted t.point → 0 < t.prepareCount) → 0 < t'.prepareCount

/-- Each statement before the loop, by the point it is at. -/
theorem advanced {priorities : List ℤ} (h : t.advance priorities = some t') : Advanced t t' := by
  unfold advance at h
  cases hp : t.point with
  | started | loadMetadata | activated | loadSubtitles =>
    rw [hp] at h
    obtain rfl := Option.some.inj h
    refine ⟨by simp [send], by simp [hp], ?_, ?_, ?_⟩ <;>
      simp [hp, Loaded, RunPoint.Located, Counted, send]
  | checkFile =>
    simp only [hp] at h
    split at h
    · obtain rfl := Option.some.inj h
      refine ⟨by simp [send, fail], by simp [hp], ?_, ?_, ?_⟩ <;>
        simp [hp, Loaded, RunPoint.Located, Counted, fail]
    · obtain rfl := Option.some.inj h
      refine ⟨rfl, by simp [hp], ?_, ?_, ?_⟩ <;> simp [hp, Loaded, RunPoint.Located, Counted]
  | boundaryKnown =>
    simp only [hp] at h
    split at h
    · cases h
    · obtain rfl := Option.some.inj h
      refine ⟨rfl, by simp [hp], ?_, ?_, ?_⟩ <;> simp [hp, Loaded, RunPoint.Located, Counted]
  | counted =>
    simp only [hp] at h
    split at h
    · obtain rfl := Option.some.inj h
      refine ⟨by simp [send, fail], by simp [hp], ?_, ?_, ?_⟩ <;>
        simp [hp, Loaded, RunPoint.Located, Counted, fail]
    · rename_i prepare hprepare
      obtain rfl := Option.some.inj h
      refine ⟨rfl, by simp [hp], ?_, ?_, fun _ _ => getPreparePieceCount_pos hprepare⟩ <;>
        simp [hp, Loaded, RunPoint.Located]
  | loop | ended =>
    rw [hp] at h
    cases h

end WatchTask

/-! ### `run` up to `VIDEO_PREPARED` -/

/-- A `WatchInfo`, its `watchDir` as the save path of the request, and what the torrents are, by
    info-hash: their files, and what `getPiecePriorities` and `getPieceLength` answer once the file
    is selected. -/
structure PathSetup extends AddSetup where
  fileName : Option String
  isDownloads : Bool
  files : String → List FileEntry
  piecePriorities : String → List ℤ
  pieceLength : String → ℤ

/-- A `VIDEO_PREPARED`; `written` is a ghost: where the service writes the file then. -/
structure PreparedMessage where
  videoPath : String
  written : Option String
deriving DecidableEq

/-- The task; `torrentFile` is the answer of `loader`, `videoPath` is empty until it is computed. -/
structure PathWatch where
  session : StoredSession
  loader : TorrentLoader
  task : WatchTask
  videoPath : String
  prepared : List PreparedMessage

/-- `File.separator` puts a path into a directory. -/
def inDirectory (directory path : String) : String :=
  directory ++ "/" ++ path

/-- The file of a torrent that is watched. -/
def PathSetup.watched (E : PathSetup) (key : String) : Option FileEntry :=
  (selectFile (E.files (E.hash key)) E.fileName).map Prod.snd

/-- The path of the watched file in the directory in which the service saves its torrent. -/
def PathSetup.writtenPath (E : PathSetup) (S : StoredSession) (key : String) : Option String :=
  (S.torrentOf E.hash key).bind fun t =>
    (E.watched key).map fun fileEntry => inDirectory t.savePath fileEntry.path

namespace PathWatch

def torrentFile (s : PathWatch) : String :=
  match s.loader with
  | .done key => key.getD ""
  | _ => ""

/-- The task with the service it sees; `had` are the pieces of the torrent. -/
def view (E : PathSetup) (s : PathWatch) (had : ℤ → Bool) : WatchTask :=
  let hasMetadata := s.session.hasMetadata E.hash s.torrentFile
  { s.task with
    service := { s.task.service with
      havePiece := fun i => hasMetadata && had i
      pieceLength := if hasMetadata then E.pieceLength (E.hash s.torrentFile) else 0 } }

/-- `run` goes on, or into its `catch`. -/
def proceed (E : PathSetup) (s : PathWatch) (task : WatchTask) : PathWatch :=
  { s with
    task := task
    session :=
      if task.point = .ended ∧ E.isDownloads = false ∧ s.torrentFile ≠ "" then
        s.session.removeTorrent E.hash s.torrentFile
      else s.session }

/-- The next statement of `run`, which asks for no piece. -/
def goOn (E : PathSetup) (s : PathWatch) (priorities : List ℤ) : Option PathWatch :=
  ((s.view E fun _ => false).advance priorities).map (s.proceed E)

/-- `loadMetadata`, and `resumeTorrent` behind it. -/
def load (E : PathSetup) (s : PathWatch) (accepted : Option Bool) : Option PathWatch :=
  match s.loader with
  | .done key =>
    -- no key was found, and the task fails
    if isEmpty key then some (s.proceed E s.task.fail)
    else
      some { s with
        task := { s.task with state := .checkFile, point := .checkFile }
        session :=
          if s.session.isTorrentPaused E.hash s.torrentFile then
            s.session.resumeTorrent E.hash s.torrentFile
          else s.session }
  | loader =>
    (loader.advance (StoredSession.service E.hash) E.request accepted s.session).map fun r =>
      { s with loader := r.1, session := r.2 }

/-- `setFilePriority`, the path of the video, and the boundary of the file. -/
def checkFile (E : PathSetup) (s : PathWatch) : Option PathWatch :=
  if s.session.hasMetadata E.hash s.torrentFile then
    match E.watched s.torrentFile with
    | none => some (s.proceed E s.task.fail)
    | some fileEntry =>
      { s with videoPath := inDirectory E.request.savePath fileEntry.path }.goOn E
        (E.piecePriorities (E.hash s.torrentFile))
  else some (s.proceed E s.task.fail)

def advance (E : PathSetup) (s : PathWatch) (accepted : Option Bool) : Option PathWatch :=
  match s.task.point with
  | .loadMetadata => s.load E accepted
  | .checkFile => s.checkFile E
  | _ => s.goOn E []

/-- An iteration of the loop; the message carries the path. -/
def iterate (E : PathSetup) (s : PathWatch) (had : ℤ → Bool) : Option PathWatch :=
  if s.task.point = .loop ∧ s.task.state ≠ .finished then
    s.task.fileBoundary.map fun boundary =>
      let task := (s.view E had).iterate boundary.1 boundary.2
      { s with
        task := task
        prepared :=
          -- the message was sent in this iteration
          if s.task.sent.count .videoPrepared < task.sent.count .videoPrepared then
            s.prepared ++ [⟨s.videoPath, E.writtenPath s.session s.torrentFile⟩]
          else s.prepared }
  else none

inductive Event
  /-- The thread goes on before its loop; a key that it adds is refused, or taken with or without
      metadata. -/
  | advance (accepted : Option Bool)
  | timeOut
  | iterate (had : ℤ → Bool)
  | seek (delta : ℚ) (had : ℤ → Bool)
  /-- The thread is interrupted in one of its waits. -/
  | interrupt
  | call (c : ServiceCall)

def next (E : PathSetup) (s : PathWatch) : Event → Option PathWatch
  | .advance accepted => s.advance E accepted
  | .timeOut =>
    if s.task.point = .loadMetadata then
      (s.loader.timeOut (StoredSession.service E.hash) s.session).map fun r =>
        { s with loader := r.1, session := r.2 }
    else none
  | .iterate had => s.iterate E had
  | .seek delta had =>
    if s.task.point = .ended then none else some { s with task := ((s.view E had).seek delta).1 }
  | .interrupt =>
    match s.task.point, s.loader.waitsFor with
    | .loadMetadata, some key =>
      some { s with
        task := { s.task with point := .ended }
        session := s.session.removeTorrent E.hash key }
    | .loadSubtitles, _ | .loop, _ => some { s with task := { s.task with point := .ended } }
    | _, _ => none
  | .call c => some { s with session := s.session.serve E.hash c }

/-- Any session whose handles are in order, and any pieces. -/
structure Starts (s : PathWatch) : Prop where
  ok : s.session.handles.Ok
  loader : s.loader = .begin
  task : ∃ service, s.task = WatchTask.new service
  prepared : s.prepared = []

def machine (E : PathSetup) : Machine PathWatch Event :=
  Machine.ofFun Starts (next E)

/-! ### What should hold -/

/-- **The paths**: every one that has been sent was that of the file that was written then. -/
def PathsRight (s : PathWatch) : Prop :=
  ∀ m ∈ s.prepared, m.written = some m.videoPath

/-- The key that the task waits for or has, up to `VIDEO_PREPARED`. -/
def awaited (s : PathWatch) : Option String :=
  if s.task.point = .ended ∨ (s.task.point = .loop ∧ s.task.state ≠ .preparingForWatch) then none
  else s.loader.current

/-- The torrent of that key is saved where the `WatchInfo` asks for. -/
def InPlace (E : PathSetup) (s : PathWatch) : Prop :=
  ∀ key, s.awaited = some key → s.session.SavedIn E.hash key E.request.savePath

/-- A key that the task takes has no torrent in the service, or one in the directory; and a torrent
    that it has or waits for is added to the directory only. -/
def Guard (E : PathSetup) (s : PathWatch) : Event → Prop
  | .advance _ => s.task.point = .loadMetadata →
    ∀ key, s.loader.takes E.hash E.request s.session = some key →
      s.session.SavedIn E.hash key E.request.savePath
  | .call (.addTorrent key savePath accepted) => ∀ k, s.awaited = some k →
    s.session.AddReaches E.hash key accepted k → savePath = E.request.savePath
  | .timeOut | .iterate _ | .seek _ _ | .interrupt | .call _ => True

/-! ### The invariant -/

variable {E : PathSetup} {s s' : PathWatch} {e : Event}

/-- What holds in every state of every run. -/
structure Inv (E : PathSetup) (s : PathWatch) : Prop where
  ok : s.session.handles.Ok
  loaded : WatchTask.Loaded s.task.point → ∃ key, s.loader = .done (some key)
  path : s.task.point.Located → ∃ fileEntry, E.watched s.torrentFile = some fileEntry ∧
    s.videoPath = inDirectory E.request.savePath fileEntry.path
  counted : WatchTask.Counted s.task.point → 0 < s.task.prepareCount
  recorded : s.prepared.length = s.task.sent.count .videoPrepared

/-- Before its first statement a task has neither loaded nor located anything. -/
theorem inv_of_starts (h : s.Starts) : Inv E s := by
  obtain ⟨service, htask⟩ := h.task
  refine ⟨h.ok, ?_, ?_, ?_, ?_⟩
  · simp [htask, WatchTask.new, WatchTask.Loaded, RunPoint.Located]
  · simp [htask, WatchTask.new, RunPoint.Located]
  · simp [htask, WatchTask.new, WatchTask.Counted]
  · simp [htask, WatchTask.new, h.prepared]

/-- A change of the session alone. -/
theorem Inv.withSession (h : Inv E s) {S : StoredSession} (hok : S.handles.Ok) :
    Inv E { s with session := S } :=
  ⟨hok, h.loaded, h.path, h.counted, h.recorded⟩

/-- A thread that has ended. -/
theorem Inv.ended (h : Inv E s) (task : WatchTask) (hpoint : task.point = .ended)
    (hsent : task.sent.count .videoPrepared = s.task.sent.count .videoPrepared) :
    Inv E { s with task := task } := by
  refine ⟨h.ok, ?_, ?_, ?_, h.recorded.trans hsent.symm⟩
  · simp [hpoint, WatchTask.Loaded, RunPoint.Located]
  · simp [hpoint, RunPoint.Located]
  · simp [hpoint, WatchTask.Counted]

/-- The `catch` removes the torrent, which keeps the handles in order. -/
theorem handles_ok_proceed (h : s.session.handles.Ok) (task : WatchTask) :
    (s.proceed E task).session.handles.Ok := by
  unfold proceed
  dsimp only
  split_ifs
  · exact StoredSession.handles_ok_serve h (.removeTorrent s.torrentFile)
  · exact h

/-- A task that fails ends. -/
theorem Inv.proceed_fail (h : Inv E s) : Inv E (s.proceed E s.task.fail) :=
  (h.ended s.task.fail rfl (by simp [WatchTask.fail, WatchTask.send])).withSession
    (handles_ok_proceed h.ok _)

/-- The loader goes on. -/
theorem Inv.withLoader (h : Inv E s) (hp : s.task.point = .loadMetadata) (loader : TorrentLoader)
    {S : StoredSession} (hok : S.handles.Ok) :
    Inv E { s with loader := loader, session := S } := by
  refine ⟨hok, ?_, ?_, h.counted, h.recorded⟩
  · simp [hp, WatchTask.Loaded, RunPoint.Located]
  · simp [hp, RunPoint.Located]

/-- A statement before the loop; the path has been computed where the file has been located. -/
theorem inv_goOn {priorities : List ℤ} (hok : s.session.handles.Ok)
    (hloaded : WatchTask.Loaded s.task.point → ∃ key, s.loader = .done (some key))
    (hpath : WatchTask.Loaded s.task.point → ∃ fileEntry,
      E.watched s.torrentFile = some fileEntry ∧
        s.videoPath = inDirectory E.request.savePath fileEntry.path)
    (hcounted : WatchTask.Counted s.task.point → 0 < s.task.prepareCount)
    (hrecorded : s.prepared.length = s.task.sent.count .videoPrepared)
    (hp : s.task.point ≠ .loadMetadata) (h : s.goOn E priorities = some s') : Inv E s' := by
  obtain ⟨task, htask, rfl⟩ := Option.map_eq_some_iff.mp h
  have hadv := WatchTask.advanced htask
  refine ⟨handles_ok_proceed hok task, fun hl => ?_, fun hl => hpath (hadv.located hl),
    fun hc => hadv.counted hc hcounted, hrecorded.trans hadv.prepared.symm⟩
  exact hloaded ((hadv.loaded hl).resolve_right hp)

/-- The metadata are loaded for the key that the loader is done with. -/
theorem Inv.load (h : Inv E s) (hp : s.task.point = .loadMetadata) {accepted : Option Bool}
    (hstep : s.load E accepted = some s') : Inv E s' := by
  unfold PathWatch.load at hstep
  split at hstep
  · rename_i key hloader
    by_cases hempty : isEmpty key = true
    · rw [if_pos hempty] at hstep
      obtain rfl := Option.some.inj hstep
      exact h.proceed_fail
    · rw [if_neg hempty] at hstep
      obtain rfl := Option.some.inj hstep
      refine ⟨?_, fun _ => ?_, ?_, ?_, h.recorded⟩
      · dsimp only
        split_ifs
        · exact StoredSession.handles_ok_serve h.ok (.resumeTorrent s.torrentFile)
        · exact h.ok
      · cases key with
        | none => exact absurd rfl hempty
        | some key => exact ⟨key, hloader⟩
      · simp [RunPoint.Located]
      · simp [WatchTask.Counted]
  · obtain ⟨⟨loader, S⟩, hadvance, rfl⟩ := Option.map_eq_some_iff.mp hstep
    refine h.withLoader hp loader ?_
    rw [TorrentLoader.advance_session hadvance]
    split
    · exact h.ok.add StoredSession.handles_addTorrent
    · exact h.ok

/-- The path is that of the watched file in the directory the request asks for. -/
theorem Inv.checkFile (h : Inv E s) (hp : s.task.point = .checkFile)
    (hstep : s.checkFile E = some s') : Inv E s' := by
  unfold PathWatch.checkFile at hstep
  split_ifs at hstep with hmetadata
  · cases hwatched : E.watched s.torrentFile with
    | none =>
      rw [hwatched] at hstep
      obtain rfl := Option.some.inj hstep
      exact h.proceed_fail
    | some fileEntry =>
      rw [hwatched] at hstep
      exact inv_goOn
        (s := { s with videoPath := inDirectory E.request.savePath fileEntry.path })
        h.ok h.loaded (fun _ => ⟨fileEntry, hwatched, rfl⟩) h.counted h.recorded
        (by simp [hp]) hstep
  · obtain rfl := Option.some.inj hstep
    exact h.proceed_fail

/-- The statements before the loop keep the invariant. -/
theorem Inv.advance (h : Inv E s) {accepted : Option Bool}
    (hstep : s.advance E accepted = some s') : Inv E s' := by
  unfold PathWatch.advance at hstep
  split at hstep
  · exact h.load ‹_› hstep
  · exact h.checkFile ‹_› hstep
  · rename_i hload hcheck
    exact inv_goOn h.ok h.loaded (fun hl => h.path (hl.resolve_left hcheck)) h.counted h.recorded
      hload hstep

/-- A task that is kept where it is. -/
theorem Inv.kept (h : Inv E s) {task : WatchTask} {prepared : List PreparedMessage}
    (hkept : WatchTask.Kept s.task task)
    (hrecorded : prepared.length = task.sent.count .videoPrepared) :
    Inv E { s with task := task, prepared := prepared } := by
  refine ⟨h.ok, ?_, ?_, ?_, hrecorded⟩
  · rw [hkept.point]
    exact h.loaded
  · rw [hkept.point]
    exact h.path
  · rw [hkept.point, hkept.prepareCount]
    exact h.counted

/-- Where the task is does not depend on the service it sees. -/
theorem kept_of_view {had : ℤ → Bool} {task : WatchTask}
    (h : WatchTask.Kept (s.view E had) task) : WatchTask.Kept s.task task :=
  ⟨h.point, h.prepareCount, h.state⟩

/-- **All events keep the invariant**, calls of other threads included. -/
theorem Inv.next (h : Inv E s) (hstep : s.next E e = some s') : Inv E s' := by
  cases e with
  | advance accepted => exact h.advance hstep
  | timeOut =>
    unfold PathWatch.next at hstep
    dsimp only at hstep
    split_ifs at hstep with hp
    obtain ⟨⟨loader, S⟩, htime, rfl⟩ := Option.map_eq_some_iff.mp hstep
    obtain ⟨key, -, rfl⟩ := TorrentLoader.timeOut_eq htime
    exact h.withLoader hp loader (StoredSession.handles_ok_serve h.ok (.removeTorrent key))
  | iterate had =>
    obtain ⟨⟨hp, hs⟩, hstep⟩ := Option.ite_none_right_eq_some.mp hstep
    obtain ⟨boundary, hboundary, rfl⟩ := Option.map_eq_some_iff.mp hstep
    -- an iteration reports the prepared video once at most
    obtain ⟨hkept, honce⟩ := WatchTask.iterate_once (t := s.view E had) boundary.1 boundary.2
    refine h.kept (kept_of_view hkept) ?_
    rcases honce with hsame | ⟨hmore, -, -⟩
    · rw [if_neg (by rw [hsame]; exact Nat.lt_irrefl _), hsame]
      exact h.recorded
    · rw [if_pos (by rw [hmore]; exact Nat.lt_succ_self _), hmore, List.length_append, h.recorded]
      rfl
  | seek delta had =>
    obtain ⟨hp, hstep⟩ := Option.ite_none_left_eq_some.mp hstep
    obtain rfl := Option.some.inj hstep
    obtain ⟨hkept, hcount⟩ := WatchTask.seek_kept (t := s.view E had) delta
    exact h.kept (kept_of_view hkept) (h.recorded.trans hcount.symm)
  | interrupt =>
    unfold PathWatch.next at hstep
    dsimp only at hstep
    split at hstep
    · obtain rfl := Option.some.inj hstep
      -- a loader that waits takes its torrent back when it is interrupted
      exact (h.ended { s.task with point := .ended } rfl rfl).withSession
        (StoredSession.handles_ok_serve h.ok (.removeTorrent _))
    · obtain rfl := Option.some.inj hstep
      exact h.ended _ rfl rfl
    · obtain rfl := Option.some.inj hstep
      exact h.ended _ rfl rfl
    · cases hstep
  | call c =>
    obtain rfl := Option.some.inj hstep
    exact h.withSession (StoredSession.handles_ok_serve h.ok c)

/-- It holds in every run. -/
theorem inv_of_reachable (h : (machine E).Reachable s) : Inv E s :=
  h.invariant (I := Inv E) (fun _ hs => inv_of_starts hs) fun _ _ _ hinv hstep => hinv.next hstep

/-! ### Steps and the directory -/

/-- A key is awaited as long as the video may still be told of. -/
theorem awaited_eq_some {key : String} : s.awaited = some key ↔ s.task.point ≠ .ended ∧
    (s.task.point = .loop → s.task.state = .preparingForWatch) ∧ s.loader.current = some key := by
  unfold awaited
  split_ifs with h
  · refine iff_of_false (by simp) ?_
    rintro ⟨hended, hloop, -⟩
    rcases h with h | ⟨hp, hs⟩
    · exact hended h
    · exact hs (hloop hp)
  · obtain ⟨hended, hloop⟩ := not_or.mp h
    refine ⟨fun hkey => ⟨hended, fun hp => ?_, hkey⟩, fun hkey => hkey.2.2⟩
    exact by_contra fun hs => hloop ⟨hp, hs⟩

/-- A step that awaits nothing new and moves nothing. -/
theorem InPlace.mono (h : s.InPlace E)
    (hawaited : ∀ key, s'.awaited = some key → s.awaited = some key)
    (hsession : ∀ key, s.session.SavedIn E.hash key E.request.savePath →
      s'.session.SavedIn E.hash key E.request.savePath) : s'.InPlace E :=
  fun key hkey => hsession key (h key (hawaited key hkey))

/-- A task that has ended awaits nothing. -/
theorem inPlace_of_ended (h : s.task.point = .ended) : s.InPlace E :=
  fun _ hkey => absurd h (awaited_eq_some.mp hkey).1

/-- A statement before the loop leaves the torrent in the directory. -/
theorem InPlace.goOn (h : s.InPlace E) {priorities : List ℤ}
    (hstep : s.goOn E priorities = some s') : s'.InPlace E := by
  obtain ⟨task, htask, rfl⟩ := Option.map_eq_some_iff.mp hstep
  obtain ⟨hloop, hended⟩ := (WatchTask.advanced htask).before
  refine h.mono (fun key hkey => ?_) fun key hsaved => ?_
  · exact awaited_eq_some.mpr ⟨hended, fun hp => absurd hp hloop, (awaited_eq_some.mp hkey).2.2⟩
  · unfold proceed
    dsimp only
    split_ifs
    · exact StoredSession.savedIn_removeTorrent hsaved
    · exact hsaved

/-- So does the check of the file, which may end the task. -/
theorem InPlace.checkFile (h : s.InPlace E) (hstep : s.checkFile E = some s') : s'.InPlace E := by
  unfold PathWatch.checkFile at hstep
  split_ifs at hstep
  · cases hwatched : E.watched s.torrentFile with
    | none =>
      rw [hwatched] at hstep
      obtain rfl := Option.some.inj hstep
      exact inPlace_of_ended rfl
    | some fileEntry =>
      rw [hwatched] at hstep
      refine InPlace.goOn
        (s := { s with videoPath := inDirectory E.request.savePath fileEntry.path }) ?_ hstep
      exact h.mono (fun _ hkey => hkey) fun _ hsaved => hsaved
  · obtain rfl := Option.some.inj hstep
    exact inPlace_of_ended rfl

/-- While the metadata are loaded the loader's key is the awaited one. -/
theorem inPlace_of_loading (hp : s.task.point = .loadMetadata) : s.InPlace E ↔
    ∀ key, s.loader.current = some key → s.session.SavedIn E.hash key E.request.savePath := by
  have hiff : ∀ key, s.awaited = some key ↔ s.loader.current = some key := by
    intro key
    rw [awaited_eq_some, hp]
    simp
  unfold InPlace
  simp only [hiff]

/-- `loadMetadata` keeps the torrent in the directory exactly if the key it takes lies there. -/
theorem inPlace_load (hinv : Inv E s) (h : s.InPlace E) (hp : s.task.point = .loadMetadata)
    {accepted : Option Bool} (hstep : s.load E accepted = some s') :
    s'.InPlace E ↔ ∀ key, s.loader.takes E.hash E.request s.session = some key →
      s.session.SavedIn E.hash key E.request.savePath := by
  unfold PathWatch.load at hstep
  split at hstep
  · rename_i key hloader
    refine iff_of_true ?_ (by simp [hloader, TorrentLoader.takes, TorrentLoader.nextKey])
    by_cases hempty : isEmpty key = true
    · rw [if_pos hempty] at hstep
      obtain rfl := Option.some.inj hstep
      exact inPlace_of_ended rfl
    · rw [if_neg hempty] at hstep
      obtain rfl := Option.some.inj hstep
      refine h.mono (fun key hkey => ?_) fun key hsaved => ?_
      · exact awaited_eq_some.mpr ⟨by simp [hp], by simp [hp], (awaited_eq_some.mp hkey).2.2⟩
      · dsimp only
        split_ifs
        · exact StoredSession.savedIn_modify (fun _ => rfl) (fun _ => rfl) hsaved
        · exact hsaved
  · obtain ⟨⟨loader, S⟩, hadvance, rfl⟩ := Option.map_eq_some_iff.mp hstep
    rw [inPlace_of_loading (by exact hp)]
    exact TorrentLoader.savedIn_advance hinv.ok ((inPlace_of_loading hp).mp h) hadvance

/-- Waiting in vain moves nothing. -/
theorem inPlace_timeOut (hstep : s.next E .timeOut = some s') : s'.InPlace E := by
  unfold PathWatch.next at hstep
  dsimp only at hstep
  split_ifs at hstep with hp
  obtain ⟨⟨loader, S⟩, htime, rfl⟩ := Option.map_eq_some_iff.mp hstep
  rw [inPlace_of_loading (by exact hp)]
  cases hloader : s.loader with
  | waiting key keys =>
    rw [hloader] at htime
    obtain ⟨rfl, rfl⟩ := Prod.mk.inj (Option.some.inj htime)
    simp [TorrentLoader.current]
  | begin | adding | done =>
    rw [hloader] at htime
    cases htime

/-- A task that goes on where it is awaits the same key, or none any more. -/
theorem InPlace.kept (h : s.InPlace E) {had : ℤ → Bool} (hended : s.task.point ≠ .ended)
    (hkept : WatchTask.Kept (s.view E had) s'.task) (hloader : s'.loader = s.loader)
    (hsession : s'.session = s.session) : s'.InPlace E := by
  refine h.mono (fun key hkey => ?_) fun key hsaved => by rwa [hsession]
  obtain ⟨-, hloop, hcurrent⟩ := awaited_eq_some.mp hkey
  rw [hloader] at hcurrent
  exact awaited_eq_some.mpr
    ⟨hended, fun hp => hkept.state (hloop (hkept.point.trans hp)), hcurrent⟩

/-- An interrupt ends the task in each of its waits. -/
theorem inPlace_interrupt (hstep : s.next E .interrupt = some s') : s'.InPlace E := by
  unfold PathWatch.next at hstep
  dsimp only at hstep
  split at hstep
  · obtain rfl := Option.some.inj hstep
    exact inPlace_of_ended rfl
  · obtain rfl := Option.some.inj hstep
    exact inPlace_of_ended rfl
  · obtain rfl := Option.some.inj hstep
    exact inPlace_of_ended rfl
  · cases hstep

/-- Of the calls of others only an addition may move the torrent. -/
theorem inPlace_call_iff (hinv : Inv E s) (h : s.InPlace E) {c : ServiceCall}
    (hstep : s.next E (.call c) = some s') : s'.InPlace E ↔ s.Guard E (.call c) := by
  obtain rfl := Option.some.inj hstep
  cases c with
  | addTorrent key savePath accepted =>
    unfold InPlace Guard
    refine forall_congr' fun k => imp_congr_right fun hk => ?_
    show (s.session.addTorrent E.hash key savePath accepted).SavedIn E.hash k _ ↔ _
    rw [StoredSession.savedIn_addTorrent hinv.ok]
    exact and_iff_left fun _ => h k hk
  | removeTorrent key =>
    refine iff_of_true (h.mono (fun _ hkey => hkey) fun k hsaved => ?_) trivial
    exact StoredSession.savedIn_removeTorrent hsaved
  | pauseTorrent key | resumeTorrent key =>
    refine iff_of_true (h.mono (fun _ hkey => hkey) fun k hsaved => ?_) trivial
    exact StoredSession.savedIn_modify (fun _ => rfl) (fun _ => rfl) hsaved
  | loadMetadata infoHash =>
    refine iff_of_true (h.mono (fun _ hkey => hkey) fun k hsaved => ?_) trivial
    exact StoredSession.savedIn_loadMetadata hsaved

/-- **A step** leaves the torrent in the directory exactly if it meets the guard. -/
theorem inPlace_next_iff (hinv : Inv E s) (h : s.InPlace E) (hstep : s.next E e = some s') :
    s'.InPlace E ↔ s.Guard E e := by
  cases e with
  | advance accepted =>
    obtain hstep : s.advance E accepted = some s' := hstep
    unfold PathWatch.advance at hstep
    split at hstep
    · rename_i hp
      -- only the load of the metadata can take a key whose files are elsewhere
      rw [inPlace_load hinv h hp hstep]
      exact ⟨fun hguard _ => hguard, fun hguard => hguard hp⟩
    · rename_i hp
      exact iff_of_true (h.checkFile hstep) fun hload => by simp [hp] at hload
    · rename_i hload _
      exact iff_of_true (h.goOn hstep) fun hp => absurd hp hload
  | timeOut => exact iff_of_true (inPlace_timeOut hstep) trivial
  | iterate had =>
    obtain ⟨⟨hp, -⟩, hstep⟩ := Option.ite_none_right_eq_some.mp hstep
    obtain ⟨boundary, -, rfl⟩ := Option.map_eq_some_iff.mp hstep
    obtain ⟨hkept, -⟩ := WatchTask.iterate_once (t := s.view E had) boundary.1 boundary.2
    exact iff_of_true (h.kept (by simp [hp]) hkept rfl rfl) trivial
  | seek delta had =>
    obtain ⟨hp, hstep⟩ := Option.ite_none_left_eq_some.mp hstep
    obtain rfl := Option.some.inj hstep
    obtain ⟨hkept, -⟩ := WatchTask.seek_kept (t := s.view E had) delta
    exact iff_of_true (h.kept hp hkept rfl rfl) trivial
  | interrupt => exact iff_of_true (inPlace_interrupt hstep) trivial
  | call c => exact inPlace_call_iff hinv h hstep

/-! ### The path that is sent -/

/-- The key that the loader is done with is the one the task works with. -/
theorem torrentFile_of_done {key : String} (h : s.loader = .done (some key)) :
    s.torrentFile = key := by
  rw [torrentFile, h]
  rfl

/-- A piece that the task sees is a piece of its torrent. -/
theorem exists_torrentOf {had : ℤ → Bool} {i : ℤ}
    (h : (s.view E had).service.havePiece i = true) :
    ∃ t, s.session.torrentOf E.hash s.torrentFile = some t := by
  have hmetadata : s.session.hasMetadata E.hash s.torrentFile = true :=
    (Bool.and_eq_true_iff.mp h).1
  unfold StoredSession.hasMetadata at hmetadata
  cases ht : s.session.torrentOf E.hash s.torrentFile with
  | none => simp [ht] at hmetadata
  | some t => exact ⟨t, rfl⟩

/-- A file has the same path in two directories only if they are the same. -/
theorem inDirectory_inj {directory directory' path : String} :
    inDirectory directory path = inDirectory directory' path ↔ directory = directory' := by
  unfold inDirectory
  rw [String.append_left_inj, String.append_left_inj]

/-- What an iteration records is right exactly if the torrent is in the directory. -/
theorem written_iff (hinv : Inv E s) {had : ℤ → Bool} (hstep : s.iterate E had = some s')
    {m : PreparedMessage} (hm : s'.prepared = s.prepared ++ [m]) :
    m.written = some m.videoPath ↔ s.InPlace E := by
  obtain ⟨⟨hp, -⟩, hstep⟩ := Option.ite_none_right_eq_some.mp hstep
  obtain ⟨boundary, hboundary, rfl⟩ := Option.map_eq_some_iff.mp hstep
  dsimp only at hm
  split_ifs at hm with hsent
  · obtain rfl := List.singleton_inj.mp (List.append_cancel_left hm)
    have honce := (WatchTask.iterate_once (t := s.view E had) boundary.1 boundary.2).2
    obtain ⟨-, hstate, hhad⟩ := honce.resolve_left hsent.ne'
    obtain ⟨i, hi⟩ := hhad (hinv.counted (Or.inr (Or.inr hp)))
    obtain ⟨t, ht⟩ := exists_torrentOf hi
    have hlocated : s.task.point.Located := Or.inr (Or.inr (Or.inr (Or.inr hp)))
    obtain ⟨fileEntry, hwatched, hpath⟩ := hinv.path hlocated
    obtain ⟨key, hkey⟩ := hinv.loaded (Or.inr hlocated)
    -- both paths are the file's, in two directories
    have hwritten : E.writtenPath s.session s.torrentFile =
        some (inDirectory t.savePath fileEntry.path) := by
      simp [PathSetup.writtenPath, ht, hwatched]
    have hawaited : ∀ k, s.awaited = some k ↔ k = s.torrentFile := by
      intro k
      rw [awaited_eq_some, torrentFile_of_done hkey, hkey]
      simp only [hp, TorrentLoader.current, Option.some.injEq, eq_comm (a := k)]
      exact ⟨fun h => h.2.2, fun h => ⟨by simp, fun _ => hstate, h⟩⟩
    rw [hwritten, hpath, Option.some.injEq, inDirectory_inj]
    refine ⟨fun heq k hk => ?_, fun h => h _ ((hawaited _).mpr rfl) t ht⟩
    rw [(hawaited k).mp hk]
    intro t' ht'
    rw [ht, Option.some.injEq] at ht'
    rw [← ht']
    exact heq
  · have hlen := congrArg List.length hm
    simp at hlen

/-- No statement before the loop sends a path. -/
theorem prepared_goOn {priorities : List ℤ} (h : s.goOn E priorities = some s') :
    s'.prepared = s.prepared := by
  obtain ⟨task, -, rfl⟩ := Option.map_eq_some_iff.mp h
  rfl

/-- Nothing is sent before the loop. -/
theorem prepared_advance {accepted : Option Bool} (h : s.advance E accepted = some s') :
    s'.prepared = s.prepared := by
  unfold PathWatch.advance at h
  split at h
  · unfold PathWatch.load at h
    split at h
    · split_ifs at h <;> cases h <;> rfl
    · obtain ⟨r, -, rfl⟩ := Option.map_eq_some_iff.mp h
      rfl
  · unfold PathWatch.checkFile at h
    split at h
    · split at h
      · cases h
        rfl
      · exact (prepared_goOn h).trans rfl
    · cases h
      rfl
  · exact prepared_goOn h

/-- Paths are sent by iterations only. -/
theorem prepared_next (hstep : s.next E e = some s') : s'.prepared = s.prepared ∨
    ∃ had m, s.iterate E had = some s' ∧ s'.prepared = s.prepared ++ [m] := by
  cases e with
  | advance accepted => exact Or.inl (prepared_advance hstep)
  | timeOut =>
    obtain ⟨-, hstep⟩ := Option.ite_none_right_eq_some.mp hstep
    obtain ⟨r, -, rfl⟩ := Option.map_eq_some_iff.mp hstep
    exact Or.inl rfl
  | iterate had =>
    obtain ⟨-, hiterate⟩ := Option.ite_none_right_eq_some.mp hstep
    obtain ⟨boundary, -, hs'⟩ := Option.map_eq_some_iff.mp hiterate
    by_cases hsent : s.task.sent.count .videoPrepared <
        ((s.view E had).iterate boundary.1 boundary.2).sent.count .videoPrepared
    · refine Or.inr ⟨had, ⟨s.videoPath, E.writtenPath s.session s.torrentFile⟩, hstep, ?_⟩
      rw [← hs']
      exact if_pos hsent
    · refine Or.inl ?_
      rw [← hs']
      exact if_neg hsent
  | seek delta had =>
    obtain ⟨-, hstep⟩ := Option.ite_none_left_eq_some.mp hstep
    cases hstep
    exact Or.inl rfl
  | interrupt =>
    unfold PathWatch.next at hstep
    dsimp only at hstep
    split at hstep <;> cases hstep <;> exact Or.inl rfl
  | call c =>
    cases hstep
    exact Or.inl rfl

/-- A step with the torrent in the directory sends the path that is written to, or none. -/
theorem PathsRight.next (h : s.PathsRight) (hinv : Inv E s) (hplace : s.InPlace E)
    (hstep : s.next E e = some s') : s'.PathsRight := by
  unfold PathsRight
  rcases prepared_next hstep with hsame | ⟨had, m, hiterate, hm⟩
  · rw [hsame]
    exact h
  · rw [hm]
    intro m' hm'
    rcases List.mem_append.mp hm' with hold | hnew
    · exact h m' hold
    · rw [List.mem_singleton.mp hnew]
      exact (written_iff hinv hiterate hm).mpr hplace

/-- In a guarded run the torrent stays in the directory, and the paths are right. -/
theorem inPlace_of_run (h : (machine E).RunUnder (fun _ => True) (Guard E) s) :
    s.InPlace E ∧ s.PathsRight := by
  refine h.invariant_reachable (I := fun s => s.InPlace E ∧ s.PathsRight) ?_ ?_
  · intro s hs _
    refine ⟨fun key hkey => ?_, fun m hm => ?_⟩
    · have hcurrent := (awaited_eq_some.mp hkey).2.2
      rw [hs.loader] at hcurrent
      cases hcurrent
    · rw [hs.prepared] at hm
      cases hm
  · intro s e s' hreach hI hguard hstep
    have hinv := inv_of_reachable hreach
    exact ⟨(inPlace_next_iff hinv hI.1 hstep).mpr hguard, hI.2.next hinv hI.1 hstep⟩

/-- **The paths of prepared videos.**  They are right in every run whose steps meet the guard; there
    a step leaves the torrent in the directory exactly if it meets it, and in any run a path is
    right exactly if the torrent is in the directory when it is sent. -/
theorem pathsRight_of_guard (E : PathSetup) :
    (∀ s, (machine E).RunUnder (fun _ => True) (Guard E) s → s.PathsRight) ∧
      (∀ s, (machine E).RunUnder (fun _ => True) (Guard E) s → ∀ e s', s.next E e = some s' →
        (s'.InPlace E ↔ s.Guard E e)) ∧
      ∀ s, (machine E).Reachable s → ∀ had s' m, s.iterate E had = some s' →
        s'.prepared = s.prepared ++ [m] → (m.written = some m.videoPath ↔ s.InPlace E) := by
  refine ⟨fun s hrun => (inPlace_of_run hrun).2, fun s hrun e s' hstep => ?_,
    fun s hreach had s' m hstep hm => written_iff (inv_of_reachable hreach) hstep hm⟩
  exact inPlace_next_iff (inv_of_reachable hrun.reachable) (inPlace_of_run hrun).1 hstep

/-! ### A torrent that is downloaded elsewhere -/

/-- A film of ten pieces, which a details view watches in the cache directory. -/
def filmSetup : PathSetup where
  hash := id
  request := ⟨"/cache", none, none, some "magnet:film"⟩
  fileName := none
  isDownloads := false
  files := fun _ => [⟨"film.mkv", 10⟩]
  piecePriorities := fun _ => List.replicate 10 TorrentPriority.MAXIMUM
  pieceLength := fun _ => 10 * SIZE_MB

/-- The service has no torrent. -/
def emptyService : PathWatch where
  session := ⟨fun _ => none, fun _ => none, 0⟩
  loader := .begin
  task := WatchTask.new ⟨fun _ => false, fun _ => none, 0⟩
  videoPath := ""
  prepared := []

/-- The film is downloaded and its metadata is there; then come the statements of `run` before the
    loop, and an iteration that finds all pieces. -/
def filmEvents : List Event :=
  .call (.addTorrent "magnet:film" "/downloads" (some true)) ::
    (List.replicate 8 (.advance none) ++ [.iterate fun _ => true])

/-- The film is downloaded into another directory: its key is available, and the path that is sent
    is one in the cache directory, where nothing is. -/
theorem downloaded_film_elsewhere :
    ∃ s, (machine filmSetup).Reachable s ∧ ¬s.PathsRight ∧
      s.prepared = [⟨"/cache/film.mkv", some "/downloads/film.mkv"⟩] := by
  have hstart : emptyService.Starts :=
    ⟨⟨fun key handle h => (by cases h), fun infoHash handle h => (by cases h)⟩, rfl, ⟨_, rfl⟩, rfl⟩
  have hrun : (Machine.runEvents (next filmSetup) emptyService filmEvents).map
      (fun s => s.prepared) = some [⟨"/cache/film.mkv", some "/downloads/film.mkv"⟩] := by
    decide +kernel
  obtain ⟨s, hreach, hprepared⟩ := (Machine.Reachable.start hstart).exists_of_runEvents hrun
  refine ⟨s, hreach, fun hright => ?_, hprepared⟩
  have hwritten := hright ⟨"/cache/film.mkv", some "/downloads/film.mkv"⟩ (by simp [hprepared])
  simp at hwritten

end PathWatch

end PopcornTime.Android
