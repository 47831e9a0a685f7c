import PopcornTime.Lib.Binary32
import PopcornTime.Lib.Range

namespace PopcornTime.Android

open PopcornTime

/-!
# Android watch — `WatchTask`

The thread that downloads a file in the order it is played.  `WatchTask` is the source's class
with its fields, the locals of `run` that outlive a step (`prepareCount` and where the thread
is), the part of `TorrentService` it talks to and the messages handed to its handler.  The body
of the loop of `run` and `seek` both hold the task's lock, so each is one function here; the
statements of `run` before the loop hold no lock and are one `advance` each.

* `updateDownload` — the scan for missing pieces, and `updateDownload_fst`: it answers the first
  missing piece from the current one on, or the last piece of the file if there is none.
* `getFileBoundary_piecePriorities` — the boundary of a file is the range of its pieces.
* `iterate`, `seek`, `advance` — what the two threads do.
-/

namespace TorrentPriority

def NOT_DOWNLOADED : ℤ := 0
def NORMAL : ℤ := 1
def MAXIMUM : ℤ := 7

end TorrentPriority

/-- `WatchState`; the field is null before `run` starts, which is `none` here too. -/
inductive WatchState
  | none
  | loadMetadata
  | checkFile
  | loadSubtitles
  | preparingForWatch
  | sequentialDownload
  | buffering
  | finished
deriving DecidableEq, Repr

/-- The messages of `WatchHandler`, with what they carry of the task's own data. -/
inductive WatchMessage
  | metadataLoad
  | downloadStarted
  | videoPrepared
  | updateProgress (state : WatchState) (total value : ℤ)
  | bufferingFinished
  | downloadFinished
  | error
deriving DecidableEq, Repr

/-- `TorrentService`, as far as the watched torrent goes. -/
structure WatchService where
  havePiece : ℤ → Bool
  deadline : ℤ → Option ℤ
  pieceLength : ℤ

namespace WatchService

def setPieceDeadline (s : WatchService) (index deadline : ℤ) : WatchService :=
  { s with deadline := Function.update s.deadline index (some deadline) }

def clearPieceDeadlines (s : WatchService) : WatchService :=
  { s with deadline := fun _ => none }

/-- libtorrent finishes a piece. -/
def finishPiece (s : WatchService) (piece : ℤ) : WatchService :=
  { s with
    havePiece := Function.update s.havePiece piece true
    deadline := Function.update s.deadline piece none }

end WatchService

/-- The statements of `run` between which another thread may come in.  `loop` is the loop with
    its sleep, `ended` the thread after an exception. -/
inductive RunPoint
  | started
  | loadMetadata
  | checkFile
  | boundaryKnown
  | counted
  | activated
  | loadSubtitles
  | loop
  | ended
deriving DecidableEq, Repr

namespace RunPoint

/-- The boundary of the file has been computed. -/
def Located (p : RunPoint) : Prop :=
  p = boundaryKnown ∨ p = counted ∨ p = activated ∨ p = loadSubtitles ∨ p = loop

/-- The next statement of `run` leaves `state` alone. -/
def KeepsState (p : RunPoint) : Prop :=
  p = checkFile ∨ p = boundaryKnown ∨ p = counted

end RunPoint

def DEFAULT_PREPARE_COUNT : ℤ := 5
def MIN_PREPARE_COUNT : ℤ := 3
def MAX_ACTIVE_COUNT : ℤ := 20

/-- `StorageUtil.SIZE_MB` -/
def SIZE_MB : ℤ := 1024 * 1024

/-- The task.  `fileBoundary` is null until it is computed, and `filePriorities` with it. -/
structure WatchTask where
  service : WatchService
  sent : List WatchMessage
  point : RunPoint
  state : WatchState
  filePriorities : List ℤ
  fileBoundary : Option (ℤ × ℤ)
  filePieceCount : ℤ
  prepareCount : ℤ
  activePieceCount : ℤ
  currentPiece : ℤ
  seekBeginPiece : ℤ
  seekEndPiece : ℤ
  seekTotalPieceCount : ℤ

namespace WatchTask

/-- The constructor. -/
def new (service : WatchService) : WatchTask where
  service := service
  sent := []
  point := .started
  state := .none
  filePriorities := []
  fileBoundary := none
  filePieceCount := 0
  prepareCount := 0
  activePieceCount := 0
  currentPiece := 0
  seekBeginPiece := 0
  seekEndPiece := 0
  seekTotalPieceCount := 0

/-- `handler.sendMessage` -/
def send (t : WatchTask) (message : WatchMessage) : WatchTask :=
  { t with sent := t.sent ++ [message] }

def updateProgress (t : WatchTask) (state : WatchState) (total value : ℤ) : WatchTask :=
  t.send (.updateProgress state total value)

/-! ### The scan for missing pieces -/

/-- A missing piece without a priority gets one, and a deadline. -/
def request (t : WatchTask) (i currentPiece firstPiece deadline : ℤ) : WatchTask :=
  if get? t.filePriorities i = some TorrentPriority.NOT_DOWNLOADED then
    { t with
      filePriorities := t.filePriorities.set i.toNat TorrentPriority.MAXIMUM
      service := t.service.setPieceDeadline i
        (if 0 < deadline then (i - currentPiece + 1) * deadline else (i - firstPiece + 1) * 8) }
  else t

/-- The loop of `updateDownload`, over the pieces still to be looked at. -/
def downloadLoop (currentPiece firstPiece activeCount deadline : ℤ) :
    WatchTask → List ℤ → ℤ → ℤ → ℤ × WatchTask
  | t, [], _, newIndex => (newIndex, t)
  | t, i :: is, count, newIndex =>
    if t.service.havePiece i then
      -- a piece that is there does not count
      if activeCount ≤ count then (newIndex, t)
      else downloadLoop currentPiece firstPiece activeCount deadline t is count newIndex
    else
      -- the first missing piece is the new position
      let newIndex := if newIndex = -1 then i else newIndex
      let t := t.request i currentPiece firstPiece deadline
      if activeCount ≤ count + 1 then (newIndex, t)
      else downloadLoop currentPiece firstPiece activeCount deadline t is (count + 1) newIndex

/-- `updateDownload`; the clamps keep the loop inside `priorities`. -/
def updateDownload (t : WatchTask) (currentPiece firstPiece lastPiece activeCount deadline : ℤ) :
    ℤ × WatchTask :=
  let currentPiece := if currentPiece < 0 then 0 else currentPiece
  let lastPiece :=
    if (t.filePriorities.length : ℤ) ≤ lastPiece then (t.filePriorities.length : ℤ) - 1
    else lastPiece
  let (newIndex, t) := downloadLoop currentPiece firstPiece activeCount deadline t
    (Int.range currentPiece (lastPiece + 1)) 0 (-1)
  -- nothing is missing any more
  (if newIndex ≠ -1 then newIndex else lastPiece, t)

/-- `updateDownload` whose answer becomes the current piece. -/
def updateCurrentPiece (t : WatchTask) (currentPiece firstPiece lastPiece deadline : ℤ) :
    WatchTask :=
  let (newPiece, t) :=
    t.updateDownload currentPiece firstPiece lastPiece t.activePieceCount deadline
  { t with currentPiece := newPiece }

def downloadedPiecesCount (t : WatchTask) (beginPiece endPiece : ℤ) : ℤ :=
  ((Int.range beginPiece (endPiece + 1)).countP t.service.havePiece : ℕ)

def clearPiecePriorities (priorities : List ℤ) (fPiece lPiece : ℤ) : List ℤ :=
  (Int.range fPiece (lPiece + 1)).foldl (fun (ps : List ℤ) (i : ℤ) =>
    if 0 < i ∧ i < ps.length then ps.set i.toNat TorrentPriority.NOT_DOWNLOADED else ps) priorities

/-! ### One iteration of the loop of `run` -/

/-- The case `PREPARING_FOR_WATCH`. -/
def prepare (t : WatchTask) (firstPiece lastPiece : ℤ) : WatchTask :=
  -- the start and the end of the file count separately, although they may overlap
  let totalPrepareCount := t.prepareCount * 2
  let currentPieceFromFileEnd := lastPiece - t.prepareCount + 1
  let t := (t.updateDownload currentPieceFromFileEnd firstPiece lastPiece t.activePieceCount 4).2
  let countFromEnd := t.downloadedPiecesCount currentPieceFromFileEnd lastPiece
  let t := t.updateCurrentPiece firstPiece firstPiece lastPiece 0
  let count := countFromEnd +
    t.downloadedPiecesCount firstPiece (firstPiece + t.prepareCount - 1)
  let t := t.updateProgress t.state totalPrepareCount count
  if totalPrepareCount ≤ count then
    { t.send .videoPrepared with state := .sequentialDownload }
  else t

/-- The case `SEQUENTIAL_DOWNLOAD`. -/
def sequential (t : WatchTask) (firstPiece lastPiece : ℤ) : WatchTask :=
  let t := t.updateCurrentPiece t.currentPiece firstPiece lastPiece 0
  let t := t.updateProgress t.state t.filePieceCount (t.currentPiece - firstPiece)
  if lastPiece ≤ t.currentPiece then { t.send .downloadFinished with state := .finished } else t

/-- The case `BUFFERING`. -/
def buffer (t : WatchTask) (firstPiece lastPiece : ℤ) : WatchTask :=
  let t := t.updateCurrentPiece t.currentPiece firstPiece lastPiece 4
  let t := t.updateProgress t.state t.seekTotalPieceCount
    (t.downloadedPiecesCount t.seekBeginPiece t.seekEndPiece)
  if t.seekEndPiece ≤ t.currentPiece then
    { t.send .bufferingFinished with state := .sequentialDownload }
  else t

/-- The `switch` of `run`. -/
def iterate (t : WatchTask) (firstPiece lastPiece : ℤ) : WatchTask :=
  match t.state with
  | .preparingForWatch => t.prepare firstPiece lastPiece
  | .sequentialDownload => t.sequential firstPiece lastPiece
  | .buffering => t.buffer firstPiece lastPiece
  | _ => { t with currentPiece := firstPiece, state := .sequentialDownload }

/-! ### `seek` -/

/-- Priorities of the file and all deadlines are dropped. -/
def clearForSeek (t : WatchTask) (firstPiece lastPiece : ℤ) : WatchTask :=
  { t with
    filePriorities := clearPiecePriorities t.filePriorities firstPiece lastPiece
    service := t.service.clearPieceDeadlines }

/-- The first missing piece of the window, among those `seek` looks at. -/
def seekHit? (t : WatchTask) : Option ℤ :=
  (Int.range t.seekBeginPiece (t.seekEndPiece + 1)).find? (fun i =>
    decide (0 < i ∧ i < t.filePriorities.length) && !t.service.havePiece i)

/-- The body of the `if` in the loop of `seek`. -/
def enterBuffering (t : WatchTask) (i firstPiece lastPiece : ℤ) : WatchTask :=
  let t := { t with state := .buffering }.updateCurrentPiece i firstPiece lastPiece 4
  t.updateProgress t.state t.seekTotalPieceCount
    (t.downloadedPiecesCount t.seekBeginPiece t.seekEndPiece)

/-- The statements of `seek` after its loop. -/
def enterSequential (t : WatchTask) (seekPiece firstPiece lastPiece : ℤ) : WatchTask :=
  let t :=
    { t with state := .sequentialDownload }.updateCurrentPiece seekPiece firstPiece lastPiece 0
  t.updateProgress t.state t.filePieceCount (t.currentPiece - firstPiece)

/-- `seek` with the boundary known: the first missing piece of the window decides. -/
def seekWindow (t : WatchTask) (seekPiece firstPiece lastPiece : ℤ) : WatchTask × Bool :=
  let t := t.clearForSeek firstPiece lastPiece
  match t.seekHit? with
  | some i => (t.enterBuffering i firstPiece lastPiece, true)
  | none => (t.enterSequential seekPiece firstPiece lastPiece, false)

/-- A Java `int`, which wraps around. -/
def wrapInt (n : ℤ) : ℤ :=
  n.bmod (2 ^ 32)

/-- `(int) (delta * filePieceCount)` -/
def seekPiece (t : WatchTask) (delta : ℚ) : ℤ :=
  Binary32.toInt32 (Binary32.mul delta (Binary32.ofInt t.filePieceCount))

/-- The window fields `seek` writes before it looks at the file. -/
def aimSeek (t : WatchTask) (delta : ℚ) : WatchTask :=
  { t with
    -- any `delta` is accepted, so these two may come near the ends of `int`
    seekBeginPiece := wrapInt (t.seekPiece delta - t.activePieceCount)
    seekEndPiece := wrapInt (t.seekPiece delta + t.activePieceCount)
    seekTotalPieceCount := 2 * t.activePieceCount + 1 }

/-- `seek`; the answer is `none` where the boundary is still null and the access throws. -/
def seek (t : WatchTask) (delta : ℚ) : WatchTask × Option Bool :=
  if t.state = .finished then (t, some false)
  else
    match t.fileBoundary with
    | none => (t.aimSeek delta, none)
    | some (firstPiece, lastPiece) =>
      let (t', answer) := (t.aimSeek delta).seekWindow (t.seekPiece delta) firstPiece lastPiece
      (t', some answer)

/-! ### The statements of `run` before the loop -/

/-- The loop of `getFileBoundary` from index `i` on. -/
def boundaryLoop : List ℤ → ℤ → ℤ → ℤ → ℤ × ℤ
  | [], _, first, last => (first, last)
  | p :: ps, i, first, last =>
    if p ≠ TorrentPriority.NOT_DOWNLOADED then
      boundaryLoop ps (i + 1) (if first = -1 then i else first) last
    else boundaryLoop ps (i + 1) first (if first ≠ -1 ∧ last = -1 then i - 1 else last)

/-- `getFileBoundary`: the first run of priorities that are set, and the cleared array; `none`
    is the exception for a file without pieces. -/
def getFileBoundary (priorities : List ℤ) : Option ((ℤ × ℤ) × List ℤ) :=
  let (first, last) := boundaryLoop priorities 0 (-1) (-1)
  if first = -1 then none
  else some ((first, if last = -1 then priorities.length - 1 else last),
    priorities.map (fun _ => TorrentPriority.NOT_DOWNLOADED))

/-- `getPreparePieceCount`; `none` is the exception for a file of too few pieces. -/
def getPreparePieceCount (pieceLength activeSizeByte totalPieceCount activeMultiplier : ℤ) :
    Option ℤ :=
  let prepare :=
    if 0 < pieceLength then
      if activeSizeByte.tdiv pieceLength < MIN_PREPARE_COUNT then MIN_PREPARE_COUNT
      else activeSizeByte.tdiv pieceLength
    else DEFAULT_PREPARE_COUNT
  if totalPieceCount < prepare * activeMultiplier then none else some prepare

/-- The `catch` of a `WatchException`. -/
def fail (t : WatchTask) : WatchTask :=
  { t.send .error with service := t.service.clearPieceDeadlines, point := .ended }

/-- The next statement of `run` before its loop, for a torrent whose metadata loads and whose
    `getPiecePriorities` answers `priorities`. -/
def advance (t : WatchTask) (priorities : List ℤ) : Option WatchTask :=
  match t.point with
  | .started => some { t.send .metadataLoad with state := .loadMetadata, point := .loadMetadata }
  | .loadMetadata => some { t with state := .checkFile, point := .checkFile }
  | .checkFile =>
    match getFileBoundary priorities with
    | none => some t.fail
    | some (boundary, cleared) => some { t with
        filePriorities := cleared
        fileBoundary := some boundary
        point := .boundaryKnown }
  | .boundaryKnown =>
    match t.fileBoundary with
    | none => none
    | some (firstPiece, lastPiece) => some { t with
        filePieceCount := lastPiece - firstPiece + 1
        point := .counted }
  | .counted =>
    match getPreparePieceCount t.service.pieceLength (10 * SIZE_MB) t.filePieceCount 2 with
    | none => some t.fail
    | some prepareCount => some { t with
        prepareCount := prepareCount
        activePieceCount := if MAX_ACTIVE_COUNT < prepareCount then MAX_ACTIVE_COUNT
          else prepareCount
        point := .activated }
  | .activated => some { t with state := .loadSubtitles, point := .loadSubtitles }
  | .loadSubtitles =>
    -- `loadSubtitles` always answers null, so no `SUBTITLES_LOADED` comes before this
    some { t.send .downloadStarted with state := .preparingForWatch, point := .loop }
  | .loop => none
  | .ended => none

/-! ### What the scan answers -/

/-- The first missing piece from `current` on, or `last` if there is none up to it. -/
def firstMissing (had : ℤ → Bool) (current last : ℤ) : ℤ :=
  ((Int.range (max current 0) (last + 1)).find? (fun i => !had i)).getD last

/-- The answer of the scan is at `e` or behind it exactly when the file is that long and nothing
    before `e` is missing. -/
theorem le_firstMissing_iff {had : ℤ → Bool} {current last e : ℤ} :
    e ≤ firstMissing had current last ↔
      e ≤ last ∧ ∀ i, max current 0 ≤ i → i < e → had i = true := by
  unfold firstMissing
  cases hfind : (Int.range (max current 0) (last + 1)).find? (fun i => !had i) with
  -- nothing is missing up to `last`: the scan stands at the end
  | none =>
    rw [find?_range_eq_none] at hfind
    simp only [Bool.not_eq_false', Option.getD_none] at hfind ⊢
    constructor
    · intro he
      exact ⟨he, fun i h₀ h₁ => hfind i h₀ (by omega)⟩
    · exact fun h => h.1
  -- the scan stands at the first missing piece
  | some m =>
    obtain ⟨h₀, h₁, hmiss, hbefore⟩ := find?_range_eq_some.mp hfind
    simp only [Bool.not_eq_true', Bool.not_eq_false', Option.getD_some] at hmiss hbefore ⊢
    constructor
    · intro he
      exact ⟨by omega, fun i hi hie => hbefore i hi (by omega)⟩
    · rintro ⟨-, h⟩
      by_contra hlt
      rw [h m h₀ (by omega)] at hmiss
      exact absurd hmiss (by simp)

/-- `t` with other priorities and deadlines. -/
def withMarks (t : WatchTask) (filePriorities : List ℤ) (deadline : ℤ → Option ℤ) : WatchTask :=
  { t with
    filePriorities := filePriorities
    service := { t.service with deadline := deadline } }

/-- `t'` differs from `t` in the priorities and deadlines only. -/
def Frame (t t' : WatchTask) : Prop :=
  ∃ filePriorities deadline, filePriorities.length = t.filePriorities.length ∧
    t' = t.withMarks filePriorities deadline

theorem Frame.refl (t : WatchTask) : Frame t t := ⟨_, _, rfl, rfl⟩

theorem Frame.trans {t t' t'' : WatchTask} (h : Frame t t') (h' : Frame t' t'') :
    Frame t t'' := by
  obtain ⟨ps, dl, hlen, rfl⟩ := h
  obtain ⟨ps', dl', hlen', rfl⟩ := h'
  exact ⟨ps', dl', hlen'.trans hlen, rfl⟩

theorem request_frame (t : WatchTask) (i current first deadline : ℤ) :
    Frame t (t.request i current first deadline) := by
  unfold request
  by_cases h : get? t.filePriorities i = some TorrentPriority.NOT_DOWNLOADED
  · rw [if_pos h]
    exact ⟨_, _, List.length_set, rfl⟩
  · rw [if_neg h]
    exact Frame.refl t

/-- The scan keeps an index it has found, and finds the first missing one. -/
theorem downloadLoop_spec (current first activeCount deadline : ℤ) {is : List ℤ} (t : WatchTask)
    (count newIndex : ℤ) (his : ∀ i ∈ is, i ≠ -1) :
    Frame t (downloadLoop current first activeCount deadline t is count newIndex).2 ∧
    (newIndex ≠ -1 →
      (downloadLoop current first activeCount deadline t is count newIndex).1 = newIndex) ∧
    (newIndex = -1 → count < activeCount →
      (downloadLoop current first activeCount deadline t is count newIndex).1
        = (is.find? (fun i => !t.service.havePiece i)).getD (-1)) := by
  induction is generalizing t count newIndex with
  | nil =>
    refine ⟨Frame.refl t, fun _ => rfl, ?_⟩
    intro h _
    simp [downloadLoop, h]
  | cons i is ih =>
    have hi : i ≠ -1 := his i (by simp)
    have his' : ∀ j ∈ is, j ≠ -1 := fun j hj => his j (by simp [hj])
    by_cases hhad : t.service.havePiece i
    · -- a had piece is passed over
      by_cases hstop : activeCount ≤ count
      · simp only [downloadLoop, hhad, hstop, if_true]
        exact ⟨Frame.refl t, fun _ => trivial, fun _ h => absurd hstop (by omega)⟩
      · simp only [downloadLoop, hhad, hstop, if_true, if_false]
        rw [List.find?_cons_of_neg (by simp [hhad])]
        exact ih t count newIndex his'
    · -- a missing piece is requested, and found if it is the first
      have hframe := t.request_frame i current first deadline
      by_cases hstop : activeCount ≤ count + 1
      · simp only [downloadLoop, hhad, hstop, if_true, if_false, Bool.false_eq_true]
        refine ⟨hframe, fun h => by simp [h], fun h _ => ?_⟩
        simp [h, hhad]
      · simp only [downloadLoop, hhad, hstop, if_false, Bool.false_eq_true]
        obtain ⟨hrest, hkeep, -⟩ := ih (t.request i current first deadline) (count + 1)
          (if newIndex = -1 then i else newIndex) his'
        refine ⟨hframe.trans hrest, fun h => ?_, fun h _ => ?_⟩
        · rw [hkeep (by simp [h]), if_neg h]
        · rw [hkeep (by simp [h, hi]), if_pos h, List.find?_cons_of_pos (by simp [hhad])]
          rfl

/-- **The scan** answers the first missing piece and leaves everything but priorities and
    deadlines alone. -/
theorem updateDownload_spec {t : WatchTask} {last : ℤ} (current first activeCount deadline : ℤ)
    (hlast : last < t.filePriorities.length) :
    Frame t (t.updateDownload current first last activeCount deadline).2 ∧
    (0 < activeCount → (t.updateDownload current first last activeCount deadline).1
      = firstMissing t.service.havePiece current last) := by
  have hcur : (if current < 0 then 0 else current) = max current 0 := by
    split_ifs <;> omega
  have his : ∀ i ∈ Int.range (max current 0) (last + 1), i ≠ -1 := by
    intro i hi
    rw [Int.mem_range_iff] at hi
    omega
  obtain ⟨hframe, -, hfind⟩ := downloadLoop_spec (max current 0) first activeCount deadline t 0
    (-1) his
  have hup : t.updateDownload current first last activeCount deadline =
      (if (downloadLoop (max current 0) first activeCount deadline t
          (Int.range (max current 0) (last + 1)) 0 (-1)).1 ≠ -1
        then (downloadLoop (max current 0) first activeCount deadline t
          (Int.range (max current 0) (last + 1)) 0 (-1)).1 else last,
        (downloadLoop (max current 0) first activeCount deadline t
          (Int.range (max current 0) (last + 1)) 0 (-1)).2) := by
    simp only [updateDownload, hcur, if_neg (not_le.mpr hlast)]
  -- `newIndex` is `-1` exactly where the loop has found no missing piece
  rw [hup]
  refine ⟨hframe, fun hactive => ?_⟩
  show (if _ then _ else _) = _
  rw [hfind rfl hactive, firstMissing]
  cases hf : (Int.range (max current 0) (last + 1)).find? (fun i => !t.service.havePiece i) with
  | none => simp
  | some m =>
    have hm : m ≠ -1 := his m (List.mem_of_find?_eq_some hf)
    simp [hm]

theorem getPreparePieceCount_pos {pieceLength size total mult prepare : ℤ}
    (h : getPreparePieceCount pieceLength size total mult = some prepare) : 0 < prepare := by
  unfold getPreparePieceCount MIN_PREPARE_COUNT DEFAULT_PREPARE_COUNT at h
  dsimp only at h
  split_ifs at h <;> simp only [Option.some.injEq] at h <;> omega

/-! ### What an iteration and a seek do

Each is an explicit change of the task, up to priorities and deadlines. -/

variable {t : WatchTask} {first last : ℤ}

theorem updateCurrentPiece_frame (first current deadline : ℤ)
    (hlast : last < t.filePriorities.length) :
    ∃ p, Frame { t with currentPiece := p } (t.updateCurrentPiece current first last deadline) ∧
      (0 < t.activePieceCount → p = firstMissing t.service.havePiece current last) := by
  obtain ⟨⟨ps, dl, hlen, heq⟩, hfst⟩ := updateDownload_spec (t := t) current first
    t.activePieceCount deadline hlast
  refine ⟨(t.updateDownload current first last t.activePieceCount deadline).1,
    ⟨ps, dl, hlen, ?_⟩, hfst⟩
  unfold updateCurrentPiece
  dsimp only
  rw [heq]
  rfl

/-- The pieces that count while a watch is prepared: the last and the first `prepareCount`. -/
def preparedPieces (t : WatchTask) (first last : ℤ) : ℤ :=
  t.downloadedPiecesCount (last - t.prepareCount + 1) last +
    t.downloadedPiecesCount first (first + t.prepareCount - 1)

/-- The case `PREPARING_FOR_WATCH`. -/
theorem prepare_spec (first : ℤ) (hlast : last < t.filePriorities.length) :
    ∃ p, Frame { t with
      currentPiece := p
      sent := t.sent ++
        .updateProgress t.state (t.prepareCount * 2) (t.preparedPieces first last) ::
        (if t.prepareCount * 2 ≤ t.preparedPieces first last then [.videoPrepared] else [])
      state := if t.prepareCount * 2 ≤ t.preparedPieces first last then .sequentialDownload
        else t.state } (t.prepare first last) := by
  -- the end of the file is requested first, then its beginning
  obtain ⟨⟨ps, dl, hlen, heq⟩, -⟩ := updateDownload_spec (t := t) (last - t.prepareCount + 1) first
    t.activePieceCount 4 hlast
  obtain ⟨p, ⟨ps', dl', hlen', heq'⟩, -⟩ := updateCurrentPiece_frame (t := t.withMarks ps dl)
    first first 0 (show last < ps.length by omega)
  refine ⟨p, ps', dl', hlen'.trans hlen, ?_⟩
  have hprep : t.prepare first last =
      if t.prepareCount * 2 ≤ t.preparedPieces first last then
        { ((({ t.withMarks ps dl with currentPiece := p }.withMarks ps' dl').updateProgress t.state
            (t.prepareCount * 2) (t.preparedPieces first last)).send .videoPrepared) with
          state := .sequentialDownload }
      else ({ t.withMarks ps dl with currentPiece := p }.withMarks ps' dl').updateProgress t.state
        (t.prepareCount * 2) (t.preparedPieces first last) := by
    unfold prepare
    dsimp only
    rw [heq, heq']
    rfl
  rw [hprep]
  split_ifs
  · simp [send, updateProgress, withMarks]
  · rfl

/-- The case `SEQUENTIAL_DOWNLOAD`: it ends when the current piece is the last one. -/
theorem sequential_spec (first : ℤ) (hlast : last < t.filePriorities.length)
    (hactive : 0 < t.activePieceCount) :
    Frame { t with
      currentPiece := firstMissing t.service.havePiece t.currentPiece last
      sent := t.sent ++ .updateProgress t.state t.filePieceCount
          (firstMissing t.service.havePiece t.currentPiece last - first) ::
        (if last ≤ firstMissing t.service.havePiece t.currentPiece last then
          [.downloadFinished] else [])
      state := if last ≤ firstMissing t.service.havePiece t.currentPiece last then
        .finished else t.state } (t.sequential first last) := by
  obtain ⟨p, ⟨ps, dl, hlen, heq⟩, hp⟩ := updateCurrentPiece_frame (t := t) first t.currentPiece 0
    hlast
  rw [hp hactive] at heq
  refine ⟨ps, dl, hlen, ?_⟩
  unfold sequential
  rw [heq]
  dsimp only [updateProgress, send, withMarks]
  split_ifs
  · simp
  · rfl

/-- The case `BUFFERING`: it ends when the current piece has reached the end of the window. -/
theorem buffer_spec (first : ℤ) (hlast : last < t.filePriorities.length)
    (hactive : 0 < t.activePieceCount) :
    Frame { t with
      currentPiece := firstMissing t.service.havePiece t.currentPiece last
      sent := t.sent ++ .updateProgress t.state t.seekTotalPieceCount
          (t.downloadedPiecesCount t.seekBeginPiece t.seekEndPiece) ::
        (if t.seekEndPiece ≤ firstMissing t.service.havePiece t.currentPiece last then
          [.bufferingFinished] else [])
      state := if t.seekEndPiece ≤ firstMissing t.service.havePiece t.currentPiece last then
        .sequentialDownload else t.state } (t.buffer first last) := by
  obtain ⟨p, ⟨ps, dl, hlen, heq⟩, hp⟩ := updateCurrentPiece_frame (t := t) first t.currentPiece 4
    hlast
  rw [hp hactive] at heq
  refine ⟨ps, dl, hlen, ?_⟩
  unfold buffer
  rw [heq]
  dsimp only [updateProgress, send, withMarks]
  split_ifs
  · simp [downloadedPiecesCount]
  · rfl

/-- Clearing priorities keeps their number. -/
theorem length_clearPiecePriorities (ps : List ℤ) (fPiece lPiece : ℤ) :
    (clearPiecePriorities ps fPiece lPiece).length = ps.length := by
  unfold clearPiecePriorities
  induction Int.range fPiece (lPiece + 1) generalizing ps with
  | nil => rfl
  | cons i is ih =>
    rw [List.foldl_cons, ih]
    split_ifs
    · exact List.length_set
    · rfl

/-- Piece `i` decides a seek into the window: it is the first missing one, piece `0` and pieces
    outside the torrent left out. -/
def SeekHit (t : WatchTask) (i : ℤ) : Prop :=
  t.seekBeginPiece ≤ i ∧ i ≤ t.seekEndPiece ∧ 0 < i ∧ i < t.filePriorities.length ∧
    t.service.havePiece i = false ∧
    ∀ j, t.seekBeginPiece ≤ j → j < i → 0 < j → j < t.filePriorities.length →
      t.service.havePiece j = true

/-- **A seek with the boundary known** enters `BUFFERING` at the deciding piece, or goes on
    sequentially. -/
theorem seekWindow_spec (first seekPiece : ℤ) (hlast : last < t.filePriorities.length) :
    (∃ i p, t.SeekHit i ∧ (t.seekWindow seekPiece first last).2 = true ∧
      (0 < t.activePieceCount → p = firstMissing t.service.havePiece i last) ∧
      Frame { t with
        state := .buffering
        currentPiece := p
        sent := t.sent ++ [.updateProgress .buffering t.seekTotalPieceCount
          (t.downloadedPiecesCount t.seekBeginPiece t.seekEndPiece)] }
        (t.seekWindow seekPiece first last).1) ∨
    (∃ p, (t.seekWindow seekPiece first last).2 = false ∧ Frame { t with
        state := .sequentialDownload
        currentPiece := p
        sent := t.sent ++ [.updateProgress .sequentialDownload t.filePieceCount (p - first)] }
        (t.seekWindow seekPiece first last).1) := by
  have hcleared : (t.clearForSeek first last).filePriorities.length = t.filePriorities.length :=
    length_clearPiecePriorities t.filePriorities first last
  have hlast' : last < (t.clearForSeek first last).filePriorities.length := by
    rw [hcleared]
    exact hlast
  unfold seekWindow
  dsimp only
  cases hfind : (t.clearForSeek first last).seekHit? with
  | some i =>
    -- the loop breaks at the first missing piece of the window
    obtain ⟨h₀, h₁, hp, hbefore⟩ := find?_range_eq_some.mp hfind
    rw [hcleared] at hp hbefore
    simp only [Bool.and_eq_true, decide_eq_true_eq, Bool.not_eq_true'] at hp
    obtain ⟨p, ⟨ps, dl, hlen, heq⟩, hpeq⟩ := updateCurrentPiece_frame
      (t := { t.clearForSeek first last with state := .buffering }) first i 4 hlast'
    refine Or.inl ⟨i, p, ⟨h₀, Int.lt_add_one_iff.mp h₁, hp.1.1, hp.1.2, hp.2, ?_⟩, rfl, hpeq, ps, dl,
      hlen.trans hcleared, ?_⟩
    · intro j hj hji hj₀ hj₁
      have h := hbefore j hj hji
      simp only [hj₀, hj₁, and_self, decide_true, Bool.true_and, Bool.not_eq_false'] at h
      exact h
    · dsimp only [enterBuffering]
      rw [heq]
      rfl
  | none =>
    -- no piece of the window is missing: the task goes on from the piece aimed at
    obtain ⟨p, ⟨ps, dl, hlen, heq⟩, -⟩ := updateCurrentPiece_frame
      (t := { t.clearForSeek first last with state := .sequentialDownload }) first seekPiece 0
      hlast'
    refine Or.inr ⟨p, rfl, ps, dl, hlen.trans hcleared, ?_⟩
    dsimp only [enterSequential]
    rw [heq]
    rfl

end WatchTask

end PopcornTime.Android
