import Mathlib.Data.List.ReduceOption
import PopcornTime.Lib.Machine
import PopcornTime.Android.DownloadsClient
import PopcornTime.Android.LiveTorrents

namespace PopcornTime.Android

open PopcornTime Downloads TorrentUtil

/-!
# Android watch — watches and downloads over one session

Watches and downloads share the torrents of the service.  A watch from a details page saves its
torrent in the cache directory, leaves its key in `LAST_TORRENT`, pauses it at the end and removes
it on an exception; the next such watch of another torrent removes what `LAST_TORRENT` names.  None
of this asks whether the torrent is a download's.

* `LiveSession.holds` — the torrent of a download runs in its directory; the lemmas beside it say
  when a call leaves that so.
* `WatchedDownloads.act` — the calls of the pages, between any two statements of the watch threads
  and of the threads that add downloads.
* `WatchedDownloads.WatchHarmless` — where no watch is alive, a download that has run in its
  directory does so.
-/

/-- The info-hash that a magnet, a file or the `.torrent` of a url has, that of the metadata in
    resume data (if libtorrent finds some there), the cache directory, and `urlSelects`'
    parameter. -/
structure StorageSetup where
  hash : String → String
  metadataOf : List UInt8 → Option String
  cacheDir : String
  selectsOther : String → DownloadRow → Bool

/-- Where the thread of a watch is: in `addTorrent`, behind `loadMetadata`, behind the answer of
    `isTorrentPaused`, behind the `resumeTorrent` of that answer, with `torrentPaused` set, or
    dead. -/
inductive StoredWatchPhase
  | loading (loader : TorrentLoader)
  | loaded
  | asked (paused : Bool)
  | resumed (paused : Bool)
  | running
  | ended
deriving DecidableEq

/-- A `WatchTask`; `resumed` is the info-hash of the metadata in the resume data of its
    `WatchInfo`, and `stopped` is the interrupt of its thread. -/
structure StoredWatch where
  isDownloads : Bool
  request : TorrentLoader.Request
  resumed : Option String
  phase : StoredWatchPhase
  torrentFile : Option String
  torrentPaused : Bool
  stopped : Bool
deriving DecidableEq

def StoredWatch.isAlive (w : StoredWatch) : Bool :=
  decide (w.phase ≠ .ended)

/-- Its thread is at another place. -/
def StoredWatch.goTo (w : StoredWatch) (phase : StoredWatchPhase) : StoredWatch :=
  { w with phase := phase }

/-- Behind the answer of `resumeTorrent`. -/
def StoredWatch.running (w : StoredWatch) (paused : Bool) : StoredWatch :=
  { w with phase := .running, torrentPaused := paused || !w.isDownloads }

/-- An `AddToDownloadsThread`, without a loader once it has ended. -/
structure AddThread where
  info : DownloadInfo
  loader : Option TorrentLoader

def AddThread.request (a : AddThread) : TorrentLoader.Request :=
  ⟨a.info.directory, a.info.torrentFilePath, a.info.torrentUrl, a.info.torrentMagnet⟩

def AddThread.resumed (E : StorageSetup) (a : AddThread) : Option String :=
  a.info.resumeData.bind E.metadataOf

/-- The application.  `held` is a ghost: the ids of the downloads that have run in their directory
    so far. -/
structure WatchedDownloads where
  table : DownloadsTable
  session : LiveSession
  lastTorrent : String
  tasks : List StoredWatch
  watchTask : Option ℕ
  adds : List AddThread
  held : List ℤ

/-! ### Downloads and their torrents -/

/-- The keys of a row. -/
def DownloadRow.keys (r : DownloadRow) : List String :=
  [r.torrentFilePath, r.torrentUrl, r.torrentMagnet].reduceOption.filter fun key =>
    decide (key ≠ "")

/-- The keys of a row are its path, its url and its magnet, as far as they are there. -/
theorem DownloadRow.mem_keys {r : DownloadRow} {key : String} : key ∈ r.keys ↔
    (some key = r.torrentFilePath ∨ some key = r.torrentUrl ∨ some key = r.torrentMagnet) ∧
      key ≠ "" := by
  simp [DownloadRow.keys, List.reduceOption_mem_iff]

namespace LiveSession

/-- The torrent of a row runs, in the directory of the row. -/
def holds (S : LiveSession) (r : DownloadRow) : Bool :=
  r.keys.any fun k => S.runs k r.directory

/-- It is not the torrent behind a key. -/
def spares (S : LiveSession) (key : String) (r : DownloadRow) : Bool :=
  r.keys.any fun k => S.runs k r.directory && !S.reaches key k

/-- Where a key is added to, it stays: that is its directory, or the session has another torrent
    for the key, or none. -/
def stays (hash : String → String) (resumed : Option String) (S : LiveSession)
    (key savePath : String) (r : DownloadRow) : Bool :=
  decide (savePath = r.directory) ||
    r.keys.any fun k => S.runs k r.directory &&
      decide (S.torrents k ≠ some (S.handleOf hash key resumed))

/-- A resumption of the torrent behind a key lets it run. -/
def resumes (S : LiveSession) (key : Option String) (r : DownloadRow) : Bool :=
  r.keys.any fun k => S.inPlace k r.directory &&
    (!S.isTorrentPaused k || !isEmpty key && S.reaches (key.getD "") k)

variable {hash : String → String} {S : LiveSession} {key savePath : String} {r : DownloadRow}
  {resumed : Option String}

/-- A download runs by one of its keys, -/
theorem holds_iff : S.holds r = true ↔ ∃ k ∈ r.keys, S.runs k r.directory = true :=
  List.any_eq_true

/-- is spared by one, -/
theorem spares_iff : S.spares key r = true ↔
    ∃ k ∈ r.keys, S.runs k r.directory = true ∧ S.reaches key k = false := by
  simp [spares]

/-- and stays by one. -/
theorem stays_iff : S.stays hash resumed key savePath r = true ↔ savePath = r.directory ∨
    ∃ k ∈ r.keys, S.runs k r.directory = true ∧
      S.torrents k ≠ some (S.handleOf hash key resumed) := by
  simp [stays]

/-- A removal leaves the rows it spares. -/
theorem holds_removeTorrent : (S.removeTorrent key).holds r = true ↔ S.spares key r = true := by
  simp only [holds_iff, spares_iff, runs_removeTorrent]

/-- And so does a pause. -/
theorem holds_pauseTorrent : (S.pauseTorrent key).holds r = true ↔ S.spares key r = true := by
  simp only [holds_iff, spares_iff, runs_pauseTorrent]

/-- What a call does to its torrent does not change which one it reaches. -/
theorem reaches_modify {f : SessionTorrent → SessionTorrent} {k : String} :
    (S.modify key f).reaches key k = S.reaches key k := by
  have htorrents : (S.modify key f).torrents = S.torrents := by
    unfold modify
    cases S.torrents key <;> rfl
  unfold reaches
  rw [torrentOf_modify, htorrents]
  split_ifs
  · rw [Option.isSome_map]
  · rfl

/-- A pause spares what it has spared. -/
theorem spares_pauseTorrent :
    (S.pauseTorrent key).spares key r = true ↔ S.spares key r = true := by
  have hreaches : ∀ k, (S.pauseTorrent key).reaches key k = S.reaches key k := fun k =>
    reaches_modify
  simp only [spares_iff, runs_pauseTorrent, hreaches, and_assoc, and_self]

/-- What a call to a handle spares runs. -/
theorem holds_of_spares (h : S.spares key r = true) : S.holds r = true := by
  obtain ⟨k, hk, hruns, -⟩ := spares_iff.mp h
  exact holds_iff.mpr ⟨k, hk, hruns⟩

/-- A resumption that is taken back lets nothing run. -/
theorem holds_of_spares_resumeTorrent (h : (S.resumeTorrent key).spares key r = true) :
    S.holds r = true := by
  obtain ⟨k, hk, hruns, hreach⟩ := spares_iff.mp h
  rw [resumeTorrent, reaches_modify] at hreach
  rw [runs_resumeTorrent, hreach] at hruns
  exact holds_iff.mpr ⟨k, hk, runs_iff.mpr ⟨hruns.1, by simpa using hruns.2⟩⟩

/-- A resumption leaves what runs. -/
theorem holds_resumeTorrent (h : S.holds r = true) : (S.resumeTorrent key).holds r = true := by
  obtain ⟨k, hk, hruns⟩ := holds_iff.mp h
  exact holds_iff.mpr ⟨k, hk, runs_resumeTorrent_of_runs hruns⟩

/-- And so does metadata that arrives. -/
theorem holds_loadMetadata {handle : ℕ} (h : S.holds r = true) :
    (S.loadMetadata hash handle).holds r = true := by
  obtain ⟨k, hk, hruns⟩ := holds_iff.mp h
  exact holds_iff.mpr ⟨k, hk, runs_loadMetadata hruns⟩

/-- What an added key leaves. -/
theorem holds_addTorrent {accepted : Option Bool} (h : S.holds r = true) :
    (S.addTorrent hash resumed key savePath accepted).holds r = true ↔
      (S.adds key accepted = true → S.stays hash resumed key savePath r = true) := by
  cases hadds : S.adds key accepted with
  | false =>
    rw [addTorrent_of_not_adds hadds]
    exact iff_of_true h (by simp)
  | true =>
    rw [stays_iff, holds_iff]
    constructor
    · rintro ⟨k, hk, hruns⟩ -
      by_cases hnamed : k = key ∨ S.torrents k = some (S.handleOf hash key resumed)
      · exact .inl (savePath_of_adds hadds hnamed hruns)
      · rw [not_or] at hnamed
        rw [runs_addTorrent_of_ne hnamed.1 hnamed.2] at hruns
        exact .inr ⟨k, hk, hruns, hnamed.2⟩
    · intro hstays
      rcases hstays rfl with hpath | ⟨k, hk, hruns, hother⟩
      · obtain ⟨k, hk, hruns⟩ := holds_iff.mp h
        rw [← hpath] at hruns ⊢
        exact ⟨k, hk, runs_addTorrent hruns⟩
      · refine ⟨k, hk, ?_⟩
        rw [runs_addTorrent_of_ne (ne_of_adds hadds hruns) hother]
        exact hruns

/-- What `downloadsResume` lets run. -/
theorem holds_resumed {key : Option String} :
    (if isEmpty key then S else S.resumeTorrent (key.getD "")).holds r = true ↔
      S.resumes key r = true := by
  simp only [resumes, List.any_eq_true, Bool.and_eq_true, Bool.or_eq_true, Bool.not_eq_true',
    holds_iff]
  split_ifs with hempty
  · simp [hempty, runs_iff]
  · have hfull : isEmpty key = false := by simpa using hempty
    simp [hfull, runs_resumeTorrent]

end LiveSession

namespace WatchedDownloads

/-! ### `TorrentService` -/

/-- `watchTask` -/
def current (s : WatchedDownloads) : Option StoredWatch :=
  s.watchTask.bind (s.tasks[·]?)

def isWatchAlive (s : WatchedDownloads) : Bool :=
  s.current.any StoredWatch.isAlive

def isWatchingNow (s : WatchedDownloads) (key : String) : Bool :=
  s.current.any fun w =>
    w.isAlive && !isEmpty w.torrentFile && decide (w.torrentFile = some key)

def setTask (s : WatchedDownloads) (i : ℕ) (w : StoredWatch) : WatchedDownloads :=
  { s with tasks := s.tasks.set i w }

def withSession (s : WatchedDownloads) (session : LiveSession) : WatchedDownloads :=
  { s with session := session }

/-- `pauseTorrent`: a torrent that is being watched only gets a mark. -/
def pauseTorrent (s : WatchedDownloads) (key : String) : WatchedDownloads :=
  if (s.session.torrents key).isSome then
    -- the watch goes on, and pauses the torrent at its end
    if s.isWatchingNow key then
      { s with
        tasks := match s.watchTask with
          | some i => s.tasks.modify i fun w => { w with torrentPaused := true }
          | none => s.tasks }
    else { s with session := s.session.pauseTorrent key }
  else s

/-- `pauseTorrent` of a key that is not empty. -/
def pauseNamed (s : WatchedDownloads) (key : Option String) :
    WatchedDownloads :=
  if isEmpty key then s else s.pauseTorrent (key.getD "")

/-- `onTaskStopped` of a watch, as far as pausing goes. -/
def onTaskStopped (s : WatchedDownloads) (w : StoredWatch) : WatchedDownloads :=
  if w.torrentPaused then s.pauseNamed w.torrentFile else s

/-- `startWatch` -/
def startWatch (s : WatchedDownloads) (isDownloads : Bool) (request : TorrentLoader.Request)
    (resumed : Option String) : WatchedDownloads :=
  if s.isWatchAlive then s
  else
    { s with
      tasks := s.tasks ++ [⟨isDownloads, request, resumed, .loading .begin, none, false, false⟩]
      watchTask := some s.tasks.length }

/-- The interrupt of a thread. -/
def interrupt (s : WatchedDownloads) (i : ℕ) : WatchedDownloads :=
  { s with tasks := s.tasks.modify i fun w => { w with stopped := true } }

/-- `stopWatch` -/
def stopWatch (s : WatchedDownloads) : WatchedDownloads :=
  match s.watchTask, s.current with
  | some i, some w => { (s.interrupt i).onTaskStopped w with watchTask := none }
  | _, _ => { s with watchTask := none }

/-! ### The pages -/

/-- `lastTorrent.equals(url) || lastTorrent.equals(magnet)`, of a torrent watched last. -/
def IsLast (s : WatchedDownloads) (url magnet : Option String) : Prop :=
  some s.lastTorrent = url ∨ some s.lastTorrent = magnet

instance {s : WatchedDownloads} {url magnet : Option String} : Decidable (s.IsLast url magnet) :=
  inferInstanceAs (Decidable (_ ∨ _))

/-- `addWatch` of a details page, up to its dialog. -/
def addWatch (s : WatchedDownloads) (url magnet : Option String) :
    WatchedDownloads :=
  if s.lastTorrent ≠ "" ∧ ¬s.IsLast url magnet then
    { s with session := s.session.removeTorrent s.lastTorrent, lastTorrent := "" }
  else s

/-- `downloadsAdd`; `torrentName` and `files` are what `saveMetadata` meets. -/
def downloadsAdd (E : StorageSetup) (s : WatchedDownloads) (info : DownloadInfo)
    (torrentName : Option String) (files : MetadataFiles) : WatchedDownloads :=
  let adopts := s.lastTorrent ≠ "" ∧ s.IsLast info.torrentUrl info.torrentMagnet
  let info := DownloadsClient.adoptLastTorrent
    ⟨s.lastTorrent, torrentName, .failed, files, E.selectsOther⟩ info
  { s with
    table := s.table.insert info
    session := if adopts then s.session.removeTorrent s.lastTorrent else s.session
    lastTorrent := if adopts then "" else s.lastTorrent
    adds := s.adds ++ [⟨info, some .begin⟩] }

/-- The key under which the torrent of a row is found. -/
def found (s : WatchedDownloads) (r : DownloadRow) : Option String :=
  getAvailableTorrentFile s.session.hasMetadata r.torrentFilePath r.torrentUrl
    r.torrentMagnet

/-- `downloadsPause` of a row. -/
def downloadsPause (s : WatchedDownloads) (r : DownloadRow) :
    WatchedDownloads :=
  let s := s.pauseNamed (s.found r)
  let (info, written) := DownloadsClient.downloadsPause (populate r)
  { s with table := if written then s.table.update info else s.table }

/-- `downloadsResume` of a row. -/
def downloadsResume (s : WatchedDownloads) (r : DownloadRow) :
    WatchedDownloads :=
  let key := s.found r
  let (info, written) := DownloadsClient.downloadsResume (populate r)
  { s with
    session := if isEmpty key then s.session else s.session.resumeTorrent (key.getD "")
    table := if written then s.table.update info else s.table }

/-! ### The threads -/

/-- The end of `loadMetadata`, with the key of the torrent. -/
def loadMetadata (s : WatchedDownloads) (i : ℕ) (w : StoredWatch) (key : Option String) :
    WatchedDownloads :=
  { s.setTask i { w with phase := .loaded, torrentFile := key } with
    lastTorrent := if w.isDownloads then s.lastTorrent else key.getD "" }

/-- The thread of a watch goes on, up to its loop. -/
def advance (E : StorageSetup) (s : WatchedDownloads) (i : ℕ) (w : StoredWatch)
    (accepted : Option Bool) : Option WatchedDownloads :=
  match w.phase with
  | .loading (.done key) =>
    -- no key was found, and the thread ends
    if isEmpty key then some (s.setTask i (w.goTo .ended)) else some (s.loadMetadata i w key)
  | .loading loader =>
    (loader.advance (LiveSession.service E.hash w.resumed) w.request accepted s.session).map
      fun (loader, session) => (s.setTask i (w.goTo (.loading loader))).withSession session
  | .loaded =>
    some (s.setTask i (w.goTo (.asked (s.session.isTorrentPaused (w.torrentFile.getD "")))))
  | .asked paused =>
    some ((s.setTask i (w.goTo (.resumed paused))).withSession
      (if paused then s.session.resumeTorrent (w.torrentFile.getD "") else s.session))
  | .resumed paused => some (s.setTask i (w.running paused))
  | .running | .ended => none

/-- The `catch` of a `WatchException`. -/
def fail (s : WatchedDownloads) (i : ℕ) (w : StoredWatch) : WatchedDownloads :=
  let s := s.onTaskStopped w
  { s with
    session :=
      if !w.isDownloads && !isEmpty w.torrentFile then
        s.session.removeTorrent (w.torrentFile.getD "")
      else s.session
    tasks := s.tasks.modify i fun w => w.goTo .ended }

/-- What the end of an `AddToDownloadsThread` meets: the torrent's name and files, and the files of
    its metadata. -/
structure AddEnd where
  torrentName : Option String
  files : List FileEntry
  metadataFiles : MetadataFiles

/-- `AddToDownloadsThread.run` behind `addTorrent`, as `AddToDownloadsThread.run` of the table has
    it. -/
def addCircumstances (E : StorageSetup) (end' : AddEnd) (key : Option String) :
    AddCircumstances where
  lastTorrent := ""
  lastTorrentName := none
  loading := if isEmpty key then .failed else .loaded end'.torrentName end'.files
  files := end'.metadataFiles
  selectsOther := E.selectsOther

/-- The row that the thread finds is `PAUSED`. -/
def findsPaused (c : AddCircumstances) (info : DownloadInfo) (t : DownloadsTable) : Bool :=
  match c.loading with
  | .failed => false
  | .loaded _ files =>
    (selectFile files info.fileName).isSome &&
      (t.rows.find? (urlSelects c.selectsOther info.torrentUrl)).any fun r =>
        decide (r.state = TorrentState.PAUSED)

/-- The rows as the thread leaves them, at its end. -/
def writeAdd (E : StorageSetup) (s : WatchedDownloads) (j : ℕ) (a : AddThread)
    (key : Option String) (end' : AddEnd) : WatchedDownloads :=
  { s with
    table := AddToDownloadsThread.run (addCircumstances E end' key) a.info s.table
    adds := s.adds.set j { a with loader := none } }

/-- An `AddToDownloadsThread` behind `addTorrent`. -/
def finishAdd (E : StorageSetup) (s : WatchedDownloads) (j : ℕ) (a : AddThread)
    (key : Option String) (end' : AddEnd) : WatchedDownloads :=
  if findsPaused (addCircumstances E end' key) a.info s.table then
    (s.writeAdd E j a key end').pauseTorrent (key.getD "")
  else s.writeAdd E j a key end'

/-! ### Runs -/

inductive Event
  /-- `addWatch`; the dialog of it, or of a row, starts the watch. -/
  | addWatch (url magnet : Option String)
  | startDetails (url magnet : Option String)
  | startDownload (id : ℤ)
  | stopWatch
  | downloadsAdd (info : DownloadInfo) (torrentName : Option String) (files : MetadataFiles)
  | downloadsPause (id : ℤ)
  | downloadsResume (id : ℤ)
  /-- The thread of a watch goes on; its wait for metadata is over or is interrupted; it ends by an
      exception; it leaves its loop. -/
  | advance (i : ℕ) (accepted : Option Bool)
  | timeOut (i : ℕ)
  | interrupt (i : ℕ)
  | fail (i : ℕ)
  | finish (i : ℕ)
  /-- The same of a thread that adds a download. -/
  | advanceAdd (j : ℕ) (accepted : Option Bool)
  | timeOutAdd (j : ℕ)
  | finishAdd (j : ℕ) (end' : AddEnd)
  /-- The metadata of a torrent arrives, or the `.torrent` of its url. -/
  | metadata (handle : ℕ)

/-- The code that runs on an event; `none` where the event cannot happen. -/
def act (E : StorageSetup) (s : WatchedDownloads) : Event → Option WatchedDownloads
  | .addWatch url magnet => some (s.addWatch url magnet)
  | .startDetails url magnet => some (s.startWatch false ⟨E.cacheDir, none, url, magnet⟩ none)
  | .startDownload id => (s.table.find id).map fun r =>
    s.startWatch (decide (0 < r.id))
      ⟨r.directory, r.torrentFilePath, r.torrentUrl, r.torrentMagnet⟩
      (r.resumeData.bind E.metadataOf)
  | .stopWatch => some (s.stopWatch)
  | .downloadsAdd info torrentName files => some (s.downloadsAdd E info torrentName files)
  | .downloadsPause id => (s.table.find id).map (s.downloadsPause)
  | .downloadsResume id => (s.table.find id).map (s.downloadsResume)
  | .advance i accepted => (s.tasks[i]?).bind fun w => s.advance E i w accepted
  | .timeOut i => (s.tasks[i]?).bind fun w =>
    match w.phase with
    | .loading loader =>
      (loader.timeOut (LiveSession.service E.hash w.resumed) s.session).map
        fun (loader, session) => (s.setTask i (w.goTo (.loading loader))).withSession session
    | _ => none
  -- only a stopped task is interrupted, in the wait of its loader
  | .interrupt i => (s.tasks[i]?).bind fun w =>
    match w.phase, w.stopped with
    | .loading (.waiting key _), true =>
      some ((s.setTask i (w.goTo .ended)).withSession (s.session.removeTorrent key))
    | _, _ => none
  | .fail i => (s.tasks[i]?).bind fun w => if w.phase = .running then some (s.fail i w) else none
  | .finish i => (s.tasks[i]?).bind fun w =>
    if w.phase = .running then some (s.setTask i (w.goTo .ended)) else none
  | .advanceAdd j accepted => (s.adds[j]?).bind fun a => a.loader.bind fun loader =>
    (loader.advance (LiveSession.service E.hash (a.resumed E)) a.request accepted s.session).map
      fun (loader, session) =>
        { s with adds := s.adds.set j { a with loader := some loader }, session := session }
  | .timeOutAdd j => (s.adds[j]?).bind fun a => a.loader.bind fun loader =>
    (loader.timeOut (LiveSession.service E.hash (a.resumed E)) s.session).map
      fun (loader, session) =>
        { s with adds := s.adds.set j { a with loader := some loader }, session := session }
  -- the loader has its key, and the thread goes on to the row
  | .finishAdd j end' => (s.adds[j]?).bind fun a =>
    match a.loader with
    | some (.done key) => some (s.finishAdd E j a key end')
    | _ => none
  | .metadata handle => some { s with session := s.session.loadMetadata E.hash handle }

/-! ### What should hold -/

/-- Every download that has run in its directory so far. -/
def Guarded (s : WatchedDownloads) (P : DownloadRow → Prop) : Prop :=
  ∀ r ∈ s.table.rows, r.state = TorrentState.DOWNLOADING → r.id ∈ s.held → P r

/-- It does so now. -/
def Unharmed (s : WatchedDownloads) : Prop :=
  s.Guarded fun r => s.session.holds r = true

/-- Where no watch is alive, every download that has run in its directory does so. -/
def WatchHarmless (s : WatchedDownloads) : Prop :=
  (∀ w ∈ s.tasks, w.isAlive = false) → s.Unharmed

/-- The downloads that run in their directory now are held, and no id without a row is. -/
def mark (s : WatchedDownloads) : WatchedDownloads :=
  { s with
    held := (s.table.rows.filter fun r => decide (r.id ∈ s.held) ||
      decide (r.state = TorrentState.DOWNLOADING) && s.session.holds r).map DownloadRow.id }

def next (E : StorageSetup) (s : WatchedDownloads) (e : Event) : Option WatchedDownloads :=
  (s.act E e).map mark

/-- Any table, any session and any torrent watched last. -/
def machine (E : StorageSetup) : Machine WatchedDownloads Event :=
  Machine.ofFun
    (fun s => ∃ table session lastTorrent,
      s = mark ⟨table, session, lastTorrent, [], none, [], []⟩)
    (next E)

end WatchedDownloads

end PopcornTime.Android
