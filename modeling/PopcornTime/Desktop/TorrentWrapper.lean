import Mathlib.Data.Int.Order.Basic
import Mathlib.Order.Nat
import Mathlib.Tactic.SplitIfs
import PopcornTime.Lib.Machine

namespace PopcornTime.Desktop

open PopcornTime

/-!
# Desktop — the torrent that plays

`TorrentWrapper` starts a `TorrentDownloadThread` for each `get`; the thread adds a torrent to the
session and, once its metadata is there, hands it to `onMetadataDownloaded`, which makes it the
active one.  `cancel` knows of the torrents that have arrived so far, and clears the active one
whichever torrent it is called for.

* `get`, `cancel`, `onMetadataDownloaded` — the slots; `TorrentEvent.handle` for all that may happen.
* `TorrentWrapper.Settled` — what holds behind a `cancel`, with the history in `TorrentRun`.
* `plays_of_guard` — when it does.
-/

structure TorrentInfo where
  index : ℤ
  url : String
  magnet : String
  fileName : String
  title : String
deriving DecidableEq, Repr

/-- The default constructor. -/
def TorrentInfo.empty : TorrentInfo where
  index := -1
  url := ""
  magnet := ""
  fileName := ""
  title := ""

/-- `DownloadNotifyThread`: its loop ends when it is stopped. -/
structure DownloadNotifyThread where
  running : Bool
  tId : ℤ
deriving DecidableEq, Repr

namespace DownloadNotifyThread

def stopOnTorrent (t : DownloadNotifyThread) : DownloadNotifyThread :=
  { t with running := false }

def startOnTorrent (t : DownloadNotifyThread) (torrentId : ℤ) : DownloadNotifyThread :=
  { t.stopOnTorrent with running := true, tId := torrentId }

end DownloadNotifyThread

/-- The torrents of `Streamerok`: the handle that an index stands for, the torrents in the session,
    also while their metadata is loading, and those of them whose files have all got priority
    zero. -/
structure TorrentMap where
  nextId : ℤ
  tMap : List (ℤ × ℕ)
  session : List ℕ
  unwanted : List ℕ
  nextHandle : ℕ
deriving DecidableEq, Repr

namespace TorrentMap

/-- `getNextId`; the bound is `INT_MAX`. -/
def getNextId (s : TorrentMap) : ℤ :=
  (if s.nextId + 1 = 2147483647 then 0 else s.nextId) + 1

/-- The torrents that are downloading. -/
def downloading (s : TorrentMap) : List ℕ :=
  s.session.filter (fun handle => handle ∉ s.unwanted)

/-- `add_torrent`: a torrent that is in the session already keeps its handle. -/
def addTorrent (s : TorrentMap) (known : Option ℕ) : TorrentMap × ℕ :=
  match known with
  | some handle => (s, handle)
  | none =>
    ({ s with session := s.nextHandle :: s.session, nextHandle := s.nextHandle + 1 }, s.nextHandle)

def removeTorrent (s : TorrentMap) (handle : ℕ) : TorrentMap :=
  { s with session := s.session.filter (· ≠ handle) }

/-- The file of a torrent is chosen; `tMap.insert` leaves an index that is there alone. -/
def insert (s : TorrentMap) (index : ℤ) (handle : ℕ) : TorrentMap :=
  { s with
    tMap := if (s.tMap.lookup index).isSome then s.tMap else (index, handle) :: s.tMap
    unwanted := s.unwanted.filter (· ≠ handle) }

def deleteTorrent (s : TorrentMap) (torrentId : ℤ) : TorrentMap :=
  match s.tMap.lookup torrentId with
  | none => s
  | some handle =>
    { s.removeTorrent handle with tMap := s.tMap.filter (fun entry => entry.1 ≠ torrentId) }

end TorrentMap

/-- Where a `TorrentDownloadThread` finds its torrent. -/
inductive TorrentSource
  | file
  | magnet
deriving DecidableEq, Repr

/-- How far a `TorrentDownloadThread` has come: it goes through its sources, waits for the metadata
    of the torrent it has added, and ends with a signal that is delivered later. -/
inductive ThreadStage
  | trying (sources : List TorrentSource)
  | waiting (index : ℤ) (handle : ℕ) (sources : List TorrentSource)
  | downloaded (index : ℤ)
  | failed (index : ℤ)
  | delivered
deriving DecidableEq, Repr

structure TorrentThread where
  info : TorrentInfo
  stage : ThreadStage
deriving DecidableEq, Repr

/-- The signals of `TorrentWrapper`. -/
inductive TorrentSignal
  | torrentProgressAvailable (progressPeers dlSpeed seeds peers : ℤ) (msg : String)
  | getMetadataError (tInfo : TorrentInfo)
  | leechingStarted (index : ℤ)
  | newMovieName (name : String)
  | startSubs (tInfo : TorrentInfo)
  | preloadCancelled (tInfo : TorrentInfo)
  | torrentLoadCancelled (tInfo : TorrentInfo)
deriving DecidableEq, Repr

structure TorrentWrapper where
  activeTorrent : TorrentInfo
  activeTorrentIds : List ℤ
  activeTorrentPreloaded : Bool
  /-- `m_thread` -/
  thread : DownloadNotifyThread
  /-- What `SystemHelper` has asked of the system. -/
  sleepDisabled : Bool
  torrents : TorrentMap
  threads : List TorrentThread
  signals : List TorrentSignal
deriving DecidableEq, Repr

namespace TorrentWrapper

def new : TorrentWrapper where
  activeTorrent := .empty
  activeTorrentIds := []
  activeTorrentPreloaded := false
  thread := ⟨false, 0⟩
  sleepDisabled := false
  torrents := ⟨0, [], [], [], 0⟩
  threads := []
  signals := []

def emit (s : TorrentWrapper) (signal : TorrentSignal) : TorrentWrapper :=
  { s with signals := s.signals ++ [signal] }

/-- The sources that `TorrentDownloadThread::run` tries in turn. -/
def sources (urlIsValid : String → Bool) (info : TorrentInfo) : List TorrentSource :=
  (if urlIsValid info.url then [.file] else []) ++ (if info.magnet = "" then [] else [.magnet])

/-- A source without a result: the next one is tried, or the thread ends with the error. -/
def nextSource (code : ℤ) (sources : List TorrentSource) : ThreadStage :=
  if sources.isEmpty then .failed code else .trying sources

/-- `get` -/
def get (urlIsValid : String → Bool) (s : TorrentWrapper) (info : TorrentInfo) : TorrentWrapper :=
  let s := s.emit (.torrentProgressAvailable 0 0 0 0 "Getting metadata...")
  { s with
    threads := s.threads ++ [⟨info, nextSource (-30) (sources urlIsValid info)⟩]
    activeTorrentPreloaded := false }

/-- `cancel` -/
def cancel (s : TorrentWrapper) (index : ℤ) : TorrentWrapper :=
  let currentTorrent := s.activeTorrent
  -- without an index the active torrent is meant
  let index := if index < 0 then currentTorrent.index else index
  let s := if s.activeTorrentPreloaded then s.emit (.torrentLoadCancelled currentTorrent)
    else s.emit (.preloadCancelled currentTorrent)
  let ids := s.activeTorrentIds.erase index
  { s with
    -- also where the index is that of another torrent
    activeTorrent := .empty
    thread := s.thread.stopOnTorrent
    activeTorrentPreloaded := false
    activeTorrentIds := ids
    sleepDisabled := if ids.isEmpty then false else s.sleepDisabled
    torrents := s.torrents.deleteTorrent index }

/-- `onMetadataDownloaded` -/
def onMetadataDownloaded (s : TorrentWrapper) (tInfo : TorrentInfo) : TorrentWrapper :=
  let s := { s with activeTorrent := tInfo }
  -- the active torrent is replaced also where the index says that it failed
  if tInfo.index < 0 then
    (s.emit (.torrentProgressAvailable 0 (-1) 0 0 "Error getting metadata!")).emit
      (.getMetadataError tInfo)
  else
    let s := { s with thread := s.thread.startOnTorrent tInfo.index }
    let s := ((s.emit (.leechingStarted tInfo.index)).emit (.newMovieName tInfo.title)).emit
      (.startSubs tInfo)
    { s with
      sleepDisabled := if s.activeTorrentIds.isEmpty then true else s.sleepDisabled
      activeTorrentIds := s.activeTorrentIds ++ [tInfo.index] }

/-- `onTorrentMetadataError` -/
def onTorrentMetadataError (s : TorrentWrapper) (tInfo : TorrentInfo) : TorrentWrapper :=
  (s.emit (.torrentProgressAvailable 0 (-1) 0 0
    ("Error getting metadata!" ++ "(" ++ toString tInfo.index ++ ")"))).emit (.getMetadataError tInfo)

/-- What may happen: the user's requests, a step of the `k`-th thread, or the delivery of the signal
    it has ended with. -/
inductive TorrentEvent
  | get (info : TorrentInfo)
  | cancel (index : ℤ)
  /-- A source gives no torrent, with an error code; the session may have been asked for it. -/
  | sourceFails (k : ℕ) (code : ℤ) (asked : Bool)
  /-- The session has taken the torrent in, or knows it by a handle. -/
  | added (k : ℕ) (known : Option ℕ)
  | metadata (k : ℕ)
  /-- None of its files is chosen, and all have got priority zero. -/
  | noFile (k : ℕ)
  | metadataTimeout (k : ℕ)
  /-- The handle is not valid any more. -/
  | handleLost (k : ℕ)
  | deliver (k : ℕ)
deriving DecidableEq, Repr

def setStage (s : TorrentWrapper) (k : ℕ) (info : TorrentInfo) (stage : ThreadStage) :
    TorrentWrapper :=
  { s with threads := s.threads.set k ⟨info, stage⟩ }

def setTorrents (s : TorrentWrapper) (torrents : TorrentMap) : TorrentWrapper :=
  { s with torrents := torrents }

/-- What the event does, or `none` where it cannot happen. -/
def handle (urlIsValid : String → Bool) (s : TorrentWrapper) : TorrentEvent → Option TorrentWrapper
  | .get info => some (s.get urlIsValid info)
  | .cancel index => some (s.cancel index)
  | .sourceFails k code asked =>
    match s.threads[k]? with
    | some ⟨info, .trying (_ :: sources)⟩ =>
      if code < 0 then
        let torrents := if asked then { s.torrents with nextId := s.torrents.getNextId }
          else s.torrents
        some ((s.setTorrents torrents).setStage k info (nextSource code sources))
      else none
    | _ => none
  | .added k known =>
    match s.threads[k]? with
    | some ⟨info, .trying (_ :: sources)⟩ =>
      if ∀ handle ∈ known, handle ∈ s.torrents.session then
        let index := s.torrents.getNextId
        let (torrents, handle) := { s.torrents with nextId := index }.addTorrent known
        some ((s.setTorrents torrents).setStage k info (.waiting index handle sources))
      else none
    | _ => none
  | .metadata k =>
    match s.threads[k]? with
    | some ⟨info, .waiting index handle _⟩ =>
      if handle ∈ s.torrents.session then
        some ((s.setTorrents (s.torrents.insert index handle)).setStage k info (.downloaded index))
      else none
    | _ => none
  | .noFile k =>
    match s.threads[k]? with
    | some ⟨info, .waiting index handle sources⟩ =>
      -- `deleteTorrent` does not find the index, which has not been inserted
      let torrents := { s.torrents with unwanted := handle :: s.torrents.unwanted }
      some ((s.setTorrents (torrents.deleteTorrent index)).setStage k info
        (nextSource (-9) sources))
    | _ => none
  | .metadataTimeout k =>
    match s.threads[k]? with
    | some ⟨info, .waiting _ handle sources⟩ =>
      some ((s.setTorrents (s.torrents.removeTorrent handle)).setStage k info
        (nextSource (-12) sources))
    | _ => none
  | .handleLost k =>
    match s.threads[k]? with
    | some ⟨info, .waiting _ handle sources⟩ =>
      if handle ∈ s.torrents.session then none
      else some (s.setStage k info (nextSource (-11) sources))
    | _ => none
  | .deliver k =>
    match s.threads[k]? with
    | some ⟨info, .downloaded index⟩ =>
      some ((s.setStage k info .delivered).onMetadataDownloaded { info with index := index })
    | some ⟨info, .failed index⟩ =>
      some ((s.setStage k info .delivered).onTorrentMetadataError { info with index := index })
    | _ => none

/-! ### What is to hold along a run -/

/-- The wrapper with what the run has shown of it. -/
structure Run where
  wrapper : TorrentWrapper
  /-- The active torrent has been cancelled and no `get` has come since. -/
  cancelled : Bool
  /-- The cancelling of another torrent has changed something for the active one. -/
  disturbed : Bool
deriving DecidableEq, Repr

/-- The torrent that `cancel` is called for is the active one. -/
def CancelsActive (s : TorrentWrapper) (index : ℤ) : Prop :=
  index < 0 ∨ index = s.activeTorrent.index

instance (s : TorrentWrapper) (index : ℤ) : Decidable (s.CancelsActive index) :=
  inferInstanceAs (Decidable (_ ∨ _))

/-- The active torrent, its notification thread and its entry are the same. -/
def SameActive (s s' : TorrentWrapper) : Prop :=
  s'.activeTorrent = s.activeTorrent ∧ s'.thread = s.thread ∧
    s'.activeTorrentIds.count s.activeTorrent.index =
      s.activeTorrentIds.count s.activeTorrent.index

instance (s s' : TorrentWrapper) : Decidable (SameActive s s') :=
  inferInstanceAs (Decidable (_ ∧ _ ∧ _))

namespace Run

/-- What the run shows of the event that has led to `s`. -/
def observe (r : Run) (s : TorrentWrapper) : TorrentEvent → Run
  | .get _ => { r with wrapper := s, cancelled := false }
  | .cancel index =>
    if r.wrapper.CancelsActive index then { r with wrapper := s, cancelled := true }
    else { r with wrapper := s, disturbed := r.disturbed || !decide (SameActive r.wrapper s) }
  | _ => { r with wrapper := s }

def next (urlIsValid : String → Bool) (r : Run) (e : TorrentEvent) : Option Run :=
  (r.wrapper.handle urlIsValid e).map fun s => r.observe s e

def start : Run where
  wrapper := .new
  cancelled := false
  disturbed := false

def machine (urlIsValid : String → Bool) : Machine Run TorrentEvent :=
  .ofFun (fun r => r = start) (next urlIsValid)

/-- Behind the `cancel` no torrent is active, notified of or downloading, and no other torrent's
    `cancel` has disturbed the active one. -/
def Settled (r : Run) : Prop :=
  (r.cancelled = true →
    r.wrapper.activeTorrent = .empty ∧ r.wrapper.thread.running = false ∧
      r.wrapper.torrents.downloading = []) ∧
  r.disturbed = false

/-- **The guard.**  The active torrent is cancelled while no other is downloading, another one while
    there is no active torrent, and behind a `cancel` no torrent of an earlier `get` comes in. -/
def CancelGuard (r : Run) : TorrentEvent → Prop
  | .cancel index =>
    if r.wrapper.CancelsActive index then
      ∀ handle ∈ r.wrapper.torrents.downloading,
        r.wrapper.torrents.tMap.lookup
          (if index < 0 then r.wrapper.activeTorrent.index else index) = some handle
    else r.wrapper.activeTorrent = .empty
  | .added _ known => r.cancelled = true → known.isSome = true
  | .metadata _ => r.cancelled = false
  | .deliver k =>
    r.cancelled = true → ∀ t ∈ r.wrapper.threads[k]?, ∀ index, t.stage ≠ .downloaded index
  | _ => True

end Run

/-! ### The invariant -/

/-- Indices are positive, and handles have been given out. -/
structure TorrentsOk (t : TorrentMap) : Prop where
  nextId : 0 ≤ t.nextId
  session : ∀ handle ∈ t.session, handle < t.nextHandle
  unwanted : ∀ handle ∈ t.unwanted, handle < t.nextHandle

/-- The index of a thread, and its handle. -/
def StageOk (nextHandle : ℕ) : ThreadStage → Prop
  | .waiting index handle _ => 0 < index ∧ handle < nextHandle
  | .downloaded index => 0 < index
  | _ => True

structure Ok (s : TorrentWrapper) : Prop where
  torrents : TorrentsOk s.torrents
  stages : ∀ t ∈ s.threads, StageOk s.torrents.nextHandle t.stage
  thread : s.activeTorrent = .empty → s.thread.running = false
  sleep : s.sleepDisabled = true ↔ s.activeTorrentIds ≠ []

section Torrents

variable {t : TorrentMap}

/-- An id is positive, also behind the wrap-around. -/
theorem TorrentsOk.getNextId_pos (h : TorrentsOk t) : 0 < t.getNextId := by
  have := h.nextId
  unfold TorrentMap.getNextId
  split_ifs <;> omega

/-- A torrent of the session is downloading unless it is unwanted. -/
theorem mem_downloading {handle : ℕ} :
    handle ∈ t.downloading ↔ handle ∈ t.session ∧ handle ∉ t.unwanted := by
  simp [TorrentMap.downloading]

/-- An id may be asked for and not used. -/
theorem TorrentsOk.useNextId (h : TorrentsOk t) : TorrentsOk { t with nextId := t.getNextId } :=
  ⟨h.getNextId_pos.le, h.session, h.unwanted⟩

/-- A new torrent has the next handle. -/
theorem TorrentsOk.addTorrent_none (h : TorrentsOk t) : TorrentsOk (t.addTorrent none).1 := by
  refine ⟨h.nextId, fun x hx => ?_, fun x hx => Nat.lt_succ_of_lt (h.unwanted x hx)⟩
  rcases List.mem_cons.mp hx with rfl | hx
  · exact Nat.lt_succ_self _
  · exact Nat.lt_succ_of_lt (h.session x hx)

/-- A new handle is none of the unwanted ones. -/
theorem TorrentsOk.downloading_addTorrent_ne_nil (h : TorrentsOk t) :
    (t.addTorrent none).1.downloading ≠ [] := by
  refine List.ne_nil_of_mem (a := t.nextHandle) (mem_downloading.mpr ⟨List.mem_cons_self, ?_⟩)
  exact fun hx => absurd (h.unwanted _ hx) (lt_irrefl _)

/-- An index is given to a handle. -/
theorem TorrentsOk.insert (h : TorrentsOk t) (index : ℤ) (handle : ℕ) :
    TorrentsOk (t.insert index handle) :=
  ⟨h.nextId, h.session, fun x hx => h.unwanted x (List.mem_filter.mp hx).1⟩

/-- A torrent that is given an index is downloading. -/
theorem downloading_insert_ne_nil {handle : ℕ} (index : ℤ) (h : handle ∈ t.session) :
    (t.insert index handle).downloading ≠ [] :=
  List.ne_nil_of_mem (mem_downloading.mpr ⟨h, by simp [TorrentMap.insert]⟩)

/-- All files of a torrent get priority zero. -/
theorem TorrentsOk.unwant (h : TorrentsOk t) {handle : ℕ} (hlt : handle < t.nextHandle) :
    TorrentsOk { t with unwanted := handle :: t.unwanted } :=
  ⟨h.nextId, h.session, List.forall_mem_cons.mpr ⟨hlt, h.unwanted⟩⟩

/-- That adds no download. -/
theorem mem_downloading_of_unwant {handle x : ℕ}
    (h : x ∈ ({ t with unwanted := handle :: t.unwanted } : TorrentMap).downloading) :
    x ∈ t.downloading := by
  rw [mem_downloading] at h ⊢
  exact ⟨h.1, fun hx => h.2 (List.mem_cons_of_mem _ hx)⟩

/-- A torrent leaves the session. -/
theorem TorrentsOk.removeTorrent (h : TorrentsOk t) (handle : ℕ) :
    TorrentsOk (t.removeTorrent handle) :=
  ⟨h.nextId, fun x hx => h.session x (List.mem_filter.mp hx).1, h.unwanted⟩

/-- It is the only one that stops downloading. -/
theorem mem_downloading_removeTorrent {handle x : ℕ} :
    x ∈ (t.removeTorrent handle).downloading ↔ x ∈ t.downloading ∧ x ≠ handle := by
  simp only [mem_downloading, TorrentMap.removeTorrent, List.mem_filter, decide_eq_true_eq]
  exact ⟨fun h => ⟨⟨h.1.1, h.2⟩, h.1.2⟩, fun h => ⟨⟨h.1.1, h.2⟩, h.1.2⟩⟩

/-- The torrent of an index leaves the session. -/
theorem TorrentsOk.deleteTorrent (h : TorrentsOk t) (torrentId : ℤ) :
    TorrentsOk (t.deleteTorrent torrentId) := by
  unfold TorrentMap.deleteTorrent
  split
  · exact h
  · have := h.removeTorrent
    exact ⟨h.nextId, (this _).session, h.unwanted⟩

/-- No handle is given out for it. -/
theorem nextHandle_deleteTorrent (t : TorrentMap) (torrentId : ℤ) :
    (t.deleteTorrent torrentId).nextHandle = t.nextHandle := by
  unfold TorrentMap.deleteTorrent
  split <;> rfl

/-- What is downloading behind the deletion of an index. -/
theorem mem_downloading_deleteTorrent {torrentId : ℤ} {x : ℕ} :
    x ∈ (t.deleteTorrent torrentId).downloading ↔
      x ∈ t.downloading ∧ t.tMap.lookup torrentId ≠ some x := by
  unfold TorrentMap.deleteTorrent
  split
  case h_1 hnone => simp [hnone]
  case h_2 handle hsome =>
    have hrest : ∀ tMap, ({ t.removeTorrent handle with tMap := tMap } : TorrentMap).downloading =
        (t.removeTorrent handle).downloading := fun _ => rfl
    rw [hrest, mem_downloading_removeTorrent, hsome]
    simp [eq_comm]

end Torrents

variable {urlIsValid : String → Bool} {s s' : TorrentWrapper}

/-- The step of a thread that is not the delivery of its signal. -/
def Works : TorrentEvent → Prop
  | .get _ | .cancel _ | .deliver _ => False
  | _ => True

/-- The step brings in a torrent. -/
def BringsIn : TorrentEvent → Prop
  | .added _ none | .metadata _ => True
  | _ => False

/-- Behind a source without a result there is no index or handle. -/
theorem stageOk_nextSource (n : ℕ) (code : ℤ) (sources : List TorrentSource) :
    StageOk n (nextSource code sources) := by
  unfold nextSource
  split_ifs <;> trivial

/-- What the step of a thread leaves: its own stage, and the torrents of the session, of which none
    is new to the downloads unless the step brings one in. -/
def Worked (s s' : TorrentWrapper) (brings : Prop) : Prop :=
  ∃ k info torrents stage, s' = (s.setTorrents torrents).setStage k info stage ∧
    TorrentsOk torrents ∧ StageOk torrents.nextHandle stage ∧
    s.torrents.nextHandle ≤ torrents.nextHandle ∧
    (¬brings → ∀ x ∈ torrents.downloading, x ∈ s.torrents.downloading) ∧
    (brings → torrents.downloading ≠ [])

variable {k : ℕ} {info : TorrentInfo} {torrents : TorrentMap} {stage : ThreadStage}

/-- A step behind which no other torrent downloads. -/
theorem worked_of_kept (htor : TorrentsOk torrents) (hstage : StageOk torrents.nextHandle stage)
    (hle : s.torrents.nextHandle ≤ torrents.nextHandle)
    (hkept : ∀ x ∈ torrents.downloading, x ∈ s.torrents.downloading) :
    Worked s ((s.setTorrents torrents).setStage k info stage) False :=
  ⟨k, info, torrents, stage, rfl, htor, hstage, hle, fun _ => hkept, False.elim⟩

/-- A step behind which some torrent downloads. -/
theorem worked_of_brought (htor : TorrentsOk torrents) (hstage : StageOk torrents.nextHandle stage)
    (hle : s.torrents.nextHandle ≤ torrents.nextHandle) (hne : torrents.downloading ≠ []) :
    Worked s ((s.setTorrents torrents).setStage k info stage) True :=
  ⟨k, info, torrents, stage, rfl, htor, hstage, hle, fun h => absurd trivial h, fun _ => hne⟩

/-- A source fails: the id may have been asked for, the torrents are those there were. -/
theorem worked_sourceFails (hok : s.Ok) {code : ℤ} {asked : Bool}
    (h : s.handle urlIsValid (.sourceFails k code asked) = some s') : Worked s s' False := by
  simp only [handle] at h
  split at h
  case h_2 => cases h
  case h_1 info _ sources hk =>
    split_ifs at h with hcode hasked
    · obtain rfl := Option.some.inj h
      exact worked_of_kept hok.torrents.useNextId (stageOk_nextSource _ _ _) le_rfl fun x hx => hx
    · obtain rfl := Option.some.inj h
      exact worked_of_kept hok.torrents (stageOk_nextSource _ _ _) le_rfl fun x hx => hx

/-- A torrent is added: one of the session, or one that is new and downloads. -/
theorem worked_added (hok : s.Ok) {known : Option ℕ}
    (h : s.handle urlIsValid (.added k known) = some s') : Worked s s' (BringsIn (.added k known)) := by
  have htor := hok.torrents
  simp only [handle] at h
  split at h
  case h_2 => cases h
  case h_1 info _ sources hk =>
    split_ifs at h with hknown
    obtain rfl := Option.some.inj h
    cases known with
    | some handle =>
      have hstage := And.intro htor.getNextId_pos (htor.session _ (hknown handle rfl))
      exact ⟨k, info, _, _, rfl, htor.useNextId, hstage, le_rfl, fun _ x hx => hx,
        fun hb => absurd hb id⟩
    | none =>
      have hstage := And.intro htor.getNextId_pos (Nat.lt_succ_self s.torrents.nextHandle)
      exact ⟨k, info, _, _, rfl, htor.useNextId.addTorrent_none, hstage, Nat.le_succ _,
        fun hb => absurd trivial hb, fun _ => htor.useNextId.downloading_addTorrent_ne_nil⟩

/-- Metadata comes: the torrent gets its index, and it is one of the session. -/
theorem worked_metadata (hok : s.Ok) (h : s.handle urlIsValid (.metadata k) = some s') :
    Worked s s' True := by
  simp only [handle] at h
  split at h
  case h_2 => cases h
  case h_1 info index hndl sources hk =>
    split_ifs at h with hmem
    obtain rfl := Option.some.inj h
    have hstage := hok.stages _ (List.mem_of_getElem? hk)
    exact worked_of_brought (hok.torrents.insert index hndl) hstage.1 le_rfl
      (downloading_insert_ne_nil index hmem)

/-- No file is chosen: the torrent is left unwanted. -/
theorem worked_noFile (hok : s.Ok) (h : s.handle urlIsValid (.noFile k) = some s') :
    Worked s s' False := by
  simp only [handle] at h
  split at h
  case h_2 => cases h
  case h_1 info index hndl sources hk =>
    obtain rfl := Option.some.inj h
    have hstage := hok.stages _ (List.mem_of_getElem? hk)
    have hsame := nextHandle_deleteTorrent
      { s.torrents with unwanted := hndl :: s.torrents.unwanted } index
    exact worked_of_kept ((hok.torrents.unwant hstage.2).deleteTorrent index)
      (stageOk_nextSource _ _ _) hsame.ge
      fun x hx => mem_downloading_of_unwant (mem_downloading_deleteTorrent.mp hx).1

/-- A wait for metadata is given up: the torrent is removed. -/
theorem worked_metadataTimeout (hok : s.Ok)
    (h : s.handle urlIsValid (.metadataTimeout k) = some s') : Worked s s' False := by
  simp only [handle] at h
  split at h
  case h_2 => cases h
  case h_1 info index hndl sources hk =>
    obtain rfl := Option.some.inj h
    exact worked_of_kept (hok.torrents.removeTorrent hndl) (stageOk_nextSource _ _ _) le_rfl
      fun x hx => (mem_downloading_removeTorrent.mp hx).1

/-- A handle is lost: the torrents are those there were. -/
theorem worked_handleLost (hok : s.Ok) (h : s.handle urlIsValid (.handleLost k) = some s') :
    Worked s s' False := by
  simp only [handle] at h
  split at h
  case h_2 => cases h
  case h_1 info index hndl sources hk =>
    split_ifs at h with hmem
    obtain rfl := Option.some.inj h
    exact ⟨k, info, s.torrents, _, rfl, hok.torrents, stageOk_nextSource _ _ _, le_rfl,
      fun _ x hx => hx, False.elim⟩

/-- **What a thread does**: it moves on and changes the torrents of the session. -/
theorem handle_works {e : TorrentEvent} (he : Works e) (hok : s.Ok)
    (h : s.handle urlIsValid e = some s') : Worked s s' (BringsIn e) := by
  cases e with
  | get info => exact absurd he id
  | cancel index => exact absurd he id
  | deliver k => exact absurd he id
  | sourceFails k code asked => exact worked_sourceFails hok h
  | added k known => exact worked_added hok h
  | metadata k => exact worked_metadata hok h
  | noFile k => exact worked_noFile hok h
  | metadataTimeout k => exact worked_metadataTimeout hok h
  | handleLost k => exact worked_handleLost hok h

/-- What a thread leaves keeps the invariant. -/
theorem ok_setStage (hok : s.Ok) (htor : TorrentsOk torrents)
    (hstage : StageOk torrents.nextHandle stage) (hle : s.torrents.nextHandle ≤ torrents.nextHandle) :
    ((s.setTorrents torrents).setStage k info stage).Ok := by
  refine ⟨htor, fun t ht => ?_, hok.thread, hok.sleep⟩
  rcases List.mem_or_eq_of_mem_set ht with hmem | rfl
  · have h := hok.stages t hmem
    match hst : t.stage with
    | .trying _ => trivial
    | .waiting index handle _ =>
      rw [hst] at h
      exact ⟨h.1, h.2.trans_le hle⟩
    | .downloaded index => rw [hst] at h; exact h
    | .failed _ => trivial
    | .delivered => trivial
  · exact hstage

/-- `get` starts a thread and keeps the invariant. -/
theorem ok_get (hok : s.Ok) (info : TorrentInfo) : (s.get urlIsValid info).Ok := by
  refine ⟨hok.torrents, fun t ht => ?_, hok.thread, hok.sleep⟩
  rcases List.mem_append.mp ht with hmem | hnew
  · exact hok.stages t hmem
  · obtain rfl := List.mem_singleton.mp hnew
    exact stageOk_nextSource _ _ _

/-- What `cancel` leaves. -/
theorem cancel_spec (s : TorrentWrapper) (index : ℤ) :
    (s.cancel index).activeTorrent = .empty ∧
      (s.cancel index).thread = { s.thread with running := false } ∧
      (s.cancel index).activeTorrentIds =
        s.activeTorrentIds.erase (if index < 0 then s.activeTorrent.index else index) ∧
      (s.cancel index).sleepDisabled =
        (if (s.cancel index).activeTorrentIds.isEmpty then false else s.sleepDisabled) ∧
      (s.cancel index).torrents =
        s.torrents.deleteTorrent (if index < 0 then s.activeTorrent.index else index) ∧
      (s.cancel index).threads = s.threads := by
  rcases s with ⟨active, ids, preloaded, thread, sleep, torrents, threads, signals⟩
  cases preloaded <;> exact ⟨rfl, rfl, rfl, rfl, rfl, rfl⟩

/-- `cancel` enables sleep where it takes the last id. -/
theorem ok_cancel (hok : s.Ok) (index : ℤ) : (s.cancel index).Ok := by
  obtain ⟨-, hthread, hids, hsleep, htor, hthreads⟩ := s.cancel_spec index
  refine ⟨?_, ?_, fun _ => by rw [hthread], ?_⟩
  · rw [htor]; exact hok.torrents.deleteTorrent _
  · rw [htor, hthreads, nextHandle_deleteTorrent]; exact hok.stages
  · rw [hsleep]
    -- a list that is not empty behind the call was not empty ahead of it
    cases hlist : (s.cancel index).activeTorrentIds with
    | nil => simp
    | cons id rest =>
      have hne : s.activeTorrentIds ≠ [] := by
        intro hnil
        rw [hids, hnil] at hlist
        simp at hlist
      simpa using hok.sleep.mpr hne

/-- What the delivery of a torrent makes of the wrapper. -/
theorem onMetadataDownloaded_spec (s : TorrentWrapper) {tInfo : TorrentInfo} (h : 0 < tInfo.index) :
    (s.onMetadataDownloaded tInfo).activeTorrent = tInfo ∧
      (s.onMetadataDownloaded tInfo).activeTorrentIds = s.activeTorrentIds ++ [tInfo.index] ∧
      (s.onMetadataDownloaded tInfo).sleepDisabled =
        (if s.activeTorrentIds.isEmpty then true else s.sleepDisabled) ∧
      (s.onMetadataDownloaded tInfo).torrents = s.torrents ∧
      (s.onMetadataDownloaded tInfo).threads = s.threads := by
  have hneg : ¬ tInfo.index < 0 := by omega
  simp only [onMetadataDownloaded, if_neg hneg]
  exact ⟨rfl, rfl, rfl, rfl, rfl⟩

/-- The delivery of a torrent disables sleep where its id is the first. -/
theorem ok_onMetadataDownloaded (hok : s.Ok) {tInfo : TorrentInfo} (h : 0 < tInfo.index) :
    (s.onMetadataDownloaded tInfo).Ok := by
  obtain ⟨hactive, hids, hsleep, htor, hthreads⟩ := s.onMetadataDownloaded_spec h
  refine ⟨by rw [htor]; exact hok.torrents, by rw [htor, hthreads]; exact hok.stages,
    fun hempty => ?_, ?_⟩
  · rw [hactive] at hempty
    rw [hempty] at h
    exact absurd h (by decide)
  · rw [hsleep, hids]
    cases hlist : s.activeTorrentIds with
    | nil => simp
    | cons id rest => simpa [hlist] using hok.sleep

/-- What the delivery of a signal does. -/
theorem handle_deliver {k : ℕ} (hok : s.Ok) (h : s.handle urlIsValid (.deliver k) = some s') :
    (∃ info index, s.threads[k]? = some ⟨info, .downloaded index⟩ ∧ 0 < index ∧
      s' = (s.setStage k info .delivered).onMetadataDownloaded { info with index := index }) ∨
    ∃ info index, s.threads[k]? = some ⟨info, .failed index⟩ ∧
      s' = (s.setStage k info .delivered).onTorrentMetadataError { info with index := index } := by
  simp only [handle] at h
  split at h
  case h_1 info index hk =>
    exact .inl ⟨info, index, hk, hok.stages _ (List.mem_of_getElem? hk),
      (Option.some.inj h).symm⟩
  case h_2 info index hk => exact .inr ⟨info, index, hk, (Option.some.inj h).symm⟩
  case h_3 => cases h

/-- **One event** keeps the invariant. -/
theorem ok_handle {e : TorrentEvent} (hok : s.Ok) (h : s.handle urlIsValid e = some s') :
    s'.Ok := by
  by_cases he : Works e
  · obtain ⟨k, info, torrents, stage, rfl, htor, hstage, hle, -, -⟩ := handle_works he hok h
    exact ok_setStage hok htor hstage hle
  · cases e with
    | get info => exact Option.some.inj h ▸ ok_get hok info
    | cancel index => exact Option.some.inj h ▸ ok_cancel hok index
    | deliver k =>
      have hset : ∀ info, (s.setStage k info .delivered).Ok := fun info =>
        ok_setStage hok hok.torrents trivial le_rfl
      rcases handle_deliver hok h with ⟨info, index, -, hpos, rfl⟩ | ⟨info, index, -, rfl⟩
      · exact ok_onMetadataDownloaded (hset info) hpos
      · exact ⟨(hset info).torrents, (hset info).stages, (hset info).thread, (hset info).sleep⟩
    | _ => exact absurd trivial he

namespace Run

variable {r r' : Run}

/-- **Every run** keeps the invariant. -/
theorem ok_of_reachable (h : (machine urlIsValid).Reachable r) : r.wrapper.Ok := by
  refine Machine.Reachable.invariant (I := fun r => r.wrapper.Ok) ?_ ?_ h
  · rintro r rfl
    exact ⟨⟨le_rfl, by simp [start, new], by simp [start, new]⟩, by simp [start, new],
      fun _ => rfl, by simp [start, new]⟩
  · rintro r e r' hok hstep
    obtain ⟨s, hhandle, rfl⟩ := Option.map_eq_some_iff.mp hstep
    have hs := ok_handle hok hhandle
    cases e with
    | cancel index =>
      show (if r.wrapper.CancelsActive index then _ else _ : Run).wrapper.Ok
      split_ifs <;> exact hs
    | _ => exact hs

/-- Where the active torrent stays as it is, it is left to the downloads. -/
theorem settled_of_same (h : r.Settled) (hactive : s'.activeTorrent = r.wrapper.activeTorrent)
    (hthread : s'.thread = r.wrapper.thread) :
    ({ r with wrapper := s' } : Run).Settled ↔
      (r.cancelled = true → s'.torrents.downloading = []) := by
  refine ⟨fun hs hc => (hs.1 hc).2.2, fun hdown => ⟨fun hc => ?_, h.2⟩⟩
  obtain ⟨hempty, hstopped, -⟩ := h.1 hc
  exact ⟨hactive.trans hempty, (congrArg _ hthread).trans hstopped, hdown hc⟩

/-- **The cancelling** of a torrent settles the wrapper, or leaves it settled, exactly if the guard
    is met. -/
theorem settled_cancel {index : ℤ} (hok : r.wrapper.Ok) (h : r.Settled)
    (hstep : r.next urlIsValid (.cancel index) = some r') :
    r'.Settled ↔ r.CancelGuard (.cancel index) := by
  obtain ⟨hactive, hthread, hids, -, htor, -⟩ := r.wrapper.cancel_spec index
  obtain rfl := Option.some.inj hstep
  show (if r.wrapper.CancelsActive index then _ else _ : Run).Settled ↔ _
  by_cases hcancels : r.wrapper.CancelsActive index
  · -- the wrapper is left without a torrent, apart from those that go on downloading
    have hdown : ((r.wrapper.cancel index).torrents.downloading = []) ↔
        r.CancelGuard (.cancel index) := by
      simp only [CancelGuard, if_pos hcancels]
      rw [htor, List.eq_nil_iff_forall_not_mem]
      refine forall_congr' fun x => ?_
      rw [mem_downloading_deleteTorrent, not_and, not_not]
    rw [← hdown, if_pos hcancels]
    exact ⟨fun hs => (hs.1 rfl).2.2, fun hnil => ⟨fun _ => ⟨hactive, by rw [hthread], hnil⟩, h.2⟩⟩
  · have hindex : ¬ index < 0 := fun hneg => hcancels (.inl hneg)
    have hne : index ≠ r.wrapper.activeTorrent.index := fun heq => hcancels (.inr heq)
    simp only [CancelGuard, if_neg hcancels]
    constructor
    · intro hs
      by_contra hnot
      have hdisturbed : ¬ SameActive r.wrapper (r.wrapper.cancel index) := fun hsame =>
        hnot (hsame.1.symm.trans hactive)
      have := hs.2
      simp [hdisturbed] at this
    · intro hempty
      have hrunning := hok.thread hempty
      have hsame : SameActive r.wrapper (r.wrapper.cancel index) := by
        refine ⟨hactive.trans hempty.symm, ?_, ?_⟩
        · rw [hthread, ← hrunning]
        · rw [hids, if_neg hindex]
          exact List.count_erase_of_ne hne.symm
      refine ⟨fun hc => ⟨hactive, by rw [hthread], ?_⟩, by simp [hsame, h.2]⟩
      rw [htor, List.eq_nil_iff_forall_not_mem]
      intro x hx
      have hnil := (h.1 hc).2.2
      rw [mem_downloading_deleteTorrent, hnil] at hx
      exact absurd hx.1 (by simp)

/-- **A step of a thread** keeps the wrapper settled exactly if it brings nothing in behind a
    `cancel`. -/
theorem settled_works {e : TorrentEvent} (he : Works e) (hok : r.wrapper.Ok) (h : r.Settled)
    (hhandle : r.wrapper.handle urlIsValid e = some s') :
    ({ r with wrapper := s' } : Run).Settled ↔ (r.cancelled = true → ¬ BringsIn e) := by
  obtain ⟨k, info, torrents, stage, rfl, -, -, -, hkeep, hbring⟩ := handle_works he hok hhandle
  have hsame : ({ r with wrapper := (r.wrapper.setTorrents torrents).setStage k info stage } :
      Run).Settled ↔ (r.cancelled = true → torrents.downloading = []) :=
    settled_of_same h rfl rfl
  refine hsame.trans (imp_congr_right fun hc => ?_)
  refine ⟨fun hnil hb => hbring hb hnil, fun hb => ?_⟩
  rw [List.eq_nil_iff_forall_not_mem]
  intro x hx
  have hx' := hkeep hb x hx
  rw [(h.1 hc).2.2] at hx'
  exact absurd hx' (by simp)

/-- **A delivery** keeps the wrapper settled exactly if it is no torrent behind a `cancel`. -/
theorem settled_deliver {k : ℕ} (hok : r.wrapper.Ok) (h : r.Settled)
    (hhandle : r.wrapper.handle urlIsValid (.deliver k) = some s') :
    ({ r with wrapper := s' } : Run).Settled ↔ r.CancelGuard (.deliver k) := by
  rcases handle_deliver hok hhandle with ⟨info, index, hk, hpos, rfl⟩ | ⟨info, index, hk, rfl⟩
  · -- the torrent becomes the active one
    have hindex : 0 < ({ info with index := index } : TorrentInfo).index := hpos
    have hactive := ((r.wrapper.setStage k info .delivered).onMetadataDownloaded_spec hindex).1
    have hne : ((r.wrapper.setStage k info .delivered).onMetadataDownloaded
        { info with index := index }).activeTorrent ≠ .empty := by
      rw [hactive]
      intro hempty
      have : index = -1 := congrArg TorrentInfo.index hempty
      omega
    simp only [CancelGuard, hk]
    constructor
    · exact fun hs hc => absurd (hs.1 hc).1 hne
    · intro hguard
      refine ⟨fun hc => ?_, h.2⟩
      exact absurd rfl (hguard hc _ rfl index)
  · refine iff_of_true ((settled_of_same h rfl rfl).mpr fun hc => (h.1 hc).2.2) ?_
    rintro - t ht i hstage
    rw [hk] at ht
    obtain rfl := Option.mem_some.mp ht
    cases hstage

/-- **One event** keeps the wrapper settled exactly if it meets the guard. -/
theorem settled_iff {e : TorrentEvent} (hok : r.wrapper.Ok) (h : r.Settled)
    (hstep : r.next urlIsValid e = some r') : r'.Settled ↔ r.CancelGuard e := by
  cases e with
  | get info =>
    obtain rfl := Option.some.inj hstep
    exact iff_of_true ⟨fun hc => absurd hc (by simp [observe]), h.2⟩ trivial
  | cancel index => exact settled_cancel hok h hstep
  | deliver k =>
    obtain ⟨s, hhandle, rfl⟩ := Option.map_eq_some_iff.mp hstep
    exact settled_deliver hok h hhandle
  | added k known =>
    obtain ⟨s, hhandle, rfl⟩ := Option.map_eq_some_iff.mp hstep
    refine (settled_works (e := .added k known) trivial hok h hhandle).trans
      (imp_congr_right fun _ => ?_)
    cases known <;> simp [BringsIn]
  | metadata k =>
    obtain ⟨s, hhandle, rfl⟩ := Option.map_eq_some_iff.mp hstep
    refine (settled_works (e := .metadata k) trivial hok h hhandle).trans ?_
    simp [BringsIn, CancelGuard]
  | _ =>
    obtain ⟨s, hhandle, rfl⟩ := Option.map_eq_some_iff.mp hstep
    refine (settled_works ?_ hok h hhandle).trans (iff_of_true (fun _ => id) trivial)
    exact trivial

/-- The guard is met exactly by the steps that keep the wrapper settled. -/
theorem cancelGuard_exact :
    (machine urlIsValid).ExactGuard (fun _ => True) CancelGuard Settled where
  init_iff := by
    rintro r rfl
    exact iff_of_true ⟨fun h => absurd h (by simp [start]), rfl⟩ trivial
  step_iff := fun _ _ _ hreach h hstep => settled_iff (ok_of_reachable hreach) h hstep

/-- **The active torrent.**  In every run that meets the guard nothing plays or downloads behind a
    `cancel`, and the cancelling of another torrent leaves the active one as it is; the guard is
    exact.  In every run sleep is disabled exactly while an active torrent is listed. -/
theorem plays_of_guard (urlIsValid : String → Bool) (r : Run) :
    ((machine urlIsValid).RunUnder (fun _ => True) CancelGuard r → r.Settled) ∧
    (machine urlIsValid).ExactGuard (fun _ => True) CancelGuard Settled ∧
    ((machine urlIsValid).Reachable r →
      (r.wrapper.sleepDisabled = true ↔ r.wrapper.activeTorrentIds ≠ [])) :=
  ⟨fun h => cancelGuard_exact.runUnder h, cancelGuard_exact, fun h => (ok_of_reachable h).sleep⟩

/-- A magnet link. -/
def magnetInfo (title : String) : TorrentInfo where
  index := -1
  url := ""
  magnet := "magnet:?xt=urn:btih:" ++ title
  fileName := ""
  title := title

/-- A torrent whose metadata comes behind the `cancel` plays and downloads, and the cancelling of the
    torrent before it clears the active one. -/
theorem plays_behind_cancel :
    (∃ r, (machine (fun url => url ≠ "")).Reachable r ∧ r.cancelled = true ∧
      r.wrapper.activeTorrent.index = 1 ∧ r.wrapper.thread = ⟨true, 1⟩ ∧
      r.wrapper.torrents.downloading = [0]) ∧
    ∃ r, (machine (fun url => url ≠ "")).Reachable r ∧ r.disturbed = true ∧
      r.wrapper.activeTorrent = .empty ∧ r.wrapper.thread = ⟨false, 2⟩ ∧
      r.wrapper.activeTorrentIds = [2] ∧ r.wrapper.torrents.downloading = [1] := by
  constructor
  · have hrun : (Machine.runEvents (next (fun url => url ≠ "")) start
        -- the id is not known yet, so the cancel stops nothing and the torrent plays
        [.get (magnetInfo "a"), .cancel (-1), .added 0 none, .metadata 0, .deliver 0]).map
          (fun r => (r.cancelled, r.wrapper.activeTorrent.index, r.wrapper.thread,
            r.wrapper.torrents.downloading)) = some (true, 1, ⟨true, 1⟩, [0]) := by
      decide
    obtain ⟨r, hreach, heq⟩ := Machine.Reachable.exists_of_runEvents
      (show (machine (fun url => url ≠ "")).Reachable _ from .start rfl) hrun
    simp only [Prod.mk.injEq] at heq
    exact ⟨r, hreach, heq⟩
  · have hrun : (Machine.runEvents (next (fun url => url ≠ "")) start
        -- the cancel of the first torrent takes the active one away, which is the second
        [.get (magnetInfo "a"), .added 0 none, .metadata 0, .deliver 0,
          .get (magnetInfo "b"), .added 1 none, .metadata 1, .deliver 1, .cancel 1]).map
          (fun r => (r.disturbed, r.wrapper.activeTorrent, r.wrapper.thread,
            r.wrapper.activeTorrentIds, r.wrapper.torrents.downloading)) =
        some (true, .empty, ⟨false, 2⟩, [2], [1]) := by
      decide
    obtain ⟨r, hreach, heq⟩ := Machine.Reachable.exists_of_runEvents
      (show (machine (fun url => url ≠ "")).Reachable _ from .start rfl) hrun
    simp only [Prod.mk.injEq] at heq
    exact ⟨r, hreach, heq⟩

end Run

end TorrentWrapper

end PopcornTime.Desktop
