import PopcornTime.Android.TorrentUtil

namespace PopcornTime.Android

open PopcornTime Sqlite Downloads TorrentUtil

/-!
# Android downloads — `DownloadsClient` and `AddToDownloadsThread`

What the two do to a `DownloadInfo` and to the table.  A method that may write its object back
answers the object and whether it is written; `Operation` collects them.

* `Operation.run_fst_eq` and the lemmas beside it — what a write carries over from the object it
  was given.
* `AddToDownloadsThread.run`, `DownloadsClient.downloadsAdd` — an add up to the end of its
  thread.
-/

namespace DownloadsClient

def downloadsPause (info : DownloadInfo) : DownloadInfo × Bool :=
  if info.state = TorrentState.DOWNLOADING then
    ({ info with state := TorrentState.PAUSED }, true)
  else (info, false)

def downloadsResume (info : DownloadInfo) : DownloadInfo × Bool :=
  if info.state = TorrentState.PAUSED then
    ({ info with state := TorrentState.DOWNLOADING }, true)
  else (info, false)

def downloadsRetry (info : DownloadInfo) : DownloadInfo × Bool :=
  ({ info with state := TorrentState.DOWNLOADING }, true)

end DownloadsClient

namespace AddToDownloadsThread

/-- The branch without metadata. -/
def failed (info : DownloadInfo) : DownloadInfo × Bool :=
  ({ info with state := TorrentState.ERROR }, true)

/-- The branch with a row, after `populate`. -/
def loaded (torrentName : Option String) (files : MetadataFiles) (video : FileEntry)
    (info : DownloadInfo) : DownloadInfo × Bool :=
  let (info, saved) := saveMetadata torrentName files info
  if saved = true ∨ info.size ≤ 0 then ({ info with size := video.size }, true) else (info, false)

/-- Only the path and perhaps the size change. -/
theorem loaded_fst_eq (torrentName : Option String) (files : MetadataFiles) (video : FileEntry)
    (info : DownloadInfo) : ∃ size, (loaded torrentName files video info).1 =
      { info with torrentFilePath := some (metadataPath torrentName info), size := size } := by
  by_cases h : (saveMetadata torrentName files info).2 = true ∨ info.size ≤ 0
  · exact ⟨video.size, congrArg Prod.fst (if_pos h)⟩
  · exact ⟨info.size, congrArg Prod.fst (if_neg h)⟩

end AddToDownloadsThread

open DownloadsClient AddToDownloadsThread

/-- The writers of whole rows. -/
inductive Operation
  | pause
  | resume
  | retry
  | failed
  | loaded (torrentName : Option String) (files : MetadataFiles) (video : FileEntry)

namespace Operation

def run : Operation → DownloadInfo → DownloadInfo × Bool
  | pause => downloadsPause
  | resume => downloadsResume
  | retry => downloadsRetry
  | failed => AddToDownloadsThread.failed
  | loaded torrentName files video => AddToDownloadsThread.loaded torrentName files video

/-- The operations that set the state; `loaded` writes the one it has read. -/
def SetsState : Operation → Bool
  | loaded .. => false
  | _ => true

/-- No operation touches more of its object than the state, the path and the size. -/
theorem run_fst_eq (op : Operation) (info : DownloadInfo) :
    ∃ state path size, (op.run info).1 =
      { info with state := state, torrentFilePath := path, size := size } := by
  cases op with
  | pause =>
    simp only [run, downloadsPause]
    split_ifs <;> exact ⟨_, _, _, rfl⟩
  | resume =>
    simp only [run, downloadsResume]
    split_ifs <;> exact ⟨_, _, _, rfl⟩
  | retry | failed => exact ⟨_, _, _, rfl⟩
  | loaded torrentName files video =>
    obtain ⟨size, hinfo⟩ := loaded_fst_eq torrentName files video info
    exact ⟨_, _, size, hinfo⟩

theorem run_id (op : Operation) (info : DownloadInfo) : (op.run info).1.id = info.id := by
  obtain ⟨state, path, size, hinfo⟩ := op.run_fst_eq info
  rw [hinfo]

theorem run_resumeData (op : Operation) (info : DownloadInfo) :
    (op.run info).1.resumeData = info.resumeData := by
  obtain ⟨state, path, size, hinfo⟩ := op.run_fst_eq info
  rw [hinfo]

/-- The state goes back as it was read, unless the operation sets it. -/
theorem run_state {op : Operation} (h : op.SetsState = false) (info : DownloadInfo) :
    (op.run info).1.state = info.state := by
  cases op with
  | loaded => simp only [run, AddToDownloadsThread.loaded]; split_ifs <;> rfl
  | _ => simp [SetsState] at h

end Operation

/-! ### An add up to the end of its thread -/

namespace Downloads

/-- The names of the columns and of the rowid. -/
def identifiers : List String :=
  ["_id", "_type", "_imdb", "_torrent_url", "_torrent_magnet", "_file_name", "_poster_url",
    "_title", "_directory", "_torrent_file_path", "_state", "_size", "_season", "_episode",
    "_torrent_hash", "_resume_data", "_ready_to_watch", "rowid", "oid", "_rowid_"]

/-- SQLite reads a text in double quotes as a name where there is one, else as a literal. -/
def isLiteral (text : String) : Bool :=
  text.toList.all (fun c => decide (c ≠ '"')) && identifiers.all (fun name => !nocaseEq name text)

/-- `_torrent_url="<url>"`, where a null url reads as `null`.  What a text selects that is not
    a literal is left open. -/
def urlSelects (other : String → DownloadRow → Bool) (url : Option String) (r : DownloadRow) :
    Bool :=
  let text := url.getD "null"
  if isLiteral text then decide (r.torrentUrl = some text) else other text r

end Downloads

/-- What `TorrentUtil.addTorrent` ends with: nothing, or a torrent by its name and files. -/
inductive Loading
  | failed
  | loaded (torrentName : Option String) (files : List FileEntry)

/-- What an add meets: the torrent watched last (`""` where there is none) and its name, the
    loading of its own torrent, the file system at the end of it, and `urlSelects`' parameter. -/
structure AddCircumstances where
  lastTorrent : String
  lastTorrentName : Option String
  loading : Loading
  files : MetadataFiles
  selectsOther : String → DownloadRow → Bool

namespace AddToDownloadsThread

/-- `run`, not interrupted; a query that SQLite refuses ends the thread as an empty one does. -/
def run (c : AddCircumstances) (info : DownloadInfo) (t : DownloadsTable) : DownloadsTable :=
  match c.loading with
  | .failed => t.update (failed info).1
  | .loaded torrentName files =>
    match selectFile files info.fileName with
    -- without files the row is deleted
    | none => t.delete info
    | some (_, video) =>
      match t.rows.find? (urlSelects c.selectsOther info.torrentUrl) with
      | none => t
      | some r =>
        let (info, written) := loaded torrentName c.files video (populate r)
        if written then t.update info else t

end AddToDownloadsThread

namespace DownloadsClient

/-- The path `downloadsAdd` gives a download that was watched last; only the object is used of
    this `saveMetadata`. -/
def adoptLastTorrent (c : AddCircumstances) (info : DownloadInfo) : DownloadInfo :=
  if c.lastTorrent ≠ "" ∧ (some c.lastTorrent = info.torrentUrl ∨
      some c.lastTorrent = info.torrentMagnet) then
    (saveMetadata c.lastTorrentName c.files info).1
  else info

/-- `downloadsAdd` of a bound client and the run of its thread. -/
def downloadsAdd (c : AddCircumstances) (info : DownloadInfo) (t : DownloadsTable) :
    DownloadsTable :=
  let info := adoptLastTorrent c info
  AddToDownloadsThread.run c info (t.insert info)

end DownloadsClient

end PopcornTime.Android
