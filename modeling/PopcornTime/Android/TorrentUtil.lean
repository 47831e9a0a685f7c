import PopcornTime.Android.Downloads
import PopcornTime.Android.WatchTask

namespace PopcornTime.Android

open PopcornTime

/-!
# Android torrents — `TorrentUtil`

What a download and a watch share: the key under which the service has a torrent, the file that
is wanted of it, and the file its metadata is saved to.  The service and the file system come in
as functions of a key and of a path.

* `getAvailableTorrentFile_eq_some` — the first of three keys that has metadata.
* `selectFile`, `selectPriorities` — the two halves of `setFilePriority`.
* `saveMetadata` — the path is chosen once; a file that is there already is not written again.
-/

/-- `TextUtils.isEmpty` -/
def isEmpty : Option String → Bool
  | none => true
  | some s => decide (s = "")

structure FileEntry where
  path : String
  size : ℤ
deriving DecidableEq, Repr

/-- What `saveMetadata` asks of the file system: which files are there, and which can be
    written. -/
structure MetadataFiles where
  exist : String → Bool
  writable : String → Bool

namespace TorrentUtil

/-- `hasMetadata` of a null key is false. -/
def getAvailableTorrentFile (hasMetadata : String → Bool) (file url magnet : Option String) :
    Option String :=
  if file.any hasMetadata then file
  else if url.any hasMetadata then url
  else if magnet.any hasMetadata then magnet
  else none

/-- The key that is found has metadata and is one of the three. -/
theorem getAvailableTorrentFile_eq_some {hasMetadata : String → Bool}
    {file url magnet : Option String} {key : String}
    (h : getAvailableTorrentFile hasMetadata file url magnet = some key) :
    hasMetadata key = true ∧ some key ∈ [file, url, magnet] := by
  unfold getAvailableTorrentFile at h
  split_ifs at h with hfile hurl hmagnet
  · subst h
    exact ⟨hfile, by simp⟩
  · subst h
    exact ⟨hurl, by simp⟩
  · subst h
    exact ⟨hmagnet, by simp⟩

/-! ### `setFilePriority` -/

/-- The file `setFilePriority` is about, and its index: the largest one where no name is asked
    for, else the first whose path ends with the name, else the first of all. -/
def selectFile (files : List FileEntry) (fileName : Option String) : Option (ℕ × FileEntry) :=
  match files with
  | [] => none
  | first :: _ =>
    if isEmpty fileName then
      some (files.zipIdx.foldl
        (fun best e => if best.2.size < e.1.size then (e.2, e.1) else best) (0, first))
    else
      match files.zipIdx.find?
          (fun e => (fileName.getD "").toList.isSuffixOf e.1.path.toList) with
      | some e => some (e.2, e.1)
      | none => some (0, first)

/-- The selected file gets the priority, every other file none. -/
def selectPriorities (fileIndex : ℕ) (priority : ℤ) (priorities : List ℤ) : List ℤ :=
  priorities.mapIdx fun i _ =>
    if fileIndex = i then priority else TorrentPriority.NOT_DOWNLOADED

/-- `setFilePriority` finds no file exactly where the torrent has none. -/
theorem selectFile_eq_none {files : List FileEntry} {fileName : Option String} :
    selectFile files fileName = none ↔ files = [] := by
  cases files with
  | nil => simp [selectFile]
  | cons first rest =>
    simp only [selectFile]
    split_ifs
    · simp
    · split <;> simp

/-- The selected file is the one with the selected index. -/
theorem selectFile_eq_some {files : List FileEntry} {fileName : Option String} {index : ℕ}
    {entry : FileEntry} (h : selectFile files fileName = some (index, entry)) :
    files[index]? = some entry := by
  cases files with
  | nil => simp [selectFile] at h
  | cons first rest =>
    simp only [selectFile] at h
    split_ifs at h with hempty
    · -- the best file so far is always one of the torrent's
      have hbest := List.foldlRecOn (motive := fun best : ℕ × FileEntry =>
          (first :: rest)[best.1]? = some best.2) (first :: rest).zipIdx
        (fun best e => if best.2.size < e.1.size then (e.2, e.1) else best) (b := (0, first)) rfl
        (by
          intro best hbest e he
          split_ifs
          · exact List.mem_zipIdx_iff_getElem?.mp he
          · exact hbest)
      rw [Option.some.injEq] at h
      rw [h] at hbest
      exact hbest
    · split at h
      · rename_i e hfind
        simp only [Option.some.injEq, Prod.mk.injEq] at h
        have hmem := List.mem_zipIdx_iff_getElem?.mp (List.mem_of_find?_eq_some hfind)
        rw [← h.1, ← h.2]
        exact hmem
      · simp only [Option.some.injEq, Prod.mk.injEq] at h
        rw [← h.1, ← h.2]
        rfl

theorem selectPriorities_length (fileIndex : ℕ) (priority : ℤ) (priorities : List ℤ) :
    (selectPriorities fileIndex priority priorities).length = priorities.length :=
  List.length_mapIdx

/-- The selected file has the priority. -/
theorem selectPriorities_getD {fileIndex : ℕ} {priorities : List ℤ}
    (h : fileIndex < priorities.length) (priority : ℤ) :
    (selectPriorities fileIndex priority priorities).getD fileIndex 0 = priority := by
  simp [selectPriorities, List.getD_eq_getElem?_getD, h]

/-! ### `saveMetadata` -/

/-- What follows the last `/`. -/
def lastSegment (path : String) : String :=
  String.ofList (path.toList.reverse.takeWhile (fun c => decide (c ≠ '/'))).reverse

/-- Where the metadata of a download is saved. -/
def metadataPath (torrentName : Option String) (info : DownloadInfo) : String :=
  if isEmpty info.torrentFilePath then
    let fileName :=
      if isEmpty torrentName then lastSegment info.directory else torrentName.getD ""
    info.directory ++ "/" ++ fileName ++ ".torrent"
  else info.torrentFilePath.getD ""

/-- The object afterwards, and whether the file was written. -/
def saveMetadata (torrentName : Option String) (files : MetadataFiles) (info : DownloadInfo) :
    DownloadInfo × Bool :=
  let path := metadataPath torrentName info
  ({ info with torrentFilePath := some path }, !files.exist path && files.writable path)

/-- The path does not change once it is chosen. -/
theorem metadataPath_of_path (torrentName : Option String) {info : DownloadInfo}
    (h : isEmpty info.torrentFilePath = false) :
    some (metadataPath torrentName info) = info.torrentFilePath := by
  unfold metadataPath
  rw [h]
  cases hpath : info.torrentFilePath with
  | none => simp [isEmpty, hpath] at h
  | some path => rfl

end TorrentUtil

end PopcornTime.Android
