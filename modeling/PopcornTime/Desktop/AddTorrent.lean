import PopcornTime.Desktop.DeleteTorrent
import PopcornTime.Desktop.TorrentInfo

namespace PopcornTime.Desktop

open PopcornTime

/-!
# Desktop streamer — adding a torrent

`addTorrent` takes an id, has the session add the torrent, waits for its metadata, chooses one of its
files and puts a `TAux` for it into `tMap`.  It has an error code for each way this can fail.

* `getFileIndex` — the choice of the file; it sets the priority of every file to zero.
* `AddAnswer` — what the session and the wait come to.
* `addTorrent`, `downloadTorrent`, `importTorrent` — the six exits, and the callers with theirs.
* `AddRight` — what an add should leave behind, and `addTorrent_iff`, when it does.
-/

/-! ### The choice of the file -/

/-- A torrent handle with the priorities of its files. -/
structure FileHandle where
  handle : TorrentHandle
  filePriority : ℕ → ℤ

/-- `file_entry` -/
structure FileEntry where
  path : String
  size : ℤ
  padFile : Bool
deriving DecidableEq, Repr

/-- What the metadata says of the files besides their sizes. -/
structure FileNames where
  path : ℕ → String
  padFile : ℕ → Bool

/-- `std::string::find` finds the text. -/
def contains (text part : String) : Bool :=
  decide (part.toList <:+: text.toList)

/-- File `i` has a byte in piece `k`. -/
def FileStorage.uses (fs : FileStorage) (i : ℕ) (k : ℤ) : Bool :=
  0 < fs.fileSize i && fs.fileOffset i / fs.pieceLength ≤ k &&
    k ≤ (fs.fileOffset i + fs.fileSize i - 1) / fs.pieceLength

namespace FileHandle

/-- `file_priority(i, priority)`: a piece has the highest priority of the files that use it. -/
def setFilePriority (h : FileHandle) (i : ℕ) (priority : ℤ) : FileHandle :=
  let filePriority := Function.update h.filePriority i priority
  let info := h.handle.info
  { filePriority := filePriority
    handle := { h.handle with
      piecePriority := fun k =>
        (((List.range info.fileSizes.length).filter fun j => info.uses j k).map filePriority).foldl
          max 0 } }

def fileAt (h : FileHandle) (names : FileNames) (i : ℕ) : FileEntry where
  path := names.path i
  size := h.handle.info.fileSize i
  padFile := names.padFile i

end FileHandle

/-- `std::numeric_limits<int64_t>::max()` -/
def int64Max : ℤ := 2 ^ 63 - 1

/-- `longestIndex` and `longestSize` of `getFileIndex`; there is no index for `-1`. -/
structure LongestFile where
  longestIndex : Option ℕ
  longestSize : ℤ
deriving DecidableEq, Repr

/-- The body of the loop: a longer file is taken, and the first one with the name for good. -/
def LongestFile.see (fileName : String) (c : LongestFile) (i : ℕ) (file : FileEntry) :
    LongestFile :=
  if file.padFile || c.longestSize = int64Max then c
  else
    let c := if c.longestSize < file.size then ⟨some i, file.size⟩ else c
    if fileName ≠ "" && contains file.path fileName then ⟨some i, int64Max⟩ else c

/-- The file `getFileIndex` chooses. -/
def chosenFile (h : FileHandle) (names : FileNames) (fileName : String) : Option ℕ :=
  ((List.range h.handle.info.fileSizes.length).foldl
    (fun (c : LongestFile) i => c.see fileName i (h.fileAt names i)) ⟨none, 0⟩).longestIndex

/-- `getFileIndex`; the handle comes back with the priorities of its files at zero. -/
def getFileIndex (h : FileHandle) (names : FileNames) (fileName : String) :
    Option ℕ × FileHandle :=
  if !h.handle.valid then (none, h)
  else
    (chosenFile h names fileName,
      (List.range h.handle.info.fileSizes.length).foldl (·.setFilePriority · 0) h)

/-- A file of the loop is taken or passed over. -/
theorem LongestFile.see_longestIndex (fileName : String) (c : LongestFile) (i : ℕ)
    (file : FileEntry) :
    (c.see fileName i file).longestIndex = c.longestIndex ∨
      (c.see fileName i file).longestIndex = some i := by
  unfold LongestFile.see
  dsimp only
  split_ifs
  all_goals first
    | exact Or.inl rfl
    | exact Or.inr rfl

/-- The file that is taken last is one of those seen. -/
theorem foldl_see_longestIndex (h : FileHandle) (names : FileNames) (fileName : String)
    (is : List ℕ) (c : LongestFile) {k : ℕ}
    (hk : (is.foldl (fun (c : LongestFile) i => c.see fileName i (h.fileAt names i))
      c).longestIndex = some k) :
    c.longestIndex = some k ∨ k ∈ is := by
  induction is generalizing c with
  | nil => exact Or.inl hk
  | cons i is ih =>
    rcases ih _ hk with hc | hmem
    · rcases c.see_longestIndex fileName i (h.fileAt names i) with heq | heq
      · exact Or.inl (heq ▸ hc)
      · rw [heq, Option.some.injEq] at hc
        exact Or.inr (by simp [hc])
    · exact Or.inr (List.mem_cons_of_mem i hmem)

/-- The chosen file is one of the torrent. -/
theorem chosenFile_lt {h : FileHandle} {names : FileNames} {fileName : String} {k : ℕ}
    (hk : chosenFile h names fileName = some k) : k < h.handle.info.fileSizes.length := by
  rcases foldl_see_longestIndex h names fileName _ _ hk with hnone | hmem
  · exact absurd hnone (by simp)
  · exact List.mem_range.mp hmem

namespace FileHandle

/-- A call of `file_priority` changes the priorities of the pieces and nothing else of the handle. -/
theorem foldl_setFilePriority_handle (is : List ℕ) (h : FileHandle) :
    (is.foldl (·.setFilePriority · 0) h).handle =
      { h.handle with piecePriority := (is.foldl (·.setFilePriority · 0) h).handle.piecePriority } := by
  induction is generalizing h with
  | nil => rfl
  | cons i is ih =>
    rw [List.foldl_cons, ih]
    rfl

/-- The calls set the priorities of their own files. -/
theorem foldl_setFilePriority_filePriority (is : List ℕ) (h : FileHandle) (j : ℕ) :
    (is.foldl (·.setFilePriority · 0) h).filePriority j =
      if j ∈ is then 0 else h.filePriority j := by
  induction is generalizing h with
  | nil => rfl
  | cons i is ih =>
    rw [List.foldl_cons, ih]
    show (if j ∈ is then 0 else Function.update h.filePriority i 0 j) = _
    by_cases hji : j = i
    · simp [hji]
    · simp [hji]

/-- The highest of priorities that are all zero. -/
theorem foldl_max_zero (ns : List ℤ) (h : ∀ n ∈ ns, n = 0) : ns.foldl max 0 = 0 := by
  induction ns with
  | nil => rfl
  | cons n ns ih =>
    rw [List.foldl_cons, h n (by simp), max_self]
    exact ih fun m hm => h m (by simp [hm])

end FileHandle

/-- **The wanted pieces.**  When a file has been chosen no piece is wanted any more: all files have
    priority zero.  The rest of the handle is as it was. -/
theorem getFileIndex_spec {h : FileHandle} {names : FileNames} {fileName : String} {k : ℕ}
    (hvalid : h.handle.valid = true) (hk : chosenFile h names fileName = some k) :
    (getFileIndex h names fileName).1 = some k ∧
      (getFileIndex h names fileName).2.handle = { h.handle with piecePriority := fun _ => 0 } := by
  have hlt := chosenFile_lt hk
  have hget : getFileIndex h names fileName = (some k,
      (List.range h.handle.info.fileSizes.length).foldl (·.setFilePriority · 0) h) := by
    rw [getFileIndex, hvalid, hk]
    rfl
  rw [hget]
  refine ⟨rfl, ?_⟩
  -- the last call computes the piece priorities anew, from zeros
  obtain ⟨n, hn⟩ : ∃ n, h.handle.info.fileSizes.length = n + 1 :=
    ⟨h.handle.info.fileSizes.length - 1, by omega⟩
  have hfile := FileHandle.foldl_setFilePriority_filePriority (List.range (n + 1)) h
  have hinfo := congrArg TorrentHandle.info
    (FileHandle.foldl_setFilePriority_handle (List.range n) h)
  have hpieces : ((List.range (n + 1)).foldl (·.setFilePriority · 0) h).handle.piecePriority =
      fun _ => 0 := by
    funext piece
    simp only [List.range_succ, List.foldl_append, List.foldl_cons, List.foldl_nil] at hfile ⊢
    refine FileHandle.foldl_max_zero _ fun m hm => ?_
    obtain ⟨j, hj, rfl⟩ := List.mem_map.mp hm
    rw [List.mem_filter, List.mem_range, hinfo] at hj
    refine (hfile j).trans (if_pos ?_)
    have hjn : j < n + 1 := lt_of_lt_of_eq hj.1 hn
    rwa [← List.mem_range, List.range_succ] at hjn
  rw [hn, FileHandle.foldl_setFilePriority_handle, hpieces]

/-- The torrent of a handle with a file selected. -/
def FileHandle.layout (h : FileHandle) (k : ℕ) (hk : k < h.handle.info.fileSizes.length) :
    Layout where
  storage := h.handle.info
  fileIndex := k
  fileIndex_lt := hk

/-! ### The session -/

/-- The streamer with its session: the torrents that are in it, and the torrent that the handle of an
    entry of `tMap` belongs to. -/
structure StreamerokSession extends Streamerok where
  torrents : List ℕ
  torrentOf : ℤ → ℕ

/-- `getNextId`; the bound is `INT_MAX`. -/
def Streamerok.getNextId (s : Streamerok) : ℤ :=
  (if s.nextId + 1 = 2147483647 then 0 else s.nextId) + 1

/-- What the session and the wait for the metadata come to.  A torrent that is in the session already
    is not added again; the answer is then its handle. -/
inductive AddAnswer
  /-- `add_torrent` sets an error. -/
  | error
  /-- The handle is not valid: there is no such torrent in the session. -/
  | lost
  /-- No metadata has come in time. -/
  | timeout (torrent : ℕ)
  /-- libtorrent throws while the file is chosen. -/
  | throws (torrent : ℕ)
  | metadata (torrent : ℕ) (h : FileHandle) (names : FileNames)

namespace StreamerokSession

/-- `session::add_torrent` -/
def sessionAdd (s : StreamerokSession) (torrent : ℕ) : StreamerokSession :=
  { s with torrents := if torrent ∈ s.torrents then s.torrents else torrent :: s.torrents }

/-- `session::remove_torrent` -/
def sessionRemove (s : StreamerokSession) (torrent : ℕ) : StreamerokSession :=
  { s with torrents := s.torrents.filter (· ≠ torrent) }

/-- `tMap.insert`: an entry that is there stays. -/
def insert (s : StreamerokSession) (index : ℤ) (torrent : ℕ) (t : TAux) : StreamerokSession :=
  if (s.tMap index).isSome then s
  else
    { s with
      tMap := Function.update s.tMap index (some t)
      torrentOf := Function.update s.torrentOf index torrent }

/-- `deleteTorrent` with the default argument. -/
def deleteTorrent (s : StreamerokSession) (torrentId : ℤ) : StreamerokSession :=
  let (_, removal, aux) := s.toStreamerok.deleteTorrent torrentId true
  let s := if removal.isSome then s.sessionRemove (s.torrentOf torrentId) else s
  { s with toStreamerok := aux }

/-- `addTorrent`: the code or the id, or `none` where the constructor of the `tAux` throws. -/
def addTorrent (s : StreamerokSession) (fileName : String) (answer : AddAnswer) :
    Option (ℤ × StreamerokSession) :=
  let index := s.getNextId
  let s := { s with nextId := index }
  match answer with
  | .error => some (-10, s)
  | .lost => some (-11, s)
  | .timeout torrent => some (-12, (s.sessionAdd torrent).sessionRemove torrent)
  -- the clean-up deletes by an id that is not in `tMap` yet
  | .throws torrent => some (-9, (s.sessionAdd torrent).deleteTorrent index)
  | .metadata torrent h names =>
    let s := s.sessionAdd torrent
    match getFileIndex h names fileName with
    | (none, _) => some (-9, s.deleteTorrent index)
    | (some longestIndex, h) =>
      (TAux.new h.handle longestIndex (h.handle.info.fileSize longestIndex)).map fun t =>
        (index, s.insert index torrent t)

/-- `downloadTorrent`; `magnetError` says that `parse_magnet_uri` fails. -/
def downloadTorrent (s : StreamerokSession) (url : Option String) (magnetError : Bool)
    (fileName : Option String) (answer : AddAnswer) : Option (ℤ × StreamerokSession) :=
  match url with
  | none => some (-8, s)
  | some uri =>
    if contains uri "magnet:" && magnetError then some (-8, s)
    else s.addTorrent (fileName.getD "") answer

/-- `importTorrent`; `bodyError` says that `torrent_info` cannot read the body. -/
def importTorrent (s : StreamerokSession) (torrentBody : Option (List UInt8)) (bodyError : Bool)
    (fileName : Option String) (answer : AddAnswer) : Option (ℤ × StreamerokSession) :=
  match torrentBody with
  | none => some (-1, s)
  | some body =>
    if body.isEmpty then some (-1, s)
    else if bodyError then some (-8, s)
    else s.addTorrent (fileName.getD "") answer

/-! ### What an add should leave behind -/

/-- The session has the same torrents, and `tMap` the same entries. -/
structure Unchanged (s s' : StreamerokSession) : Prop where
  torrents : ∀ torrent, torrent ∈ s'.torrents ↔ torrent ∈ s.torrents
  tMap : s'.tMap = s.tMap
  torrentOf : s'.torrentOf = s.torrentOf

/-- One torrent is new, and its entry is. -/
structure Added (s s' : StreamerokSession) (id : ℤ) (torrent : ℕ) : Prop where
  torrent_new : torrent ∉ s.torrents
  torrents : ∀ other, other ∈ s'.torrents ↔ other = torrent ∨ other ∈ s.torrents
  /-- No entry is taken over. -/
  id_new : s.tMap id = none
  entry : (s'.tMap id).isSome = true
  torrentOf : s'.torrentOf id = torrent
  others : ∀ other, other ≠ id →
    s'.tMap other = s.tMap other ∧ s'.torrentOf other = s.torrentOf other

/-- What `addTorrent` does where a file is chosen: the `tAux` is made, of a handle whose pieces all
    have priority zero. -/
theorem addTorrent_metadata (s : StreamerokSession) (torrent : ℕ) {h : FileHandle}
    {names : FileNames} {fileName : String} {k : ℕ} (hvalid : h.handle.valid = true)
    (hk : chosenFile h names fileName = some k) :
    ∃ t, TAux.new { h.handle with piecePriority := fun _ => 0 } k (h.handle.info.fileSize k) =
        some t ∧
      s.addTorrent fileName (.metadata torrent h names) =
        some (s.getNextId, (({ s with nextId := s.getNextId } : StreamerokSession).sessionAdd
          torrent).insert s.getNextId torrent t) := by
  obtain ⟨hindex, hhandle⟩ := getFileIndex_spec hvalid hk
  obtain ⟨t, hnew⟩ := TAux.exists_new (h.layout k (chosenFile_lt hk))
    { h.handle with piecePriority := fun _ => 0 } rfl hvalid
  have hget : getFileIndex h names fileName =
      (some k, (getFileIndex h names fileName).2) := Prod.ext hindex rfl
  refine ⟨t, hnew, ?_⟩
  simp only [addTorrent]
  rw [hget]
  simp only [hhandle]
  rw [show TAux.new { h.handle with piecePriority := fun _ => 0 } k (h.handle.info.fileSize k) =
    some t from hnew]
  rfl

/-- A failed add leaves nothing behind, and any other one torrent with its entry. -/
def AddRight (s : StreamerokSession) (result : ℤ × StreamerokSession) : Prop :=
  (result.1 < 0 → Unchanged s result.2) ∧
    (0 ≤ result.1 → ∃ torrent, Added s result.2 result.1 torrent)

/-- **The guard.**  A torrent that comes without metadata is not in the session yet; one without a
    file to choose is; one with a file is not, and the next id has no entry. -/
def AddGuard (s : StreamerokSession) (fileName : String) : AddAnswer → Prop
  | .error => True
  | .lost => True
  | .timeout torrent => torrent ∉ s.torrents
  | .throws torrent => s.tMap s.getNextId = none ∧ torrent ∈ s.torrents
  | .metadata torrent h names =>
    s.tMap s.getNextId = none ∧
      if h.handle.valid = true ∧ (chosenFile h names fileName).isSome = true then
        torrent ∉ s.torrents
      else torrent ∈ s.torrents

variable {s : StreamerokSession} {torrent : ℕ} {id : ℤ}

/-- The torrent is in the session, beside those there were. -/
theorem mem_sessionAdd (s : StreamerokSession) (torrent other : ℕ) :
    other ∈ (s.sessionAdd torrent).torrents ↔ other = torrent ∨ other ∈ s.torrents := by
  unfold sessionAdd
  split_ifs with h
  · exact ⟨Or.inr, fun hor => hor.elim (fun heq => heq ▸ h) fun hmem => hmem⟩
  · exact List.mem_cons

/-- The torrent is not in the session any more. -/
theorem mem_sessionRemove (s : StreamerokSession) (torrent other : ℕ) :
    other ∈ (s.sessionRemove torrent).torrents ↔ other ∈ s.torrents ∧ other ≠ torrent := by
  simp [sessionRemove]

/-- Ids are given out from one on. -/
theorem getNextId_eq (s : Streamerok) : s.getNextId = 1 ∨ s.getNextId = s.nextId + 1 := by
  unfold Streamerok.getNextId
  split_ifs
  · exact Or.inl rfl
  · exact Or.inr rfl

/-- A code has to leave everything unchanged, -/
theorem addRight_neg {code : ℤ} {s' : StreamerokSession} (h : code < 0) :
    AddRight s (code, s') ↔ Unchanged s s' :=
  ⟨fun hr => hr.1 h, fun hu => ⟨fun _ => hu, fun h₀ => absurd h₀ (by simpa using h)⟩⟩

/-- and an id one torrent more. -/
theorem addRight_nonneg {code : ℤ} {s' : StreamerokSession} (h : 0 ≤ code) :
    AddRight s (code, s') ↔ ∃ torrent, Added s s' code torrent :=
  ⟨fun hr => hr.2 h, fun ha => ⟨fun hneg => absurd h (by simpa using hneg), fun _ => ha⟩⟩

/-- The clean-up of an id without an entry does nothing, and of any other too much. -/
theorem unchanged_deleteTorrent_iff (s : StreamerokSession) (torrent : ℕ) (index : ℤ) :
    Unchanged s ((({ s with nextId := index } : StreamerokSession).sessionAdd torrent).deleteTorrent
        index) ↔
      s.tMap index = none ∧ torrent ∈ s.torrents := by
  cases ht : s.tMap index with
  | none =>
    have hdel : (({ s with nextId := index } : StreamerokSession).sessionAdd torrent).deleteTorrent
        index = ({ s with nextId := index } : StreamerokSession).sessionAdd torrent := by
      simp only [deleteTorrent, sessionAdd, Streamerok.deleteTorrent, ht]
      rfl
    rw [hdel, and_iff_right rfl]
    constructor
    · intro h
      exact (h.torrents torrent).mp ((mem_sessionAdd _ torrent torrent).mpr (Or.inl rfl))
    · intro hmem
      refine ⟨fun other => ?_, rfl, rfl⟩
      rw [mem_sessionAdd]
      exact ⟨fun hor => hor.elim (fun heq => heq ▸ hmem) id, Or.inr⟩
  | some t =>
    refine iff_of_false (fun h => ?_) (by simp)
    -- the entry that was under the id is gone with it
    have hgone : ((({ s with nextId := index } : StreamerokSession).sessionAdd torrent).deleteTorrent
        index).tMap index = none := by
      rw [deleteTorrent]
      exact (Streamerok.deleteTorrent_spec _ index true).1
    rw [h.tMap, ht] at hgone
    exact absurd hgone (by simp)

/-- The insertion adds one if the id and the torrent are both new. -/
theorem added_insert_iff (s : StreamerokSession) (torrent : ℕ) (index : ℤ) (t : TAux) :
    (∃ other, Added s ((({ s with nextId := index } : StreamerokSession).sessionAdd torrent).insert
        index torrent t) index other) ↔
      s.tMap index = none ∧ torrent ∉ s.torrents := by
  constructor
  · rintro ⟨other, h⟩
    refine ⟨h.id_new, fun hmem => ?_⟩
    -- a torrent that is there already brings no new one
    have hnew : other ∈ s.torrents := by
      have hin := (h.torrents other).mpr (Or.inl rfl)
      have hsame : ((({ s with nextId := index } : StreamerokSession).sessionAdd torrent).insert index
          torrent t).torrents = s.torrents := by
        unfold insert sessionAdd
        simp only [hmem, if_true]
        split_ifs <;> rfl
      rwa [hsame] at hin
    exact h.torrent_new hnew
  · rintro ⟨hfree, hnew⟩
    have hins : (({ s with nextId := index } : StreamerokSession).sessionAdd torrent).insert index
        torrent t = { s with
          nextId := index
          torrents := torrent :: s.torrents
          tMap := Function.update s.tMap index (some t)
          torrentOf := Function.update s.torrentOf index torrent } := by
      simp [insert, sessionAdd, hfree, hnew]
    rw [hins]
    refine ⟨torrent, hnew, fun other => List.mem_cons, hfree, ?_, ?_, fun other hne => ?_⟩
    · simp
    · simp
    · simp [hne]

/-- **The six exits**, each by its part of the guard. -/
theorem addTorrent_right_iff (hid : 0 ≤ s.nextId) {fileName : String} {answer : AddAnswer}
    {result : ℤ × StreamerokSession} (h : s.addTorrent fileName answer = some result) :
    AddRight s result ↔ AddGuard s fileName answer := by
  have hpos : 0 ≤ s.getNextId := by
    rcases getNextId_eq s.toStreamerok with heq | heq <;> omega
  cases answer with
  | error =>
    rw [addTorrent, Option.some.injEq] at h
    rw [← h, addRight_neg (by omega)]
    exact iff_of_true ⟨fun _ => Iff.rfl, rfl, rfl⟩ trivial
  | lost =>
    rw [addTorrent, Option.some.injEq] at h
    rw [← h, addRight_neg (by omega)]
    exact iff_of_true ⟨fun _ => Iff.rfl, rfl, rfl⟩ trivial
  | timeout torrent =>
    rw [addTorrent, Option.some.injEq] at h
    rw [← h, addRight_neg (by omega)]
    constructor
    · intro hu hmem
      -- a torrent that the session had already has been removed as the new one
      have hgone := (hu.torrents torrent).mpr hmem
      rw [mem_sessionRemove] at hgone
      exact hgone.2 rfl
    · intro hnew
      refine ⟨fun other => ?_, rfl, rfl⟩
      rw [mem_sessionRemove, mem_sessionAdd]
      refine ⟨fun hor => hor.1.elim (fun heq => absurd heq hor.2) id, fun hmem => ⟨Or.inr hmem, ?_⟩⟩
      rintro rfl
      exact hnew hmem
  | throws torrent =>
    rw [addTorrent, Option.some.injEq] at h
    rw [← h, addRight_neg (by omega), unchanged_deleteTorrent_iff]
    rfl
  | metadata torrent fh names =>
    -- the torrent stays only when the handle is valid and has the file
    simp only [addTorrent, getFileIndex] at h
    show _ ↔ s.tMap s.getNextId = none ∧
      if fh.handle.valid = true ∧ (chosenFile fh names fileName).isSome = true then
        torrent ∉ s.torrents
      else torrent ∈ s.torrents
    by_cases hvalid : fh.handle.valid = true
    · rw [hvalid] at h ⊢
      cases hfile : chosenFile fh names fileName with
      | none =>
        simp only [hfile, Bool.not_true, Bool.false_eq_true, if_false, Option.some.injEq] at h
        rw [← h, addRight_neg (by omega), unchanged_deleteTorrent_iff]
        simp
      | some longestIndex =>
        simp only [hfile, Bool.not_true, Bool.false_eq_true, if_false,
          Option.map_eq_some_iff] at h
        obtain ⟨t, -, rfl⟩ := h
        rw [addRight_nonneg hpos, added_insert_iff]
        simp
    · simp only [hvalid, Bool.not_false, if_true, Option.some.injEq] at h
      rw [← h, addRight_neg (by omega), unchanged_deleteTorrent_iff]
      simp [hvalid]

/-- The callers' own codes come before anything is done. -/
theorem addRight_refused {code : ℤ} (h : code < 0) (s : StreamerokSession) :
    AddRight s (code, s) :=
  (addRight_neg h).mpr ⟨fun _ => Iff.rfl, rfl, rfl⟩

/-- **Adding a torrent.**  In every state of the session and for whatever it answers, an add that
    returns leaves behind what it should exactly under the guard; so does one that is made through
    `downloadTorrent` or `importTorrent`, which refuse some requests without a trace. -/
theorem addTorrent_iff (s : StreamerokSession) (hid : 0 ≤ s.nextId) (fileName : Option String)
    (answer : AddAnswer) (result : ℤ × StreamerokSession) :
    (s.addTorrent (fileName.getD "") answer = some result →
      (AddRight s result ↔ AddGuard s (fileName.getD "") answer)) ∧
    (∀ (url : Option String) (magnetError : Bool),
      s.downloadTorrent url magnetError fileName answer = some result →
      (AddRight s result ↔
        (∀ uri ∈ url, contains uri "magnet:" = true ∧ magnetError = true) ∨
          AddGuard s (fileName.getD "") answer)) ∧
    ∀ (torrentBody : Option (List UInt8)) (bodyError : Bool),
      s.importTorrent torrentBody bodyError fileName answer = some result →
      (AddRight s result ↔
        (∀ body ∈ torrentBody, body = [] ∨ bodyError = true) ∨
          AddGuard s (fileName.getD "") answer) := by
  refine ⟨addTorrent_right_iff hid, fun url magnetError h => ?_, fun torrentBody bodyError h => ?_⟩
  · cases url with
    | none =>
      rw [downloadTorrent, Option.some.injEq] at h
      rw [← h]
      exact iff_of_true (addRight_refused (by omega) s) (Or.inl (by simp))
    | some uri =>
      rw [downloadTorrent] at h
      -- a magnet with an error does not reach the session
      split_ifs at h with hrefuse
      · rw [Option.some.injEq] at h
        rw [← h]
        exact iff_of_true (addRight_refused (by omega) s) (Or.inl (by simpa using hrefuse))
      · rw [addTorrent_right_iff hid h]
        refine ⟨Or.inr, fun hor => hor.elim (fun hall => absurd ?_ hrefuse) id⟩
        simpa using hall
  · cases torrentBody with
    | none =>
      rw [importTorrent, Option.some.injEq] at h
      rw [← h]
      exact iff_of_true (addRight_refused (by omega) s) (Or.inl (by simp))
    | some body =>
      rw [importTorrent] at h
      -- neither does an empty body, or one that does not parse
      split_ifs at h with hempty herror
      · rw [Option.some.injEq] at h
        rw [← h]
        exact iff_of_true (addRight_refused (by omega) s)
          (Or.inl (by simpa using Or.inl (List.isEmpty_iff.mp hempty)))
      · rw [Option.some.injEq] at h
        rw [← h]
        exact iff_of_true (addRight_refused (by omega) s) (Or.inl (by simp [herror]))
      · rw [addTorrent_right_iff hid h]
        refine ⟨Or.inr, fun hor => hor.elim (fun hall => ?_) id⟩
        rcases hall body rfl with hnil | herr
        · exact absurd (List.isEmpty_iff.mpr hnil) hempty
        · exact absurd herr herror

/-- No torrent has been added yet. -/
def new : StreamerokSession where
  toStreamerok := .new
  torrents := []
  torrentOf := fun _ => 0

/-- A torrent whose metadata does not come is removed again. -/
theorem addTorrent_iff_timeout :
    AddRight new (-12, { new with nextId := 1 }) :=
  ((addTorrent_iff new (le_refl 0) none (.timeout 7) _).1 rfl).mpr List.not_mem_nil

/-- The handle of a torrent with one file, of some size. -/
def oneFile (size : ℕ) : FileHandle where
  handle :=
    { valid := true
      info :=
        { pieceLength := 10
          fileSizes := [size]
          pieceLength_pos := secondFile.len_pos
          fileSizes_nonneg := by simp }
      havePiece := fun _ => false
      deadline := fun _ => none
      piecePriority := fun _ => 1 }
  filePriority := fun _ => 1

/-- A torrent without a file to choose stays in the session behind the error.  One that is there
    already gets a second id and is no new one. -/
theorem addTorrent_leaves_torrent :
    (∃ s', new.addTorrent "" (.metadata 7 (oneFile 0) ⟨fun _ => "film.avi", fun _ => false⟩) =
        some (-9, s') ∧ s'.torrents = [7] ∧ ¬AddRight new (-9, s')) ∧
      ∃ s s', new.addTorrent "" (.metadata 7 (oneFile 25) ⟨fun _ => "film.avi", fun _ => false⟩) =
          some (1, s) ∧
        s.addTorrent "" (.metadata 7 (oneFile 25) ⟨fun _ => "film.avi", fun _ => false⟩) =
          some (2, s') ∧
        s'.torrentOf 1 = 7 ∧ s'.torrentOf 2 = 7 ∧ ¬AddRight s (2, s') := by
  constructor
  · refine ⟨_, rfl, rfl, fun h => ?_⟩
    have hmem := ((addRight_neg (by omega)).mp h).torrents 7
    exact absurd (hmem.mp (by decide)) (by decide)
  · have hchosen : chosenFile (oneFile 25) ⟨fun _ => "film.avi", fun _ => false⟩ "" = some 0 := by
      decide
    obtain ⟨t, -, hadd⟩ := addTorrent_metadata new 7 rfl hchosen
    obtain ⟨t', -, hadd'⟩ := addTorrent_metadata _ 7 rfl hchosen
    refine ⟨_, _, hadd, hadd', rfl, rfl, fun h => ?_⟩
    obtain ⟨torrent, hadded⟩ := (addRight_nonneg (by omega)).mp h
    have htorrent : torrent = 7 := hadded.torrentOf.symm
    exact hadded.torrent_new (htorrent ▸ List.mem_singleton.mpr rfl)

end StreamerokSession

end PopcornTime.Desktop
