import Mathlib.Data.List.Nodup
import PopcornTime.Android.Database

namespace PopcornTime.Android

open PopcornTime Sqlite

/-!
# Android database — the table `downloads`

`DownloadInfo` is the object the application works on, `DownloadRow` a row of the table by its
declared types, and `DownloadsTable` the rows in rowid order.  The operations are those of
`Downloads`: a whole-row write by id, one of the resume data by hash, an insert and a delete.

* `DownloadRow.toRow_put` and the `toTable` lemmas — the operations are the SQL statements of
  `DBProvider`.
* `populate_put` — what is written is read back.
-/

/-- The directory is a `File`, by its absolute path; no caller leaves it null. -/
structure DownloadInfo where
  id : ℤ := 0
  type : Option String := none
  imdb : Option String := none
  torrentUrl : Option String := none
  torrentMagnet : Option String := none
  fileName : Option String := none
  posterUrl : Option String := none
  title : Option String := none
  directory : String
  torrentFilePath : Option String := none
  state : ℤ := 0
  size : ℤ := 0
  season : ℤ := 0
  episode : ℤ := 0
  torrentHash : Option String := none
  resumeData : Option (List UInt8) := none
  readyToWatch : Bool := false
deriving DecidableEq, Repr

/-- A row of `downloads`.  What every version wrote from a Java primitive or a `File` is never
    NULL; season, episode and the flag are NULL in rows older than their column. -/
structure DownloadRow where
  id : ℤ
  type : Option String
  imdb : Option String
  torrentUrl : Option String
  torrentMagnet : Option String
  fileName : Option String
  posterUrl : Option String
  title : Option String
  directory : String
  torrentFilePath : Option String
  state : ℤ
  size : ℤ
  season : Option ℤ
  episode : Option ℤ
  torrentHash : Option String
  resumeData : Option (List UInt8)
  readyToWatch : Option ℤ
deriving DecidableEq, Repr

namespace Downloads

/-- Every column but the id and `_ready_to_watch`. -/
def buildValues (info : DownloadInfo) : List (Column × Value) :=
  [(.type, .ofText info.type), (.imdb, .ofText info.imdb),
    (.torrentUrl, .ofText info.torrentUrl), (.torrentMagnet, .ofText info.torrentMagnet),
    (.fileName, .ofText info.fileName), (.posterUrl, .ofText info.posterUrl),
    (.title, .ofText info.title), (.directory, .text info.directory),
    (.torrentFilePath, .ofText info.torrentFilePath), (.state, .integer info.state),
    (.size, .integer info.size), (.season, .integer info.season),
    (.episode, .integer info.episode), (.torrentHash, .ofText info.torrentHash),
    (.resumeData, .ofBlob info.resumeData)]

/-- `populate`: `getInt` of NULL is `0`. -/
def populate (r : DownloadRow) : DownloadInfo where
  id := r.id
  type := r.type
  imdb := r.imdb
  torrentUrl := r.torrentUrl
  torrentMagnet := r.torrentMagnet
  fileName := r.fileName
  posterUrl := r.posterUrl
  title := r.title
  directory := r.directory
  torrentFilePath := r.torrentFilePath
  state := r.state
  size := r.size
  season := r.season.getD 0
  episode := r.episode.getD 0
  torrentHash := r.torrentHash
  resumeData := r.resumeData
  readyToWatch := decide (r.readyToWatch.getD 0 ≠ 0)

end Downloads

open Downloads

namespace DownloadRow

/-- The row with the values of `buildValues`. -/
def put (r : DownloadRow) (info : DownloadInfo) : DownloadRow where
  id := r.id
  type := info.type
  imdb := info.imdb
  torrentUrl := info.torrentUrl
  torrentMagnet := info.torrentMagnet
  fileName := info.fileName
  posterUrl := info.posterUrl
  title := info.title
  directory := info.directory
  torrentFilePath := info.torrentFilePath
  state := info.state
  size := info.size
  season := some info.season
  episode := some info.episode
  torrentHash := info.torrentHash
  resumeData := info.resumeData
  readyToWatch := r.readyToWatch

@[simp] theorem put_id (r : DownloadRow) (info : DownloadInfo) : (r.put info).id = r.id := rfl

@[simp] theorem put_state (r : DownloadRow) (info : DownloadInfo) :
    (r.put info).state = info.state := rfl

@[simp] theorem put_resumeData (r : DownloadRow) (info : DownloadInfo) :
    (r.put info).resumeData = info.resumeData := rfl

/-- A new row. -/
def ofInfo (id : ℤ) (info : DownloadInfo) : DownloadRow where
  id := id
  type := info.type
  imdb := info.imdb
  torrentUrl := info.torrentUrl
  torrentMagnet := info.torrentMagnet
  fileName := info.fileName
  posterUrl := info.posterUrl
  title := info.title
  directory := info.directory
  torrentFilePath := info.torrentFilePath
  state := info.state
  size := info.size
  season := some info.season
  episode := some info.episode
  torrentHash := info.torrentHash
  resumeData := info.resumeData
  readyToWatch := none

@[simp] theorem ofInfo_id (id : ℤ) (info : DownloadInfo) : (ofInfo id info).id = id := rfl

/-- What is written is read back, but for the id and the flag, which are not written. -/
theorem populate_put (r : DownloadRow) (info : DownloadInfo) :
    populate (r.put info) =
      { info with id := r.id, readyToWatch := decide (r.readyToWatch.getD 0 ≠ 0) } := rfl

theorem populate_ofInfo (id : ℤ) (info : DownloadInfo) :
    populate (ofInfo id info) = { info with id := id, readyToWatch := false } := rfl

/-- A row by its column names. -/
def toRow (r : DownloadRow) : Row Column
  | .id => .integer r.id
  | .type => .ofText r.type
  | .imdb => .ofText r.imdb
  | .torrentUrl => .ofText r.torrentUrl
  | .torrentMagnet => .ofText r.torrentMagnet
  | .fileName => .ofText r.fileName
  | .posterUrl => .ofText r.posterUrl
  | .title => .ofText r.title
  | .directory => .text r.directory
  | .torrentFilePath => .ofText r.torrentFilePath
  | .state => .integer r.state
  | .size => .integer r.size
  | .season => .ofInteger r.season
  | .episode => .ofInteger r.episode
  | .torrentHash => .ofText r.torrentHash
  | .resumeData => .ofBlob r.resumeData
  | .readyToWatch => .ofInteger r.readyToWatch
  | _ => .null

/-- `put` assigns the columns of `buildValues`. -/
theorem toRow_put (r : DownloadRow) (info : DownloadInfo) :
    (r.put info).toRow = r.toRow.put (buildValues info) := by
  ext c : 1
  cases c <;> rfl

/-- A new row has the columns of `buildValues` and its id; the others are NULL. -/
theorem toRow_ofInfo (id : ℤ) (info : DownloadInfo) :
    (ofInfo id info).toRow = Row.put (fun _ => .null) ((.id, .integer id) :: buildValues info) := by
  ext c : 1
  cases c <;> rfl

/-- `_torrent_hash="<hash>" COLLATE NOCASE` -/
def hasHash (hash : String) (r : DownloadRow) : Bool :=
  match r.torrentHash with
  | none => false
  | some s => nocaseEq s hash

end DownloadRow

/-! ### The table -/

/-- The rows in rowid order. -/
structure DownloadsTable where
  rows : List DownloadRow
  sorted : rows.Pairwise (fun r r' => r.id < r'.id)

namespace DownloadsTable

/-- The rowid SQLite picks: the largest there is, plus one. -/
def nextId (t : DownloadsTable) : ℤ :=
  match t.rows.getLast? with
  | none => 1
  | some r => r.id + 1

theorem lt_nextId {t : DownloadsTable} {r : DownloadRow} (h : r ∈ t.rows) : r.id < t.nextId := by
  unfold nextId
  cases hlast : t.rows.getLast? with
  | none =>
    rw [List.getLast?_eq_none_iff.mp hlast] at h
    exact absurd h List.not_mem_nil
  | some last =>
    -- the rows are sorted by id, so the last one has the largest
    obtain ⟨init, hrows⟩ := List.getLast?_eq_some_iff.mp hlast
    have hsorted := t.sorted
    rw [hrows, List.pairwise_append] at hsorted
    rw [hrows, List.mem_append, List.mem_singleton] at h
    rcases h with hinit | rfl
    · have := hsorted.2.2 r hinit last (List.mem_singleton_self last)
      show r.id < last.id + 1
      omega
    · exact Int.lt_succ r.id

/-- Two rows with one id are the same. -/
theorem eq_of_id_eq {t : DownloadsTable} {r r' : DownloadRow} (h : r ∈ t.rows)
    (h' : r' ∈ t.rows) (hid : r.id = r'.id) : r = r' := by
  have hnodup : (t.rows.map DownloadRow.id).Nodup :=
    List.pairwise_map.mpr (t.sorted.imp ne_of_lt)
  exact List.inj_on_of_nodup_map hnodup h h' hid

/-- An update of the rows that satisfy `p`, which keeps their ids. -/
def modify (t : DownloadsTable) (p : DownloadRow → Bool) (f : DownloadRow → DownloadRow)
    (hf : ∀ r, (f r).id = r.id) : DownloadsTable where
  rows := t.rows.map fun r => if p r then f r else r
  sorted := by
    have hid : ∀ r, (if p r then f r else r).id = r.id := by
      intro r
      split_ifs
      · exact hf r
      · rfl
    rw [List.pairwise_map]
    exact t.sorted.imp fun hlt => by rw [hid, hid]; exact hlt

/-- `Downloads.insert`: the id of `info` is not written, nor is the new one read. -/
def insert (t : DownloadsTable) (info : DownloadInfo) : DownloadsTable where
  rows := t.rows ++ [.ofInfo t.nextId info]
  sorted := by
    rw [List.pairwise_append]
    refine ⟨t.sorted, List.pairwise_singleton _ _, ?_⟩
    intro r hr r' hr'
    rw [List.mem_singleton.mp hr', DownloadRow.ofInfo_id]
    exact lt_nextId hr

/-- `Downloads.update(context, info)`: the whole row. -/
def update (t : DownloadsTable) (info : DownloadInfo) : DownloadsTable :=
  t.modify (fun r => decide (r.id = info.id)) (·.put info) (fun r => r.put_id info)

/-- `Downloads.update(context, hash, resumeData)`: one column. -/
def updateResumeData (t : DownloadsTable) (hash : String) (resumeData : List UInt8) :
    DownloadsTable :=
  t.modify (DownloadRow.hasHash hash) (fun r => { r with resumeData := some resumeData })
    (fun _ => rfl)

/-- `Downloads.delete(context, info)` -/
def delete (t : DownloadsTable) (info : DownloadInfo) : DownloadsTable where
  rows := t.rows.filter fun r => decide (r.id ≠ info.id)
  sorted := t.sorted.filter _

/-- The row with an id. -/
def find (t : DownloadsTable) (id : ℤ) : Option DownloadRow :=
  t.rows.find? fun r => decide (r.id = id)

theorem find_eq_some {t : DownloadsTable} {id : ℤ} {r : DownloadRow} :
    t.find id = some r ↔ r ∈ t.rows ∧ r.id = id := by
  unfold find
  constructor
  · intro h
    exact ⟨List.mem_of_find?_eq_some h, by simpa using List.find?_some h⟩
  · rintro ⟨hr, rfl⟩
    cases hfind : t.rows.find? (fun x => decide (x.id = r.id)) with
    | none =>
      rw [List.find?_eq_none] at hfind
      exact absurd (hfind r hr) (by simp)
    | some r' =>
      have hid : r'.id = r.id := by simpa using List.find?_some hfind
      rw [eq_of_id_eq (List.mem_of_find?_eq_some hfind) hr hid]

@[simp] theorem modify_rows (t : DownloadsTable) (p : DownloadRow → Bool)
    (f : DownloadRow → DownloadRow) (hf : ∀ r, (f r).id = r.id) :
    (t.modify p f hf).rows = t.rows.map fun r => if p r then f r else r := rfl

@[simp] theorem insert_rows (t : DownloadsTable) (info : DownloadInfo) :
    (t.insert info).rows = t.rows ++ [.ofInfo t.nextId info] := rfl

@[simp] theorem update_rows (t : DownloadsTable) (info : DownloadInfo) :
    (t.update info).rows = t.rows.map fun r => if r.id = info.id then r.put info else r := by
  rw [update, modify_rows]
  simp only [decide_eq_true_eq]

/-- A row behind an update is one of those written, or one of the others. -/
theorem mem_update {t : DownloadsTable} {info : DownloadInfo} {r : DownloadRow}
    (h : r ∈ (t.update info).rows) :
    ∃ r₀ ∈ t.rows, r₀.id = info.id ∧ r = r₀.put info ∨ r₀.id ≠ info.id ∧ r = r₀ := by
  rw [update_rows] at h
  obtain ⟨r₀, hr₀, rfl⟩ := List.mem_map.mp h
  refine ⟨r₀, hr₀, ?_⟩
  split_ifs with hid
  · exact .inl ⟨hid, rfl⟩
  · exact .inr ⟨hid, rfl⟩

theorem put_mem_update {t : DownloadsTable} {info : DownloadInfo} {r : DownloadRow}
    (h : r ∈ t.rows) (hid : r.id = info.id) : r.put info ∈ (t.update info).rows := by
  rw [update_rows, List.mem_map]
  exact ⟨r, h, if_pos hid⟩

theorem mem_update_of_ne {t : DownloadsTable} {info : DownloadInfo} {r : DownloadRow}
    (h : r ∈ t.rows) (hid : r.id ≠ info.id) : r ∈ (t.update info).rows := by
  rw [update_rows, List.mem_map]
  exact ⟨r, h, if_neg hid⟩

@[simp] theorem updateResumeData_rows (t : DownloadsTable) (hash : String)
    (resumeData : List UInt8) :
    (t.updateResumeData hash resumeData).rows =
      t.rows.map fun r => if r.hasHash hash then { r with resumeData := some resumeData } else r :=
  rfl

@[simp] theorem delete_rows (t : DownloadsTable) (info : DownloadInfo) :
    (t.delete info).rows = t.rows.filter fun r => decide (r.id ≠ info.id) := rfl

/-! ### The statements -/

/-- The table as SQLite has it. -/
def toTable (t : DownloadsTable) : Table Column where
  columns := createTableQuery
  rows := t.rows.map DownloadRow.toRow

/-- `insert` is an `INSERT`. -/
theorem toTable_insert (t : DownloadsTable) (info : DownloadInfo) :
    (t.insert info).toTable = t.toTable.insert
      (Row.put (fun _ => .null) ((.id, .integer t.nextId) :: buildValues info)) := by
  simp [toTable, Table.insert, DownloadRow.toRow_ofInfo]

/-- `update` is an `UPDATE` of the row with an id. -/
theorem toTable_update (t : DownloadsTable) (info : DownloadInfo) :
    (t.update info).toTable = t.toTable.updateWhere
      (fun r => decide (r .id = .integer info.id)) (buildValues info) := by
  simp only [toTable, Table.updateWhere, update_rows, List.map_map, Table.mk.injEq, true_and]
  apply List.map_congr_left
  intro r _
  by_cases hid : r.id = info.id <;> simp [hid, DownloadRow.toRow, ← DownloadRow.toRow_put]

/-- `updateResumeData` is an `UPDATE` of one column, of the rows with a hash. -/
theorem toTable_updateResumeData (t : DownloadsTable) (hash : String) (resumeData : List UInt8) :
    (t.updateResumeData hash resumeData).toTable = t.toTable.updateWhere
      (fun r => match r .torrentHash with
        | .text s => nocaseEq s hash
        | _ => false) [(.resumeData, .blob resumeData)] := by
  simp only [toTable, Table.updateWhere, updateResumeData_rows, List.map_map, Table.mk.injEq,
    true_and]
  apply List.map_congr_left
  intro r _
  have hput : DownloadRow.toRow { r with resumeData := some resumeData }
      = r.toRow.put [(.resumeData, .blob resumeData)] := by
    ext c : 1
    cases c <;> rfl
  -- a row without a hash is `NULL` there, and is not selected
  cases hhash : r.torrentHash with
  | none => simp [DownloadRow.hasHash, DownloadRow.toRow, hhash, Value.ofText]
  | some s =>
    rw [Function.comp_apply, Function.comp_apply, ← hput]
    by_cases heq : nocaseEq s hash <;>
      simp [DownloadRow.hasHash, DownloadRow.toRow, hhash, Value.ofText, heq]

/-- `delete` is a `DELETE` of the row with an id. -/
theorem toTable_delete (t : DownloadsTable) (info : DownloadInfo) :
    (t.delete info).toTable = t.toTable.deleteWhere
      (fun r => decide (r .id = .integer info.id)) := by
  simp only [toTable, Table.deleteWhere, delete_rows, List.filter_map, Table.mk.injEq, true_and]
  congr 1
  apply List.filter_congr
  intro r _
  simp [DownloadRow.toRow]

end DownloadsTable

end PopcornTime.Android
