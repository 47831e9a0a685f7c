import PopcornTime.Android.DownloadsClient

namespace PopcornTime.Android

open PopcornTime Downloads TorrentUtil

/-!
# Android downloads — the outcome of an add

`Downloads.insert` answers the uri of the new row, and nobody reads the id in it.  The add thread
goes on with the id `info` came with where it fails, and with the first row that has its url
where it succeeds.

* `DownloadsClient.AddRight` — the new row ends as it should and no other row is touched.
* `DownloadsClient.AddGuard` — when the row the thread means is the new one.
* `DownloadsClient.addRight_iff` — they are equivalent, for every table and download.
-/

/-! ### A table with one new row -/

section NewRow

variable {t : DownloadsTable} {info j : DownloadInfo}

/-- The row an insert makes. -/
abbrev DownloadsTable.newRow (t : DownloadsTable) (info : DownloadInfo) : DownloadRow :=
  .ofInfo t.nextId info

/-- What an update leaves of the new row. -/
def DownloadsTable.newRowAfter (t : DownloadsTable) (info j : DownloadInfo) : DownloadRow :=
  if t.nextId = j.id then (t.newRow info).put j else t.newRow info

theorem newRowAfter_id : (t.newRowAfter info j).id = t.nextId := by
  unfold DownloadsTable.newRowAfter
  split_ifs <;> rfl

/-- An update after an insert, of the old rows and of the new one. -/
theorem insert_update_rows :
    ((t.insert info).update j).rows = (t.update j).rows ++ [t.newRowAfter info j] := by
  rw [DownloadsTable.update_rows, DownloadsTable.insert_rows, List.map_append,
    DownloadsTable.update_rows]
  rfl

theorem update_id_ne {r : DownloadRow} (h : r ∈ (t.update j).rows) : r.id ≠ t.nextId := by
  rw [DownloadsTable.update_rows] at h
  obtain ⟨r₀, hr₀, rfl⟩ := List.mem_map.mp h
  have hlt := DownloadsTable.lt_nextId hr₀
  split_ifs <;> exact ne_of_lt hlt

/-- The rows next to the new one. -/
theorem filter_append_new {old : List DownloadRow} {new : DownloadRow} {id : ℤ}
    (hold : ∀ r ∈ old, r.id ≠ id) (hnew : new.id = id) :
    (old ++ [new]).filter (fun r => decide (r.id ≠ id)) = old := by
  rw [List.filter_append, List.filter_eq_self.mpr (fun r hr => decide_eq_true (hold r hr))]
  simp [hnew]

/-- What holds of the row with the new id holds of the new row. -/
theorem exists_append_new {old : List DownloadRow} {new : DownloadRow} {id : ℤ}
    (hold : ∀ r ∈ old, r.id ≠ id) (hnew : new.id = id) (P : DownloadRow → Prop) :
    (∃ r ∈ old ++ [new], r.id = id ∧ P r) ↔ P new := by
  constructor
  · rintro ⟨r, hr, hid, hP⟩
    rcases List.mem_append.mp hr with hmem | hmem
    · exact absurd hid (hold r hmem)
    · exact List.mem_singleton.mp hmem ▸ hP
  · intro hP
    exact ⟨new, by simp, hnew, hP⟩

/-- An update keeps every row exactly if the rows it is about have its values already. -/
theorem update_rows_eq_self :
    (t.update j).rows = t.rows ↔ ∀ r ∈ t.rows, r.id = j.id → r.put j = r := by
  rw [DownloadsTable.update_rows]
  constructor
  · intro h r hr hid
    have hmap := List.map_inj_left.mp (h.trans (List.map_id _).symm) r hr
    rwa [if_pos hid] at hmap
  · intro h
    refine (List.map_congr_left fun r hr => ?_).trans (List.map_id _)
    split_ifs with hid
    · exact h r hr hid
    · rfl

end NewRow

/-! ### What an add should do -/

namespace DownloadsClient

/-- The new row ends as the loading ended, and the other rows are those there were. -/
def AddRight (c : AddCircumstances) (info : DownloadInfo) (t : DownloadsTable) : Prop :=
  let t' := downloadsAdd c info t
  (match c.loading with
    | .failed => ∃ r ∈ t'.rows, r.id = t.nextId ∧ r.state = TorrentState.ERROR
    | .loaded torrentName files =>
      match selectFile files info.fileName with
      | none => ¬∃ r ∈ t'.rows, r.id = t.nextId
      | some (_, video) => ∃ r ∈ t'.rows, r.id = t.nextId ∧
          r.torrentFilePath = some (metadataPath torrentName (adoptLastTorrent c info)) ∧
          r.size = video.size) ∧
  t'.rows.filter (fun r => decide (r.id ≠ t.nextId)) = t.rows

/-- A row has the metadata path and the size of its video. -/
def Carries (torrentName : Option String) (video : FileEntry) (r : DownloadRow) : Prop :=
  r.torrentFilePath = some (metadataPath torrentName (populate r)) ∧ r.size = video.size

/-- The thread writes a row back: its metadata file is not there and can be written, or its size
    is unknown. -/
def WritesBack (torrentName : Option String) (files : MetadataFiles) (r : DownloadRow) : Prop :=
  (files.exist (metadataPath torrentName (populate r)) = false ∧
    files.writable (metadataPath torrentName (populate r)) = true) ∨ r.size ≤ 0

/-- When an add does what it should.
    * Without metadata: the id `info` came with is the one the insert picked, or the download was
      in error before and the row with that id has its values already.
    * Without a file: the id `info` came with is the one the insert picked.
    * Else: the query selects the new row first, and that is written or has path and size from the
      start; or the new row has them from the start, and the row that is selected in its place is
      not written or keeps its values. -/
def AddGuard (c : AddCircumstances) (info : DownloadInfo) (t : DownloadsTable) : Prop :=
  let info' := adoptLastTorrent c info
  match c.loading with
  | .failed => info.id = t.nextId ∨ (info.state = TorrentState.ERROR ∧
      ∀ r ∈ t.rows, r.id = info.id → r.put info' = r)
  | .loaded torrentName files =>
    match selectFile files info.fileName with
    | none => info.id = t.nextId
    | some (_, video) =>
      match (t.rows ++ [t.newRow info']).find? (urlSelects c.selectsOther info.torrentUrl) with
      | none => Carries torrentName video (t.newRow info')
      | some r =>
        if r.id = t.nextId then
          WritesBack torrentName c.files r ∨ Carries torrentName video r
        else
          Carries torrentName video (t.newRow info') ∧
            (WritesBack torrentName c.files r →
              Carries torrentName video r ∧ r.season ≠ none ∧ r.episode ≠ none)

/-! ### The three outcomes -/

section Outcomes

variable {c : AddCircumstances} {info : DownloadInfo} {t : DownloadsTable}

@[simp] theorem adoptLastTorrent_id : (adoptLastTorrent c info).id = info.id := by
  unfold adoptLastTorrent
  split_ifs <;> rfl

@[simp] theorem adoptLastTorrent_state : (adoptLastTorrent c info).state = info.state := by
  unfold adoptLastTorrent
  split_ifs <;> rfl

@[simp] theorem adoptLastTorrent_fileName :
    (adoptLastTorrent c info).fileName = info.fileName := by
  unfold adoptLastTorrent
  split_ifs <;> rfl

@[simp] theorem adoptLastTorrent_torrentUrl :
    (adoptLastTorrent c info).torrentUrl = info.torrentUrl := by
  unfold adoptLastTorrent
  split_ifs <;> rfl

@[simp] theorem adoptLastTorrent_torrentMagnet :
    (adoptLastTorrent c info).torrentMagnet = info.torrentMagnet := by
  unfold adoptLastTorrent
  split_ifs <;> rfl

/-- After an update of the new table: a property of the new row and the other rows. -/
theorem update_right_iff {info j : DownloadInfo} (P : DownloadRow → Prop) :
    ((∃ r ∈ ((t.insert info).update j).rows, r.id = t.nextId ∧ P r) ∧
      ((t.insert info).update j).rows.filter (fun r => decide (r.id ≠ t.nextId)) = t.rows) ↔
    P (t.newRowAfter info j) ∧ ∀ r ∈ t.rows, r.id = j.id → r.put j = r := by
  rw [insert_update_rows, exists_append_new (fun _ => update_id_ne) newRowAfter_id,
    filter_append_new (fun _ => update_id_ne) newRowAfter_id, update_rows_eq_self]

/-- A table that nothing was done to after the insert. -/
theorem insert_right_iff {info : DownloadInfo} (P : DownloadRow → Prop) :
    ((∃ r ∈ (t.insert info).rows, r.id = t.nextId ∧ P r) ∧
      (t.insert info).rows.filter (fun r => decide (r.id ≠ t.nextId)) = t.rows) ↔
    P (t.newRow info) := by
  have hold : ∀ r ∈ t.rows, r.id ≠ t.nextId := fun r hr => ne_of_lt (DownloadsTable.lt_nextId hr)
  rw [DownloadsTable.insert_rows, exists_append_new hold rfl, filter_append_new hold rfl]
  exact and_iff_left rfl

/-- No metadata. -/
theorem addRight_iff_of_failed (h : c.loading = .failed) :
    AddRight c info t ↔ AddGuard c info t := by
  simp only [AddRight, AddGuard, downloadsAdd, AddToDownloadsThread.run, h]
  rw [update_right_iff fun r => r.state = TorrentState.ERROR]
  set info' := adoptLastTorrent c info with hinfo
  have hid : (AddToDownloadsThread.failed info').1.id = info.id := adoptLastTorrent_id
  rw [hid]
  by_cases hnew : info.id = t.nextId
  · -- the object's row is the new one, and no other row has its id
    refine iff_of_true ⟨?_, ?_⟩ (.inl hnew)
    · rw [DownloadsTable.newRowAfter, hid, if_pos hnew.symm]
      rfl
    · intro r hr hr'
      exact absurd (hr'.trans hnew) (ne_of_lt (DownloadsTable.lt_nextId hr))
  · -- it writes over another row, or over none
    have hafter : t.newRowAfter info' (AddToDownloadsThread.failed info').1 = t.newRow info' := by
      rw [DownloadsTable.newRowAfter, hid, if_neg (Ne.symm hnew)]
    have hstate : (t.newRow info').state = info.state := adoptLastTorrent_state
    rw [hafter, hstate, or_iff_right hnew]
    refine and_congr_right fun herror => ?_
    have hsame : (AddToDownloadsThread.failed info').1 = info' := by
      have : info'.state = TorrentState.ERROR := adoptLastTorrent_state.trans herror
      simp [AddToDownloadsThread.failed, ← this]
    rw [hsame]

/-- A torrent without files. -/
theorem addRight_iff_of_noFile {torrentName : Option String} {files : List FileEntry}
    (h : c.loading = .loaded torrentName files) (hfile : selectFile files info.fileName = none) :
    AddRight c info t ↔ AddGuard c info t := by
  simp only [AddRight, AddGuard, downloadsAdd, AddToDownloadsThread.run, h, hfile,
    adoptLastTorrent_fileName, DownloadsTable.delete_rows, DownloadsTable.insert_rows,
    adoptLastTorrent_id]
  have hold : ∀ r ∈ t.rows, r.id ≠ t.nextId := fun r hr => ne_of_lt (DownloadsTable.lt_nextId hr)
  constructor
  · -- the new row is gone only if it is the one that was deleted
    rintro ⟨hgone, -⟩
    by_contra hne
    refine hgone ⟨t.newRow (adoptLastTorrent c info), ?_, rfl⟩
    rw [List.mem_filter]
    exact ⟨by simp, decide_eq_true (Ne.symm hne)⟩
  · intro hid
    rw [hid, filter_append_new hold rfl]
    refine ⟨?_, List.filter_eq_self.mpr fun r hr => decide_eq_true (hold r hr)⟩
    rintro ⟨r, hr, hr'⟩
    exact hold r hr hr'

theorem loaded_snd {torrentName : Option String} {files : MetadataFiles} {video : FileEntry}
    {r : DownloadRow} : (AddToDownloadsThread.loaded torrentName files video (populate r)).2 = true
      ↔ WritesBack torrentName files r := by
  simp only [AddToDownloadsThread.loaded, saveMetadata, WritesBack, Bool.and_eq_true,
    Bool.not_eq_true']
  split_ifs with h
  · exact iff_of_true rfl h
  · exact iff_of_false (by simp) h

theorem loaded_fst {torrentName : Option String} {files : MetadataFiles} {video : FileEntry}
    {r : DownloadRow} (h : WritesBack torrentName files r) :
    (AddToDownloadsThread.loaded torrentName files video (populate r)).1 =
      { populate r with
        torrentFilePath := some (metadataPath torrentName (populate r)), size := video.size } := by
  unfold AddToDownloadsThread.loaded saveMetadata
  simp only [Bool.and_eq_true, Bool.not_eq_true']
  exact congrArg Prod.fst (if_pos h)

/-- The write leaves a row as it is exactly if the row carries path and size and has a season and
    an episode. -/
theorem put_loaded_eq_self {torrentName : Option String} {files : MetadataFiles}
    {video : FileEntry} {r : DownloadRow} (h : WritesBack torrentName files r) :
    r.put (AddToDownloadsThread.loaded torrentName files video (populate r)).1 = r ↔
      Carries torrentName video r ∧ r.season ≠ none ∧ r.episode ≠ none := by
  rw [loaded_fst h]
  have hgetD : ∀ o : Option ℤ, some (o.getD 0) = o ↔ o ≠ none := by
    intro o
    cases o <;> simp
  cases r
  simp only [DownloadRow.put, populate, Carries, DownloadRow.mk.injEq, true_and, and_true, hgetD]
  constructor
  · rintro ⟨hpath, hsize, hseason, hepisode⟩
    exact ⟨⟨hpath.symm, hsize.symm⟩, hseason, hepisode⟩
  · rintro ⟨⟨hpath, hsize⟩, hseason, hepisode⟩
    exact ⟨hpath.symm, hsize.symm, hseason, hepisode⟩

/-- The row with the new id is the new row. -/
theorem eq_newRow {info : DownloadInfo} {r : DownloadRow} (h : r ∈ t.rows ++ [t.newRow info])
    (hid : r.id = t.nextId) : r = t.newRow info := by
  rcases List.mem_append.mp h with hmem | hmem
  · exact absurd hid (ne_of_lt (DownloadsTable.lt_nextId hmem))
  · exact List.mem_singleton.mp hmem

/-- The thread writes back the row it has read: the new row carries path and size exactly if it
    is that row or did before, and the frame is kept exactly if that row is the new one or keeps
    its values. -/
theorem loaded_right_iff {torrentName : Option String} {video : FileEntry} {info j : DownloadInfo}
    {r : DownloadRow} (hmem : r ∈ t.rows ++ [t.newRow info])
    (hw : WritesBack torrentName c.files r)
    (hj : j = (AddToDownloadsThread.loaded torrentName c.files video (populate r)).1) :
    (((t.newRowAfter info j).torrentFilePath = some (metadataPath torrentName info) ∧
        (t.newRowAfter info j).size = video.size) ∧
      ∀ r' ∈ t.rows, r'.id = j.id → r'.put j = r') ↔
    (r.id = t.nextId ∨ (Carries torrentName video (t.newRow info) ∧
      Carries torrentName video r ∧ r.season ≠ none ∧ r.episode ≠ none)) := by
  have hid : j.id = r.id := by
    rw [hj, loaded_fst hw]
    rfl
  by_cases hnew : r.id = t.nextId
  · rw [DownloadsTable.newRowAfter, hid, if_pos hnew.symm]
    refine iff_of_true ⟨?_, ?_⟩ (.inl hnew)
    · rw [hj, loaded_fst hw, eq_newRow hmem hnew]
      exact ⟨rfl, rfl⟩
    · intro r' hr' hr''
      exact absurd (hr''.trans hnew) (ne_of_lt (DownloadsTable.lt_nextId hr'))
  · -- an older row was selected: the new one stays as it was inserted
    have hr : r ∈ t.rows := by
      rcases List.mem_append.mp hmem with h | h
      · exact h
      · exact absurd (List.mem_singleton.mp h ▸ rfl) hnew
    rw [DownloadsTable.newRowAfter, hid, if_neg (Ne.symm hnew), or_iff_right hnew,
      ← put_loaded_eq_self hw, ← hj]
    show Carries torrentName video (t.newRow info) ∧ _ ↔ _
    refine and_congr_right fun _ => ⟨fun hall => hall r hr rfl, ?_⟩
    intro hput r' hr' hr''
    rwa [DownloadsTable.eq_of_id_eq hr' hr hr'']

/-- A torrent with a file for the download. -/
theorem addRight_iff_of_video {torrentName : Option String} {files : List FileEntry}
    {index : ℕ} {video : FileEntry} (h : c.loading = .loaded torrentName files)
    (hfile : selectFile files info.fileName = some (index, video)) :
    AddRight c info t ↔ AddGuard c info t := by
  simp only [AddRight, AddGuard, downloadsAdd, AddToDownloadsThread.run, h, hfile,
    adoptLastTorrent_torrentUrl, adoptLastTorrent_fileName, DownloadsTable.insert_rows]
  generalize adoptLastTorrent c info = info'
  -- the outcome of the new row, by the path chosen for it
  let P : DownloadRow → Prop := fun r =>
    r.torrentFilePath = some (metadataPath torrentName info') ∧ r.size = video.size
  cases hfind : (t.rows ++ [t.newRow info']).find? (urlSelects c.selectsOther info.torrentUrl) with
  | none => exact insert_right_iff P
  | some r =>
    have hmem := List.mem_of_find?_eq_some hfind
    by_cases hw : WritesBack torrentName c.files r
    · simp only [loaded_snd.mpr hw, if_true]
      refine (update_right_iff P).trans ((loaded_right_iff hmem hw rfl).trans ?_)
      split_ifs with hnew
      · exact iff_of_true (.inl hnew) (.inl hw)
      · rw [or_iff_right hnew, forall_prop_of_true hw]
    · simp only [mt loaded_snd.mp hw]
      refine (insert_right_iff P).trans ?_
      split_ifs with hnew
      · rw [or_iff_right hw, eq_newRow hmem hnew]
        exact Iff.rfl
      · exact (and_iff_left fun h => absurd h hw).symm

/-- **When an add does what it should**, for every table, every download and every outcome of
    loading its torrent. -/
theorem addRight_iff (c : AddCircumstances) (info : DownloadInfo) (t : DownloadsTable) :
    AddRight c info t ↔ AddGuard c info t := by
  cases h : c.loading with
  | failed => exact addRight_iff_of_failed h
  | loaded torrentName files =>
    cases hfile : selectFile files info.fileName with
    | none => exact addRight_iff_of_noFile h hfile
    | some entry => exact addRight_iff_of_video h hfile

end Outcomes

/-- A new download of one url, as the details page makes it. -/
def newDownload (directory : String) : DownloadInfo :=
  { directory := directory, state := TorrentState.DOWNLOADING, torrentUrl := some "http://t" }

/-- Nothing was watched before, and files can be written. -/
def freshCircumstances (loading : Loading) : AddCircumstances where
  lastTorrent := ""
  lastTorrentName := none
  loading := loading
  files := ⟨fun _ => false, fun _ => true⟩
  selectsOther := fun _ _ => false

/-- An empty table, and one with an older download of the same url. -/
def noDownloads : DownloadsTable := ⟨[], .nil⟩

def olderDownload : DownloadsTable :=
  ⟨[.ofInfo 1 (newDownload "/d/1")], List.pairwise_singleton _ _⟩

/-- **Three adds that go wrong.**  A torrent whose metadata does not load stays without the state
    `ERROR`, one without files keeps its row, and one that shares its url with an older row is
    written into that row. -/
theorem addRight_fails :
    ¬AddRight (freshCircumstances .failed) (newDownload "/d/2") noDownloads ∧
    ¬AddRight (freshCircumstances (.loaded none [])) (newDownload "/d/2") noDownloads ∧
    ¬AddRight (freshCircumstances (.loaded none [⟨"v.mp4", 7⟩])) (newDownload "/d/2")
      olderDownload := by
  refine ⟨?_, ?_, ?_⟩
  · rintro ⟨herror, -⟩
    change ∃ r ∈ (downloadsAdd (freshCircumstances .failed) (newDownload "/d/2")
      noDownloads).rows, r.id = noDownloads.nextId ∧ r.state = TorrentState.ERROR at herror
    revert herror
    decide +kernel
  · rintro ⟨hgone, -⟩
    change ¬∃ r ∈ (downloadsAdd (freshCircumstances (.loaded none [])) (newDownload "/d/2")
      noDownloads).rows, r.id = noDownloads.nextId at hgone
    revert hgone
    decide +kernel
  · rintro ⟨-, hframe⟩
    revert hframe
    decide +kernel

end DownloadsClient

end PopcornTime.Android
