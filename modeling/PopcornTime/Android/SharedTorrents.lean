import PopcornTime.Lib.Machine
import PopcornTime.Android.DownloadsAdd
import PopcornTime.Android.TorrentSession

namespace PopcornTime.Android

open PopcornTime Downloads TorrentUtil DownloadsClient

/-!
# Android downloads — rows that share a torrent

Adds run to their end, watches, removals, pieces and the state checks of the list, on one table
and one session.  `added` is a ghost: the key under which the add of a row got its torrent.

* `DownloadsState.Wanted` — the torrent of every row in state `DOWNLOADING` downloads its file.
* `DownloadsState.FinishedRight` — a row is marked `FINISHED` only if its own file is had.
* `DownloadsState.wanted_of_guard` — both hold as long as no call selects another file of such a
  torrent, or removes it.
-/

/-- The torrents there are, and `urlSelects`' parameter. -/
structure SharedSetup extends Catalogue where
  selectsOther : String → DownloadRow → Bool

structure DownloadsState where
  table : DownloadsTable
  session : Session
  lastTorrent : String
  added : ℤ → Option String

/-- A call of `downloadsAdd`, with what its torrents load and the file system meanwhile. -/
structure AddRequest where
  info : DownloadInfo
  loads : String → Option (ℕ → Bool)
  files : MetadataFiles

/-- A `WatchTask`; `stopped` says whether it ends with an exception behind the selection of its
    file. -/
structure WatchRequest where
  downloadsId : ℤ
  torrentFilePath : Option String
  torrentUrl : Option String
  torrentMagnet : Option String
  fileName : Option String
  loads : String → Option (ℕ → Bool)
  stopped : Bool

/-- `WatchInfo.isDownloads` -/
def WatchRequest.isDownloads (w : WatchRequest) : Bool :=
  decide (0 < w.downloadsId)

inductive DownloadsEvent
  | add (d : AddRequest)
  | remove (id : ℤ)
  | watch (w : WatchRequest)
  /-- The torrent watched last is given up, for another watch or at the exit. -/
  | dropLast
  | finishPiece (hash : String) (piece : ℕ)
  /-- `checkState` of a row, with the state the session reports. -/
  | check (id : ℤ) (reported : ℤ)

namespace DownloadsAdapter

/-- `checkState`: the object afterwards, and whether it is marked and written. -/
def checkState (E : Catalogue) (S : Session) (info : DownloadInfo) (reported : ℤ) :
    DownloadInfo × Bool :=
  let torrentFile := getAvailableTorrentFile (S.hasMetadata E) info.torrentFilePath
    info.torrentUrl info.torrentMagnet
  let progressSizeMB := torrentFile.elim 0 (S.getDownloadSizeMb E)
  -- a size that is not known yet does not count against it
  let fileSizeMB := max (info.size.tdiv SIZE_MB) progressSizeMB
  if (info.state = TorrentState.DOWNLOADING ∨ info.state = TorrentState.PAUSED) ∧
      isEmpty torrentFile = false ∧
      (reported = TorrentState.FINISHED ∨ reported = TorrentState.SEEDING) ∧
      0 < fileSizeMB ∧ fileSizeMB ≤ progressSizeMB then
    ({ info with state := TorrentState.FINISHED }, true)
  else (info, false)

end DownloadsAdapter

namespace DownloadsState

/-- The key under which the torrent of an object is found. -/
def found (E : Catalogue) (s : DownloadsState) (info : DownloadInfo) : Option String :=
  getAvailableTorrentFile (s.session.hasMetadata E) info.torrentFilePath info.torrentUrl
    info.torrentMagnet

/-- What an add meets. -/
def circumstances (E : SharedSetup) (s : DownloadsState) (d : AddRequest) (loading : Loading) :
    AddCircumstances where
  lastTorrent := s.lastTorrent
  lastTorrentName :=
    if s.session.hasMetadata E.toCatalogue s.lastTorrent then
      E.torrentName (E.hash s.lastTorrent)
    else none
  loading := loading
  files := d.files
  selectsOther := E.selectsOther

/-- The download is the one watched last. -/
def Adopts (s : DownloadsState) (info : DownloadInfo) : Prop :=
  s.lastTorrent ≠ "" ∧
    (some s.lastTorrent = info.torrentUrl ∨ some s.lastTorrent = info.torrentMagnet)

instance (s : DownloadsState) (info : DownloadInfo) : Decidable (s.Adopts info) :=
  inferInstanceAs (Decidable (_ ∧ _))

/-- The session behind the torrent watched last. -/
def adoptSession (E : Catalogue) (s : DownloadsState) (info : DownloadInfo) : Session :=
  if s.Adopts info then s.session.removeTorrent E s.lastTorrent else s.session

/-- `addTorrent` and `setFilePriority` of a thread: the key, the file and the session. -/
def selectTorrent (E : Catalogue) (S : Session) (loads : String → Option (ℕ → Bool))
    (file url magnet fileName : Option String) (priority : ℤ) :
    Option String × Option FileEntry × Session :=
  match S.addTorrent E loads file url magnet with
  | (none, S) => (none, none, S)
  | (some key, S) => (some key, S.setFilePriority E key fileName priority)

/-- `downloadsAdd` and the run of its thread. -/
def add (E : SharedSetup) (s : DownloadsState) (d : AddRequest) : DownloadsState :=
  let info := adoptLastTorrent (s.circumstances E d .failed) d.info
  let (key, video, session) := selectTorrent E.toCatalogue (s.adoptSession E.toCatalogue d.info)
    d.loads info.torrentFilePath info.torrentUrl info.torrentMagnet info.fileName
    TorrentPriority.NORMAL
  let loading : Loading := match key with
    | none => .failed
    | some key => .loaded (E.torrentName (E.hash key)) (E.files (E.hash key))
  { table := downloadsAdd (s.circumstances E d loading) d.info s.table
    session := session
    -- a torrent that is adopted is not given up later
    lastTorrent := if s.Adopts d.info then "" else s.lastTorrent
    added := Function.update s.added s.table.nextId (video.bind fun _ => key) }

/-- `downloadsRemove` of a row as the list shows it. -/
def remove (E : Catalogue) (s : DownloadsState) (r : DownloadRow) : DownloadsState :=
  let info := populate r
  { s with
    session := match s.found E info with
      | none => s.session
      | some key => s.session.removeTorrent E key
    table := s.table.delete info }

/-- `WatchTask.run` up to its loop.  After an exception a watch that is no download removes its
    torrent. -/
def watch (E : Catalogue) (s : DownloadsState) (w : WatchRequest) : DownloadsState :=
  match selectTorrent E s.session w.loads w.torrentFilePath w.torrentUrl w.torrentMagnet w.fileName
      TorrentPriority.MAXIMUM with
  | (none, _, session) => { s with session := session }
  | (some key, video, session) =>
    { s with
      session :=
        if (video = none ∨ w.stopped = true) ∧ w.isDownloads = false then
          session.removeTorrent E key
        else session
      lastTorrent := if w.isDownloads then s.lastTorrent else key }

/-- `finished` and `seeding` are reported only of a torrent whose wanted pieces are had. -/
def ReportedRight (E : Catalogue) (s : DownloadsState) (info : DownloadInfo) (reported : ℤ) :
    Prop :=
  reported = TorrentState.FINISHED ∨ reported = TorrentState.SEEDING →
    ∀ key ∈ s.found E info, ∀ t ∈ s.session.torrentOf E key, Session.Finished E (E.hash key) t

instance (E : Catalogue) (s : DownloadsState) (info : DownloadInfo) (reported : ℤ) :
    Decidable (s.ReportedRight E info reported) :=
  inferInstanceAs (Decidable (_ → _))

def next (E : SharedSetup) (s : DownloadsState) : DownloadsEvent → Option DownloadsState
  | .add d => some (s.add E d)
  | .remove id => (s.table.find id).map (s.remove E.toCatalogue)
  | .watch w => some (s.watch E.toCatalogue w)
  | .dropLast =>
    if s.lastTorrent = "" then none
    else some
      { s with
        session := s.session.removeTorrent E.toCatalogue s.lastTorrent
        lastTorrent := "" }
  | .finishPiece hash piece => some { s with session := s.session.finishPiece hash piece }
  | .check id reported =>
    match s.table.find id with
    | none => none
    | some r =>
      if s.ReportedRight E.toCatalogue (populate r) reported then
        let (info, marked) :=
          DownloadsAdapter.checkState E.toCatalogue s.session (populate r) reported
        some { s with table := if marked then s.table.update info else s.table }
      else none

/-- Any table and any session; no add of the run has succeeded yet. -/
def machine (E : SharedSetup) : Machine DownloadsState DownloadsEvent :=
  Machine.ofFun (fun s => s.session.Sized E.toCatalogue ∧ s.added = fun _ => none) (next E)

/-! ### What should hold -/

/-- A row in state `DOWNLOADING` whose add got its torrent under a key. -/
def Downloading (s : DownloadsState) (r : DownloadRow) (key : String) : Prop :=
  r ∈ s.table.rows ∧ r.state = TorrentState.DOWNLOADING ∧ s.added r.id = some key

/-- Every such row has its torrent in the service, with a priority for its own file. -/
def Wanted (E : Catalogue) (s : DownloadsState) : Prop :=
  ∀ r key, s.Downloading r key → s.session.Wants E key r.fileName

/-- Every piece of the row's own file is had. -/
def OwnFileHad (E : Catalogue) (s : DownloadsState) (r : DownloadRow) : Prop :=
  ∀ key ∈ s.found E (populate r), ∀ t ∈ s.session.torrentOf E key, ∀ index entry,
    selectFile (E.files (E.hash key)) r.fileName = some (index, entry) →
      E.Complete (E.hash key) t.had index

/-- A step that marks a row finds its own file had. -/
def FinishedRight (E : Catalogue) (s s' : DownloadsState) (id : ℤ) : Prop :=
  ∀ r r', s.table.find id = some r → s'.table.find id = some r' →
    r.state ≠ TorrentState.FINISHED → r'.state = TorrentState.FINISHED → s.OwnFileHad E r

/-! ### When it does -/

/-- Every downloading row of a key's torrent wants the file of this name. -/
def SameFile (E : Catalogue) (s : DownloadsState) (key : String) (fileName : Option String) :
    Prop :=
  ∀ r key', s.Downloading r key' → E.hash key' = E.hash key →
    selectFile (E.files (E.hash key)) r.fileName = selectFile (E.files (E.hash key)) fileName

/-- No downloading row, but perhaps one, is of a key's torrent. -/
def Unused (E : Catalogue) (s : DownloadsState) (key : String) (but : Option ℤ) : Prop :=
  ∀ r key', s.Downloading r key' → some r.id ≠ but → E.hash key' ≠ E.hash key

/-- When a call leaves the other rows alone.
    * An add and a watch: no downloading row has another file of a torrent their keys name.
    * A removal, of a row or of the torrent watched last: no downloading row but the removed one is
      of that torrent.  A watch that is no download removes its torrent where it stops.
    * A state check: a row that is not downloading from the torrent found for it has its own file
      wanted or had there. -/
def Guard (E : SharedSetup) (s : DownloadsState) : DownloadsEvent → Prop
  | .add d =>
    (s.Adopts d.info → s.Unused E.toCatalogue s.lastTorrent none) ∧
    ∀ key, some key ∈ [(adoptLastTorrent (s.circumstances E d .failed) d.info).torrentFilePath,
      d.info.torrentUrl, d.info.torrentMagnet] → s.SameFile E.toCatalogue key d.info.fileName
  | .remove id => ∀ r, s.table.find id = some r →
      ∀ key ∈ s.found E.toCatalogue (populate r), s.Unused E.toCatalogue key (some id)
  | .watch w => ∀ key, some key ∈ [w.torrentFilePath, w.torrentUrl, w.torrentMagnet] →
      s.SameFile E.toCatalogue key w.fileName ∧
        (w.isDownloads = false → w.stopped = true ∨ E.files (E.hash key) = [] →
          s.Unused E.toCatalogue key none)
  | .dropLast => s.Unused E.toCatalogue s.lastTorrent none
  | .finishPiece _ _ => True
  | .check id _ => ∀ r, s.table.find id = some r →
      ∀ key ∈ s.found E.toCatalogue (populate r), s.Downloading r key ∨
        s.session.Wants E.toCatalogue key r.fileName ∨ s.OwnFileHad E.toCatalogue r

/-! ### The rows after an add -/

/-- A row is one there was, in the columns that matter, or the new one. -/
def FromAdd (t : DownloadsTable) (fileName : Option String) (r' : DownloadRow) : Prop :=
  (∃ r ∈ t.rows, r.id = r'.id ∧ r.state = r'.state ∧ r.fileName = r'.fileName) ∨
    (r'.id = t.nextId ∧ r'.fileName = fileName)

theorem fromAdd_insert {t : DownloadsTable} {info : DownloadInfo} {r' : DownloadRow}
    (h : r' ∈ (t.insert info).rows) : FromAdd t info.fileName r' := by
  rw [DownloadsTable.insert_rows, List.mem_append, List.mem_singleton] at h
  rcases h with hmem | rfl
  · exact .inl ⟨r', hmem, rfl, rfl, rfl⟩
  · exact .inr ⟨rfl, rfl⟩

/-- The thread writes back what it has read, but for path and size. -/
theorem fromAdd_loaded {t : DownloadsTable} {info : DownloadInfo} {r r' : DownloadRow}
    {torrentName : Option String} {files : MetadataFiles} {video : FileEntry}
    (hr : r ∈ (t.insert info).rows)
    (h : r' ∈ ((t.insert info).update
      (AddToDownloadsThread.loaded torrentName files video (populate r)).1).rows) :
    FromAdd t info.fileName r' := by
  obtain ⟨size, hloaded⟩ :=
    AddToDownloadsThread.loaded_fst_eq torrentName files video (populate r)
  obtain ⟨r₀, hr₀, ⟨hid, rfl⟩ | ⟨-, rfl⟩⟩ := DownloadsTable.mem_update h
  · have hsame : r₀ = r := by
      refine DownloadsTable.eq_of_id_eq hr₀ hr ?_
      rw [hid, hloaded]
      rfl
    subst hsame
    have hfrom : FromAdd t info.fileName r₀ := fromAdd_insert hr₀
    rw [hloaded]
    exact hfrom
  · exact fromAdd_insert hr₀

/-- After an add, every row in state `DOWNLOADING` is one there was or the new one. -/
theorem fromAdd_downloadsAdd {c : AddCircumstances} {info : DownloadInfo} {t : DownloadsTable}
    {r' : DownloadRow} (h : r' ∈ (downloadsAdd c info t).rows)
    (hstate : r'.state = TorrentState.DOWNLOADING) : FromAdd t info.fileName r' := by
  have hname : (adoptLastTorrent c info).fileName = info.fileName := adoptLastTorrent_fileName
  rw [← hname]
  simp only [downloadsAdd, AddToDownloadsThread.run] at h
  generalize adoptLastTorrent c info = info' at h ⊢
  cases hloading : c.loading with
  | failed =>
    rw [hloading] at h
    obtain ⟨r₀, hr₀, ⟨-, rfl⟩ | ⟨-, rfl⟩⟩ := DownloadsTable.mem_update h
    · -- what the failed thread has written is in error
      exact absurd hstate (show TorrentState.ERROR ≠ TorrentState.DOWNLOADING by decide)
    · exact fromAdd_insert hr₀
  | loaded torrentName files =>
    simp only [hloading] at h
    cases hfile : selectFile files info'.fileName with
    | none =>
      simp only [hfile, DownloadsTable.delete_rows] at h
      exact fromAdd_insert (List.mem_of_mem_filter h)
    | some selected =>
      simp only [hfile] at h
      -- the thread looks for the row by its URL and may come upon another one
      cases hfind : (t.insert info').rows.find?
          (urlSelects c.selectsOther info'.torrentUrl) with
      | none =>
        rw [hfind] at h
        exact fromAdd_insert h
      | some r =>
        rw [hfind] at h
        dsimp only at h
        split_ifs at h
        · exact fromAdd_loaded (List.mem_of_find?_eq_some hfind) h
        · exact fromAdd_insert h

/-! ### One step -/

section Steps

variable {E : Catalogue} {S : Session}

/-- What a thread comes to: no torrent, or one whose key is one of the three, of which it selects a
    file. -/
theorem selectTorrent_cases {loads : String → Option (ℕ → Bool)}
    {file url magnet fileName key : Option String} {priority : ℤ} {video : Option FileEntry}
    {S' : Session}
    (h : selectTorrent E S loads file url magnet fileName priority = (key, video, S')) :
    (key = none ∧ S' = (S.addTorrent E loads file url magnet).2) ∨
      ∃ k, key = some k ∧ some k ∈ [file, url, magnet] ∧
        (∃ t, (S.addTorrent E loads file url magnet).2.torrentOf E k = some t) ∧
        (S.addTorrent E loads file url magnet).2.setFilePriority E k fileName priority =
          (video, S') := by
  unfold selectTorrent at h
  have hexists : ∀ k, (S.addTorrent E loads file url magnet).1 = some k →
      some k ∈ [file, url, magnet] ∧
        ∃ t, (S.addTorrent E loads file url magnet).2.torrentOf E k = some t :=
    fun _ => Session.exists_torrentOf_addTorrent
  cases hadd : S.addTorrent E loads file url magnet with
  | mk key' S₁ =>
    rw [hadd] at h hexists
    cases key' with
    | none =>
      simp only [Prod.mk.injEq] at h
      exact .inl ⟨h.1.symm, h.2.2.symm⟩
    | some k =>
      simp only [Prod.mk.injEq] at h
      obtain ⟨rfl, hset⟩ := h
      -- the key was tried and the session has its torrent
      exact .inr ⟨k, rfl, (hexists k rfl).1, (hexists k rfl).2, hset⟩

/-- What `addTorrent` and `setFilePriority` of a thread do: the key is one of the three, the file
    that is selected is wanted, and nothing is selected only in a torrent without files. -/
theorem selectTorrent_spec (hsized : S.Sized E) {loads : String → Option (ℕ → Bool)}
    {file url magnet fileName key : Option String} {priority : ℤ} (hpriority : priority ≠ 0)
    {video : Option FileEntry} {S' : Session}
    (h : selectTorrent E S loads file url magnet fileName priority = (key, video, S')) :
    S'.Sized E ∧ ∀ k, key = some k → some k ∈ [file, url, magnet] ∧
      (video = none → E.files (E.hash k) = []) ∧ (video ≠ none → S'.Wants E k fileName) := by
  have hsized' := hsized.addTorrent loads file url magnet
  obtain ⟨rfl, rfl⟩ | ⟨k, rfl, hmem, ⟨t, ht⟩, hset⟩ := selectTorrent_cases h
  · exact ⟨hsized', by simp⟩
  · have hvideo : _ = video := congrArg Prod.fst hset
    have hsession : _ = S' := congrArg Prod.snd hset
    refine ⟨hsession ▸ hsized'.setFilePriority k fileName priority, ?_⟩
    rintro _ ⟨⟩
    refine ⟨hmem, ?_, ?_⟩
    · rintro rfl
      exact Session.files_eq_nil_of_setFilePriority ht hvideo
    · intro hsome
      obtain ⟨entry, hentry⟩ := Option.ne_none_iff_exists'.mp hsome
      exact hsession ▸ Session.wants_setFilePriority hsized' hpriority (hvideo.trans hentry)

/-- What was wanted stays so, unless another file of its torrent is selected. -/
theorem selectTorrent_wants (hsized : S.Sized E) {loads : String → Option (ℕ → Bool)}
    {file url magnet fileName fileName' key : Option String} {key' : String} {priority : ℤ}
    (hpriority : priority ≠ 0) {video : Option FileEntry} {S' : Session}
    (h : selectTorrent E S loads file url magnet fileName priority = (key, video, S'))
    (hwants : S.Wants E key' fileName')
    (hsame : ∀ k, some k ∈ [file, url, magnet] → E.hash key' = E.hash k →
      selectFile (E.files (E.hash k)) fileName' = selectFile (E.files (E.hash k)) fileName) :
    S'.Wants E key' fileName' := by
  have hsized' := hsized.addTorrent loads file url magnet
  have hwants' := hwants.addTorrent loads file url magnet
  obtain ⟨rfl, rfl⟩ | ⟨k, rfl, hmem, -, hset⟩ := selectTorrent_cases h
  · exact hwants'
  · have hsession : _ = S' := congrArg Prod.snd hset
    -- another torrent is not touched, and the same one keeps the file
    exact hsession ▸ hwants'.setFilePriority hsized' hpriority (hsame k hmem)

end Steps

/-- The invariant of the runs under the guard. -/
structure Inv (E : Catalogue) (s : DownloadsState) : Prop where
  wanted : s.Wanted E
  sized : s.session.Sized E

section Events

variable {E : SharedSetup} {s : DownloadsState}

/-- The torrent watched last is removed at most where no downloading row is of it. -/
theorem Inv.adoptSession (h : Inv E.toCatalogue s) {info : DownloadInfo}
    (hguard : s.Adopts info → s.Unused E.toCatalogue s.lastTorrent none) :
    (s.adoptSession E.toCatalogue info).Sized E.toCatalogue ∧
      ∀ r key, s.Downloading r key →
        (s.adoptSession E.toCatalogue info).Wants E.toCatalogue key r.fileName := by
  unfold DownloadsState.adoptSession
  split_ifs with hadopts
  · refine ⟨h.sized.removeTorrent _, fun r key hr => ?_⟩
    exact (h.wanted r key hr).removeTorrent (hguard hadopts r key hr (by simp))
  · exact ⟨h.sized, h.wanted⟩

theorem Inv.add (h : Inv E.toCatalogue s) {d : AddRequest} (hguard : s.Guard E (.add d)) :
    Inv E.toCatalogue (s.add E d) := by
  obtain ⟨hadopts, hsame⟩ := hguard
  obtain ⟨hsized₁, hwanted₁⟩ := h.adoptSession hadopts
  have hpriority : TorrentPriority.NORMAL ≠ 0 := by decide
  unfold DownloadsState.add
  generalize hinfo : adoptLastTorrent (s.circumstances E d .failed) d.info = info
  rw [hinfo] at hsame
  have hname : info.fileName = d.info.fileName := hinfo ▸ adoptLastTorrent_fileName
  have hurl : info.torrentUrl = d.info.torrentUrl := hinfo ▸ adoptLastTorrent_torrentUrl
  have hmagnet : info.torrentMagnet = d.info.torrentMagnet :=
    hinfo ▸ adoptLastTorrent_torrentMagnet
  dsimp only
  rw [hname, hurl, hmagnet]
  cases hselect : selectTorrent E.toCatalogue (s.adoptSession E.toCatalogue d.info) d.loads
      info.torrentFilePath d.info.torrentUrl d.info.torrentMagnet d.info.fileName
      TorrentPriority.NORMAL with
  | mk key rest =>
    obtain ⟨video, session⟩ := rest
    obtain ⟨hsized, hspec⟩ := selectTorrent_spec hsized₁ hpriority hselect
    refine ⟨?_, hsized⟩
    rintro r' key' ⟨hr', hstate, hadded⟩
    change Function.update s.added s.table.nextId (video.bind fun _ => key) r'.id = some key'
      at hadded
    rcases fromAdd_downloadsAdd hr' hstate with ⟨r, hr, hid, hsamestate, hfile⟩ | ⟨hid, hfile⟩
    · -- a row there was: its torrent is as it was, or has got the same file
      have hold : r'.id ≠ s.table.nextId := hid ▸ ne_of_lt (DownloadsTable.lt_nextId hr)
      rw [Function.update_of_ne hold, ← hid] at hadded
      have hdown : s.Downloading r key' := ⟨hr, hsamestate.trans hstate, hadded⟩
      rw [← hfile]
      exact selectTorrent_wants hsized₁ hpriority hselect (hwanted₁ r key' hdown)
        fun k hk hhash => hsame k hk r key' hdown hhash
    · -- the new row: its file was selected
      rw [hid, Function.update_self] at hadded
      obtain ⟨entry, hentry, hkey⟩ := Option.bind_eq_some_iff.mp hadded
      rw [hfile]
      exact (hspec key' hkey).2.2 (by simp [hentry])

theorem Inv.remove (h : Inv E.toCatalogue s) {id : ℤ} {r : DownloadRow}
    (hfind : s.table.find id = some r) (hguard : s.Guard E (.remove id)) :
    Inv E.toCatalogue (s.remove E.toCatalogue r) := by
  have hid : r.id = id := (DownloadsTable.find_eq_some.mp hfind).2
  -- the rows that stay are other rows
  have hother : ∀ r' key, (s.remove E.toCatalogue r).Downloading r' key →
      s.Downloading r' key ∧ some r'.id ≠ some id := by
    rintro r' key ⟨hr', hstate, hadded⟩
    obtain ⟨hmem, hne⟩ := List.mem_filter.mp hr'
    refine ⟨⟨hmem, hstate, hadded⟩, ?_⟩
    rw [decide_eq_true_eq] at hne
    rw [ne_eq, Option.some.injEq, ← hid]
    exact hne
  cases hfound : s.found E.toCatalogue (populate r) with
  | none =>
    have hsession : (s.remove E.toCatalogue r).session = s.session := by
      simp only [DownloadsState.remove, hfound]
    refine ⟨fun r' key hr' => ?_, hsession ▸ h.sized⟩
    rw [hsession]
    exact h.wanted r' key (hother r' key hr').1
  | some key =>
    have hsession : (s.remove E.toCatalogue r).session
        = s.session.removeTorrent E.toCatalogue key := by
      simp only [DownloadsState.remove, hfound]
    refine ⟨fun r' key' hr' => ?_, hsession ▸ h.sized.removeTorrent key⟩
    obtain ⟨hdown, hne⟩ := hother r' key' hr'
    rw [hsession]
    exact (h.wanted r' key' hdown).removeTorrent (hguard r hfind key hfound r' key' hdown hne)

theorem Inv.watch (h : Inv E.toCatalogue s) {w : WatchRequest} (hguard : s.Guard E (.watch w)) :
    Inv E.toCatalogue (s.watch E.toCatalogue w) := by
  have hpriority : TorrentPriority.MAXIMUM ≠ 0 := by decide
  unfold DownloadsState.watch
  cases hselect : selectTorrent E.toCatalogue s.session w.loads w.torrentFilePath w.torrentUrl
      w.torrentMagnet w.fileName TorrentPriority.MAXIMUM with
  | mk key rest =>
    obtain ⟨video, session⟩ := rest
    obtain ⟨hsized, hspec⟩ := selectTorrent_spec h.sized hpriority hselect
    have hwanted : ∀ r key', s.Downloading r key' →
        session.Wants E.toCatalogue key' r.fileName := fun r key' hr =>
      selectTorrent_wants h.sized hpriority hselect (h.wanted r key' hr)
        fun k hk hhash => (hguard k hk).1 r key' hr hhash
    cases key with
    | none => exact ⟨hwanted, hsized⟩
    | some key =>
      obtain ⟨hmem, hnone, -⟩ := hspec key rfl
      dsimp only
      -- a watch that ends takes away a torrent that is no download
      by_cases hstops : (video = none ∨ w.stopped = true) ∧ w.isDownloads = false
      · rw [if_pos hstops]
        obtain ⟨hended, hdownloads⟩ := hstops
        have hunused : s.Unused E.toCatalogue key none :=
          (hguard key hmem).2 hdownloads (hended.symm.imp_right hnone)
        refine ⟨fun r key' hr => ?_, hsized.removeTorrent key⟩
        exact (hwanted r key' hr).removeTorrent (hunused r key' hr (by simp))
      · rw [if_neg hstops]
        exact ⟨hwanted, hsized⟩

/-- A row that is marked has a torrent that is reported as finished or seeding. -/
theorem checkState_spec {S : Session} {info : DownloadInfo} {reported : ℤ}
    (h : (DownloadsAdapter.checkState E.toCatalogue S info reported).2 = true) :
    (DownloadsAdapter.checkState E.toCatalogue S info reported).1
        = { info with state := TorrentState.FINISHED } ∧
      (reported = TorrentState.FINISHED ∨ reported = TorrentState.SEEDING) := by
  unfold DownloadsAdapter.checkState at h ⊢
  dsimp only at h ⊢
  split_ifs at h ⊢ with hmarks
  exact ⟨rfl, hmarks.2.2.1⟩

/-- The table behind a check: the row is written if the adapter has marked it. -/
def checked (s : DownloadsState) (result : DownloadInfo × Bool) : DownloadsTable :=
  if result.2 = true then s.table.update result.1 else s.table

/-- A check reads the row anew, and writes what the adapter has made of it. -/
theorem check_cases {s' : DownloadsState} {id reported : ℤ}
    (hstep : s.next E (.check id reported) = some s') :
    ∃ r, s.table.find id = some r ∧ s.ReportedRight E.toCatalogue (populate r) reported ∧
      s' = { s with
        table := s.checked
          (DownloadsAdapter.checkState E.toCatalogue s.session (populate r) reported) } := by
  simp only [next] at hstep
  cases hfind : s.table.find id with
  | none => simp [hfind] at hstep
  | some r =>
    simp only [hfind] at hstep
    by_cases hreported : s.ReportedRight E.toCatalogue (populate r) reported
    · rw [if_pos hreported, Option.some.injEq] at hstep
      exact ⟨r, rfl, hreported, hstep.symm⟩
    · simp [hreported] at hstep

theorem Inv.check (h : Inv E.toCatalogue s) {s' : DownloadsState} {id reported : ℤ}
    (hstep : s.next E (.check id reported) = some s') : Inv E.toCatalogue s' := by
  obtain ⟨r, -, -, rfl⟩ := check_cases hstep
  refine ⟨?_, h.sized⟩
  rintro r' key ⟨hr', hstate, hadded⟩
  dsimp only [checked] at hr'
  split_ifs at hr' with hmarked
  · rw [(checkState_spec hmarked).1] at hr'
    obtain ⟨r₀, hr₀, ⟨-, rfl⟩ | ⟨-, rfl⟩⟩ := DownloadsTable.mem_update hr'
    · -- the row that was marked is no longer downloading
      exact absurd hstate (show TorrentState.FINISHED ≠ TorrentState.DOWNLOADING by decide)
    · exact h.wanted r' key ⟨hr₀, hstate, hadded⟩
  · exact h.wanted r' key ⟨hr', hstate, hadded⟩

/-- What is wanted of a finished torrent is had. -/
theorem complete_of_wants {key : String} {fileName : Option String} {t : LiveTorrent}
    (hwants : s.session.Wants E.toCatalogue key fileName)
    (ht : s.session.torrentOf E.toCatalogue key = some t)
    (hfinished : Session.Finished E.toCatalogue (E.hash key) t) {index : ℕ} {entry : FileEntry}
    (hselect : selectFile (E.files (E.hash key)) fileName = some (index, entry)) :
    E.Complete (E.hash key) t.had index := by
  obtain ⟨t', ht', index', entry', hselect', hpriority⟩ := hwants
  rw [ht, Option.some.injEq] at ht'
  rw [hselect, Option.some.injEq, Prod.mk.injEq] at hselect'
  obtain ⟨rfl, -⟩ := hselect'
  subst ht'
  refine hfinished index (List.mem_range.mpr ?_) hpriority
  exact (List.getElem?_eq_some_iff.mp (selectFile_eq_some hselect)).1

theorem Inv.finishedRight (h : Inv E.toCatalogue s) {s' : DownloadsState} {id reported : ℤ}
    (hguard : s.Guard E (.check id reported))
    (hstep : s.next E (.check id reported) = some s') :
    s.FinishedRight E.toCatalogue s' id := by
  obtain ⟨r, hfind, hreported, rfl⟩ := check_cases hstep
  intro r₀ r' hr₀ hr' hstate hstate'
  rw [hfind, Option.some.injEq] at hr₀
  subst hr₀
  dsimp only [checked] at hr'
  split_ifs at hr' with hmarked
  · have hfinished := hreported (checkState_spec hmarked).2
    intro key hkey t ht index entry hselect
    -- a download that runs wants its file, so a finished torrent has it
    rcases hguard r hfind key hkey with hdown | hwants | hhad
    · exact complete_of_wants (h.wanted r key hdown) ht (hfinished key hkey t ht) hselect
    · exact complete_of_wants hwants ht (hfinished key hkey t ht) hselect
    · exact hhad key hkey t ht index entry hselect
  · rw [hfind, Option.some.injEq] at hr'
    exact absurd (hr' ▸ hstate') hstate

theorem Inv.step (h : Inv E.toCatalogue s) {s' : DownloadsState} {e : DownloadsEvent}
    (hguard : s.Guard E e) (hstep : s.next E e = some s') : Inv E.toCatalogue s' := by
  cases e with
  | add d =>
    simp only [next, Option.some.injEq] at hstep
    exact hstep ▸ h.add hguard
  | remove id =>
    simp only [next, Option.map_eq_some_iff] at hstep
    obtain ⟨r, hfind, rfl⟩ := hstep
    exact h.remove hfind hguard
  | watch w =>
    simp only [next, Option.some.injEq] at hstep
    exact hstep ▸ h.watch hguard
  | dropLast =>
    simp only [next] at hstep
    -- by the guard no download needs the last torrent
    split_ifs at hstep with hlast
    rw [Option.some.injEq] at hstep
    subst hstep
    refine ⟨fun r key hr => ?_, h.sized.removeTorrent _⟩
    exact (h.wanted r key hr).removeTorrent (hguard r key hr (by simp))
  | finishPiece hash piece =>
    simp only [next, Option.some.injEq] at hstep
    subst hstep
    exact ⟨fun r key hr => (h.wanted r key hr).finishPiece hash piece, h.sized.finishPiece _ _⟩
  | check id reported => exact h.check hstep

end Events

/-! ### Every run -/

/-- **Rows that share a torrent.**  As long as no add and no watch selects another file of a
    downloading row's torrent and no removal takes it, every downloading row keeps its torrent and
    the priority of its file, and the list marks no row whose own file is not had. -/
theorem wanted_of_guard (E : SharedSetup) :
    (∀ s, (machine E).RunUnder (fun _ => True) (Guard E) s → s.Wanted E.toCatalogue) ∧
    (∀ s id reported s', (machine E).RunUnder (fun _ => True) (Guard E) s →
      s.Guard E (.check id reported) → (machine E).step s (.check id reported) s' →
      s.FinishedRight E.toCatalogue s' id) := by
  have hinv : ∀ s, (machine E).RunUnder (fun _ => True) (Guard E) s → Inv E.toCatalogue s := by
    intro s hrun
    refine hrun.invariant ?_ fun s e s' h hguard hstep => h.step hguard hstep
    rintro s ⟨hsized, hadded⟩ -
    refine ⟨?_, hsized⟩
    rintro r key ⟨-, -, hkey⟩
    simp [hadded] at hkey
  exact ⟨fun s hrun => (hinv s hrun).wanted,
    fun s id reported s' hrun hguard hstep => (hinv s hrun).finishedRight hguard hstep⟩

/-- A season pack of two episodes, of one piece each. -/
def seasonPack : SharedSetup where
  hash := fun _ => "h"
  torrentName := fun _ => none
  files := fun _ => [⟨"e1.mp4", SIZE_MB⟩, ⟨"e2.mp4", SIZE_MB⟩]
  pieceLength := fun _ => 1024 * 1024
  selectsOther := fun _ _ => false

/-- Nothing is there. -/
def noTorrents : DownloadsState where
  table := noDownloads
  session := ⟨fun _ => none, fun _ => none, 0⟩
  lastTorrent := ""
  added := fun _ => none

theorem reachable_noTorrents : (machine seasonPack).Reachable noTorrents :=
  Machine.Reachable.start ⟨fun _ _ ht => absurd ht (by simp [noTorrents]), rfl⟩

/-- The add of an episode; no piece is had before. -/
def addEpisode (directory fileName : String) : DownloadsEvent :=
  .add
    { info :=
        { directory := directory, state := TorrentState.DOWNLOADING,
          torrentUrl := some "http://t", fileName := some fileName }
      loads := fun _ => some fun _ => false
      files := ⟨fun _ => false, fun _ => true⟩ }

/-- Both episodes are added: the first is no longer downloaded. -/
theorem first_episode_unwanted :
    ∃ s, (machine seasonPack).Reachable s ∧ ¬s.Wanted seasonPack.toCatalogue := by
  have hrun : (Machine.runEvents (next seasonPack) noTorrents
      [addEpisode "/d/1" "e1.mp4", addEpisode "/d/2" "e2.mp4"]).map
        (fun s => ((s.table.find 1).map (fun r => (r.state, r.fileName)), s.added 1,
          (s.session.torrentOf seasonPack.toCatalogue "http://t").map LiveTorrent.filePriorities))
      = some (some (TorrentState.DOWNLOADING, some "e1.mp4"), some "http://t", some [0, 1]) := by
    decide +kernel
  obtain ⟨s, hreach, heq⟩ := reachable_noTorrents.exists_of_runEvents hrun
  simp only [Prod.mk.injEq] at heq
  obtain ⟨hrow, hadded, hpriorities⟩ := heq
  obtain ⟨r, hfind, hr⟩ := Option.map_eq_some_iff.mp hrow
  simp only [Prod.mk.injEq] at hr
  obtain ⟨hmem, hid⟩ := DownloadsTable.find_eq_some.mp hfind
  obtain ⟨t, ht, hpriority⟩ := Option.map_eq_some_iff.mp hpriorities
  refine ⟨s, hreach, fun hwanted => ?_⟩
  obtain ⟨t', ht', index, entry, hselect, hne⟩ :=
    hwanted r "http://t" ⟨hmem, hr.1, hid ▸ hadded⟩
  rw [ht, Option.some.injEq] at ht'
  subst ht'
  rw [hr.2] at hselect
  have hindex : (selectFile (seasonPack.files "h") (some "e1.mp4")).map Prod.fst = some 0 := by
    decide +kernel
  rw [show seasonPack.files (seasonPack.hash "http://t") = seasonPack.files "h" from rfl] at hselect
  rw [hselect, Option.map_some, Option.some.injEq] at hindex
  change index = 0 at hindex
  -- its file has priority `0`
  rw [hindex, hpriority] at hne
  exact hne rfl

/-- **The pack goes wrong.**  With both episodes added the first is no longer downloaded, and the
    list marks it as finished as soon as the second is there. -/
theorem first_episode_finished :
    (∃ s, (machine seasonPack).Reachable s ∧ ¬s.Wanted seasonPack.toCatalogue) ∧
    ∃ s s', (machine seasonPack).Reachable s ∧
      (machine seasonPack).step s (.check 1 TorrentState.FINISHED) s' ∧
      ¬s.FinishedRight seasonPack.toCatalogue s' 1 := by
  refine ⟨first_episode_unwanted, ?_⟩
  have hrun : ((Machine.runEvents (next seasonPack) noTorrents
      [addEpisode "/d/1" "e1.mp4", addEpisode "/d/2" "e2.mp4", .finishPiece "h" 1]).bind fun s =>
      (s.table.find 1).bind fun r =>
      (s.session.torrentOf seasonPack.toCatalogue "http://t").bind fun t =>
      (s.next seasonPack (.check 1 TorrentState.FINISHED)).bind fun s' =>
      (s'.table.find 1).map fun r' =>
        (r.state, r.fileName, s.found seasonPack.toCatalogue (populate r), t.had 0, r'.state))
      = some (TorrentState.DOWNLOADING, some "e1.mp4", some "http://t", false,
          TorrentState.FINISHED) := by
    decide +kernel
  simp only [Option.bind_eq_some_iff, Option.map_eq_some_iff, Prod.mk.injEq] at hrun
  obtain ⟨s, hs, r, hfind, t, ht, s', hstep, r', hfind', hstate, hname, hfound, hmissing, hr'⟩ :=
    hrun
  refine ⟨s, s', Machine.Reachable.of_runEvents reachable_noTorrents hs, hstep, fun hright => ?_⟩
  have hne : r.state ≠ TorrentState.FINISHED := by
    rw [hstate]
    decide
  have hown : s.OwnFileHad seasonPack.toCatalogue r := hright r r' hfind hfind' hne hr'
  have hselect : selectFile (seasonPack.files (seasonPack.hash "http://t")) r.fileName
      = some (0, ⟨"e1.mp4", SIZE_MB⟩) := by
    rw [hname]
    decide +kernel
  have hcomplete := hown "http://t" (Option.mem_def.mpr hfound) t (Option.mem_def.mpr ht) 0 _ hselect
  -- the piece of the first episode is still missing
  have hhas : t.had 0 = true := hcomplete 0 (by decide +kernel) (by decide +kernel)
  rw [hmissing] at hhas
  exact Bool.false_ne_true hhas

end DownloadsState

end PopcornTime.Android
