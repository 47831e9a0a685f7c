import PopcornTime.Android.WatchDownloads

namespace PopcornTime.Android

open PopcornTime Downloads TorrentUtil

/-!
# Android watch — what an event does to downloads

* `WatchedDownloads.HarmlessGuard` — no call removes, pauses or moves the torrent of a download that
  has run in its directory.
* `unharmed_act` — the downloads that run behind an event: those that have run do exactly if the
  event meets the guard.  It is put together from one lemma for each call.
-/

namespace WatchedDownloads

/-- No such download is reached by a call to the handle of a key. -/
def Spares (s : WatchedDownloads) (key : String) : Prop :=
  s.Guarded fun r => s.session.spares key r = true

/-- The condition of an event.
    * A removal, of the torrent watched last, of one without metadata or at the end of a watch that
      has failed, spares every download that has run in its directory; so does a pause at the end of
      a watch, of an add, and of another download.
    * A key that is added to a directory is given the torrent of no such download of another one:
      not by the info-hash of a magnet or a file, and not by a url that the torrent has.
    * A download that is resumed is in its directory. -/
def HarmlessGuard (E : StorageSetup) (s : WatchedDownloads) : Event → Prop
  | .addWatch url magnet => s.lastTorrent ≠ "" → ¬s.IsLast url magnet → s.Spares s.lastTorrent
  | .downloadsAdd info _ _ =>
    s.lastTorrent ≠ "" → s.IsLast info.torrentUrl info.torrentMagnet → s.Spares s.lastTorrent
  | .stopWatch => ∀ w, s.current = some w → w.isAlive = false → w.torrentPaused = true →
    isEmpty w.torrentFile = false → s.Spares (w.torrentFile.getD "")
  | .fail i => ∀ w, s.tasks[i]? = some w → isEmpty w.torrentFile = false →
    (w.isDownloads = false ∨
      w.torrentPaused = true ∧ s.isWatchingNow (w.torrentFile.getD "") = false) →
    s.Spares (w.torrentFile.getD "")
  | .advance i accepted => ∀ w loader key, s.tasks[i]? = some w → w.phase = .loading loader →
    loader.nextKey = some key → s.session.adds key accepted = true →
    s.Guarded fun r => s.session.stays E.hash w.resumed key w.request.savePath r = true
  | .timeOut i | .interrupt i => ∀ w loader key, s.tasks[i]? = some w →
    w.phase = .loading loader → loader.waitsFor = some key → s.Spares key
  | .advanceAdd j accepted => ∀ a loader key, s.adds[j]? = some a → a.loader = some loader →
    loader.nextKey = some key → s.session.adds key accepted = true →
    s.Guarded fun r => s.session.stays E.hash (a.resumed E) key a.request.savePath r = true
  | .timeOutAdd j => ∀ a loader key, s.adds[j]? = some a → a.loader = some loader →
    loader.waitsFor = some key → s.Spares key
  | .finishAdd j end' => ∀ a key, s.adds[j]? = some a → a.loader = some (.done key) →
    findsPaused (addCircumstances E end' key) a.info s.table = true →
    s.isWatchingNow (key.getD "") = false → s.Spares (key.getD "")
  | .downloadsPause id => ∀ r, s.table.find id = some r → isEmpty (s.found r) = false →
    s.isWatchingNow ((s.found r).getD "") = false →
    s.Guarded fun r' => r'.id ≠ id → s.session.spares ((s.found r).getD "") r' = true
  | .downloadsResume id => ∀ r, s.table.find id = some r → r.state = TorrentState.PAUSED →
    r.id ∈ s.held → s.session.resumes (s.found r) r = true
  | .startDetails _ _ | .startDownload _ | .finish _ | .metadata _ => True

variable {E : StorageSetup} {s s' : WatchedDownloads} {key : String}

/-! ### The marks -/

/-- It is asked of the downloads that have run in their directories only. -/
theorem guarded_congr {P Q : DownloadRow → Prop}
    (h : ∀ r ∈ s.table.rows, r.state = TorrentState.DOWNLOADING → r.id ∈ s.held → (P r ↔ Q r)) :
    s.Guarded P ↔ s.Guarded Q :=
  forall₂_congr fun r hr => forall₂_congr fun hstate hheld => h r hr hstate hheld

/-- A download is marked once it runs, for as long as it is there. -/
theorem mem_held_mark {id : ℤ} : id ∈ s.mark.held ↔ ∃ r ∈ s.table.rows, r.id = id ∧
    (id ∈ s.held ∨ r.state = TorrentState.DOWNLOADING ∧ s.session.holds r = true) := by
  simp only [mark, List.mem_map, List.mem_filter, Bool.or_eq_true, decide_eq_true_eq,
    Bool.and_eq_true]
  constructor
  · rintro ⟨r, ⟨hr, hheld⟩, rfl⟩
    exact ⟨r, hr, rfl, hheld⟩
  · rintro ⟨r, hr, rfl, hheld⟩
    exact ⟨r, ⟨hr, hheld⟩, rfl⟩

/-- A download that is marked runs. -/
theorem unharmed_mark : s.mark.Unharmed ↔ s.Unharmed := by
  constructor
  · intro h r hr hstate hheld
    exact h r hr hstate (mem_held_mark.mpr ⟨r, hr, rfl, .inl hheld⟩)
  · intro h r hr hstate hmark
    obtain ⟨r', hr', hid, hheld⟩ := mem_held_mark.mp hmark
    obtain rfl := DownloadsTable.eq_of_id_eq hr' hr hid
    rcases hheld with hheld | hruns
    · exact h r' hr' hstate hheld
    · exact hruns.2

/-- A marked row has been inserted before. -/
theorem lt_nextId_of_mem_held {id : ℤ} (h : id ∈ s.mark.held) :
    id < s.mark.table.nextId := by
  obtain ⟨r, hr, rfl, -⟩ := mem_held_mark.mp h
  exact DownloadsTable.lt_nextId hr

/-- Every state of a run is marked. -/
theorem eq_mark_of_reachable (h : (machine E).Reachable s) : ∃ s₀, s = mark s₀ := by
  cases h with
  | start hinit _ =>
    obtain ⟨table, session, lastTorrent, rfl⟩ := hinit
    exact ⟨_, rfl⟩
  | next _ _ hstep =>
    obtain ⟨s₀, -, rfl⟩ := Option.map_eq_some_iff.mp hstep
    exact ⟨s₀, rfl⟩

/-! ### What a call to the session does to them -/

/-- Rows, marks and the session are all that matters. -/
theorem unharmed_of_eq (htable : s'.table = s.table) (hheld : s'.held = s.held)
    (hsession : s'.session = s.session) : s'.Unharmed ↔ s.Unharmed := by
  rw [Unharmed, Unharmed, Guarded, Guarded, htable, hheld, hsession]

/-- A removal, -/
theorem unharmed_removed (htable : s'.table = s.table) (hheld : s'.held = s.held)
    (hsession : s'.session = s.session.removeTorrent key) :
    s'.Unharmed ↔ s.Spares key := by
  rw [Unharmed, Guarded, htable, hheld, hsession]
  exact guarded_congr (s := s) fun _ _ _ _ => LiveSession.holds_removeTorrent

/-- a pause, -/
theorem unharmed_paused (htable : s'.table = s.table) (hheld : s'.held = s.held)
    (hsession : s'.session = s.session.pauseTorrent key) :
    s'.Unharmed ↔ s.Spares key := by
  rw [Unharmed, Guarded, htable, hheld, hsession]
  exact guarded_congr (s := s) fun _ _ _ _ => LiveSession.holds_pauseTorrent

/-- and an add of a key that the session accepts. -/
theorem unharmed_added {savePath : String} {resumed : Option String} {accepted : Option Bool}
    (h : s.Unharmed)
    (htable : s'.table = s.table) (hheld : s'.held = s.held)
    (hsession : s'.session = s.session.addTorrent E.hash resumed key savePath accepted) :
    s'.Unharmed ↔ (s.session.adds key accepted = true →
      s.Guarded fun r => s.session.stays E.hash resumed key savePath r = true) := by
  rw [Unharmed, Guarded, htable, hheld, hsession]
  refine Iff.trans (guarded_congr (s := s) fun r hr hstate hmem =>
    LiveSession.holds_addTorrent (h r hr hstate hmem)) ?_
  exact ⟨fun hall hadds r hr hstate hmem => hall r hr hstate hmem hadds,
    fun hall r hr hstate hmem hadds => hall hadds r hr hstate hmem⟩

/-! ### Pauses -/

/-- A pause of a torrent that is being watched leaves the session alone. -/
theorem pauseTorrent_eq (s : WatchedDownloads) (key : String) :
    ∃ tasks, s.pauseTorrent key = { s with
    tasks := tasks
    session :=
      if s.isWatchingNow key then s.session else s.session.pauseTorrent key } := by
  unfold pauseTorrent
  cases htorrent : s.session.torrents key with
  -- without a handle neither the task nor the session is touched
  | none =>
    refine ⟨s.tasks, ?_⟩
    rw [LiveSession.pauseTorrent_of_not_hasTorrent htorrent]
    simp
  | some handle =>
    simp only [Option.isSome_some, if_true]
    split_ifs with hwatch
    · exact ⟨_, rfl⟩
    · exact ⟨s.tasks, rfl⟩

/-- A pause that reaches the session. -/
theorem unharmed_pauseTorrent (h : s.Unharmed) :
    (s.pauseTorrent key).Unharmed ↔ (s.isWatchingNow key = false → s.Spares key) := by
  obtain ⟨tasks, heq⟩ := pauseTorrent_eq s key
  rw [heq]
  cases hwatch : s.isWatchingNow key with
  | true =>
    exact iff_of_true ((unharmed_of_eq rfl rfl rfl).mpr h) (by simp)
  | false =>
    refine Iff.trans (unharmed_paused (s := s) rfl rfl rfl) ?_
    exact ⟨fun hspares _ => hspares, fun hall => hall rfl⟩

/-- A pause of a key that is not empty. -/
theorem pauseNamed_eq (s : WatchedDownloads) (key : Option String) :
    ∃ tasks, s.pauseNamed key = { s with
    tasks := tasks
    session :=
      if isEmpty key = false ∧ s.isWatchingNow (key.getD "") = false then
        s.session.pauseTorrent (key.getD "")
      else s.session } := by
  unfold pauseNamed
  cases hempty : isEmpty key with
  -- nothing is called with an empty key
  | true => exact ⟨s.tasks, by simp⟩
  | false =>
    obtain ⟨tasks, heq⟩ := pauseTorrent_eq s (key.getD "")
    refine ⟨tasks, ?_⟩
    cases hwatch : s.isWatchingNow (key.getD "") with
    | true => simpa [hwatch] using heq
    | false => simpa [hwatch] using heq

/-- The rows, the marks and the torrent watched last are kept where a watch ends. -/
theorem onTaskStopped_eq (s : WatchedDownloads) (w : StoredWatch) :
    ∃ tasks, s.onTaskStopped w = { s with
    tasks := tasks
    session :=
      if w.torrentPaused = true ∧ isEmpty w.torrentFile = false ∧
          s.isWatchingNow (w.torrentFile.getD "") = false then
        s.session.pauseTorrent (w.torrentFile.getD "")
      else s.session } := by
  unfold onTaskStopped
  cases hpaused : w.torrentPaused with
  | false => exact ⟨s.tasks, by simp⟩
  | true =>
    obtain ⟨tasks, heq⟩ := pauseNamed_eq s w.torrentFile
    exact ⟨tasks, by simpa using heq⟩

/-- The end of a watch. -/
theorem unharmed_onTaskStopped {w : StoredWatch} (h : s.Unharmed)
    (htable : s'.table = s.table) (hheld : s'.held = s.held)
    (hsession : s'.session = (s.onTaskStopped w).session) :
    s'.Unharmed ↔ (w.torrentPaused = true → isEmpty w.torrentFile = false →
      s.isWatchingNow (w.torrentFile.getD "") = false →
      s.Spares (w.torrentFile.getD "")) := by
  obtain ⟨tasks, heq⟩ := onTaskStopped_eq s w
  rw [heq] at hsession
  by_cases hpause : w.torrentPaused = true ∧ isEmpty w.torrentFile = false ∧
      s.isWatchingNow (w.torrentFile.getD "") = false
  · -- the pause reaches the session
    rw [if_pos hpause] at hsession
    rw [unharmed_paused htable hheld hsession]
    exact ⟨fun hspares _ _ _ => hspares, fun hall => hall hpause.1 hpause.2.1 hpause.2.2⟩
  · -- no pause, or one that is only marked in the task
    rw [if_neg hpause] at hsession
    exact iff_of_true ((unharmed_of_eq htable hheld hsession).mpr h)
      fun hflag hfile hwatch => absurd ⟨hflag, hfile, hwatch⟩ hpause

/-! ### The calls of the pages -/

/-- A page of a video that is not the last one removes the torrent watched last. -/
theorem unharmed_addWatch {url magnet : Option String} (h : s.Unharmed) :
    (s.addWatch url magnet).Unharmed ↔ s.HarmlessGuard E (.addWatch url magnet) := by
  unfold addWatch
  show _ ↔ (s.lastTorrent ≠ "" → ¬s.IsLast url magnet → s.Spares s.lastTorrent)
  split_ifs with hlast
  · refine Iff.trans (unharmed_removed (s := s) rfl rfl rfl) ?_
    exact ⟨fun hspares _ _ => hspares, fun hall => hall hlast.1 hlast.2⟩
  · exact iff_of_true h fun hne hnot => absurd ⟨hne, hnot⟩ hlast

/-- A watch that starts does nothing to the session yet. -/
theorem unharmed_startWatch {isDownloads : Bool} {request : TorrentLoader.Request}
    {resumed : Option String} (h : s.Unharmed) :
    (s.startWatch isDownloads request resumed).Unharmed := by
  unfold startWatch
  split_ifs
  · exact h
  · exact (unharmed_of_eq (s := s) rfl rfl rfl).mpr h

/-- The interrupt changes no field that `onTaskStopped` reads. -/
theorem isWatchingNow_interrupt {i : ℕ} {w : StoredWatch} (htask : s.watchTask = some i)
    (hw : s.current = some w) (hfile : isEmpty w.torrentFile = false) :
    (s.interrupt i).isWatchingNow (w.torrentFile.getD "") = w.isAlive := by
  have hcurrent : (s.interrupt i).current = some { w with stopped := true } := by
    rw [current, htask, Option.bind_some] at hw
    simp only [current, interrupt, htask, Option.bind_some, List.getElem?_modify, if_true, hw]
    rfl
  cases hkey : w.torrentFile with
  | none => simp [hkey, isEmpty] at hfile
  | some key =>
    rw [hkey] at hfile
    simp [isWatchingNow, hcurrent, hkey, hfile, StoredWatch.isAlive]

/-- A watch that is alive is only marked; the torrent of one that has ended is paused. -/
theorem unharmed_stopWatch (h : s.Unharmed) :
    (s.stopWatch).Unharmed ↔ s.HarmlessGuard E .stopWatch := by
  show _ ↔ ∀ w, s.current = some w → w.isAlive = false → w.torrentPaused = true →
    isEmpty w.torrentFile = false → s.Spares (w.torrentFile.getD "")
  cases hcurrent : s.current with
  | none =>
    have hstop : s.stopWatch = { s with watchTask := none } := by
      rw [stopWatch, hcurrent]
      cases s.watchTask <;> rfl
    rw [hstop]
    exact iff_of_true ((unharmed_of_eq rfl rfl rfl).mpr h) fun w hw => by cases hw
  | some w =>
    obtain ⟨i, htask, -⟩ := Option.bind_eq_some_iff.mp hcurrent
    -- only a watch that has ended lets the pause through
    have hstop : s.stopWatch = { (s.interrupt i).onTaskStopped w with watchTask := none } := by
      rw [stopWatch, htask, hcurrent]
    have hbefore : (s.interrupt i).Unharmed := (unharmed_of_eq rfl rfl rfl).mpr h
    obtain ⟨tasks, heq⟩ := onTaskStopped_eq (s.interrupt i) w
    have htable : ((s.interrupt i).onTaskStopped w).table = (s.interrupt i).table := by rw [heq]
    have hheld : ((s.interrupt i).onTaskStopped w).held = (s.interrupt i).held := by rw [heq]
    rw [hstop]
    refine Iff.trans (unharmed_onTaskStopped hbefore htable hheld rfl) ?_
    constructor
    · rintro hall w' hw' hdead hpaused hfile
      obtain rfl := Option.some.inj hw'
      exact hall hpaused hfile ((isWatchingNow_interrupt htask hcurrent hfile).trans hdead)
    · intro hall hpaused hfile hdead
      exact hall w rfl ((isWatchingNow_interrupt htask hcurrent hfile).symm.trans hdead) hpaused
        hfile

/-! ### Rows that a call writes -/

/-- A row that is new is no download that has run. -/
theorem unharmed_downloadsAdd {info : DownloadInfo} {torrentName : Option String}
    {files : MetadataFiles} (hids : ∀ id ∈ s.held, id < s.table.nextId) (h : s.Unharmed) :
    (s.downloadsAdd E info torrentName files).Unharmed ↔
      s.HarmlessGuard E (.downloadsAdd info torrentName files) := by
  show _ ↔ (s.lastTorrent ≠ "" → s.IsLast info.torrentUrl info.torrentMagnet →
    s.Spares s.lastTorrent)
  have hrows : ∀ P : DownloadRow → Prop,
      (s.downloadsAdd E info torrentName files).Guarded P ↔ s.Guarded P := by
    intro P
    constructor
    · intro hall r hr hstate hheld
      exact hall r (List.mem_append_left _ hr) hstate hheld
    · intro hall r hr hstate hheld
      rcases List.mem_append.mp hr with hold | hnew
      · exact hall r hold hstate hheld
      · -- the id of the new row is above all that are marked
        rw [List.mem_singleton.mp hnew] at hheld
        exact absurd (hids _ hheld) (lt_irrefl _)
  rw [Unharmed, hrows]
  -- the torrent watched last is removed if it is the one that is added
  by_cases hadopts : s.lastTorrent ≠ "" ∧ s.IsLast info.torrentUrl info.torrentMagnet
  · have hsession : (s.downloadsAdd E info torrentName files).session =
        s.session.removeTorrent s.lastTorrent := if_pos hadopts
    rw [hsession]
    refine Iff.trans (guarded_congr fun _ _ _ _ => LiveSession.holds_removeTorrent) ?_
    exact ⟨fun hspares _ _ => hspares, fun hall => hall hadopts.1 hadopts.2⟩
  · have hsession : (s.downloadsAdd E info torrentName files).session = s.session :=
      if_neg hadopts
    rw [hsession]
    exact iff_of_true h fun hne hlast => absurd ⟨hne, hlast⟩ hadopts

/-- The rows behind a pause. -/
theorem guarded_downloadsPause {r : DownloadRow} {P : DownloadRow → Prop} (hr : r ∈ s.table.rows) :
    (s.downloadsPause r).Guarded P ↔ s.Guarded fun r' => r'.id ≠ r.id → P r' := by
  obtain ⟨tasks, heq⟩ := pauseNamed_eq s (s.found r)
  have hheld : (s.downloadsPause r).held = s.held := by
    rw [downloadsPause, heq]
  have htable : (s.downloadsPause r).table =
      if r.state = TorrentState.DOWNLOADING then
        s.table.update { populate r with state := TorrentState.PAUSED }
      else s.table := by
    rw [downloadsPause, heq]
    by_cases hstate : r.state = TorrentState.DOWNLOADING
    · simp [DownloadsClient.downloadsPause, populate, hstate]
    · simp [DownloadsClient.downloadsPause, populate, hstate]
  rw [Guarded, Guarded, hheld, htable]
  split_ifs with hdownloading
  · constructor
    · intro hall r' hr' hstate hmem hid
      exact hall r' (DownloadsTable.mem_update_of_ne hr' hid) hstate hmem
    · intro hall r' hr' hstate hmem
      obtain ⟨r₀, hr₀, ⟨-, rfl⟩ | ⟨hid, rfl⟩⟩ := DownloadsTable.mem_update hr'
      · -- the written row is paused, so it is no download that could be harmed
        have hpaused : TorrentState.PAUSED = TorrentState.DOWNLOADING := hstate
        exact absurd hpaused (by decide)
      · exact hall r' hr₀ hstate hmem hid
  · refine forall₂_congr fun r' hr' => forall₂_congr fun hstate hmem =>
      ⟨fun hP _ => hP, fun hP => ?_⟩
    refine hP fun hid => hdownloading ?_
    rw [← DownloadsTable.eq_of_id_eq hr' hr hid]
    exact hstate

/-- A download that is paused is not held to run; another one that shares its torrent is. -/
theorem unharmed_downloadsPause {id : ℤ} {r : DownloadRow} (hfind : s.table.find id = some r)
    (h : s.Unharmed) :
    (s.downloadsPause r).Unharmed ↔ s.HarmlessGuard E (.downloadsPause id) := by
  obtain ⟨hr, rfl⟩ := DownloadsTable.find_eq_some.mp hfind
  have hguard : s.HarmlessGuard E (.downloadsPause r.id) ↔ (isEmpty (s.found r) = false →
      s.isWatchingNow ((s.found r).getD "") = false → s.Guarded fun r' => r'.id ≠ r.id →
        s.session.spares ((s.found r).getD "") r' = true) := by
    constructor
    · exact fun hall => hall r hfind
    · intro hall r' hfind'
      obtain rfl := Option.some.inj (hfind.symm.trans hfind')
      exact hall
  obtain ⟨tasks, heq⟩ := pauseNamed_eq s (s.found r)
  have hsession : (s.downloadsPause r).session =
      if isEmpty (s.found r) = false ∧ s.isWatchingNow ((s.found r).getD "") = false then
        s.session.pauseTorrent ((s.found r).getD "")
      else s.session := by
    rw [downloadsPause, heq]
  rw [Unharmed, guarded_downloadsPause hr, hguard, hsession]
  -- the row is written in any case; the session is called only where a key is found
  by_cases hpause : isEmpty (s.found r) = false ∧
      s.isWatchingNow ((s.found r).getD "") = false
  · rw [if_pos hpause]
    refine Iff.trans (guarded_congr fun _ _ _ _ => imp_congr_right fun _ =>
      LiveSession.holds_pauseTorrent) ?_
    exact ⟨fun hspares _ _ => hspares, fun hall => hall hpause.1 hpause.2⟩
  · rw [if_neg hpause]
    exact iff_of_true (fun r' hr' hstate hmem _ => h r' hr' hstate hmem)
      fun hfull hwatch => absurd ⟨hfull, hwatch⟩ hpause

/-- What is said of the value there is. -/
theorem forall_eq_some_iff {α : Type*} {o : Option α} {a : α} {P : α → Prop} (h : o = some a) :
    (∀ b, o = some b → P b) ↔ P a := by
  subst h
  simp

/-- The form in which a guard names the loader of a watch or of an add. -/
theorem forall_loader_iff {α β γ δ : Type*} {o : Option α} {a : α} {f : α → β} {g : γ → β} {c : γ}
    (hg : ∀ c c', g c = g c' → c = c') (ho : o = some a) (hf : f a = g c) {P : α → γ → δ → Prop} :
    (∀ a c key, o = some a → f a = g c → P a c key) ↔ ∀ key, P a c key := by
  constructor
  · exact fun h key => h a c key ho hf
  · intro h a' c' key ho' hf'
    obtain rfl := Option.some.inj (ho.symm.trans ho')
    obtain rfl := hg _ _ (hf.symm.trans hf')
    exact h key

/-- A resumption stops nothing; a download that has run and is resumed has to run again. -/
theorem unharmed_downloadsResume {id : ℤ} {r : DownloadRow} (hfind : s.table.find id = some r)
    (h : s.Unharmed) :
    (s.downloadsResume r).Unharmed ↔ s.HarmlessGuard E (.downloadsResume id) := by
  refine Iff.trans ?_ (forall_eq_some_iff hfind).symm
  obtain ⟨hr, rfl⟩ := DownloadsTable.find_eq_some.mp hfind
  -- whatever runs goes on, so only the row itself can go wrong
  have hkeeps : ∀ r', s.session.holds r' = true →
      (s.downloadsResume r).session.holds r' = true := by
    intro r' hholds
    rw [downloadsResume]
    split_ifs
    · exact hholds
    · exact LiveSession.holds_resumeTorrent hholds
  by_cases hpaused : r.state = TorrentState.PAUSED
  · have htable : (s.downloadsResume r).table =
        s.table.update { populate r with state := TorrentState.DOWNLOADING } := by
      simp [downloadsResume, DownloadsClient.downloadsResume, populate, hpaused]
    rw [Unharmed, Guarded, htable]
    constructor
    · intro hall _ hmem
      have hwritten : r.put { populate r with state := TorrentState.DOWNLOADING } ∈
          (s.table.update { populate r with state := TorrentState.DOWNLOADING }).rows :=
        DownloadsTable.put_mem_update hr rfl
      -- the row behind the write has the keys and the directory it had
      have hruns := hall _ hwritten rfl hmem
      exact LiveSession.holds_resumed.mp hruns
    · intro hresumes r' hr' hstate hmem
      obtain ⟨r₀, hr₀, ⟨hid, rfl⟩ | ⟨-, rfl⟩⟩ := DownloadsTable.mem_update hr'
      · obtain rfl := DownloadsTable.eq_of_id_eq hr₀ hr hid
        exact LiveSession.holds_resumed.mpr (hresumes hpaused hmem)
      · exact hkeeps r' (h r' hr₀ hstate hmem)
  · have htable : (s.downloadsResume r).table = s.table := by
      simp [downloadsResume, DownloadsClient.downloadsResume, populate, hpaused]
    rw [Unharmed, Guarded, htable]
    exact iff_of_true (fun r' hr' hstate hmem => hkeeps r' (h r' hr' hstate hmem))
      fun hstate => absurd hstate hpaused

/-! ### The threads of watches and of adds -/

/-- A step of `addTorrent`. -/
theorem unharmed_loader_advance {loader loader' : TorrentLoader} {request : TorrentLoader.Request}
    {resumed : Option String} {accepted : Option Bool} {session : LiveSession} (h : s.Unharmed)
    (hstep : loader.advance (LiveSession.service E.hash resumed) request accepted s.session =
      some (loader', session))
    (htable : s'.table = s.table) (hheld : s'.held = s.held) (hsession : s'.session = session) :
    s'.Unharmed ↔ ∀ key, loader.nextKey = some key → s.session.adds key accepted = true →
      s.Guarded fun r => s.session.stays E.hash resumed key request.savePath r = true := by
  have hcall := TorrentLoader.advance_session hstep
  cases hkey : loader.nextKey with
  | none =>
    rw [hkey] at hcall
    refine iff_of_true ((unharmed_of_eq htable hheld (hsession.trans hcall)).mpr h) ?_
    intro key hsome
    cases hsome
  | some key =>
    rw [hkey] at hcall
    refine (unharmed_added h htable hheld (hsession.trans hcall)).trans ?_
    exact (forall_eq_some_iff (P := fun key => s.session.adds key accepted = true →
      s.Guarded fun r => s.session.stays E.hash resumed key request.savePath r = true) rfl).symm

/-- The end of a wait of `addTorrent`. -/
theorem unharmed_loader_timeOut {loader loader' : TorrentLoader} {resumed : Option String}
    {session : LiveSession}
    (hstep : loader.timeOut (LiveSession.service E.hash resumed) s.session =
      some (loader', session))
    (htable : s'.table = s.table) (hheld : s'.held = s.held) (hsession : s'.session = session) :
    s'.Unharmed ↔ ∀ key, loader.waitsFor = some key → s.Spares key := by
  obtain ⟨key, hkey, hcall⟩ := TorrentLoader.timeOut_eq hstep
  rw [unharmed_removed htable hheld (hsession.trans hcall)]
  exact (forall_eq_some_iff hkey).symm

/-- What the thread of a watch does to the session: a step of `addTorrent`, a resumption or
    nothing. -/
theorem advance_cases {i : ℕ} {w : StoredWatch} {accepted : Option Bool}
    (hstep : s.advance E i w accepted = some s') : s'.table = s.table ∧ s'.held = s.held ∧
      ((∃ loader loader', w.phase = .loading loader ∧
          loader.advance (LiveSession.service E.hash w.resumed) w.request accepted s.session =
            some (loader', s'.session)) ∨
        (∀ loader, w.phase = .loading loader → loader.nextKey = none) ∧
          (s'.session = s.session ∨
            s'.session = s.session.resumeTorrent (w.torrentFile.getD ""))) := by
  cases hphase : w.phase with
  | loading loader =>
    -- `addTorrent` has answered, or is in one of its own steps
    by_cases hdone : ∃ key, loader = .done key
    · obtain ⟨key, rfl⟩ := hdone
      have hnext : ∀ loader, StoredWatchPhase.loading (.done key) = .loading loader →
          loader.nextKey = none := by
        rintro loader ⟨⟩
        rfl
      simp only [advance, hphase] at hstep
      cases hempty : isEmpty key with
      | true =>
        rw [if_pos hempty] at hstep
        cases hstep
        exact ⟨rfl, rfl, .inr ⟨hnext, .inl rfl⟩⟩
      | false =>
        rw [if_neg (by simp [hempty])] at hstep
        cases hstep
        exact ⟨rfl, rfl, .inr ⟨hnext, .inl rfl⟩⟩
    · cases loader with
      | done key => exact absurd ⟨key, rfl⟩ hdone
      | begin | adding keys | waiting key keys =>
        simp only [advance, hphase] at hstep
        obtain ⟨⟨loader', session⟩, hadvance, rfl⟩ := Option.map_eq_some_iff.mp hstep
        exact ⟨rfl, rfl, .inl ⟨_, loader', rfl, hadvance⟩⟩
  | loaded =>
    simp only [advance, hphase] at hstep
    cases hstep
    exact ⟨rfl, rfl, .inr ⟨fun loader hloader => (by cases hloader), .inl rfl⟩⟩
  | asked paused =>
    simp only [advance, hphase] at hstep
    cases hstep
    refine ⟨rfl, rfl, .inr ⟨fun loader hloader => (by cases hloader), ?_⟩⟩
    cases paused with
    | true => exact .inr rfl
    | false => exact .inl rfl
  | resumed paused =>
    simp only [advance, hphase] at hstep
    cases hstep
    exact ⟨rfl, rfl, .inr ⟨fun loader hloader => (by cases hloader), .inl rfl⟩⟩
  | running | ended =>
    simp only [advance, hphase] at hstep
    cases hstep

/-- A step of the thread of a watch harms only by the key that it adds. -/
theorem unharmed_advance {i : ℕ} {w : StoredWatch} {accepted : Option Bool}
    (hw : s.tasks[i]? = some w) (h : s.Unharmed) (hstep : s.advance E i w accepted = some s') :
    s'.Unharmed ↔ s.HarmlessGuard E (.advance i accepted) := by
  obtain ⟨htable, hheld, ⟨loader, loader', hphase, hloader⟩ | ⟨hnext, hsession⟩⟩ :=
    advance_cases hstep
  · rw [unharmed_loader_advance h hloader htable hheld rfl]
    rw [HarmlessGuard, forall_loader_iff (fun _ _ => StoredWatchPhase.loading.inj) hw hphase]
  · -- no key is added, so the guard asks for nothing
    refine iff_of_true ?_ ?_
    · rcases hsession with hsession | hsession
      · exact (unharmed_of_eq htable hheld hsession).mpr h
      · rw [Unharmed, Guarded, htable, hheld, hsession]
        exact fun r hr hstate hmem => LiveSession.holds_resumeTorrent (h r hr hstate hmem)
    · intro w' loader key hw' hphase hkey
      obtain rfl := Option.some.inj (hw.symm.trans hw')
      rw [hnext loader hphase] at hkey
      cases hkey

/-- The end of a watch by an exception: a pause, and a removal where the watch is no download's. -/
theorem unharmed_fail {i : ℕ} {w : StoredWatch} (hw : s.tasks[i]? = some w) (h : s.Unharmed) :
    (s.fail i w).Unharmed ↔ s.HarmlessGuard E (.fail i) := by
  refine Iff.trans ?_ (forall_eq_some_iff hw).symm
  obtain ⟨tasks, heq⟩ := onTaskStopped_eq s w
  have htable : (s.fail i w).table = s.table := by
    rw [fail, heq]
  have hheld : (s.fail i w).held = s.held := by
    rw [fail, heq]
  have hsession : (s.fail i w).session =
      if w.isDownloads = false ∧ isEmpty w.torrentFile = false then
        (s.onTaskStopped w).session.removeTorrent (w.torrentFile.getD "")
      else (s.onTaskStopped w).session := by
    rw [fail, heq]
    simp
  -- the pause comes first and the removal second; either is a call to the one key
  cases hfile : isEmpty w.torrentFile with
  | true =>
    rw [if_neg (by simp [hfile]), heq, if_neg (by simp [hfile])] at hsession
    exact iff_of_true ((unharmed_of_eq htable hheld hsession).mpr h) (by simp)
  | false =>
    by_cases hstop : w.torrentPaused = true ∧ s.isWatchingNow (w.torrentFile.getD "") = false
    · have hpause : (s.onTaskStopped w).session =
          s.session.pauseTorrent (w.torrentFile.getD "") := by
        rw [heq, if_pos ⟨hstop.1, hfile, hstop.2⟩]
      -- a removal behind the pause spares no more than the pause does
      have hspares : (s.fail i w).Unharmed ↔ s.Spares (w.torrentFile.getD "") := by
        rw [hpause] at hsession
        split_ifs at hsession with hremoves
        · rw [Unharmed, Guarded, htable, hheld, hsession]
          exact guarded_congr (s := s) fun _ _ _ _ =>
            LiveSession.holds_removeTorrent.trans LiveSession.spares_pauseTorrent
        · exact unharmed_paused htable hheld hsession
      rw [hspares]
      exact ⟨fun hall _ _ => hall, fun hall => hall rfl (.inr hstop)⟩
    · have hkept : (s.onTaskStopped w).session = s.session := by
        rw [heq, if_neg (by rintro ⟨hpaused, -, hwatch⟩; exact hstop ⟨hpaused, hwatch⟩)]
      rw [hkept] at hsession
      split_ifs at hsession with hremoves
      · rw [unharmed_removed htable hheld hsession]
        exact ⟨fun hall _ _ => hall, fun hall => hall rfl (.inl hremoves.1)⟩
      · refine iff_of_true ((unharmed_of_eq htable hheld hsession).mpr h) ?_
        rintro - (hdetails | hpaused)
        · exact absurd ⟨hdetails, hfile⟩ hremoves
        · exact absurd hpaused hstop

/-! ### The end of an add -/

/-- A metadata path that is chosen is one more key of a row. -/
theorem mem_keys_put_loaded {torrentName : Option String} {files : MetadataFiles}
    {video : FileEntry} {r : DownloadRow} {k : String} (hk : k ∈ r.keys) :
    k ∈ (r.put (AddToDownloadsThread.loaded torrentName files video (populate r)).1).keys := by
  obtain ⟨size, hinfo⟩ :=
    AddToDownloadsThread.loaded_fst_eq torrentName files video (populate r)
  rw [hinfo]
  rw [DownloadRow.mem_keys] at hk ⊢
  refine ⟨?_, hk.2⟩
  rcases hk.1 with hpath | hrest
  · -- a path that is there already is kept
    have hfull : isEmpty (populate r).torrentFilePath = false := by
      show isEmpty r.torrentFilePath = false
      rw [← hpath]
      exact decide_eq_false hk.2
    exact .inl (hpath.trans (metadataPath_of_path torrentName hfull).symm)
  · exact .inr hrest

/-- A download behind the thread was one before, with the keys it had. -/
theorem mem_run {c : AddCircumstances} {info : DownloadInfo} {t : DownloadsTable} {r : DownloadRow}
    (hr : r ∈ (AddToDownloadsThread.run c info t).rows)
    (hstate : r.state = TorrentState.DOWNLOADING) :
    ∃ r₀ ∈ t.rows, r.id = r₀.id ∧ r₀.state = TorrentState.DOWNLOADING ∧
      r.directory = r₀.directory ∧ ∀ k ∈ r₀.keys, k ∈ r.keys := by
  have hsame : r ∈ t.rows → ∃ r₀ ∈ t.rows, r.id = r₀.id ∧ r₀.state = TorrentState.DOWNLOADING ∧
      r.directory = r₀.directory ∧ ∀ k ∈ r₀.keys, k ∈ r.keys :=
    fun hmem => ⟨r, hmem, rfl, hstate, rfl, fun _ hk => hk⟩
  unfold AddToDownloadsThread.run at hr
  cases hloading : c.loading with
  | failed =>
    -- the thread has its own row in error
    simp only [hloading] at hr
    obtain ⟨r₀, hr₀, ⟨-, rfl⟩ | ⟨-, rfl⟩⟩ := DownloadsTable.mem_update hr
    · have herror : TorrentState.ERROR = TorrentState.DOWNLOADING := hstate
      exact absurd herror (by decide)
    · exact hsame hr₀
  | loaded torrentName files =>
    simp only [hloading] at hr
    cases hfile : selectFile files info.fileName with
    | none =>
      simp only [hfile] at hr
      -- the row without files is deleted
      exact hsame (List.mem_of_mem_filter hr)
    | some entry =>
      simp only [hfile] at hr
      cases hfind : t.rows.find? (urlSelects c.selectsOther info.torrentUrl) with
      | none =>
        simp only [hfind] at hr
        exact hsame hr
      | some found =>
        simp only [hfind] at hr
        obtain ⟨size, hinfo⟩ :=
          AddToDownloadsThread.loaded_fst_eq torrentName c.files entry.2 (populate found)
        split_ifs at hr
        · obtain ⟨r₀, hr₀, ⟨hfound, rfl⟩ | ⟨-, rfl⟩⟩ := DownloadsTable.mem_update hr
          · -- the row that was found, written back
            have hid₀ : r₀.id = found.id := by
              rw [hfound, hinfo]
              rfl
            obtain rfl := DownloadsTable.eq_of_id_eq hr₀ (List.mem_of_find?_eq_some hfind) hid₀
            refine ⟨r₀, hr₀, rfl, ?_, ?_, fun k hk => mem_keys_put_loaded hk⟩
            · rw [DownloadRow.put_state, hinfo] at hstate
              exact hstate
            · show (AddToDownloadsThread.loaded torrentName c.files entry.2
                (populate r₀)).1.directory = r₀.directory
              rw [hinfo]
              rfl
          · exact hsame hr₀
        · exact hsame hr

/-- Where the row that is found is paused, the downloads stay as they are. -/
theorem mem_run_of_findsPaused {c : AddCircumstances} {info : DownloadInfo} {t : DownloadsTable}
    {r : DownloadRow} (hpaused : findsPaused c info t = true)
    (hstate : r.state = TorrentState.DOWNLOADING) :
    r ∈ (AddToDownloadsThread.run c info t).rows ↔ r ∈ t.rows := by
  unfold findsPaused at hpaused
  unfold AddToDownloadsThread.run
  cases hloading : c.loading with
  | failed => simp [hloading] at hpaused
  | loaded torrentName files =>
    simp only [hloading, Bool.and_eq_true] at hpaused
    obtain ⟨entry, hfile⟩ := Option.isSome_iff_exists.mp hpaused.1
    simp only [hfile]
    cases hfind : t.rows.find? (urlSelects c.selectsOther info.torrentUrl) with
    | none => exact Iff.rfl
    | some found =>
      simp only [hfind, Option.any_some, decide_eq_true_eq] at hpaused
      obtain ⟨size, hinfo⟩ :=
        AddToDownloadsThread.loaded_fst_eq torrentName c.files entry.2 (populate found)
      dsimp only
      split_ifs
      · -- the row that is written is the paused one, ids being unique
        have hnot : ∀ r' ∈ t.rows, r'.id = found.id → r'.state ≠ TorrentState.DOWNLOADING := by
          intro r' hr' hid hdownloading
          obtain rfl := DownloadsTable.eq_of_id_eq hr' (List.mem_of_find?_eq_some hfind) hid
          rw [hpaused.2] at hdownloading
          exact absurd hdownloading (by decide)
        constructor
        · intro hr
          obtain ⟨r₀, hr₀, ⟨-, rfl⟩ | ⟨-, rfl⟩⟩ := DownloadsTable.mem_update hr
          · rw [DownloadRow.put_state, hinfo] at hstate
            have hdownloading : found.state = TorrentState.DOWNLOADING := hstate
            rw [hpaused.2] at hdownloading
            exact absurd hdownloading (by decide)
          · exact hr₀
        · intro hr
          refine DownloadsTable.mem_update_of_ne hr fun hid => hnot r hr ?_ hstate
          rw [hid, hinfo]
          rfl
      · exact Iff.rfl

/-- The rows that the thread writes keep their directory and their keys. -/
theorem unharmed_writeAdd {j : ℕ} {a : AddThread} {key : Option String} {end' : AddEnd}
    (h : s.Unharmed) : (s.writeAdd E j a key end').Unharmed := by
  intro r hr hstate hmem
  obtain ⟨r₀, hr₀, hid, hstate₀, hdirectory, hkeys⟩ := mem_run hr hstate
  obtain ⟨k, hk, hruns⟩ := LiveSession.holds_iff.mp (h r₀ hr₀ hstate₀ (hid ▸ hmem))
  refine LiveSession.holds_iff.mpr ⟨k, hkeys k hk, ?_⟩
  rw [hdirectory]
  exact hruns

/-- Where the row that is found is paused, the downloads are the same rows before and behind the
    write. -/
theorem spares_writeAdd {j : ℕ} {a : AddThread} {key : Option String} {end' : AddEnd} {k : String}
    (hpaused : findsPaused (addCircumstances E end' key) a.info s.table = true) :
    (s.writeAdd E j a key end').Spares k ↔ s.Spares k := by
  constructor
  · intro hall r hr hstate hmem
    exact hall r ((mem_run_of_findsPaused hpaused hstate).mpr hr) hstate hmem
  · intro hall r hr hstate hmem
    exact hall r ((mem_run_of_findsPaused hpaused hstate).mp hr) hstate hmem

/-- The end of an add pauses the torrent of a row that is paused. -/
theorem unharmed_finishAdd {j : ℕ} {a : AddThread} {key : Option String} {end' : AddEnd}
    (ha : s.adds[j]? = some a) (hloader : a.loader = some (.done key)) (h : s.Unharmed) :
    (s.finishAdd E j a key end').Unharmed ↔ s.HarmlessGuard E (.finishAdd j end') := by
  have hguard : s.HarmlessGuard E (.finishAdd j end') ↔
      (findsPaused (addCircumstances E end' key) a.info s.table = true →
        s.isWatchingNow (key.getD "") = false → s.Spares (key.getD "")) := by
    constructor
    · exact fun hall => hall a key ha hloader
    · intro hall a' key' ha' hloader'
      obtain rfl := Option.some.inj (ha.symm.trans ha')
      rw [hloader] at hloader'
      cases hloader'
      exact hall
  rw [hguard, finishAdd]
  split_ifs with hpaused
  · -- the pause of a row that is found paused may reach another one
    rw [unharmed_pauseTorrent (unharmed_writeAdd h), spares_writeAdd hpaused]
    exact ⟨fun hall _ => hall, fun hall => hall hpaused⟩
  · exact iff_of_true (unharmed_writeAdd h) fun hfinds => absurd hfinds hpaused

/-! ### Runs of the application -/

/-- What each event leaves of the downloads that run. -/
theorem unharmed_act {e : Event} (hids : ∀ id ∈ s.held, id < s.table.nextId) (h : s.Unharmed)
    (hstep : s.act E e = some s') : s'.Unharmed ↔ s.HarmlessGuard E e := by
  cases e with
  | addWatch url magnet =>
    cases hstep
    exact unharmed_addWatch h
  | startDetails url magnet =>
    cases hstep
    exact iff_of_true (unharmed_startWatch h) trivial
  | startDownload id =>
    obtain ⟨r, -, rfl⟩ := Option.map_eq_some_iff.mp hstep
    exact iff_of_true (unharmed_startWatch h) trivial
  | stopWatch =>
    cases hstep
    exact unharmed_stopWatch h
  | downloadsAdd info torrentName files =>
    cases hstep
    exact unharmed_downloadsAdd hids h
  | downloadsPause id =>
    obtain ⟨r, hfind, rfl⟩ := Option.map_eq_some_iff.mp hstep
    exact unharmed_downloadsPause hfind h
  | downloadsResume id =>
    obtain ⟨r, hfind, rfl⟩ := Option.map_eq_some_iff.mp hstep
    exact unharmed_downloadsResume hfind h
  | advance i accepted =>
    obtain ⟨w, hw, hadvance⟩ := Option.bind_eq_some_iff.mp hstep
    exact unharmed_advance hw h hadvance
  | timeOut i =>
    obtain ⟨w, hw, htimeOut⟩ := Option.bind_eq_some_iff.mp hstep
    split at htimeOut
    · next loader hphase =>
      obtain ⟨⟨loader', session⟩, hloader, rfl⟩ := Option.map_eq_some_iff.mp htimeOut
      refine Iff.trans (unharmed_loader_timeOut hloader rfl rfl rfl) ?_
      -- the loader that gives up removes the torrent it had added
      rw [HarmlessGuard, forall_loader_iff (fun _ _ => StoredWatchPhase.loading.inj) hw hphase]
    · cases htimeOut
  | interrupt i =>
    obtain ⟨w, hw, hinterrupt⟩ := Option.bind_eq_some_iff.mp hstep
    split at hinterrupt
    · next key keys hphase hstopped =>
      cases hinterrupt
      -- the interrupted loader of a stopped task removes the key it waits for
      refine Iff.trans (unharmed_removed (s := s) rfl rfl rfl) ?_
      refine Iff.trans ?_
        (forall_loader_iff (fun _ _ => StoredWatchPhase.loading.inj) hw hphase).symm
      exact (forall_eq_some_iff rfl).symm
    · cases hinterrupt
  | fail i =>
    obtain ⟨w, hw, hfail⟩ := Option.bind_eq_some_iff.mp hstep
    split_ifs at hfail
    cases hfail
    exact unharmed_fail hw h
  | finish i =>
    obtain ⟨w, hw, hfinish⟩ := Option.bind_eq_some_iff.mp hstep
    split_ifs at hfinish
    cases hfinish
    exact iff_of_true ((unharmed_of_eq (s := s) rfl rfl rfl).mpr h) trivial
  | advanceAdd j accepted =>
    obtain ⟨a, ha, hadvance⟩ := Option.bind_eq_some_iff.mp hstep
    obtain ⟨loader, hloader, hmap⟩ := Option.bind_eq_some_iff.mp hadvance
    obtain ⟨⟨loader', session⟩, hcall, rfl⟩ := Option.map_eq_some_iff.mp hmap
    refine Iff.trans (unharmed_loader_advance h hcall rfl rfl rfl) ?_
    rw [HarmlessGuard, forall_loader_iff (fun _ _ => Option.some.inj) ha hloader]
  | timeOutAdd j =>
    obtain ⟨a, ha, htimeOut⟩ := Option.bind_eq_some_iff.mp hstep
    obtain ⟨loader, hloader, hmap⟩ := Option.bind_eq_some_iff.mp htimeOut
    obtain ⟨⟨loader', session⟩, hcall, rfl⟩ := Option.map_eq_some_iff.mp hmap
    refine Iff.trans (unharmed_loader_timeOut hcall rfl rfl rfl) ?_
    rw [HarmlessGuard, forall_loader_iff (fun _ _ => Option.some.inj) ha hloader]
  | finishAdd j end' =>
    obtain ⟨a, ha, hfinish⟩ := Option.bind_eq_some_iff.mp hstep
    split at hfinish
    · next key hloader =>
      cases hfinish
      exact unharmed_finishAdd ha hloader h
    · cases hfinish
  | metadata handle =>
    cases hstep
    -- metadata that come leave the torrent of the row in its place
    refine iff_of_true (fun r hr hstate hmem => ?_) trivial
    exact LiveSession.holds_loadMetadata (h r hr hstate hmem)

end WatchedDownloads

end PopcornTime.Android
